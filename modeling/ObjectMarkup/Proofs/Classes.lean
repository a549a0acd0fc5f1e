import ObjectMarkup.Proofs.Declaring
import ObjectMarkup.Proofs.Ledger
import ObjectMarkup.Proofs.Placing
import ObjectMarkup.Proofs.Typing

/-!
# Classes of instances

A type is declared for one class of the host, and its accessors and its factory refuse the instances
of all others. Such instances are in graphs: a converter may make them under the name of any type.
But what a run writes into, and what it asks for a product, it made itself for an element, from the
constructor of the type, and an accessor leaves an instance of its class. So no accessor that a run
calls refuses (`Compiler.calls_in_class`).

The journal tells of each call: a write is one of an accessor, and a closed element one of the
factory, if its type has one. A call that is refused ends the run with a failure of its own.
-/

set_option autoImplicit false

namespace ObjectMarkup

open Operation

variable {H : Host}

/-! ### Types and their classes -/

/-- The type was put together from declarations about a class. -/
def ElementType.IsDeclared (type : ElementType H) : Prop :=
  ∃ (α : Type) (v : View H α) (ds : List (Declaration H α)), declare v type.key ds = .ok type

/-- The instance is of the class that the type was declared for, whichever that may be. -/
def Instance.IsOf (o : Instance H) (type : ElementType H) : Prop :=
  ∀ (α : Type) (v : View H α) (ds : List (Declaration H α)),
    ElementType.declare v type.key ds = .ok type → (v.unwrap o).isSome = true

namespace ElementType

variable {type : ElementType H} {o o' : Instance H} {property : Property H}

/-- A type that is assembled from declarations without repetitions is declared. -/
theorem isDeclared_assemble {α : Type} (v : View H α) (key : TypeName) (ds : List (Declaration H α))
    (h : Declaration.repeated? v ds = none) : (assemble v key ds).IsDeclared := by
  refine ⟨α, v, ds, ?_⟩
  unfold declare
  rw [h]
  rfl

/-- Boxes are declared. -/
theorem isDeclared_of_mem_boxes (h : type ∈ boxes) : type.IsDeclared := by
  obtain ⟨short, content, empty, rfl⟩ := exists_boxed_of_mem_boxes h
  refine isDeclared_assemble .box ⟨metadataSpace, short⟩ _ ?_
  rfl

/-- The types of the library are declared. -/
theorem isDeclared_of_mem_builtIn (h : type ∈ (Vocabulary.builtIn : Vocabulary H).types) :
    type.IsDeclared := by
  rcases List.mem_append.1 h with hBox | hExtension
  · exact isDeclared_of_mem_boxes hBox
  · simp only [builtInExtensions, List.mem_cons, List.not_mem_nil, or_false] at hExtension
    have hOne (name : String) (e : Extension H) : (builtInExtension name e).IsDeclared := by
      refine isDeclared_assemble .box ⟨metadataSpace, name ++ "Extension"⟩ _ ?_
      rfl
    rcases hExtension with rfl | rfl | rfl <;> exact hOne _ _

/-- A constructor makes instances of the class. -/
theorem isOf_of_fresh (h : type.fresh = some o) : o.IsOf type := by
  intro α v ds hDeclare
  have hFresh := congrArg fresh (eq_assemble_of_declare hDeclare)
  rw [h] at hFresh
  obtain ⟨a, -, rfl⟩ := Option.map_eq_some_iff.1 hFresh.symm
  rw [v.unwrap_wrap]
  rfl

/-- An accessor leaves an instance of the class. -/
theorem isOf_of_put (hMem : property ∈ type.properties) {key : Option Value} {value : Value}
    (h : property.store.put key value o = some o') : o'.IsOf type := by
  intro α v ds hDeclare
  rw [congrArg properties (eq_assemble_of_declare hDeclare)] at hMem
  obtain ⟨d, -, hDeclares⟩ := List.mem_filterMap.1 hMem
  have hWrapped : ∃ a, o' = v.wrap a := by
    cases d <;> cases hDeclares
    case map name keyType type insert =>
      obtain ⟨k, -, hInsert⟩ := Option.bind_eq_some_iff.1 h
      obtain ⟨a, -, rfl⟩ := Option.map_eq_some_iff.1 hInsert
      exact ⟨_, rfl⟩
    all_goals
      obtain ⟨a, -, rfl⟩ := Option.map_eq_some_iff.1 h
      exact ⟨_, rfl⟩
  obtain ⟨a, rfl⟩ := hWrapped
  rw [v.unwrap_wrap]
  rfl

/-- The factory of a type takes all instances of the class. -/
theorem exists_produce (hDeclared : type.IsDeclared) (hOf : o.IsOf type)
    (hFactory : type.isFactory = true) : ∃ value, type.produce o = some value := by
  obtain ⟨α, v, ds, hDeclare⟩ := hDeclared
  obtain ⟨a, hUnwrap⟩ := Option.isSome_iff_exists.1 (hOf α v ds hDeclare)
  obtain ⟨product, hProduct⟩ := Option.isSome_iff_exists.1 hFactory
  obtain ⟨produce, -, hSame⟩ := Option.map_eq_some_iff.1
    ((congrArg ElementType.product (eq_assemble_of_declare hDeclare)).symm.trans hProduct)
  refine ⟨produce a, ?_⟩
  rw [ElementType.produce, hProduct, Option.bind_some, ← hSame, Declaration.liftRead, hUnwrap]
  rfl

variable [Hooks H] {vocabulary : Vocabulary H}

/-- An accessor of a type takes all instances of the class, given what the conversions make. -/
theorem exists_put (hDeclared : type.IsDeclared) (hOf : o.IsOf type)
    (hMem : property ∈ type.properties) {value : Value} {w : Write} {g g' : ObjectGraph H}
    (hStores : property.store.Stores vocabulary value g w g') :
    ∃ o', property.store.put w.key w.value o = some o' := by
  obtain ⟨α, v, ds, hDeclare⟩ := hDeclared
  obtain ⟨a, hUnwrap⟩ := Option.isSome_iff_exists.1 (hOf α v ds hDeclare)
  rw [congrArg properties (eq_assemble_of_declare hDeclare)] at hMem
  obtain ⟨d, -, hDeclares⟩ := List.mem_filterMap.1 hMem
  have hLift (act : α → Value → α) :
      ∃ o', Declaration.lift v act o w.value = some o' := by
    rw [Declaration.lift, hUnwrap]
    exact ⟨_, rfl⟩
  cases d <;> cases hDeclares
  case map name keyType type insert =>
    obtain ⟨text, key, g₁, hKey, -⟩ := hStores
    refine ⟨v.wrap (insert a key w.value), ?_⟩
    rw [hKey, Store.put, Option.bind_some, Declaration.liftKeyed, hUnwrap]
    rfl
  all_goals exact hLift _

end ElementType

/-! ### What was called -/

/-- What became of the instance that a type made for an object, by the writes that a journal tells. -/
def ElementType.replay (type : ElementType H) (object : ObjectId) : List Entry → Option (Instance H)
  | [] => type.fresh
  | .wrote w _ :: earlier =>
    if w.object = object then
      (type.replay object earlier).bind fun o =>
        (type.property? w.property).bind fun property => property.store.put w.key w.value o
    else type.replay object earlier
  | _ :: earlier => type.replay object earlier

/-- After the entries of a journal there is an instance in the place of an object that its type made
and its accessors changed, and it is of the class of the type. -/
structure Replayed (g : ObjectGraph H) (journal : List Entry) (object : ObjectId)
    (type : ElementType H) (o : Instance H) : Prop where
  typed : g.type? object = some type
  made : type.replay object journal = some o
  isOf : o.IsOf type

/-- What an entry tells of a call, given the entries before it: it was on an instance of the class of
the type of the object. -/
def Entry.InClass (g : ObjectGraph H) (earlier : List Entry) : Entry → Prop
  | .wrote w _ => ∃ type property o o', Replayed g earlier w.object type o ∧
      type.property? w.property = some property ∧ property.store.put w.key w.value o = some o'
  | .closed object _ value => ∃ type o, Replayed g earlier object type o ∧
      (type.isFactory = true → type.produce o = some value)
  | _ => True

/-- The object that an entry is about. -/
def Entry.subject : Entry → ObjectId
  | .opened object => object
  | .evaluated _ target _ => target.object
  | .wrote w _ => w.object
  | .closed object _ _ => object

/-- All that a journal tells of happened to objects that were made for elements. These are what the
journal says, of the classes of their types, and so they were whenever they were called. -/
structure Classed (g : ObjectGraph H) (journal : List Entry) : Prop where
  opened : ∀ entry ∈ journal, .opened entry.subject ∈ journal
  instances : ∀ object, .opened object ∈ journal →
    ∃ type o, Replayed g journal object type o ∧ g.object? object = some o
  calls : ∀ entry earlier, entry :: earlier <:+ journal → entry.InClass g earlier

namespace ElementType

variable {type : ElementType H} {object : ObjectId} {journal : List Entry}

/-- Only writes into its object change an instance. -/
theorem replay_cons {entry : Entry} (h : entry.write? = none ∨ entry.subject ≠ object) :
    type.replay object (entry :: journal) = type.replay object journal := by
  cases entry with
  | wrote w extent =>
    rcases h with hNone | hOther
    · cases hNone
    · exact if_neg hOther
  | _ => rfl

/-- An instance that nothing was written into is the one that the type made. -/
theorem replay_eq_fresh (h : ∀ entry ∈ journal, entry.subject ≠ object) :
    type.replay object journal = type.fresh := by
  induction journal with
  | nil => rfl
  | cons entry rest ih =>
    obtain ⟨hEntry, hRest⟩ := List.forall_mem_cons.1 h
    rw [replay_cons (.inr hEntry), ih hRest]

end ElementType

variable {g g' : ObjectGraph H} {journal : List Entry}

namespace Replayed

variable {object : ObjectId} {type : ElementType H} {o : Instance H}

/-- What was replayed stays so when the graph has grown. -/
theorem grows (h : Replayed g journal object type o) (hGrows : g.Grows g') :
    Replayed g' journal object type o :=
  ⟨hGrows _ _ h.typed, h.made, h.isOf⟩

/-- An entry that is no write into the object leaves what was replayed. -/
theorem cons (h : Replayed g journal object type o) {entry : Entry}
    (hOther : entry.write? = none ∨ entry.subject ≠ object) :
    Replayed g (entry :: journal) object type o :=
  ⟨h.typed, (ElementType.replay_cons hOther).trans h.made, h.isOf⟩

/-- A write into the object is replayed by its accessor. -/
theorem wrote {w : Write} (h : Replayed g journal w.object type o) {property : Property H}
    {o' : Instance H} (hProperty : type.property? w.property = some property)
    (hPut : property.store.put w.key w.value o = some o') (extent : Nat) :
    Replayed g (.wrote w extent :: journal) w.object type o' where
  typed := h.typed
  made := by
    rw [ElementType.replay, if_pos rfl, h.made, Option.bind_some, hProperty, Option.bind_some, hPut]
  isOf := ElementType.isOf_of_put (List.mem_of_find?_eq_some hProperty) hPut

end Replayed

/-- A call on an instance of its class stays so when the graph has grown. -/
theorem Entry.InClass.grows {entry : Entry} {earlier : List Entry} (h : entry.InClass g earlier)
    (hGrows : g.Grows g') : entry.InClass g' earlier := by
  cases entry with
  | wrote w extent =>
    obtain ⟨type, property, o, o', hOld, hRest⟩ := h
    exact ⟨type, property, o, o', hOld.grows hGrows, hRest⟩
  | closed object id value =>
    obtain ⟨type, o, hOld, hRest⟩ := h
    exact ⟨type, o, hOld.grows hGrows, hRest⟩
  | _ => trivial

namespace Classed

/-- Before anything is made, nothing was called. -/
theorem empty : Classed (.empty : ObjectGraph H) [] where
  opened _ hMem := absurd hMem List.not_mem_nil
  instances _ hMem := absurd hMem List.not_mem_nil
  calls _ _ hSuffix := absurd (List.suffix_nil.1 hSuffix) (List.cons_ne_nil _ _)

/-- If the latest call is in its class, all are. -/
theorem calls_cons (h : Classed g journal) (hGrows : g.Grows g') {entry : Entry}
    (hEntry : entry.InClass g' journal) :
    ∀ other earlier, other :: earlier <:+ entry :: journal → other.InClass g' earlier := by
  intro other earlier hSuffix
  rcases List.suffix_cons_iff.1 hSuffix with hSame | hSuffix
  · cases hSame
    exact hEntry
  · exact (h.calls other earlier hSuffix).grows hGrows

/-- If the latest entry is about an object that was made for an element, all are. -/
theorem opened_cons (h : Classed g journal) {entry : Entry}
    (hEntry : .opened entry.subject ∈ entry :: journal) :
    ∀ other ∈ entry :: journal, .opened other.subject ∈ entry :: journal :=
  List.forall_mem_cons.2 ⟨hEntry, fun other hMem => List.mem_cons_of_mem _ (h.opened other hMem)⟩

/-- Objects that are made besides change nothing. -/
theorem mono (h : Classed g journal) (hExtends : g.Extends g') : Classed g' journal where
  opened := h.opened
  instances object hMem := by
    obtain ⟨type, o, hOld, hObject⟩ := h.instances object hMem
    exact ⟨type, o, hOld.grows hExtends.grows, hExtends.object? hObject⟩
  calls entry earlier hSuffix := (h.calls entry earlier hSuffix).grows hExtends.grows

/-- An element is opened with an instance that its type made. -/
theorem made (h : Classed g journal) {type : ElementType H} {fresh : Instance H}
    (hFresh : type.fresh = some fresh) :
    Classed (g.insert type fresh) (.opened g.nextId :: journal) where
  opened := h.opened_cons (List.mem_cons_self ..)
  instances object hMem := by
    rcases List.mem_cons.1 hMem with hSame | hMem
    · cases hSame
      have hMade : type.replay g.nextId journal = some fresh := by
        rw [ElementType.replay_eq_fresh, hFresh]
        -- Nothing was written into a place that had no object before.
        intro entry hEntry hSame
        obtain ⟨type', o, hOld, -⟩ := h.instances _ (h.opened entry hEntry)
        have hType := hOld.typed
        rw [hSame, ObjectGraph.type?, (g.slot?_eq_none_iff g.nextId).2 (Nat.le_refl g.size)] at hType
        cases hType
      have hSlot := g.slot?_insert_nextId type fresh
      refine ⟨type, fresh, ⟨?_, hMade, ElementType.isOf_of_fresh hFresh⟩, ?_⟩
      · exact congrArg (Option.map Slot.type) hSlot
      · exact congrArg (Option.map Slot.object) hSlot
    · obtain ⟨type', o, hOld, hObject⟩ := h.instances object hMem
      have hExtends : g.Extends (g.insert type fresh) := .insert g type fresh
      exact ⟨type', o, (hOld.grows hExtends.grows).cons (.inl rfl), hExtends.object? hObject⟩
  calls := h.calls_cons (.insert g type fresh) trivial

/-- Something else than a write is done to an object that was made for an element. -/
theorem record (h : Classed g journal) {entry : Entry} (hSubject : .opened entry.subject ∈ journal)
    (hOther : entry.write? = none) (hClass : entry.InClass g journal) :
    Classed g (entry :: journal) where
  opened := h.opened_cons (List.mem_cons_of_mem _ hSubject)
  instances object hMem := by
    have hOld : .opened object ∈ journal := by
      rcases List.mem_cons.1 hMem with rfl | hMem
      · exact hSubject
      · exact hMem
    obtain ⟨type, o, hOld, hObject⟩ := h.instances object hOld
    exact ⟨type, o, hOld.cons (.inl hOther), hObject⟩
  calls := h.calls_cons (.refl g) hClass

/-- A write is put into an object that was made for an element. -/
theorem wrote (h : Classed g journal) {w : Write} (hOpened : .opened w.object ∈ journal)
    {type : ElementType H} (hType : g.type? w.object = some type) {property : Property H}
    (hProperty : type.property? w.property = some property) {o' : Instance H}
    (hPut : g.put? w = some o') (extent : Nat) :
    Classed (g.replace w.object o') (.wrote w extent :: journal) := by
  have hGrows : g.Grows (g.replace w.object o') := .replace g w.object o'
  obtain ⟨type', o, hOld, hObject⟩ := h.instances w.object hOpened
  cases hType.symm.trans hOld.typed
  rw [ObjectGraph.put?_eq hType hProperty, hObject, Option.bind_some] at hPut
  refine ⟨h.opened_cons (List.mem_cons_of_mem _ hOpened), fun object hMem => ?_,
    h.calls_cons hGrows ?_⟩
  · have hMade : .opened object ∈ journal := by
      rcases List.mem_cons.1 hMem with hSame | hMem
      · cases hSame
      · exact hMem
    obtain ⟨type', o₁, hOld', hObject'⟩ := h.instances object hMade
    by_cases hSame : object = w.object
    · subst hSame
      refine ⟨type, o', (hOld.grows hGrows).wrote hProperty hPut extent, ?_⟩
      obtain ⟨slot, hSlot, -⟩ := Option.map_eq_some_iff.1 hObject
      rw [ObjectGraph.object?, ObjectGraph.slot?_replace_self, hSlot]
      rfl
    · refine ⟨type', o₁, (hOld'.grows hGrows).cons (.inr fun hTo => hSame hTo.symm), ?_⟩
      rw [ObjectGraph.object?, ObjectGraph.slot?_replace_of_ne g o' hSame]
      exact hObject'
  · exact ⟨type, property, o, o', hOld.grows hGrows, hProperty, hPut⟩

/-- The instance in the place of an object that was made for an element. -/
theorem exists_object (h : Classed g journal) {object : ObjectId} {type : ElementType H}
    (hMem : .opened object ∈ journal) (hType : g.type? object = some type) :
    ∃ o, g.object? object = some o ∧ Replayed g journal object type o := by
  obtain ⟨type', o, hOld, hObject⟩ := h.instances object hMem
  cases hType.symm.trans hOld.typed
  exact ⟨o, hObject, hOld⟩

end Classed

/-! ### Runs -/

/-- What a run keeps up: values go into objects that were made for elements, and these are of the
classes of their types. -/
structure Classing (vocabulary : Vocabulary H) (m : Moment H) : Prop where
  placed : Placed m
  known : m.graph.Known vocabulary
  classed : Classed m.graph m.journal

variable [Hooks H]

/-- What a run leaves that fails. Only the host can have said that an instance is of another class. -/
def Misplaced (vocabulary : Vocabulary H) (failure : Failure) (m : Moment H) : Prop :=
  Classed m.graph m.journal ∧
    ∀ owner object, failure = .instanceMismatch owner object → vocabulary.Raises failure

namespace Classing

variable {vocabulary : Vocabulary H} {m : Moment H}

omit [Hooks H] in
/-- Before anything is made, all is in its class. -/
theorem start : Classing vocabulary (.start : Moment H) where
  placed := .start
  known _ _ hType := by cases hType
  classed := .empty

omit [Hooks H] in
/-- The types of the objects in a graph are declared if those of the vocabulary are. -/
theorem isDeclared (hDeclared : ∀ type ∈ vocabulary.types, type.IsDeclared)
    (h : Classing vocabulary m) {object : ObjectId} {type : ElementType H}
    (hType : m.graph.type? object = some type) : type.IsDeclared :=
  (h.known object type hType).elim ElementType.isDeclared_of_mem_boxes (hDeclared type)

/-- No accessor and no factory that is called refuses. -/
theorem not_refuses (hDeclared : ∀ type ∈ vocabulary.types, type.IsDeclared)
    (h : Classing vocabulary m) {object : ObjectId} {g : ObjectGraph H} (hAdmits : m.Admits object)
    (hExtends : m.graph.Extends g) : ¬m.Refuses vocabulary object g := by
  obtain ⟨hOpened, type, hType⟩ := h.placed.of_admits hAdmits
  have hType' := h.isDeclared hDeclared hType
  rintro (⟨value, w, g, ⟨type', property, hTyped, hProperty, hStores⟩, hFails⟩ |
    ⟨e, hTop, hFactory, hFails⟩)
  · cases hType.symm.trans hTyped
    have hLater := hExtends.grows _ _ hType
    obtain ⟨o, hObject, hOld⟩ := (h.classed.mono hExtends).exists_object hOpened hLater
    have hMem := List.mem_of_find?_eq_some hProperty
    obtain ⟨o', hPut⟩ := ElementType.exists_put hType' hOld.isOf hMem hStores
    rw [ObjectGraph.put?_eq hLater hProperty, hObject, Option.bind_some, hPut] at hFails
    cases hFails
  · cases hType.symm.trans (h.placed.typed e (List.mem_of_mem_head? hTop))
    obtain ⟨o, hObject, hOld⟩ := h.classed.exists_object hOpened hType
    obtain ⟨v, hProduce⟩ := ElementType.exists_produce hType' hOld.isOf hFactory
    rw [hObject, Option.bind_some, hProduce] at hFails
    cases hFails

/-- A run that fails in another way leaves all in its class. -/
theorem misplaced (h : Classed m.graph m.journal) {failure : Failure}
    (hOther : ∀ owner object, failure ≠ .instanceMismatch owner object) :
    Misplaced vocabulary failure m :=
  ⟨h, fun owner object hSame => absurd hSame (hOther owner object)⟩

/-- Every step of a run leaves instances of the classes of their types, whatever types there are. -/
theorem kept (setting : Setting H) :
    Upkeep setting (fun _ => True) (fun _ => True) (Classing setting.vocabulary)
      (fun _ _ => True) where
  told _ _ _ _ := trivial
  fewer m bindings h hFewer := ⟨h.placed.fewer hFewer, h.known, h.classed⟩
  made m type fresh h hKnows hFresh :=
    ⟨h.placed.made type fresh, h.known.insert hKnows fresh, h.classed.made hFresh⟩
  bound m e path b h hPath hTarget _ _ _ :=
    ⟨h.placed.bound hPath hTarget _, h.known, h.classed⟩
  evaluated m scope b target outcome h _ hMem hTarget _ := by
    subst hTarget
    exact ⟨h.placed.record _, h.known, h.classed.record (h.placed.targets b hMem) rfl trivial⟩
  again m b required h hMem := ⟨h.placed.again hMem required, h.known, h.classed⟩
  assigned m object g o w value h hAdmits hExtends hObject hStored _ hPut := by
    subst hObject
    obtain ⟨type, property, hType, hProperty, hStores⟩ := hStored
    obtain ⟨hOpened, -⟩ := h.placed.of_admits hAdmits
    have hLater := hExtends.grows _ _ hType
    have hGrows := hExtends.grows.trans (.replace g w.object o)
    refine ⟨h.placed.grows hGrows (List.subset_cons_self ..),
      (hStores.known h.known).replace w.object o, ?_⟩
    exact (h.classed.mono hExtends).wrote hOpened hLater hProperty hPut g.size
  closed m e path id value h hPath hStands _ := by
    have hMem : e ∈ m.path := by
      rw [hPath]
      exact List.mem_cons_self ..
    have hType := h.placed.typed e hMem
    obtain ⟨o, hObject, hOld⟩ := h.classed.exists_object (h.placed.opened e hMem) hType
    refine ⟨h.placed.closed hPath _, h.known, h.classed.record (h.placed.opened e hMem) rfl ?_⟩
    refine ⟨e.type, o, hOld, fun hFactory => ?_⟩
    rw [ElementType.StandsFor, if_pos hFactory, hObject] at hStands
    exact hStands
  rooted m value h _ _ := ⟨h.placed.rooted _, h.known, h.classed⟩
  named m id value names h _ _ :=
    ⟨h.placed.grows (.refl _) (List.Subset.refl _), h.known, h.classed⟩
  faulted _ _ _ _ _ _ _ _ _ _ := trivial
  refused _ _ _ _ _ _ := trivial
  unknown _ _ _ _ _ := trivial
  mismatched _ _ _ _ _ _ _ _ := trivial
  lost _ _ _ _ _ _ := trivial

/-- Every step of a run calls accessors and factories only of the class of the instance. -/
theorem upkeep {setting : Setting H}
    (hDeclared : ∀ type ∈ setting.vocabulary.types, type.IsDeclared) :
    Upkeep setting (fun _ => True) (fun _ => True) (Classing setting.vocabulary)
      (Misplaced setting.vocabulary) where
  told := (kept setting).told
  fewer := (kept setting).fewer
  made := (kept setting).made
  bound := (kept setting).bound
  evaluated := (kept setting).evaluated
  again := (kept setting).again
  assigned := (kept setting).assigned
  closed := (kept setting).closed
  rooted := (kept setting).rooted
  named := (kept setting).named
  faulted m scope target text failure h _ _ hDefer hError := by
    refine ⟨h.classed, ?_⟩
    rintro owner object rfl
    rcases evaluate_eq_error hDefer hError with hFault | hRaises
    · rcases hFault with hKind | hKind <;> cases hKind
    · exact hRaises
  refused m graph failure h hExtends hRefusal := by
    refine misplaced (m := { m with graph }) (h.classed.mono hExtends) ?_
    rintro owner object rfl
    exact hRefusal
  unknown m object h _ _ := misplaced h.classed nofun
  mismatched m graph owner object h hAdmits hExtends hRefuses :=
    absurd hRefuses (h.not_refuses hDeclared hAdmits hExtends)
  lost failure m path bindings h _ := h

/-- However a document ends, all calls were in their class. -/
theorem ends_construct {c : Compiler H} (hDeclared : ∀ type ∈ c.vocabulary.types, type.IsDeclared)
    (dataContext : Option Value) (items : List (Except Markup.Fault Markup.Event)) :
    Ends (c.construct items dataContext) (.ofDefaults c.settings.defaults)
      (fun _ s => Classing c.vocabulary s.moment)
      (Construction.FailsIn (Misplaced c.vocabulary)) := by
  have u : Upkeep (c.setting dataContext) _ _ _ _ := upkeep hDeclared
  have hStart : Classing c.vocabulary (.start : Moment H) := start
  exact u.course.construct (.start hStart trivial fun _ _ => trivial) fun _ _ h => misplaced h.classed nofun

/-- A document that is constructed keeps what a run keeps up. -/
theorem of_construct {c : Compiler H} {dataContext : Option Value}
    {items : List (Except Markup.Fault Markup.Event)} {root : Value} {s : Construction H}
    (h : c.construct items dataContext (.ofDefaults c.settings.defaults) = .ok root s) :
    Classing c.vocabulary s.moment := by
  have hStart : Classing c.vocabulary (.start : Moment H) := start
  have hEnds : Ends (c.construct items dataContext) (.ofDefaults c.settings.defaults)
      (fun _ s => Classing c.vocabulary s.moment) (Construction.FailsIn fun _ _ => True) :=
    (kept (c.setting dataContext)).course.construct (.start hStart trivial fun _ _ => trivial)
      fun _ _ _ => trivial
  exact hEnds.of_ok h

end Classing

/-- If all types of a vocabulary are put together from declarations, then every accessor and every
factory that a run calls is called on an instance of the class of its type, between any two events and
however the run ends; so none of them refuses, whatever converters put into the graph. That an instance
is of another class, a run never says, unless an extension of the host itself gives this failure. -/
theorem Compiler.calls_in_class (c : Compiler H)
    (hDeclared : ∀ type ∈ c.vocabulary.types, type.IsDeclared) (dataContext : Option Value) :
    (∀ events s,
      Construct.feedEvents (c.setting dataContext) events (.ofDefaults c.settings.defaults) =
          .ok () s →
        Placed s.moment ∧ Classed s.assembly.graph s.assembly.journal) ∧
    (∀ items root s,
      c.construct items dataContext (.ofDefaults c.settings.defaults) = .ok root s →
        Classed s.assembly.graph s.assembly.journal) ∧
    (∀ items failure s,
      c.construct items dataContext (.ofDefaults c.settings.defaults) = .error failure s →
        Classed s.assembly.graph s.assembly.journal) ∧
    ∀ items owner object, c.compileEvents items dataContext = .error (.instanceMismatch owner object) →
      c.vocabulary.Raises (.instanceMismatch owner object) := by
  have hEnds := Classing.ends_construct hDeclared dataContext
  refine ⟨?_, ?_, ?_, ?_⟩
  · intro events s hFeed
    have u : Upkeep (c.setting dataContext) _ _ _ _ := Classing.upkeep hDeclared
    have hFed := u.course.stands_of_feedEvents .start hFeed
    exact ⟨hFed.placed, hFed.classed⟩
  · intro items root s hRun
    exact ((hEnds items).of_ok hRun).classed
  · intro items failure s hRun
    exact ((hEnds items).of_error hRun).1
  · intro items owner object hCompile
    unfold compileEvents at hCompile
    split at hCompile
    · next failure s hRun =>
      cases hCompile
      exact ((hEnds items).of_error hRun).2 owner object rfl
    · cases hCompile

namespace Notes

/-- Has a next note, and items; a text is turned into an object that only passes for a note. -/
def type : ElementType Record.host :=
  .assemble Record.view ⟨"urn:notes", "Note"⟩
    [.constructor (.ofInitial []),
      .scalar "Next" (.object ⟨"urn:notes", "Note"⟩) (Record.Fields.put "Next"),
      .collection "Items" .any (Record.Fields.put "Items"),
      .contentProperty "Items",
      .converter ⟨⟨"urn:notes", "Note"⟩, ["String"], [], .foreign ⟨"urn:notes", "Note"⟩⟩]

/-- A compiler for notes. -/
def compiler : Compiler Record.host :=
  ⟨Vocabulary.builtIn.register type, ⟨["urn:notes"], true, none⟩⟩

/-- A note whose next one is declared inside it; that one has a number in it, and a text for its
next. -/
def nested : List Markup.Event :=
  [.start "Note", .attribute "xmlns:x" "urn:kiln:metadata", .attribute "Next" "\x7bRef b\x7d",
    .start "Note", .attribute "x:Id" "b", .attribute "Next" "other", .start "int", .text "5", .finish,
    .finish, .finish]

/-- The types of the compiler are declared. -/
theorem isDeclared : ∀ t ∈ compiler.vocabulary.types, t.IsDeclared := by
  intro t hMem
  rcases List.mem_append.1 hMem with hBuiltIn | hType
  · exact ElementType.isDeclared_of_mem_builtIn hBuiltIn
  · rw [List.mem_singleton.1 hType]
    exact ElementType.isDeclared_assemble _ _ _ (by decide)

/-- What is written into the property of the inner note: an object that is no note. -/
def other : Write := ⟨.occurrence 1, ⟨1⟩, "Next", none, .object ⟨2⟩⟩

/-- After seven events two notes and a number are open, and an attribute waits. -/
theorem exists_open :
    ∃ s, Construct.feedEvents (compiler.setting none) (nested.take 7) (.ofDefaults ["urn:notes"]) =
      .ok () s ∧ s.stack ≠ [] ∧ s.assembly.waiting ≠ [] := by
  have hFed : (outcome (Construct.feedEvents (compiler.setting none) (nested.take 7))
      (.ofDefaults ["urn:notes"])).toOption.any (fun p =>
        !p.2.stack.isEmpty && !p.2.assembly.waiting.isEmpty) = true := by
    decide +kernel
  obtain ⟨⟨_, s⟩, hRun, hOpen⟩ := except_exists_of_any hFed
  refine ⟨s, outcome_eq_ok.1 hRun, ?_⟩
  simpa using hOpen

/-- The document of nested notes is constructed, with the foreign object in it. -/
theorem exists_nested :
    ∃ root s, compiler.construct (nested.map .ok) none (.ofDefaults ["urn:notes"]) = .ok root s ∧
      (s.assembly.graph.object? ⟨2⟩).any Record.isForeign = true ∧
      .wrote other 3 ∈ s.assembly.journal ∧
      .closed ⟨3⟩ none (.int 5) ∈ s.assembly.journal := by
  have hRun : (outcome (compiler.construct (nested.map .ok) none)
      (.ofDefaults ["urn:notes"])).toOption.any (fun p =>
        (p.2.assembly.graph.object? ⟨2⟩).any Record.isForeign &&
          (p.2.assembly.journal.contains (.wrote other 3) &&
            p.2.assembly.journal.contains (.closed ⟨3⟩ none (.int 5)))) = true := by
    decide +kernel
  obtain ⟨⟨root, s⟩, hRun, hAll⟩ := except_exists_of_any hRun
  rw [Bool.and_eq_true, Bool.and_eq_true, List.contains_iff_mem, List.contains_iff_mem] at hAll
  exact ⟨root, s, outcome_eq_ok.1 hRun, hAll⟩

/-- Without its last event, the document is not over. -/
theorem exists_broken :
    ∃ failure s, compiler.construct ((nested.take 10).map .ok) none (.ofDefaults ["urn:notes"]) =
      .error failure s := by
  have hRun : (outcome (compiler.construct ((nested.take 10).map .ok) none)
      (.ofDefaults ["urn:notes"])).isOk = false := by
    decide +kernel
  obtain ⟨failure, hRun⟩ := except_exists_of_not_isOk hRun
  exact ⟨failure, outcome_eq_error.1 hRun⟩

end Notes

/-- An object of another class is in the graph and is written into a note; it is never written into,
and all notes and the number are of their classes. -/
theorem notes_in_class :
    (∀ t ∈ Notes.compiler.vocabulary.types, t.IsDeclared) ∧
      (∃ s, Construct.feedEvents (Notes.compiler.setting none) (Notes.nested.take 7)
          (.ofDefaults ["urn:notes"]) = .ok () s ∧ s.stack ≠ [] ∧ s.assembly.waiting ≠ [] ∧
        Placed s.moment ∧ Classed s.assembly.graph s.assembly.journal) ∧
      (∃ root s, Notes.compiler.construct (Notes.nested.map .ok) none (.ofDefaults ["urn:notes"]) =
          .ok root s ∧ (s.assembly.graph.object? ⟨2⟩).any Record.isForeign = true ∧
        .wrote Notes.other 3 ∈ s.assembly.journal ∧ .closed ⟨3⟩ none (.int 5) ∈ s.assembly.journal ∧
          Classed s.assembly.graph s.assembly.journal) ∧
      (∃ failure s, Notes.compiler.construct ((Notes.nested.take 10).map .ok) none
          (.ofDefaults ["urn:notes"]) = .error failure s ∧
        Classed s.assembly.graph s.assembly.journal) ∧
      ∀ items owner object,
        Notes.compiler.compileEvents items none = .error (.instanceMismatch owner object) →
          Notes.compiler.vocabulary.Raises (.instanceMismatch owner object) := by
  obtain ⟨hFed, hOk, hError, hRefused⟩ := Compiler.calls_in_class Notes.compiler Notes.isDeclared none
  obtain ⟨s, hFeed, hOpen, hWaiting⟩ := Notes.exists_open
  obtain ⟨root, s₁, hRun, hForeign, hWrote, hClosed⟩ := Notes.exists_nested
  obtain ⟨failure, s₂, hBroken⟩ := Notes.exists_broken
  exact ⟨Notes.isDeclared, ⟨s, hFeed, hOpen, hWaiting, hFed _ s hFeed⟩,
    ⟨root, s₁, hRun, hForeign, hWrote, hClosed, hOk _ root s₁ hRun⟩,
    ⟨failure, s₂, hBroken, hError _ failure s₂ hBroken⟩, hRefused⟩

end ObjectMarkup
