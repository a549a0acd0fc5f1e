import ObjectMarkup.Proofs.Compiled
import ObjectMarkup.Proofs.Handles
import ObjectMarkup.Proofs.Placing

/-!
# No handle dangles

If the code of a host makes no handles up, then wherever a run keeps a handle there is an object in
its place: in the names, in what the root stands for, in the data contexts of the texts that wait,
and in all that is written (`Grounded`). Values come from texts, from elements and from what was read
from the graph, and each of these gives good handles (`Grounding.upkeep`).

What is open and what texts wait for are objects that were made for elements, so an object is never
missed. Only an extension of the host can say that one is (`Compiler.handles_grounded`).
-/

set_option autoImplicit false

namespace ObjectMarkup

open Operation

variable {H : Host}

/-! ### Good handles in a run -/

/-- The first objects of a graph are as many as asked for, or all. -/
theorem ObjectGraph.size_upTo (g : ObjectGraph H) (n : Nat) : (g.upTo n).size = min n g.size := by
  simp [size, upTo]

/-- The handles in an entry of the journal are good. What was written was so when it was written. -/
def Entry.ValidIn (g : ObjectGraph H) : Entry → Prop
  | .opened object => (Value.object object).ValidIn g
  | .evaluated _ target outcome => (Value.object target.object).ValidIn g ∧
      (∀ v ∈ target.dataContext, v.ValidIn g) ∧ ∀ v, outcome = .value v → v.ValidIn g
  | .wrote w extent => (Value.object w.object).ValidIn (g.upTo extent) ∧ w.ValidIn (g.upTo extent)
  | .closed object _ value => (Value.object object).ValidIn g ∧ value.ValidIn g

/-- An entry with valid handles has them when there are more objects. -/
theorem Entry.ValidIn.mono {entry : Entry} {g g' : ObjectGraph H} (h : entry.ValidIn g)
    (hSize : g.size ≤ g'.size) : entry.ValidIn g' := by
  cases entry with
  | opened object => exact Value.ValidIn.mono h hSize
  | evaluated n target outcome =>
    obtain ⟨hObject, hContext, hOutcome⟩ := h
    exact ⟨hObject.mono hSize, fun v hMem => (hContext v hMem).mono hSize,
      fun v hSame => (hOutcome v hSame).mono hSize⟩
  | wrote w extent =>
    have hThen : (g.upTo extent).size ≤ (g'.upTo extent).size := by
      rw [g.size_upTo, g'.size_upTo]
      omega
    exact ⟨h.1.mono hThen, h.2.mono hThen⟩
  | closed object id value => exact ⟨h.1.mono hSize, h.2.mono hSize⟩

/-- Wherever a handle is kept at a moment, there is an object in its place. -/
structure Grounded (m : Moment H) : Prop where
  names : ∀ x ∈ m.names.entries, x.2.ValidIn m.graph
  root : ∀ v ∈ m.root, v.ValidIn m.graph
  targets : ∀ b ∈ m.bindings, (Value.object b.target).ValidIn m.graph
  contexts : ∀ b ∈ m.bindings, ∀ v ∈ b.dataContext, v.ValidIn m.graph
  journal : ∀ entry ∈ m.journal, entry.ValidIn m.graph

namespace Grounded

variable {m : Moment H}

/-- Before anything is made, all handles are valid. -/
theorem start : Grounded (.start : Moment H) where
  names _ hMem := absurd hMem List.not_mem_nil
  root _ hMem := by cases hMem
  targets _ hMem := absurd hMem List.not_mem_nil
  contexts _ hMem := absurd hMem List.not_mem_nil
  journal _ hMem := absurd hMem List.not_mem_nil

/-- A handle stays good while objects are added. -/
theorem grows (h : Grounded m) {graph : ObjectGraph H} (path : List (Enclosing H))
    (hSize : m.graph.size ≤ graph.size) : Grounded { m with path, graph } where
  names x hMem := (h.names x hMem).mono hSize
  root v hMem := (h.root v hMem).mono hSize
  targets b hMem := (h.targets b hMem).mono hSize
  contexts b hMem v hSome := (h.contexts b hMem v hSome).mono hSize
  journal entry hMem := (h.journal entry hMem).mono hSize

/-- An entry with valid handles leaves all handles valid. -/
theorem record (h : Grounded m) {entry : Entry} (hEntry : entry.ValidIn m.graph) :
    Grounded { m with journal := entry :: m.journal } :=
  ⟨h.names, h.root, h.targets, h.contexts, List.forall_mem_cons.2 ⟨hEntry, h.journal⟩⟩

/-- Fewer bindings leave all handles valid. -/
theorem fewer (h : Grounded m) (path : List (Enclosing H)) {bindings : List Binding}
    (hFewer : bindings ⊆ m.bindings) : Grounded { m with path, bindings } :=
  ⟨h.names, h.root, fun b hMem => h.targets b (hFewer hMem),
    fun b hMem => h.contexts b (hFewer hMem), h.journal⟩

/-- A binding with valid handles leaves all handles valid. -/
theorem bind (h : Grounded m) {b : Binding} (hTarget : (Value.object b.target).ValidIn m.graph)
    (hContext : ∀ v ∈ b.dataContext, v.ValidIn m.graph) (occurrences : Nat) :
    Grounded { m with bindings := b :: m.bindings, occurrences } :=
  ⟨h.names, h.root, List.forall_mem_cons.2 ⟨hTarget, h.targets⟩,
    List.forall_mem_cons.2 ⟨hContext, h.contexts⟩, h.journal⟩

/-- What an element stood for is good. -/
theorem validIn_of_closed (h : Grounded m) {object : ObjectId} {id : Option String} {value : Value}
    (hMem : .closed object id value ∈ m.journal) : value.ValidIn m.graph :=
  (h.journal _ hMem).2

/-- What a text gave or an element stood for is good. -/
theorem validIn_of_supplies (h : Grounded m) {origin : Origin} {value : Value}
    (hSupplies : origin.Supplies m.journal value) : value.ValidIn m.graph := by
  cases origin with
  | occurrence n =>
    obtain ⟨target, hMem⟩ := hSupplies
    exact (h.journal _ hMem).2.2 value rfl
  | element child =>
    obtain ⟨id, hMem⟩ := hSupplies
    exact h.validIn_of_closed hMem

end Grounded

/-- What a run keeps up: handles are good, in objects as well, and values go into objects that were
made for elements. -/
structure Grounding (holds : H.Data → ObjectId → Prop) (vocabulary : Vocabulary H) (m : Moment H) :
    Prop where
  placed : Placed m
  grounded : Grounded m
  sound : m.graph.Sound holds vocabulary

variable [Hooks H]

/-- What a run leaves that fails: good handles. Only the host can have missed an object. -/
def Stranded (vocabulary : Vocabulary H) (failure : Failure) (m : Moment H) : Prop :=
  Grounded m ∧ ∀ id, failure = .structural (.unknownObject id) → vocabulary.Raises failure

namespace Grounding

variable {holds : H.Data → ObjectId → Prop} {vocabulary : Vocabulary H} {m : Moment H}

omit [Hooks H] in
/-- Before anything is made, all is grounded. -/
theorem start : Grounding holds vocabulary (.start : Moment H) := ⟨.start, .start, .empty⟩

/-- A run that fails in another way leaves all handles valid. -/
theorem stranded (h : Grounded m) {failure : Failure}
    (hOther : ∀ id, failure ≠ .structural (.unknownObject id)) : Stranded vocabulary failure m :=
  ⟨h, fun id hSame => absurd hSame (hOther id)⟩

omit [Hooks H] in
/-- What an evaluation for a binding sees is good. -/
theorem site_sound (h : Grounding holds vocabulary m) (scope : NameScope) {b : Binding}
    (hMem : b ∈ m.bindings) (source : String) :
    (Evaluation.siteOf ⟨scope, m.graph, m.names⟩ ⟨b.target, b.property, b.dataContext, true⟩
      source).Sound holds vocabulary :=
  ⟨h.sound, h.grounded.targets b hMem, h.grounded.contexts b hMem, h.grounded.names⟩

/-- The data context of a text is read from an open element, or is that of the document. -/
theorem validIn_of_dataContext {setting : Setting H} (hGenuine : setting.vocabulary.Genuine holds)
    (h : Grounding holds setting.vocabulary m)
    (hContext : ∀ id, setting.dataContext ≠ some (.object id)) {v : Value}
    (hSome : m.dataContext setting = some v) : v.ValidIn m.graph := by
  rcases Option.or_eq_some_iff.1 hSome with hFound | ⟨-, hDocument⟩
  · obtain ⟨e, -, hRead⟩ := List.exists_of_findSome?_eq_some hFound
    exact hGenuine.validIn_of_property? h.sound (Option.filter_eq_some_iff.1 hRead).1
  · rintro id rfl
    exact absurd hDocument (hContext id)

/-- An element stands for its object, or for what its type makes of it. -/
theorem validIn_of_standsFor (hGenuine : vocabulary.Genuine holds)
    (h : Grounding holds vocabulary m) {e : Enclosing H} {value : Value}
    (hMem : e ∈ m.path) (hStands : e.type.StandsFor m.graph e.object value) :
    value.ValidIn m.graph := by
  have hType := h.placed.typed e hMem
  unfold ElementType.StandsFor at hStands
  split at hStands
  · rintro id rfl
    obtain ⟨object, hObject, hProduce⟩ := Option.bind_eq_some_iff.1 hStands
    obtain ⟨slot, hSlot, rfl⟩ := Option.map_eq_some_iff.1 hObject
    have hHolds := (hGenuine.of_knows (h.sound.known e.object e.type hType)).produce _ id hProduce
    exact h.sound.held e.object slot hSlot id hHolds
  · subst hStands
    exact Value.validIn_of_type? hType

/-- The object of a new element holds no handles. -/
theorem made (hGenuine : vocabulary.Genuine holds) (h : Grounding holds vocabulary m)
    {type : ElementType H} {fresh : Instance H} (hKnows : vocabulary.Knows type)
    (hFresh : type.fresh = some fresh) :
    Grounding holds vocabulary { m with
      path := ⟨type, m.graph.nextId⟩ :: m.path
      graph := m.graph.insert type fresh
      journal := .opened m.graph.nextId :: m.journal } := by
  have hSize : m.graph.size ≤ (m.graph.insert type fresh).size := by
    rw [ObjectGraph.size_insert]
    exact Nat.le_succ _
  refine ⟨h.placed.made type fresh, ?_, h.sound.insert hKnows fun id hHolds => ?_⟩
  · refine (h.grounded.grows _ hSize).record ?_
    rintro _ ⟨⟩
    rw [ObjectGraph.size_insert]
    exact Nat.lt_succ_self _
  · exact absurd hHolds ((hGenuine.of_knows hKnows).fresh fresh id hFresh)

/-- A write puts no handle into an object but those of what is written. -/
theorem assigned (hGenuine : vocabulary.Genuine holds) (h : Grounding holds vocabulary m)
    {g : ObjectGraph H} {o : Instance H} {w : Write} {value : Value} (hAdmits : m.Admits w.object)
    (hExtends : m.graph.Extends g) (hStored : w.Stored vocabulary value m.graph g)
    (hSupplies : w.origin.Supplies m.journal value) (hPut : g.put? w = some o) :
    Grounding holds vocabulary { m with
      graph := g.replace w.object o, journal := .wrote w g.size :: m.journal } := by
  have hValue := h.grounded.validIn_of_supplies hSupplies
  obtain ⟨hSound, hValid⟩ := hStored.sound hGenuine h.sound hValue hPut
  have hGrows := hExtends.grows.trans (.replace g w.object o)
  obtain ⟨-, type, hType⟩ := h.placed.of_admits hAdmits
  -- The graph of the moment of the write is, as far as sizes tell, the one that it leaves.
  have hThen : g.size ≤ ((g.replace w.object o).upTo g.size).size := by
    rw [ObjectGraph.size_upTo]
    exact Nat.le_min.2 ⟨Nat.le_refl _, (ObjectGraph.Grows.replace g w.object o).size_le⟩
  refine ⟨(h.placed.grows hGrows (List.subset_cons_self ..)), ?_, hSound⟩
  refine (h.grounded.grows _ hGrows.size_le).record ⟨?_, hValid.mono hThen⟩
  exact (Value.validIn_of_type? (hExtends.grows _ _ hType)).mono hThen

/-- No step of a run makes a handle up. -/
theorem upkeep {setting : Setting H} (hGenuine : setting.vocabulary.Genuine holds)
    (hContext : ∀ id, setting.dataContext ≠ some (.object id)) :
    Upkeep setting (fun _ => True) (fun _ => True) (Grounding holds setting.vocabulary)
      (Stranded setting.vocabulary) where
  told _ _ _ _ := trivial
  fewer m bindings h hFewer := ⟨h.placed.fewer hFewer, h.grounded.fewer m.path hFewer, h.sound⟩
  made m type fresh h hKnows hFresh := h.made hGenuine hKnows hFresh
  bound m e path b h hPath hTarget _ hSame _ := by
    have hMem : e ∈ m.path := by
      rw [hPath]
      exact List.mem_cons_self ..
    refine ⟨h.placed.bound hPath hTarget _, h.grounded.bind ?_ (fun v hSome => ?_) _, h.sound⟩
    · rw [hTarget]
      exact Value.validIn_of_type? (h.placed.typed e hMem)
    · exact validIn_of_dataContext hGenuine h hContext (hSame.symm.trans hSome)
  evaluated m scope b target outcome h _ hMem hTarget hOutcome := by
    subst hTarget
    refine ⟨h.placed.record _, h.grounded.record ?_, h.sound⟩
    refine ⟨h.grounded.targets b hMem, h.grounded.contexts b hMem, ?_⟩
    rintro v rfl
    exact validIn_of_evaluate hGenuine (h.site_sound scope hMem) hOutcome
  again m b required h hMem :=
    ⟨h.placed.again hMem required,
      h.grounded.bind (b := { b with required }) (h.grounded.targets b hMem)
        (h.grounded.contexts b hMem) _,
      h.sound⟩
  assigned m object g o w value h hAdmits hExtends hObject hStored hSupplies hPut := by
    subst hObject
    exact h.assigned hGenuine hAdmits hExtends hStored hSupplies hPut
  closed m e path id value h hPath hStands _ := by
    have hMem : e ∈ m.path := by
      rw [hPath]
      exact List.mem_cons_self ..
    refine ⟨h.placed.closed hPath _, ?_, h.sound⟩
    refine (h.grounded.grows path (Nat.le_refl _)).record ⟨?_, ?_⟩
    · exact Value.validIn_of_type? (h.placed.typed e hMem)
    · exact validIn_of_standsFor hGenuine h hMem hStands
  rooted m value h _ hClosed := by
    obtain ⟨object, id, hMem⟩ := hClosed
    refine ⟨h.placed.rooted _, ?_, h.sound⟩
    refine ⟨h.grounded.names, ?_, h.grounded.targets, h.grounded.contexts, h.grounded.journal⟩
    rintro _ ⟨⟩
    exact h.grounded.validIn_of_closed hMem
  named m id value names h hNew hClosed := by
    obtain ⟨object, hMem⟩ := hClosed
    refine ⟨h.placed.grows (.refl _) (List.Subset.refl _), ?_, h.sound⟩
    refine ⟨?_, h.grounded.root, h.grounded.targets, h.grounded.contexts, h.grounded.journal⟩
    simp only
    rw [NameTable.entries_of_register hNew]
    exact List.forall_mem_cons.2 ⟨h.grounded.validIn_of_closed hMem, h.grounded.names⟩
  faulted m scope target text failure h _ _ hDefer hError := by
    refine ⟨h.grounded, ?_⟩
    rintro id rfl
    rcases evaluate_eq_error hDefer hError with hFault | hRaises
    · rcases hFault with hKind | hKind <;> cases hKind
    · exact hRaises
  refused m graph failure h hExtends hRefusal := by
    refine stranded (h.grounded.grows _ hExtends.grows.size_le) ?_
    rintro id rfl
    exact hRefusal
  unknown m object h hAdmits hNone := by
    obtain ⟨-, type, hType⟩ := h.placed.of_admits hAdmits
    cases hNone.symm.trans hType
  mismatched m graph owner object h _ hExtends _ :=
    stranded (h.grounded.grows _ hExtends.grows.size_le) nofun
  lost failure m path bindings h hFewer := ⟨h.1.fewer path hFewer, h.2⟩

/-- However a document ends, all handles are valid. -/
theorem ends_construct {c : Compiler H} (hGenuine : c.vocabulary.Genuine holds)
    {dataContext : Option Value} (hContext : ∀ id, dataContext ≠ some (.object id))
    (items : List (Except Markup.Fault Markup.Event)) :
    Ends (c.construct items dataContext) (.ofDefaults c.settings.defaults)
      (fun _ s => Grounding holds c.vocabulary s.moment)
      (Construction.FailsIn (Stranded c.vocabulary)) := by
  have u : Upkeep (c.setting dataContext) _ _ _ _ := upkeep hGenuine hContext
  have hStart : Grounding holds c.vocabulary (.start : Moment H) := start
  refine u.course.construct (.start hStart trivial fun _ _ => trivial) fun _ _ h => ?_
  exact stranded h.grounded nofun

end Grounding

/-! ### Runs -/

/-- Deeds made the object for an element of a type, and it has that type. -/
def Deed.Opened (ds : List (Deed H)) (g : ObjectGraph H) (type : ElementType H) (object : ObjectId) :
    Prop :=
  (type, object) ∈ objects ds ∧ g.type? object = some type

omit [Hooks H] in
/-- An object that the journal tells was made for an element. -/
theorem Elements.exists_opened {ds : List (Deed H)} {a : Assembly H} (h : Elements ds a)
    {object : ObjectId} (hMem : .opened object ∈ a.journal) :
    ∃ type, Deed.Opened ds a.graph type object := by
  have hOpened : object ∈ (Deed.objects ds).map Prod.snd := by
    rw [h.opened]
    exact List.mem_reverse.2 (List.mem_filterMap.2 ⟨_, hMem, rfl⟩)
  obtain ⟨⟨type, _⟩, hMade, rfl⟩ := List.mem_map.1 hOpened
  exact ⟨type, hMade, h.types _ hMade⟩

/-- If the code of a host makes no handles up, and the data context is none, then there is an object
in the place of every handle that a run keeps, between any two events and however the run ends. What
is open and what texts wait for was made for elements, with the types that it has. And that an object
is not in the graph, a run never says, unless an extension of the host itself gives this failure. -/
theorem Compiler.handles_grounded (c : Compiler H) (holds : H.Data → ObjectId → Prop)
    (hGenuine : c.vocabulary.Genuine holds) (dataContext : Option Value)
    (hContext : ∀ id, dataContext ≠ some (.object id)) :
    (∀ events s,
      Construct.feedEvents (c.setting dataContext) events (.ofDefaults c.settings.defaults) =
          .ok () s →
        Grounded s.moment ∧
        ∃ ds, DoesAll c.vocabulary (.start s.assembly.scope) ds s.assembly ∧
          (∀ e ∈ s.stack, Deed.Opened ds s.assembly.graph e.type e.object) ∧
          ∀ b ∈ s.assembly.waiting, ∃ type, Deed.Opened ds s.assembly.graph type b.target) ∧
    (∀ items root s,
      c.construct items dataContext (.ofDefaults c.settings.defaults) = .ok root s →
        Grounded s.moment ∧ root.ValidIn s.assembly.graph) ∧
    (∀ items failure s,
      c.construct items dataContext (.ofDefaults c.settings.defaults) = .error failure s →
        Grounded s.moment) ∧
    ∀ items id, c.compileEvents items dataContext = .error (.structural (.unknownObject id)) →
      c.vocabulary.Raises (.structural (.unknownObject id)) := by
  have hEnds := Grounding.ends_construct hGenuine hContext
  refine ⟨?_, ?_, ?_, ?_⟩
  · intro events s hFeed
    have u : Upkeep (c.setting dataContext) _ _ _ _ := Grounding.upkeep hGenuine hContext
    have hFed := u.course.stands_of_feedEvents .start hFeed
    obtain ⟨o, ds, hTraced⟩ := traced_of_feedEvents hFeed
    have hDone := hTraced.done
    have hElements := Elements.doesAll hDone
    rw [← hTraced.scope_eq] at hDone
    refine ⟨hFed.grounded, ds, hDone, fun e hMem => ?_, fun b hMem => ?_⟩
    · have hOpen : e.enclosing ∈ s.moment.path := List.mem_map.2 ⟨e, hMem, rfl⟩
      obtain ⟨type, hMade, hType⟩ := hElements.exists_opened (hFed.placed.opened e.enclosing hOpen)
      cases hType.symm.trans (hFed.placed.typed e.enclosing hOpen)
      exact ⟨hMade, hType⟩
    · exact hElements.exists_opened (hFed.placed.targets b hMem)
  · intro items root s hRun
    have hLast := ((hEnds items).of_ok hRun).grounded
    obtain ⟨t, ds, a, hConstructed, id, hClosed⟩ := exists_constructed hRun
    exact ⟨hLast, hLast.validIn_of_closed (hConstructed.elements.mem_journal hClosed)⟩
  · intro items failure s hRun
    exact ((hEnds items).of_error hRun).1.fewer s.path (List.Subset.refl _)
  · intro items id hCompile
    unfold compileEvents at hCompile
    split at hCompile
    · next failure s hRun =>
      cases hCompile
      exact ((hEnds items).of_error hRun).2 id rfl
    · cases hCompile

/-! ### Records -/

namespace Record

/-- A record holds the handles among its values. -/
def Fields.Holds (fields : Fields) (id : ObjectId) : Prop :=
  (∃ x ∈ fields.initial, x.2 = .object id) ∨
    ∃ a ∈ fields.log, a.value = .object id ∨ a.key = some (.object id)

/-- Which objects the data of a record refers to. -/
def Holds : host.Data → ObjectId → Prop
  | .fields fields, id => fields.Holds id
  | .foreign, _ => False

/-- An instance of a record holds what its fields do. -/
theorem holds_iff (o : Instance host) (fields : Fields) (id : ObjectId)
    (h : view.unwrap o = some fields) : fields.Holds id ↔ o.Holds Holds id := by
  match o, h with
  | .host (.fields _), rfl => exact Iff.rfl

/-- Fields with one more assignment hold what they held, or what was assigned. -/
theorem Fields.holds_of_cons {fields : Fields} {a : Assignment} {id : ObjectId}
    (h : Fields.Holds { fields with log := a :: fields.log } id) :
    fields.Holds id ∨ a.value = .object id ∨ a.key = some (.object id) := by
  rcases h with hInitial | ⟨a', hMem, hHolds⟩
  · exact .inl (.inl hInitial)
  · rcases List.mem_cons.1 hMem with rfl | hMem
    · exact .inr hHolds
    · exact .inl (.inr ⟨a', hMem, hHolds⟩)

/-- A record holds what is put into it besides what it held before. -/
theorem Fields.keeps_put (property : String) :
    Declaration.Genuine.Keeps Fields.Holds (Fields.put property) :=
  fun _ _ _ hHolds => (holds_of_cons hHolds).imp_right fun hNew => hNew.resolve_right nofun

end Record

namespace Labels

/-- A label whose next one is declared inside it, under a number; that one is followed by a text. -/
def linked : List Markup.Event :=
  [.start "Label", .attribute "xmlns:x" "urn:kiln:metadata", .attribute "Next" "{Ref b}",
    .start "Label", .attribute "x:Key" "5", .attribute "x:Id" "b", .attribute "Next" "second",
    .finish, .finish]

/-- The accessors of the type keep what they are given, and nothing else. -/
theorem genuine_type : type.Genuine Record.Holds := by
  refine ElementType.genuine_assemble Record.holds_iff _ ?_
  simp only [List.forall_mem_cons]
  refine ⟨?_, Record.Fields.keeps_put _, Record.Fields.keeps_put _, ?_, trivial, trivial,
    fun _ hMem => absurd hMem List.not_mem_nil⟩
  · rintro id (⟨x, hMem, -⟩ | ⟨a, hMem, -⟩) <;> cases hMem
  · intro fields key v id hHolds
    exact (Record.Fields.holds_of_cons hHolds).imp_right (Or.imp_right Option.some.inj)

/-- The vocabulary keeps what it is given, and nothing else. -/
theorem genuine : compiler.vocabulary.Genuine Record.Holds where
  types t hMem := by
    rcases List.mem_append.1 hMem with hBuiltIn | hType
    · exact ElementType.genuine_of_mem_builtIn hBuiltIn
    · rw [List.mem_singleton.1 hType]
      exact genuine_type
  extensions t hMem name e hExtension := by
    rcases List.mem_append.1 hMem with hBuiltIn | hType
    · simp [Vocabulary.builtIn, ElementType.boxes, ElementType.builtInExtensions] at hBuiltIn
      rcases hBuiltIn with rfl | rfl | rfl | rfl | rfl | rfl | rfl | rfl | rfl | rfl <;>
        cases hExtension
    · cases List.mem_singleton.1 hType
      cases hExtension
  converters g target value c hMem hChoice _ hValue := by
    obtain ⟨hConverter, -⟩ := Conversion.of_choice hChoice
    rcases List.mem_append.1 hMem with hBuiltIn | hType
    · rw [Vocabulary.converter_of_mem_builtIn hBuiltIn] at hConverter
      cases hConverter
    obtain ⟨owner, converter⟩ := c
    obtain rfl : owner = type := List.mem_singleton.1 hType
    obtain rfl : _ = converter := Option.some.inj hConverter
    refine ⟨?_, ?_⟩
    · rintro id (⟨x, hInitial, hHolds⟩ | ⟨a, hLog, -⟩)
      · cases List.mem_singleton.1 hInitial
        exact hValue id hHolds
      · cases hLog
    · rintro _ ⟨⟩ id ⟨⟩
      rw [ObjectGraph.size_insert]
      exact Nat.lt_succ_self _

/-- After four events the outer label is open, and its attribute waits for the inner one. -/
theorem exists_waiting :
    ∃ s, Construct.feedEvents (compiler.setting none) (linked.take 4) (.ofDefaults ["urn:labels"]) =
      .ok () s ∧ s.stack ≠ [] ∧ s.assembly.waiting ≠ [] := by
  have hFed : (outcome (Construct.feedEvents (compiler.setting none) (linked.take 4))
      (.ofDefaults ["urn:labels"])).toOption.any (fun p =>
        !p.2.stack.isEmpty && !p.2.assembly.waiting.isEmpty) = true := by
    decide +kernel
  obtain ⟨⟨_, s⟩, hRun, hOpen⟩ := except_exists_of_any hFed
  refine ⟨s, outcome_eq_ok.1 hRun, ?_⟩
  simpa using hOpen

/-- What is written into the property of the inner label: the label that the converter makes. -/
def last : Write := ⟨.occurrence 1, ⟨1⟩, "Next", none, .object ⟨2⟩⟩

/-- The document of linked labels is constructed, with the last write in its journal. -/
theorem exists_linked :
    ∃ root s, compiler.construct (linked.map .ok) none (.ofDefaults ["urn:labels"]) = .ok root s ∧
      .wrote last 3 ∈ s.assembly.journal := by
  have hRun : (outcome (compiler.construct (linked.map .ok) none)
      (.ofDefaults ["urn:labels"])).toOption.any (fun p =>
        p.2.assembly.journal.contains (.wrote last 3)) = true := by
    decide +kernel
  obtain ⟨⟨root, s⟩, hRun, hWrote⟩ := except_exists_of_any hRun
  exact ⟨root, s, outcome_eq_ok.1 hRun, List.contains_iff_mem.1 hWrote⟩

/-- Without its last event, the document is not over. -/
theorem exists_unlinked :
    ∃ failure s, compiler.construct ((linked.take 8).map .ok) none (.ofDefaults ["urn:labels"]) =
      .error failure s := by
  have hRun : (outcome (compiler.construct ((linked.take 8).map .ok) none)
      (.ofDefaults ["urn:labels"])).isOk = false := by
    decide +kernel
  obtain ⟨failure, hRun⟩ := except_exists_of_not_isOk hRun
  exact ⟨failure, outcome_eq_error.1 hRun⟩

end Labels

/-- A label that refers to another one before it is there, a label that a converter makes, and a
document that breaks off leave no handle that dangles. -/
theorem linked_labels_grounded :
    Labels.compiler.vocabulary.Genuine Record.Holds ∧
      (∃ s, Construct.feedEvents (Labels.compiler.setting none) (Labels.linked.take 4)
          (.ofDefaults ["urn:labels"]) = .ok () s ∧ s.stack ≠ [] ∧ s.assembly.waiting ≠ [] ∧
        Grounded s.moment ∧
        ∃ ds, DoesAll Labels.compiler.vocabulary (.start s.assembly.scope) ds s.assembly ∧
          (∀ e ∈ s.stack, Deed.Opened ds s.assembly.graph e.type e.object) ∧
          ∀ b ∈ s.assembly.waiting, ∃ type, Deed.Opened ds s.assembly.graph type b.target) ∧
      (∃ root s, Labels.compiler.construct (Labels.linked.map .ok) none
          (.ofDefaults ["urn:labels"]) = .ok root s ∧ .wrote Labels.last 3 ∈ s.assembly.journal ∧
        Grounded s.moment ∧ root.ValidIn s.assembly.graph) ∧
      (∃ failure s, Labels.compiler.construct ((Labels.linked.take 8).map .ok) none
          (.ofDefaults ["urn:labels"]) = .error failure s ∧ Grounded s.moment) ∧
      ∀ items id, Labels.compiler.compileEvents items none = .error (.structural (.unknownObject id)) →
        Labels.compiler.vocabulary.Raises (.structural (.unknownObject id)) := by
  obtain ⟨hFed, hOk, hError, hMissed⟩ :=
    Compiler.handles_grounded Labels.compiler Record.Holds Labels.genuine none nofun
  obtain ⟨s, hFeed, hOpen, hWaiting⟩ := Labels.exists_waiting
  obtain ⟨root, s₁, hRun, hWrote⟩ := Labels.exists_linked
  obtain ⟨failure, s₂, hBroken⟩ := Labels.exists_unlinked
  exact ⟨Labels.genuine, ⟨s, hFeed, hOpen, hWaiting, hFed _ s hFeed⟩,
    ⟨root, s₁, hRun, hWrote, hOk _ root s₁ hRun⟩, ⟨failure, s₂, hBroken, hError _ failure s₂ hBroken⟩,
    hMissed⟩

end ObjectMarkup
