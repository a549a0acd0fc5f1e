import ObjectMarkup.Proofs.Keys
import ObjectMarkup.Proofs.Lineages
import ObjectMarkup.Proofs.QualifiedTags
import ObjectMarkup.Proofs.WriteOrder

/-!
# Entries of maps

What goes into a map is what an element inside of the object stands for, when that is over, under the key of
the element (`Write.Inserts`). Each open element tells its key from its start tag until its end, however many
elements are opened and closed in it, and nothing but the end of an element writes under a key. So the
journal keeps, between events, that each write into a map follows the end of a child that tells its key, and
that elements went in once, those of one object in the order in which they were opened
(`Assembly.KeepsMaps`); `KeyedAtRest` carries that through the steps of the machine. Where a step fails, the
same is left (`Assembly.Breaks`).
-/

set_option autoImplicit false

namespace ObjectMarkup

open Operation

variable {H : Host}

/-! ### Journals that texts leave -/

/-- What ends a list that was made longer ends the list, or starts in what is new. -/
theorem mem_or_suffix_of_suffix_append {α : Type} {x : α} {past new old : List α}
    (h : x :: past <:+ new ++ old) : x ∈ new ∨ x :: past <:+ old := by
  obtain ⟨before, hSplit⟩ := h
  rcases List.append_eq_append_iff.1 hSplit with ⟨more, hNew, hRest⟩ | ⟨more, -, hOld⟩
  · cases more with
    | nil => exact .inr ⟨[], hRest⟩
    | cons first more =>
      obtain ⟨rfl, -⟩ := List.cons.inj hRest
      exact .inl (hNew ▸ List.mem_append_right before List.mem_cons_self)
  · exact .inr ⟨more, hOld.symm⟩

namespace Entry

variable {g : ObjectGraph H} {new journal : List Entry}

/-- Texts open no element and close none. -/
theorem openObjects_append (hNew : ∀ entry ∈ new, entry.IsTextual g) :
    openObjects (new ++ journal) = openObjects journal := by
  induction new with
  | nil => rfl
  | cons first rest ih =>
    obtain ⟨hFirst, hRest⟩ := List.forall_mem_cons.1 hNew
    cases hFirst <;> exact ih hRest

/-- A write of an element is none of a text. -/
theorem mem_writes_of_textual (hNew : ∀ entry ∈ new, entry.IsTextual g) {w : Write}
    (hMem : w ∈ writes (new ++ journal)) {child : ObjectId} (hOrigin : w.origin = .element child) :
    w ∈ writes journal := by
  obtain ⟨extent, hEntry⟩ := mem_writes_iff.1 hMem
  rcases List.mem_append.1 hEntry with hEntry | hEntry
  · cases hNew _ hEntry with
    | wrote _ _ n property origin found plain =>
      rw [origin] at hOrigin
      cases hOrigin
  · exact mem_writes_iff.2 ⟨extent, hEntry⟩

/-- No element went in twice, and the elements that went into one object did so in the order in which they
were opened. The journal starts with its latest entry. -/
def InOrder (journal : List Entry) : Prop :=
  (writes journal).Pairwise fun later earlier => ∀ child' child, later.origin = .element child' →
    earlier.origin = .element child →
      child ≠ child' ∧ (later.object = earlier.object → child.index < child'.index)

/-- Entries about texts leave the order of entries. -/
theorem InOrder.textual (h : InOrder journal) (hNew : ∀ entry ∈ new, entry.IsTextual g) :
    InOrder (new ++ journal) := by
  unfold InOrder writes at h ⊢
  rw [List.filterMap_append, List.pairwise_append]
  have hText (w : Write) (hMem : w ∈ new.filterMap write?) : ∃ n, w.origin = .occurrence n := by
    obtain ⟨extent, hEntry⟩ := mem_writes_iff.1 hMem
    cases hNew _ hEntry with
    | wrote _ _ n property origin found plain => exact ⟨n, origin⟩
  refine ⟨List.pairwise_of_forall_mem_list fun w hMem _ _ child' child hOrigin => ?_, h,
    fun w hMem _ _ child' child hOrigin => ?_⟩
  · obtain ⟨n, hOccurrence⟩ := hText w hMem
    rw [hOccurrence] at hOrigin
    cases hOrigin
  · obtain ⟨n, hOccurrence⟩ := hText w hMem
    rw [hOccurrence] at hOrigin
    cases hOrigin

end Entry

variable [Hooks H]

/-! ### The invariant -/

/-- A write of what a child stands for, under a key: the key was converted, and then what the child stood
for, when the graph held `extent` objects in the end. -/
structure Write.InsertsChild (vocabulary : Vocabulary H) (keyType valueType : ValueType) (w : Write)
    (extent : Nat) (child : ObjectId) (key : String) (product : Value) (g : ObjectGraph H) : Prop where
  origin : w.origin = .element child
  converted : ∃ type k g₀ g₁ g₂, g.type? child = some type ∧ type.StandsFor g₀ child product ∧
    convert vocabulary keyType (.string key) g₀ = .ok k g₁ ∧ w.key = some k ∧
    convert vocabulary valueType product g₁ = .ok w.value g₂ ∧ g₂.size = extent ∧ g₂.Grows g

/-- An entry of a map for a child stays one when the graph has grown. -/
theorem Write.InsertsChild.grows {vocabulary : Vocabulary H} {keyType valueType : ValueType} {w : Write}
    {extent : Nat} {child : ObjectId} {key : String} {product : Value} {g g' : ObjectGraph H}
    (h : w.InsertsChild vocabulary keyType valueType extent child key product g) (hGrows : g.Grows g') :
    w.InsertsChild vocabulary keyType valueType extent child key product g' := by
  obtain ⟨type, k, g₀, g₁, g₂, hType, hStands, hKey, hKeyed, hValue, hExtent, hOlder⟩ := h.converted
  exact ⟨h.origin, type, k, g₀, g₁, g₂, hGrows child type hType, hStands, hKey, hKeyed, hValue, hExtent,
    hOlder.trans hGrows⟩

/-- What the last entry of a journal writes into a map is what a child of the object stands for that was
closed just before, under the key that the child tells. -/
def Write.Inserts (vocabulary : Vocabulary H) (tells : ObjectId → Option String → Prop) (w : Write)
    (extent : Nat) (past : List Entry) (keyType valueType : ValueType) (g : ObjectGraph H) : Prop :=
  ∃ child id product earlier outer key, past = .closed child id product :: earlier ∧
    Entry.openObjects earlier = child :: w.object :: outer ∧ tells child (some key) ∧
    w.InsertsChild vocabulary keyType valueType extent child key product g

/-- An entry of a map stays one when the graph has grown. -/
theorem Write.Inserts.grows {vocabulary : Vocabulary H} {tells : ObjectId → Option String → Prop}
    {w : Write} {extent : Nat} {past : List Entry} {keyType valueType : ValueType} {g g' : ObjectGraph H}
    (h : w.Inserts vocabulary tells extent past keyType valueType g) (hGrows : g.Grows g') :
    w.Inserts vocabulary tells extent past keyType valueType g' := by
  obtain ⟨child, id, product, earlier, outer, key, hPast, hOpen, hTells, hInserts⟩ := h
  exact ⟨child, id, product, earlier, outer, key, hPast, hOpen, hTells, hInserts.grows hGrows⟩

namespace Assembly

/-- All that went into maps are children, each in its turn and under the key that it tells. -/
structure KeepsMaps (vocabulary : Vocabulary H) (tells : ObjectId → Option String → Prop)
    (a : Assembly H) : Prop where
  inserts : ∀ w extent past, .wrote w extent :: past <:+ a.journal →
    ∃ property, a.graph.accessor? w.object w.property = some property ∧
      ∀ keyType valueType insert, property.store = .map keyType valueType insert →
        w.Inserts vocabulary tells extent past keyType valueType a.graph
  ordered : Entry.InOrder a.journal

end Assembly

/-- What is kept up about maps while elements are open. Each open element tells its key, and it was opened
after those around it and after what these had taken of other elements by then. -/
structure Keyed (vocabulary : Vocabulary H) (tells : ObjectId → Option String → Prop)
    (frames : List (Frame H)) (a : Assembly H) : Prop extends a.KeepsMaps vocabulary tells where
  typed : ∀ f ∈ frames, a.graph.type? f.object = some f.type
  keyed : ∀ f ∈ frames, tells f.object f.key
  opened : Entry.openObjects a.journal = frames.map Frame.object
  nested : frames.Pairwise fun inner outer => outer.object.index < inner.object.index
  made : ∀ w ∈ Entry.writes a.journal, ∀ child, w.origin = .element child →
    (a.graph.type? child).isSome = true
  -- So an element that goes in later is later than all that its object took before.
  older : ∀ w ∈ Entry.writes a.journal, ∀ child, w.origin = .element child → ∀ f ∈ frames,
    child ≠ f.object ∧ (w.object.index < f.object.index → child.index < f.object.index)

/-- Between events, no element that was closed is still to go into the one around it. -/
structure KeyedAtRest (vocabulary : Vocabulary H) (tells : ObjectId → Option String → Prop)
    (frames : List (Frame H)) (a : Assembly H) : Prop extends Keyed vocabulary tells frames a where
  placed : ∀ child id product earlier, a.journal = .closed child id product :: earlier → frames = []

/-- What a failure leaves of maps. If the last that was done is that an element was closed, and the one around
it is open, then what failed is the assignment of what the element stands for, under the key that it tells. -/
structure Assembly.Breaks (vocabulary : Vocabulary H) (tells : ObjectId → Option String → Prop)
    (failure : Failure) (a : Assembly H) : Prop extends a.KeepsMaps vocabulary tells where
  handing : ∀ child id product earlier object outer, a.journal = .closed child id product :: earlier →
    Entry.openObjects earlier = child :: object :: outer →
      ∃ type name key before, before.graph.type? child = some type ∧
        type.StandsFor before.graph child product ∧ tells child key ∧
        Assemble.assign vocabulary (.element child) object name product key before = .error failure a

variable {vocabulary : Vocabulary H} {tells : ObjectId → Option String → Prop}

/-- What texts do keeps maps as they are. -/
theorem Assembly.KeepsMaps.takesTexts {a a' : Assembly H} (h : a.KeepsMaps vocabulary tells)
    (hTakes : a.TakesTexts a') : a'.KeepsMaps vocabulary tells := by
  obtain ⟨new, hJournal, hNew⟩ := hTakes.journal
  refine ⟨fun w extent past hSuffix => ?_, hJournal ▸ h.ordered.textual hNew⟩
  rw [hJournal] at hSuffix
  rcases mem_or_suffix_of_suffix_append hSuffix with hMem | hOld
  · cases hNew _ hMem with
    | wrote _ _ n property origin found plain =>
      refine ⟨property, found, fun keyType valueType insert hStore => ?_⟩
      rw [hStore] at plain
      cases plain
  · obtain ⟨property, hFound, hMap⟩ := h.inserts w extent past hOld
    exact ⟨property, hTakes.graph.accessor? hFound, fun keyType valueType insert hStore =>
      (hMap keyType valueType insert hStore).grows hTakes.graph⟩

/-- What is done next and is no write of a map, or a write of one that goes in as it should, keeps maps. -/
theorem Assembly.KeepsMaps.cons {a a' : Assembly H} (h : a.KeepsMaps vocabulary tells)
    (hGrows : a.graph.Grows a'.graph) {entry : Entry} (hJournal : a'.journal = entry :: a.journal)
    (hInserts : ∀ w extent, entry = .wrote w extent →
      ∃ property, a'.graph.accessor? w.object w.property = some property ∧
        ∀ keyType valueType insert, property.store = .map keyType valueType insert →
          w.Inserts vocabulary tells extent a.journal keyType valueType a'.graph)
    (hOrdered : Entry.InOrder (entry :: a.journal)) : a'.KeepsMaps vocabulary tells := by
  refine ⟨fun w extent past hSuffix => ?_, hJournal ▸ hOrdered⟩
  rw [hJournal] at hSuffix
  rcases List.suffix_cons_iff.1 hSuffix with hSame | hOld
  · obtain ⟨hEntry, rfl⟩ := List.cons.inj hSame
    exact hInserts w extent hEntry.symm
  · obtain ⟨property, hFound, hMap⟩ := h.inserts w extent past hOld
    exact ⟨property, hGrows.accessor? hFound, fun keyType valueType insert hStore =>
      (hMap keyType valueType insert hStore).grows hGrows⟩

/-- What is done next and is no write keeps maps. -/
theorem Assembly.KeepsMaps.record {a a' : Assembly H} (h : a.KeepsMaps vocabulary tells)
    (hGrows : a.graph.Grows a'.graph) {entry : Entry} (hJournal : a'.journal = entry :: a.journal)
    (hOther : entry.write? = none) : a'.KeepsMaps vocabulary tells := by
  refine h.cons hGrows hJournal (fun w extent hSame => ?_) ?_
  · rw [hSame] at hOther
    cases hOther
  · rw [Entry.InOrder, Entry.writes, List.filterMap_cons_none hOther]
    exact h.ordered

namespace Keyed

variable {frames outer : List (Frame H)} {f parent : Frame H} {a a' : Assembly H}

/-- Texts that are taken leave the keys told. -/
theorem takesTexts (h : Keyed vocabulary tells frames a) (hTakes : a.TakesTexts a') :
    Keyed vocabulary tells frames a' := by
  obtain ⟨new, hJournal, hNew⟩ := hTakes.journal
  have hOld {w : Write} {child : ObjectId} (hMem : w ∈ Entry.writes a'.journal)
      (hOrigin : w.origin = .element child) : w ∈ Entry.writes a.journal := by
    rw [hJournal] at hMem
    exact Entry.mem_writes_of_textual hNew hMem hOrigin
  refine ⟨h.toKeepsMaps.takesTexts hTakes, fun f hMem => hTakes.graph _ _ (h.typed f hMem), h.keyed, ?_,
    h.nested, fun w hMem child hOrigin => ?_, fun w hMem child hOrigin =>
      h.older w (hOld hMem hOrigin) child hOrigin⟩
  · rw [hJournal, Entry.openObjects_append hNew]
    exact h.opened
  · obtain ⟨type, hType⟩ := Option.isSome_iff_exists.1 (h.made w (hOld hMem hOrigin) child hOrigin)
    rw [hTakes.graph child type hType]
    rfl

/-- An element that opens is the latest, and tells its key. -/
theorem start (h : Keyed vocabulary tells frames a) {key : Option String}
    (hTells : tells a.graph.nextId key) (type : ElementType H) (object : Instance H)
    (scope : NameScope) :
    KeyedAtRest vocabulary tells (⟨type, a.graph.nextId, key⟩ :: frames)
      (Assembly.record { a with scope, graph := a.graph.insert type object }
        (.opened a.graph.nextId)) := by
  have hGrows : a.graph.Grows (a.graph.insert type object) := .insert a.graph type object
  have hOlder {id : ObjectId} (hMade : (a.graph.type? id).isSome = true) :
      id.index < a.graph.nextId.index := by
    obtain ⟨slot, hSlot⟩ := Option.isSome_iff_exists.1 ((Option.isSome_map ..).symm.trans hMade)
    exact ObjectGraph.lt_of_slot? hSlot
  refine ⟨⟨h.toKeepsMaps.record hGrows rfl rfl, ?typed, ?keyed, ?opened, ?nested, ?made, ?older⟩, nofun⟩
  case typed =>
    intro f hMem
    rcases List.mem_cons.1 hMem with rfl | hMem
    · show ((a.graph.insert type object).slot? a.graph.nextId).map Slot.type = some type
      rw [ObjectGraph.slot?_insert_nextId]
      rfl
    · exact hGrows _ _ (h.typed f hMem)
  case keyed =>
    intro f hMem
    rcases List.mem_cons.1 hMem with rfl | hMem
    · exact hTells
    · exact h.keyed f hMem
  case opened => exact congrArg (a.graph.nextId :: ·) h.opened
  case nested =>
    refine List.pairwise_cons.2 ⟨fun f hMem => hOlder ?_, h.nested⟩
    rw [h.typed f hMem]
    rfl
  case made =>
    intro w hMem child hOrigin
    obtain ⟨t, hType⟩ := Option.isSome_iff_exists.1 (h.made w hMem child hOrigin)
    exact Option.isSome_iff_exists.2 ⟨t, hGrows child t hType⟩
  case older =>
    intro w hMem child hOrigin f hFrame
    rcases List.mem_cons.1 hFrame with rfl | hFrame
    · have hLess := hOlder (h.made w hMem child hOrigin)
      exact ⟨fun hSame => Nat.ne_of_lt hLess (congrArg ObjectId.index hSame), fun _ => hLess⟩
    · exact h.older w hMem child hOrigin f hFrame

/-- An element that is closed leaves those around it. -/
theorem finish (h : Keyed vocabulary tells (f :: outer) a) (id : Option String) (value : Value) :
    Keyed vocabulary tells outer (a.record (.closed f.object id value)) where
  toKeepsMaps := h.toKeepsMaps.record (.refl a.graph) rfl rfl
  typed e hMem := h.typed e (List.mem_cons_of_mem f hMem)
  keyed e hMem := h.keyed e (List.mem_cons_of_mem f hMem)
  opened := congrArg List.tail h.opened
  nested := (List.pairwise_cons.1 h.nested).2
  made := h.made
  older w hMem child hOrigin e hFrame := h.older w hMem child hOrigin e (List.mem_cons_of_mem f hFrame)

/-- The element that was closed goes into the one around it, and into a map under its own key. -/
theorem inserts_of_assign (h : Keyed vocabulary tells (f :: parent :: outer) a) {id : Option String}
    {value : Value} (hStands : f.type.StandsFor a.graph f.object value) {name : String}
    (hAssign : Assemble.assign vocabulary (.element f.object) parent.object name value f.key
      (a.record (.closed f.object id value)) = .ok () a') :
    ∃ w extent property, (w.origin = .element f.object ∧ w.object = parent.object) ∧
      a'.journal = .wrote w extent :: .closed f.object id value :: a.journal ∧
      a'.graph.accessor? w.object w.property = some property ∧
      ∀ keyType valueType insert, property.store = .map keyType valueType insert →
        w.Inserts vocabulary tells extent (.closed f.object id value :: a.journal) keyType valueType
          a'.graph := by
  have hGrows : (a.record (.closed f.object id value)).Grows a' :=
    ((Assemble.adds_assign ..).ends _).of_ok hAssign
  obtain ⟨w, owner, property, g, ⟨hOrigin, hObject, rfl⟩, hFound, hPrepared, hLater, hJournal⟩ :=
    Assemble.prepared_of_assign hAssign
  refine ⟨w, g.size, property, ⟨hOrigin, hObject⟩, hJournal, ?_,
    fun keyType valueType insert hStore => ?_⟩
  · rw [hObject]
    exact hGrows.graph.accessor? hFound
  · rw [hStore] at hPrepared
    obtain ⟨key, k, g₁, hKey, hKeyed, hUnder, hValue⟩ := Assemble.converted_of_prepare hPrepared
    refine ⟨f.object, id, value, a.journal, outer.map Frame.object, key, rfl, ?_, ?_, hOrigin, f.type, k,
      a.graph, g₁, g, hGrows.graph _ _ (h.typed f List.mem_cons_self), hStands, hKeyed, hUnder, hValue,
      rfl, hLater⟩
    · rw [h.opened, hObject]
      rfl
    · rw [← hKey]
      exact h.keyed f List.mem_cons_self

/-- Of two open elements the inner one is later. -/
theorem index_lt (h : Keyed vocabulary tells (f :: outer) a) {e : Frame H} (hMem : e ∈ outer) :
    e.object.index < f.object.index :=
  (List.pairwise_cons.1 h.nested).1 e hMem

/-- An element that goes into the one around it is later than those that did so before. -/
theorem inOrder (h : Keyed vocabulary tells (f :: parent :: outer) a) {w : Write} {extent : Nat}
    {id : Option String} {value : Value} (hOrigin : w.origin = .element f.object)
    (hObject : w.object = parent.object) :
    Entry.InOrder (.wrote w extent :: .closed f.object id value :: a.journal) := by
  refine List.pairwise_cons.2 ⟨fun earlier hMem child' child hElement' hElement => ?_, h.ordered⟩
  rw [hOrigin, Origin.element.injEq] at hElement'
  subst hElement'
  obtain ⟨hOther, hLess⟩ := h.older earlier hMem child hElement f List.mem_cons_self
  refine ⟨hOther, fun hSame => hLess ?_⟩
  rw [← hSame, hObject]
  exact h.index_lt List.mem_cons_self

/-- An element that went into the one around it is none of those that are open, and was opened after what
is open around that. -/
theorem older_placed (h : Keyed vocabulary tells (f :: parent :: outer) a) {e : Frame H}
    (hFrame : e ∈ parent :: outer) :
    f.object ≠ e.object ∧
      (parent.object.index < e.object.index → f.object.index < e.object.index) := by
  have hInner := h.index_lt hFrame
  refine ⟨fun hSame => Nat.ne_of_lt hInner (congrArg ObjectId.index hSame.symm), fun hLess => ?_⟩
  rcases List.mem_cons.1 hFrame with rfl | hFrame
  · exact absurd hLess (Nat.lt_irrefl _)
  · exact absurd hLess (Nat.lt_asymm ((h.finish none .null).index_lt hFrame))

/-- What an element stands for is placed under its key. -/
theorem place (h : Keyed vocabulary tells (f :: parent :: outer) a) {id : Option String} {value : Value}
    (hStands : f.type.StandsFor a.graph f.object value) {name : String}
    (hAssign : Assemble.assign vocabulary (.element f.object) parent.object name value f.key
      (a.record (.closed f.object id value)) = .ok () a') :
    KeyedAtRest vocabulary tells (parent :: outer) a' := by
  have hClosed := h.finish id value
  have hGrows : (a.record (.closed f.object id value)).graph.Grows a'.graph :=
    (((Assemble.adds_assign ..).ends _).of_ok hAssign).graph
  obtain ⟨w, extent, property, ⟨hOrigin, hObject⟩, hJournal, hFound, hInserts⟩ :=
    h.inserts_of_assign hStands hAssign
  have hWrites {w' : Write} (hMem : w' ∈ Entry.writes a'.journal) {child : ObjectId}
      (hElement : w'.origin = .element child) :
      (w'.object = parent.object ∧ child = f.object) ∨ w' ∈ Entry.writes a.journal := by
    rw [hJournal] at hMem
    rcases List.mem_cons.1 hMem with rfl | hMem
    · exact .inl ⟨hObject, (Origin.element.inj (hOrigin.symm.trans hElement)).symm⟩
    · exact .inr hMem
  have hKeeps : a'.KeepsMaps vocabulary tells := by
    refine hClosed.toKeepsMaps.cons hGrows hJournal ?_ (h.inOrder hOrigin hObject)
    rintro _ _ ⟨⟩
    exact ⟨property, hFound, hInserts⟩
  refine ⟨⟨hKeeps, ?typed, hClosed.keyed, ?opened, hClosed.nested, ?made, ?older⟩, ?placed⟩
  case typed => exact fun e hMem => hGrows _ _ (hClosed.typed e hMem)
  case opened =>
    rw [hJournal]
    exact hClosed.opened
  case made =>
    intro w' hMem child hElement
    have hMade : (a.graph.type? child).isSome = true := by
      rcases hWrites hMem hElement with ⟨-, rfl⟩ | hOld
      · rw [h.typed f List.mem_cons_self]
        rfl
      · exact h.made w' hOld child hElement
    obtain ⟨type, hType⟩ := Option.isSome_iff_exists.1 hMade
    exact Option.isSome_iff_exists.2 ⟨type, hGrows child type hType⟩
  case older =>
    intro w' hMem child hElement e hFrame
    rcases hWrites hMem hElement with ⟨hSame, rfl⟩ | hOld
    · rw [hSame]
      exact h.older_placed hFrame
    · exact hClosed.older w' hOld child hElement e hFrame
  case placed =>
    intro _ _ _ _ hLast
    rw [hJournal] at hLast
    cases hLast

/-- Where its assignment fails, it was assigned under its own key. -/
theorem breaks_of_assign (h : Keyed vocabulary tells (f :: parent :: outer) a) {id : Option String}
    {value : Value} (hStands : f.type.StandsFor a.graph f.object value) {name : String} {failure : Failure}
    (hAssign : Assemble.assign vocabulary (.element f.object) parent.object name value f.key
      (a.record (.closed f.object id value)) = .error failure a') :
    a'.Breaks vocabulary tells failure := by
  refine ⟨(h.finish id value).toKeepsMaps.takesTexts (Assemble.takesTexts_of_failed hAssign), ?_⟩
  intro child id' product earlier object around hJournal hOpen
  rw [Assemble.journal_of_failed hAssign] at hJournal
  obtain ⟨hClosed, rfl⟩ := List.cons.inj hJournal
  obtain ⟨rfl, rfl, rfl⟩ := Entry.closed.inj hClosed
  rw [h.opened] at hOpen
  obtain ⟨rfl, -⟩ := List.cons.inj (List.cons.inj hOpen).2
  exact ⟨f.type, name, f.key, a.record (.closed f.object id value), h.typed f List.mem_cons_self, hStands,
    h.keyed f List.mem_cons_self, hAssign⟩

end Keyed

namespace KeyedAtRest

variable {frames : List (Frame H)} {a a' : Assembly H}

/-- Before anything is made, all keys are told. -/
theorem empty (vocabulary : Vocabulary H) (tells : ObjectId → Option String → Prop)
    (defaults : List String) :
    KeyedAtRest vocabulary tells [] (Assembly.ofDefaults defaults : Assembly H) := by
  refine ⟨⟨⟨fun w extent past hSuffix => ?_, .nil⟩, fun _ hMem => ?_, fun _ hMem => ?_, rfl, .nil,
    fun _ hMem => ?_, fun _ hMem => ?_⟩, fun _ _ _ _ _ => rfl⟩
  · cases List.suffix_nil.1 hSuffix
  all_goals exact absurd hMem List.not_mem_nil

/-- The scope has nothing to do with keys. -/
theorem rescoped (h : KeyedAtRest vocabulary tells frames a) (scope : NameScope) :
    KeyedAtRest vocabulary tells frames { a with scope } :=
  ⟨⟨⟨h.inserts, h.ordered⟩, h.typed, h.keyed, h.opened, h.nested, h.made, h.older⟩, h.placed⟩

/-- Texts that are taken between tags leave the keys told. -/
theorem takesTexts (h : KeyedAtRest vocabulary tells frames a) (hTakes : a.TakesTexts a') :
    KeyedAtRest vocabulary tells frames a' := by
  refine ⟨h.toKeyed.takesTexts hTakes, fun child id product earlier hClosed => ?_⟩
  obtain ⟨new, hJournal, hNew⟩ := hTakes.journal
  rw [hJournal] at hClosed
  cases new with
  | nil => exact h.placed child id product earlier hClosed
  | cons first rest =>
    have hFirst := hNew first List.mem_cons_self
    rw [(List.cons.inj hClosed).1] at hFirst
    cases hFirst

/-- What fails then fails at no assignment of an element. -/
theorem breaks (h : KeyedAtRest vocabulary tells frames a) (failure : Failure) :
    a.Breaks vocabulary tells failure := by
  refine ⟨h.toKeepsMaps, fun child id product earlier object outer hJournal hOpen => ?_⟩
  have hOpened := h.opened
  rw [h.placed child id product earlier hJournal, hJournal, Entry.openObjects, hOpen] at hOpened
  cases hOpened

end KeyedAtRest

/-! ### Steps of the machine -/

namespace Construct

omit [Hooks H] in
/-- Inside of the root no tag may declare a namespace. -/
theorem declareNamespaces_refused {attributes : List (String × String)}
    (h : ∃ a ∈ attributes, Name.declaredQualifier a.1 ≠ none) (tag : String) (s : Construction H) :
    ∃ failure, declareNamespaces false tag attributes s = .error failure s := by
  induction attributes with
  | nil =>
    obtain ⟨a, hMem, -⟩ := h
    cases hMem
  | cons first rest ih =>
    unfold declareNamespaces
    cases hDeclared : Name.declaredQualifier first.1 with
    | some qualifier => exact ⟨_, rfl⟩
    | none =>
      obtain ⟨a, hMem, hSome⟩ := h
      rcases List.mem_cons.1 hMem with rfl | hMem
      · exact absurd hDeclared hSome
      · obtain ⟨failure, hRefused⟩ := ih ⟨a, hMem, hSome⟩
        exact ⟨failure, bind_eq_error.2 (.inl hRefused)⟩

variable {setting : Setting H} {s : Construction H}

/-- A tag that opens no element leaves the open elements and what was done. -/
theorem takesTexts_of_not_receives {t : StartTag} (hTag : s.tag = some t) (hNot : ¬ s.Receives t) :
    Ends (completeTag setting) s (fun _ s' => s.TakesTexts s') fun _ s' => s.TakesTexts s' := by
  have hSame : s.TakesTexts { s with tag := none } := .of_same rfl rfl
  obtain ⟨hSecond, hInner⟩ := not_or.1 hNot
  by_cases hEmpty : s.stack = []
  · unfold Ends
    rw [completeTag_run hTag]
    obtain ⟨a, stack, tag, root⟩ := s
    cases hEmpty
    cases root with
    | none => exact absurd ⟨rfl, rfl⟩ hSecond
    | some value => exact hSame
  · by_cases hDotted : '.' ∈ t.name.toList
    · refine (ends_completeTag_of_dotted hTag hEmpty hDotted).mono ?_ ?_
      · rintro _ s' ⟨owner, property, e, outer, -, hStack, rfl⟩
        exact .of_same rfl (by simp [Construction.frames, hStack, OpenElement.frame])
      · rintro _ s' rfl
        exact hSame
    · have hSome : ∃ a ∈ t.attributes, Name.declaredQualifier a.1 ≠ none := by
        by_contra hNone
        refine hInner ⟨hEmpty, hDotted, fun a hMem => ?_⟩
        by_contra hDeclared
        exact hNone ⟨a, hMem, hDeclared⟩
      obtain ⟨failure, hRefused⟩ :=
        declareNamespaces_refused hSome t.name { s with tag := none }
      have hDeclare : Ends (declareNamespaces s.stack.isEmpty t.name t.attributes)
          { s with tag := none } (fun _ _ => False) (fun _ s' => s.TakesTexts s') := by
        unfold Ends
        rw [List.isEmpty_eq_false_iff.2 hEmpty, hRefused]
        exact hSame
      unfold Ends
      rw [completeTag_run hTag]
      exact Ends.bind_get (.guard (fun _ => hSame) fun _ => hDeclare.bind fun _ _ hNone => hNone.elim)

end Construct

/-- What the machine keeps up about maps: the elements that are open tell their keys. -/
def Construction.Keyed (vocabulary : Vocabulary H) (tells : ObjectId → Option String → Prop)
    (s : Construction H) : Prop :=
  KeyedAtRest vocabulary tells s.frames s.assembly

/-- If the tag that is pending opens an element, its attributes tell the key of the element. -/
def Construction.Foretells (setting : Setting H) (tells : ObjectId → Option String → Prop)
    (s : Construction H) : Prop :=
  ∀ t, s.tag = some t → s.Receives t → ∀ scope, (scope =
    if s.stack.isEmpty then s.assembly.scope.declareAll t.attributes else s.assembly.scope) →
      ∀ type, s.Opens setting type → tells s.assembly.graph.nextId (scope.keyOf t.attributes)

namespace Construct

variable {setting : Setting H} {s : Construction H}

/-- An operation that only takes texts leaves the keys told, however it ends. -/
theorem keyed_of_leads (h : s.Keyed setting.vocabulary tells) {α : Type} {act : Construct H α}
    (hLeads : Leads Construction.TakesTexts act) :
    Ends act s (fun _ s' => s'.Keyed setting.vocabulary tells)
      fun failure s' => s'.assembly.Breaks setting.vocabulary tells failure := by
  have hAfter {s' : Construction H} (hTakes : s.TakesTexts s') : s'.Keyed setting.vocabulary tells := by
    rw [Construction.Keyed, hTakes.frames]
    exact h.takesTexts hTakes.assembly
  exact (hLeads.ends s).mono (fun _ _ hTakes => hAfter hTakes) fun _ _ hTakes => (hAfter hTakes).breaks _

/-- A start tag that is completed leaves the keys told, however that ends. -/
theorem keyed_completeTag (h : s.Keyed setting.vocabulary tells)
    (hForetells : s.Foretells setting tells) :
    Ends (completeTag setting) s (fun _ s' => s'.Keyed setting.vocabulary tells)
      fun failure s' => s'.assembly.Breaks setting.vocabulary tells failure := by
  cases hTag : s.tag with
  | none =>
    refine .bind_get ?_
    rw [hTag]
    exact h
  | some t =>
    by_cases hReceives : s.Receives t
    · have hRun : completeTag setting s = _ := completeTag_eq hTag hReceives rfl
      have hOpens := (opens_or_refuses setting hTag hReceives rfl).1
      unfold Ends
      rw [hRun]
      generalize hScope : (if s.stack.isEmpty then s.assembly.scope.declareAll t.attributes
        else s.assembly.scope) = scope at hOpens ⊢
      cases hNamed : scope.elementNamed setting.vocabulary t.name with
      | error failure => exact (h.rescoped scope).breaks failure
      | ok named =>
        obtain ⟨type, object⟩ := named
        -- The element is known by the key that its whole tag tells before any attribute is applied.
        have hTells := hForetells t hTag hReceives scope hScope.symm type (hOpens type object hNamed)
        have hStarted := h.toKeyed.start hTells type object scope
        have hUndeclared : ∀ a ∈ t.others, Name.declaredQualifier a.1 = none := fun a hMem => by
          simpa using (List.mem_filter.1 hMem).2
        have hFrames : (s.opened scope type object).frames =
            ⟨type, s.assembly.graph.nextId, none⟩ :: s.frames := rfl
        refine (ends_applyAttributes hUndeclared hFrames).mono (fun _ s' hApplied => ?_)
          fun failure _ hTakes => (hStarted.takesTexts hTakes).breaks failure
        obtain ⟨hTakes, hFrames⟩ := hApplied
        have hKey : (scope.keyOf t.others).or none = scope.keyOf t.attributes := by
          rw [Option.or_none]
          exact scope.metadataOf_undeclared keyAttribute t.attributes
        rw [Construction.Keyed, hFrames]
        exact hKey ▸ hStarted.takesTexts hTakes
    · refine (takesTexts_of_not_receives hTag hReceives).mono (fun _ s' hTakes => ?_)
        fun failure _ hTakes => (h.takesTexts hTakes.assembly).breaks failure
      rw [Construction.Keyed, hTakes.frames]
      exact h.takesTexts hTakes.assembly

omit [Hooks H] in
/-- What an element stands for is told without a change. -/
theorem ends_valueOf (e : OpenElement H) (s : Construction H) :
    Ends (valueOf e) s (fun v s' => s' = s ∧ e.type.StandsFor s.assembly.graph e.object v)
      fun _ s' => s' = s := by
  unfold Ends valueOf ElementType.StandsFor
  by_cases hFactory : e.type.isFactory = true
  · simp only [hFactory, if_true]
    cases s.assembly.waitingOn? e.object with
    | some b => rfl
    | none =>
      cases (s.assembly.graph.object? e.object).bind e.type.produce with
      | some v => exact ⟨rfl, rfl⟩
      | none => rfl
  · simp only [hFactory]
    exact ⟨rfl, rfl⟩

/-- An element that is closed leaves the keys told, however that ends. -/
theorem keyed_closeElement (h : s.Keyed setting.vocabulary tells) :
    Ends (closeElement setting) s (fun _ s' => s'.Keyed setting.vocabulary tells)
      fun failure s' => s'.assembly.Breaks setting.vocabulary tells failure := by
  obtain ⟨a, stack, tag, root⟩ := s
  refine .bind_get ?_
  cases stack with
  | nil => exact h.breaks _
  | cons e outer =>
    refine .bind_set ((ends_valueOf e _).mono (fun _ _ hStands => hStands) ?_ |>.bind ?_)
    · rintro failure s' rfl
      exact h.breaks failure
    · rintro v _ ⟨rfl, hStands⟩
      have hHandOver : Ends (handOver setting e v)
          ⟨a.record (.closed e.object e.identifier v), outer, tag, root⟩
          (fun _ s' => s'.Keyed setting.vocabulary tells)
          (fun failure s' => s'.assembly.Breaks setting.vocabulary tells failure) := by
        refine .bind_get ?_
        cases outer with
        | nil => exact ⟨h.toKeyed.finish e.identifier v, fun _ _ _ _ _ => rfl⟩
        | cons parent outer =>
          refine .within (.of_runs (fun _ a' hRun => ?_) fun _ a' hRun => ?_)
          · exact h.toKeyed.place hStands hRun
          · exact h.toKeyed.breaks_of_assign hStands hRun
      exact hHandOver.bind fun _ s₂ h₂ => keyed_of_leads h₂ (leads_declareIdentifier e v)

/-- An end tag leaves the keys told, however it ends. -/
theorem keyed_endTag (h : s.Keyed setting.vocabulary tells) :
    Ends (endTag setting) s (fun _ s' => s'.Keyed setting.vocabulary tells)
      fun failure s' => s'.assembly.Breaks setting.vocabulary tells failure := by
  obtain ⟨a, stack, tag, root⟩ := s
  refine .bind_get ?_
  cases stack with
  | nil => exact h.breaks _
  | cons e outer =>
    have hLast {s₁ : Construction H} (h₁ : s₁.Keyed setting.vocabulary tells) :
        Ends (if e.property.isSome then pure () else closeElement setting) s₁
          (fun _ s' => s'.Keyed setting.vocabulary tells)
          fun failure s' => s'.assembly.Breaks setting.vocabulary tells failure := by
      split
      · exact h₁
      · exact keyed_closeElement h₁
    have hEnded : Construction.Keyed setting.vocabulary tells
        ⟨a, { e with property := none, text := none } :: outer, tag, root⟩ := h
    refine .bind_set ?_
    cases e.text with
    | none => exact hLast hEnded
    | some text =>
      exact (keyed_of_leads hEnded (leads_applyText e.object e.receiver text)).bind
        fun _ s₁ h₁ => hLast h₁

/-- An event leaves the keys told, however it ends. -/
theorem keyed_feed (h : s.Keyed setting.vocabulary tells) (event : Markup.Event)
    (hForetells : event.isAttribute = false → s.Foretells setting tells) :
    Ends (feed setting event) s (fun _ s' => s'.Keyed setting.vocabulary tells)
      fun failure s' => s'.assembly.Breaks setting.vocabulary tells failure := by
  cases event with
  | «attribute» name value =>
    refine .bind_get ?_
    split
    · exact h.breaks _
    · exact h
  | start name => exact (keyed_completeTag h (hForetells rfl)).bind fun _ s₁ h₁ => h₁
  | text text =>
    exact (keyed_completeTag h (hForetells rfl)).bind fun _ s₁ h₁ =>
      keyed_of_leads h₁ (leads_keepText text)
  | finish =>
    exact (keyed_completeTag h (hForetells rfl)).bind fun _ s₁ h₁ => keyed_endTag h₁

/-- The end of a document leaves the keys told, however it ends. -/
theorem keyed_finish (h : s.Keyed setting.vocabulary tells) (hForetells : s.Foretells setting tells) :
    Ends (finish setting) s (fun _ s' => s'.Keyed setting.vocabulary tells)
      fun failure s' => s'.assembly.Breaks setting.vocabulary tells failure := by
  refine (keyed_completeTag h hForetells).bind fun _ s₁ h₁ => .bind_get ?_
  split
  · exact h₁.breaks _
  · split
    · exact h₁.breaks _
    · exact (keyed_of_leads h₁ (leads_onAssembly Assemble.leads_settle)).bind
        fun _ s₂ h₂ => .of_pure h₂

end Construct

end ObjectMarkup
