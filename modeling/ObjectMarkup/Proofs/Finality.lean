import ObjectMarkup.Proofs.Settlement
import ObjectMarkup.Proofs.CoarseObligations

/-!
# Products are final

What a factory makes of its object is handed out when the element closes: to the element around it,
to the root and to the name table. So nothing may go into the object afterwards. Two things see to
that (`Finality`): a binding is for an object that is open or is no factory's, and whatever else is
written goes into the innermost open element. A factory does not close while a binding is for its
object, so from then on nothing reaches the object, however the run ends (`Sealed`).
-/

set_option autoImplicit false

namespace ObjectMarkup

open Operation

variable {H : Host}

/-! ### Closed factories -/

/-- What was closed still stands for the value that it stood for then, and nothing was written into
the object of a factory after its element was closed. The journal starts with its latest entry. -/
structure Sealed (g : ObjectGraph H) (journal : List Entry) : Prop where
  stands : ∀ object id value, .closed object id value ∈ journal →
    ∃ type, g.type? object = some type ∧ type.StandsFor g object value
  unwritten : ∀ later earlier object id value type,
    journal = later ++ .closed object id value :: earlier → g.type? object = some type →
      type.isFactory = true → ∀ w extent, .wrote w extent ∈ later → w.object ≠ object

/-- Whether an object is one of a factory and its element was closed. -/
def Assembled (g : ObjectGraph H) (journal : List Entry) (object : ObjectId) : Prop :=
  (∃ id value, .closed object id value ∈ journal) ∧
    ∃ type, g.type? object = some type ∧ type.isFactory = true

/-- What an object stands for depends on the object only. -/
theorem ElementType.StandsFor.of_object? {type : ElementType H} {g g' : ObjectGraph H}
    {object : ObjectId} {value : Value} (h : type.StandsFor g object value)
    (hSame : type.isFactory = true → g'.object? object = g.object? object) :
    type.StandsFor g' object value := by
  unfold StandsFor at h ⊢
  by_cases hFactory : type.isFactory = true
  · rw [if_pos hFactory] at h ⊢
    rw [hSame hFactory]
    exact h
  · rw [if_neg hFactory] at h ⊢
    exact h

namespace Sealed

variable {g g' : ObjectGraph H} {journal : List Entry}

/-- More objects change nothing of those that there were. -/
theorem enlarged (h : Sealed g journal) (hExtends : g.Extends g') : Sealed g' journal := by
  have hTypes {object : ObjectId} {id : Option String} {value : Value} {type : ElementType H}
      (hClosed : .closed object id value ∈ journal) (hType : g'.type? object = some type) :
      g.type? object = some type := by
    obtain ⟨type', hType', -⟩ := h.stands object id value hClosed
    rwa [hExtends.grows object type' hType', ← hType'] at hType
  constructor
  · intro object id value hClosed
    obtain ⟨type, hType, hStands⟩ := h.stands object id value hClosed
    refine ⟨type, hExtends.grows object type hType, hStands.of_object? fun _ => ?_⟩
    obtain ⟨slot, hSlot, -⟩ := Option.map_eq_some_iff.1 hType
    have hObject : g.object? object = some slot.object := by rw [ObjectGraph.object?, hSlot]; rfl
    rw [hObject, hExtends.object? hObject]
  · intro later earlier object id value type hJournal hType
    have hClosed : .closed object id value ∈ journal := by
      rw [hJournal]
      exact List.mem_append_right later (List.mem_cons_self ..)
    exact h.unwritten later earlier object id value type hJournal (hTypes hClosed hType)

/-- An entry that closes nothing keeps the seals, if it writes no object that is assembled. -/
theorem record (h : Sealed g journal) {entry : Entry}
    (hOpen : ∀ object id value, entry ≠ .closed object id value)
    (hWrite : ∀ w extent, entry = .wrote w extent → ¬ Assembled g journal w.object) :
    Sealed g (entry :: journal) := by
  constructor
  · intro object id value hClosed
    rcases List.mem_cons.1 hClosed with hSame | hClosed
    · exact absurd hSame.symm (hOpen object id value)
    · exact h.stands object id value hClosed
  · intro later earlier object id value type hJournal hType hFactory w extent hMem
    rcases List.cons_eq_append_iff.1 hJournal with ⟨rfl, -⟩ | ⟨later', rfl, hRest⟩
    · cases hMem
    · rcases List.mem_cons.1 hMem with hSame | hMem
      · rintro rfl
        refine hWrite w extent hSame.symm ⟨⟨id, value, ?_⟩, type, hType, hFactory⟩
        rw [hRest]
        exact List.mem_append_right later' (List.mem_cons_self ..)
      · exact h.unwritten later' earlier object id value type hRest hType hFactory w extent hMem

/-- Replacing an object that is not assembled changes nothing that a factory stands for. -/
theorem replace (h : Sealed g journal) {object : ObjectId} (hOpen : ¬ Assembled g journal object)
    (o : Instance H) : Sealed (g.replace object o) journal := by
  constructor
  · intro other id value hClosed
    obtain ⟨type, hType, hStands⟩ := h.stands other id value hClosed
    refine ⟨type, by rwa [ObjectGraph.type?_replace], hStands.of_object? fun hFactory => ?_⟩
    have hOther : other ≠ object := by
      rintro rfl
      exact hOpen ⟨⟨id, value, hClosed⟩, type, hType, hFactory⟩
    rw [ObjectGraph.object?, ObjectGraph.slot?_replace_of_ne g o hOther]
    rfl
  · intro later earlier other id value type hJournal hType
    rw [ObjectGraph.type?_replace] at hType
    exact h.unwritten later earlier other id value type hJournal hType

/-- An element that is closed is sealed with what it stands for. -/
theorem close (h : Sealed g journal) {type : ElementType H} {object : ObjectId} {value : Value}
    (hType : g.type? object = some type) (hStands : type.StandsFor g object value)
    (id : Option String) : Sealed g (.closed object id value :: journal) := by
  constructor
  · intro other id' value' hClosed
    rcases List.mem_cons.1 hClosed with hSame | hClosed
    · cases hSame
      exact ⟨type, hType, hStands⟩
    · exact h.stands other id' value' hClosed
  · intro later earlier other id' value' type' hJournal hType' hFactory w extent hMem
    rcases List.cons_eq_append_iff.1 hJournal with ⟨rfl, -⟩ | ⟨later', rfl, hRest⟩
    · cases hMem
    · rcases List.mem_cons.1 hMem with hSame | hMem
      · cases hSame
      · exact h.unwritten later' earlier other id' value' type' hRest hType' hFactory w extent hMem

end Sealed

/-! ### The invariant -/

/-- Bindings are for objects that are open or are no factory's, and what is closed is sealed. -/
structure Finality (m : Moment H) : Prop where
  typed : ∀ e ∈ m.path, m.graph.type? e.object = some e.type
  distinct : (m.path.map Enclosing.object).Nodup
  bound : ∀ b ∈ m.bindings, (∃ e ∈ m.path, e.object = b.target) ∨
    ∃ type, m.graph.type? b.target = some type ∧ type.isFactory = false
  closed : ∀ object id value, .closed object id value ∈ m.journal → ∀ e ∈ m.path, e.object ≠ object
  sealed : Sealed m.graph m.journal

namespace Finality

variable {m : Moment H}

/-- Nothing goes into an object that is assembled. -/
theorem not_assembled (h : Finality m) {object : ObjectId} (hAdmits : m.Admits object) :
    ¬ Assembled m.graph m.journal object := by
  have hOpen {e : Enclosing H} (hMem : e ∈ m.path) : ¬ Assembled m.graph m.journal e.object := by
    rintro ⟨⟨id, value, hClosed⟩, -⟩
    exact h.closed e.object id value hClosed e hMem rfl
  rcases hAdmits with ⟨b, hMem, rfl⟩ | ⟨e, hTop, rfl⟩
  · rcases h.bound b hMem with ⟨e, hPath, hSame⟩ | ⟨type, hType, hNone⟩
    · rw [← hSame]
      exact hOpen hPath
    · rintro ⟨-, type', hType', hFactory⟩
      rw [hType, Option.some.injEq] at hType'
      rw [← hType', hNone] at hFactory
      cases hFactory
  · exact hOpen (List.mem_of_mem_head? hTop)

/-- Nothing is open, bound or closed at the start. -/
theorem start : Finality (.start : Moment H) where
  typed _ hMem := absurd hMem List.not_mem_nil
  distinct := List.nodup_nil
  bound _ hMem := absurd hMem List.not_mem_nil
  closed _ _ _ hMem := absurd hMem List.not_mem_nil
  sealed := by
    refine ⟨fun _ _ _ hMem => absurd hMem List.not_mem_nil, ?_⟩
    intro later earlier object id value type hJournal
    cases later <;> cases hJournal

/-- An object that is made has a place that none had before. -/
theorem made (h : Finality m) (type : ElementType H) (fresh : Instance H) :
    Finality { m with
      path := ⟨type, m.graph.nextId⟩ :: m.path
      graph := m.graph.insert type fresh
      journal := .opened m.graph.nextId :: m.journal } := by
  have hExtends := ObjectGraph.Extends.insert m.graph type fresh
  have hFresh {t : ElementType H} : m.graph.type? m.graph.nextId ≠ some t := by
    rw [ObjectGraph.type?, (m.graph.slot?_eq_none_iff m.graph.nextId).2 (Nat.le_refl _)]
    exact (Option.some_ne_none t).symm
  have hEntries {object : ObjectId} {id : Option String} {value : Value}
      (hMem : .closed object id value ∈ Entry.opened m.graph.nextId :: m.journal) :
      .closed object id value ∈ m.journal := by
    simpa using hMem
  refine ⟨?_, ?_, ?_, ?_, ?_⟩
  · intro e hMem
    rcases List.mem_cons.1 hMem with rfl | hMem
    · rw [ObjectGraph.type?, ObjectGraph.slot?_insert_nextId]
      rfl
    · exact hExtends.grows _ _ (h.typed e hMem)
  · refine List.nodup_cons.2 ⟨fun hMem => ?_, h.distinct⟩
    obtain ⟨e, hPath, hSame⟩ := List.mem_map.1 hMem
    have hType := h.typed e hPath
    rw [hSame] at hType
    exact hFresh hType
  · intro b hMem
    rcases h.bound b hMem with ⟨e, hPath, hSame⟩ | ⟨type', hType, hNone⟩
    · exact .inl ⟨e, List.mem_cons_of_mem _ hPath, hSame⟩
    · exact .inr ⟨type', hExtends.grows _ _ hType, hNone⟩
  · intro object id value hMem e hPath
    rcases List.mem_cons.1 hPath with rfl | hPath
    · rintro rfl
      obtain ⟨type', hType, -⟩ := h.sealed.stands _ id value (hEntries hMem)
      exact hFresh hType
    · exact h.closed object id value (hEntries hMem) e hPath
  · refine (h.sealed.enlarged hExtends).record (fun object id value hSame => ?_) fun w extent hSame => ?_
    · cases hSame
    · cases hSame

/-- A write goes where it may, and leaves what is sealed. -/
theorem assigned (h : Finality m) {object : ObjectId} {g : ObjectGraph H} (o : Instance H)
    {w : Write} (hAdmits : m.Admits object) (hExtends : m.graph.Extends g) (hObject : w.object = object) :
    Finality { m with graph := g.replace object o, journal := .wrote w g.size :: m.journal } := by
  have hGrows : m.graph.Grows (g.replace object o) := hExtends.grows.trans (.replace g object o)
  have hSealed := h.sealed.enlarged hExtends
  have hOpen : ¬ Assembled g m.journal object := by
    rintro ⟨⟨id, value, hClosed⟩, type, hType, hFactory⟩
    obtain ⟨type', hType', -⟩ := h.sealed.stands object id value hClosed
    have hSame := hExtends.grows object type' hType'
    rw [hType] at hSame
    cases hSame
    exact h.not_assembled hAdmits ⟨⟨id, value, hClosed⟩, type, hType', hFactory⟩
  have hEntries {object' : ObjectId} {id : Option String} {value : Value}
      (hMem : .closed object' id value ∈ Entry.wrote w g.size :: m.journal) :
      .closed object' id value ∈ m.journal := by
    simpa using hMem
  refine ⟨fun e hMem => hGrows _ _ (h.typed e hMem), h.distinct, fun b hMem => ?_,
    fun _ _ _ hMem => h.closed _ _ _ (hEntries hMem), ?_⟩
  · rcases h.bound b hMem with hPath | ⟨type, hType, hNone⟩
    · exact .inl hPath
    · exact .inr ⟨type, hGrows _ _ hType, hNone⟩
  · refine (hSealed.replace hOpen o).record (by rintro _ _ _ ⟨⟩) ?_
    rintro w' extent ⟨⟩ ⟨hClosed, type, hType, hFactory⟩
    rw [hObject] at hClosed hType
    rw [ObjectGraph.type?_replace] at hType
    exact hOpen ⟨hClosed, type, hType, hFactory⟩

/-- A factory that closes has no binding for its object, so none is left behind. -/
theorem ended (h : Finality m) {e : Enclosing H} {path : List (Enclosing H)} {value : Value}
    (id : Option String) (hPath : m.path = e :: path)
    (hStands : e.type.StandsFor m.graph e.object value)
    (hNone : e.type.isFactory = true → ∀ b ∈ m.bindings, b.target ≠ e.object) :
    Finality { m with path, journal := .closed e.object id value :: m.journal } := by
  have hTyped := h.typed
  have hDistinct := h.distinct
  have hBound := h.bound
  have hClosed := h.closed
  rw [hPath] at hTyped hDistinct hBound hClosed
  have hType := hTyped e (List.mem_cons_self ..)
  rw [List.map_cons, List.nodup_cons] at hDistinct
  refine ⟨fun e' hMem => hTyped e' (List.mem_cons_of_mem e hMem), hDistinct.2, ?_, ?_,
    h.sealed.close hType hStands id⟩
  · intro b hMem
    rcases hBound b hMem with ⟨e', hOpen, hSame⟩ | hOther
    · rcases List.mem_cons.1 hOpen with rfl | hOpen
      · refine .inr ⟨e'.type, by rw [← hSame]; exact hType, ?_⟩
        by_contra hFactory
        exact hNone (by simpa using hFactory) b hMem hSame.symm
      · exact .inl ⟨e', hOpen, hSame⟩
    · exact .inr hOther
  · intro object id' value' hMem e' hOpen
    rcases List.mem_cons.1 hMem with hSame | hMem
    · cases hSame
      rintro hSame
      exact hDistinct.1 (List.mem_map.2 ⟨e', hOpen, hSame⟩)
    · exact hClosed object id' value' hMem e' (List.mem_cons_of_mem e hOpen)

variable [Hooks H]

/-- How a run may fail: what is closed is sealed then, too, and no accessor of an object that is
assembled complains. An extension of the host may give any failure, this one as well. -/
def Breaks (vocabulary : Vocabulary H) (failure : Failure) (m : Moment H) : Prop :=
  Sealed m.graph m.journal ∧ ∀ owner object, failure = .instanceMismatch owner object →
    Assembled m.graph m.journal object → vocabulary.Raises failure

/-- Every step of a run keeps products final. -/
theorem upkeep (setting : Setting H) :
    Upkeep setting (fun _ => True) (fun _ => True) Finality (Breaks setting.vocabulary) where
  told _ _ _ _ := trivial
  fewer m bindings h hSubset :=
    ⟨h.typed, h.distinct, fun b hMem => h.bound b (hSubset hMem), h.closed, h.sealed⟩
  made m type fresh h _ _ := h.made type fresh
  bound m e path b h hPath hTarget _ _ _ := by
    refine ⟨h.typed, h.distinct, fun b' hMem => ?_, h.closed, h.sealed⟩
    rcases List.mem_cons.1 hMem with rfl | hMem
    · exact .inl ⟨e, by rw [hPath]; exact List.mem_cons_self .., hTarget.symm⟩
    · exact h.bound b' hMem
  evaluated m scope b target outcome h _ _ _ _ :=
    ⟨h.typed, h.distinct, h.bound, fun _ _ _ hMem => h.closed _ _ _ (by simpa using hMem),
      h.sealed.record (by rintro _ _ _ ⟨⟩) (by rintro _ _ ⟨⟩)⟩
  again m b required h hMem := by
    refine ⟨h.typed, h.distinct, fun b' hMem' => ?_, h.closed, h.sealed⟩
    rcases List.mem_cons.1 hMem' with rfl | hMem'
    · exact h.bound b hMem
    · exact h.bound b' hMem'
  assigned m object g o w value h hAdmits hExtends hObject _ _ _ :=
    h.assigned o hAdmits hExtends hObject
  closed m e path id value h hPath hStands hNone := h.ended id hPath hStands hNone
  rooted m value h _ _ := ⟨h.typed, h.distinct, h.bound, h.closed, h.sealed⟩
  named m id value names h _ _ := ⟨h.typed, h.distinct, h.bound, h.closed, h.sealed⟩
  faulted m scope target text failure h _ _ hDefer hError := by
    refine ⟨h.sealed, ?_⟩
    rintro owner object rfl -
    exact (evaluate_eq_error hDefer hError).resolve_left (·.elim nofun nofun)
  refused m g failure h hExtends hRefusal := by
    refine ⟨h.sealed.enlarged hExtends, ?_⟩
    rintro owner object rfl
    exact hRefusal.elim
  unknown m object h _ _ := ⟨h.sealed, nofun⟩
  mismatched m g owner object h hAdmits hExtends _ := by
    refine ⟨h.sealed.enlarged hExtends, ?_⟩
    rintro _ _ ⟨⟩ ⟨⟨id, value, hClosed⟩, type, hType, hFactory⟩
    obtain ⟨type', hType', -⟩ := h.sealed.stands object id value hClosed
    have hSame := hExtends.grows object type' hType'
    rw [hType] at hSame
    cases hSame
    exact absurd ⟨⟨id, value, hClosed⟩, type, hType', hFactory⟩ (h.not_assembled hAdmits)
  lost _ _ _ _ h _ := h

end Finality

/-! ### Runs -/

variable [Hooks H]

namespace Finality

omit [Hooks H] in
/-- Finality needs nothing of the scope or the texts, so it holds before any events. -/
theorem upheld (defaults : List String) (events : List Markup.Event) :
    Course.Upheld (fun _ => True) (fun _ => True) Finality events
      (.ofDefaults defaults : Construction H) :=
  .start start trivial fun _ _ => trivial

/-- A construction ends with finality or with a failure that breaks nothing sealed. -/
theorem ends_construct (c : Compiler H) (dataContext : Option Value)
    (items : List (Except Markup.Fault Markup.Event)) :
    Ends (c.construct items dataContext) (.ofDefaults c.settings.defaults)
      (fun _ s => Finality s.moment) (Construction.FailsIn (Breaks c.vocabulary)) :=
  (upkeep (c.setting dataContext)).course.construct (upheld ..) fun _ _ h => ⟨h.sealed, nofun⟩

end Finality

/-- The product of a factory is final. Between any two events, a binding that waits is for an object
that is open or whose type is no factory. And however a run ends, after a factory was closed nothing
was written into its object, no accessor of that object complained, and the object still stands for
the product that was handed out. -/
theorem Compiler.products_final (c : Compiler H) (dataContext : Option Value) :
    (∀ events s,
      Construct.feedEvents (c.setting dataContext) events (.ofDefaults c.settings.defaults) =
          .ok () s →
        ∀ b ∈ s.assembly.waiting, (∃ e ∈ s.stack, e.object = b.target) ∨
          ∃ type, s.assembly.graph.type? b.target = some type ∧ type.isFactory = false) ∧
    (∀ items root s,
      c.construct items dataContext (.ofDefaults c.settings.defaults) = .ok root s →
        Sealed s.assembly.graph s.assembly.journal) ∧
    ∀ items failure s,
      c.construct items dataContext (.ofDefaults c.settings.defaults) = .error failure s →
        Sealed s.assembly.graph s.assembly.journal ∧
          ∀ owner object, failure = .instanceMismatch owner object →
            Assembled s.assembly.graph s.assembly.journal object → c.vocabulary.Raises failure := by
  have hEnds := Finality.ends_construct c dataContext
  refine ⟨?_, fun items root s hRun => ((hEnds items).of_ok hRun).sealed,
    fun items failure s hRun => (hEnds items).of_error hRun⟩
  intro events s hFeed b hMem
  have u := Finality.upkeep (c.setting dataContext)
  have hFed := u.course.feedEvents (Finality.upheld c.settings.defaults (events ++ []))
  refine ((hFed.of_ok hFeed).stands.bound b hMem).imp_left ?_
  rintro ⟨x, hPath, hSame⟩
  obtain ⟨e, hOpen, rfl⟩ := List.mem_map.1 hPath
  exact ⟨e, hOpen, hSame⟩

namespace Cards

/-- A card with a number in it, which is boxed, and a card that is named before it is declared. -/
def boxed : List Markup.Event :=
  [ .start "Card", .attribute "xmlns:x" "urn:kiln:metadata", .attribute "Next" "{Ref b}",
    .start "int", .text "5", .finish,
    .start "Card", .attribute "x:Id" "b", .finish, .finish ]

/-- After six events the number is closed, and the first card, which is open, waits for the second. -/
theorem exists_waiting :
    ∃ s b, Construct.feedEvents (compiler.setting none) (boxed.take 6) (.ofDefaults ["urn:cards"]) =
      .ok () s ∧ b ∈ s.assembly.waiting := by
  have hFed : (outcome (Construct.feedEvents (compiler.setting none) (boxed.take 6))
      (.ofDefaults ["urn:cards"])).toOption.any (fun p => !p.2.assembly.waiting.isEmpty) = true := by
    decide +kernel
  obtain ⟨⟨_, s⟩, hRun, hSome⟩ := except_exists_of_any hFed
  obtain ⟨b, hWaits⟩ := List.exists_mem_of_ne_nil s.assembly.waiting (by simpa using hSome)
  exact ⟨s, b, outcome_eq_ok.1 hRun, hWaits⟩

/-- The boxed number and its card compile. -/
theorem exists_boxed :
    ∃ root s, compiler.construct (boxed.map .ok) none (.ofDefaults ["urn:cards"]) = .ok root s := by
  have hRun : (outcome (compiler.construct (boxed.map .ok) none) (.ofDefaults ["urn:cards"])).isOk =
      true := by
    decide +kernel
  obtain ⟨⟨root, s⟩, hRun⟩ := except_exists_of_isOk hRun
  exact ⟨root, s, outcome_eq_ok.1 hRun⟩

/-- Without its last four events, the document is not over. -/
theorem exists_broken :
    ∃ failure s, compiler.construct ((boxed.take 6).map .ok) none (.ofDefaults ["urn:cards"]) =
      .error failure s := by
  have hRun : (outcome (compiler.construct ((boxed.take 6).map .ok) none)
      (.ofDefaults ["urn:cards"])).isOk = false := by
    decide +kernel
  obtain ⟨failure, hRun⟩ := except_exists_of_not_isOk hRun
  exact ⟨failure, outcome_eq_error.1 hRun⟩

end Cards

/-- A boxed number is final, in a document that is complete and in one that breaks off. -/
theorem boxed_product_final :
    (∃ s b, Construct.feedEvents (Cards.compiler.setting none) (Cards.boxed.take 6)
          (.ofDefaults ["urn:cards"]) = .ok () s ∧ b ∈ s.assembly.waiting ∧
        ((∃ e ∈ s.stack, e.object = b.target) ∨
          ∃ type, s.assembly.graph.type? b.target = some type ∧ type.isFactory = false)) ∧
      (∃ root s, Cards.compiler.construct (Cards.boxed.map .ok) none (.ofDefaults ["urn:cards"]) =
          .ok root s ∧ Sealed s.assembly.graph s.assembly.journal) ∧
      ∃ failure s, Cards.compiler.construct ((Cards.boxed.take 6).map .ok) none
          (.ofDefaults ["urn:cards"]) = .error failure s ∧
        Sealed s.assembly.graph s.assembly.journal ∧
          ∀ owner object, failure = .instanceMismatch owner object →
            Assembled s.assembly.graph s.assembly.journal object →
              Cards.compiler.vocabulary.Raises failure := by
  obtain ⟨hBound, hOk, hError⟩ := Compiler.products_final Cards.compiler none
  obtain ⟨s, b, hFeed, hWaits⟩ := Cards.exists_waiting
  obtain ⟨root, s₁, hRun⟩ := Cards.exists_boxed
  obtain ⟨failure, s₂, hBroken⟩ := Cards.exists_broken
  exact ⟨⟨s, b, hFeed, hWaits, hBound _ s hFeed b hWaits⟩, ⟨root, s₁, hRun, hOk _ root s₁ hRun⟩,
    failure, s₂, hBroken, hError _ failure s₂ hBroken⟩

end ObjectMarkup
