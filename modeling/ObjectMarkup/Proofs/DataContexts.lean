import ObjectMarkup.Proofs.Classes
import ObjectMarkup.Proofs.Growth
import ObjectMarkup.Proofs.Lineages
import ObjectMarkup.Proofs.Unresolved

/-!
# Data contexts

A text is evaluated for a data context. It is that of the nearest element around the text that has one,
and an element has one if its data-context property holds a value which is not null. What a property
holds at a moment, the journal tells: the type of the element made an instance, and the values that were
written since were put into it (`ElementType.replay`). So the journal also tells the data context of a
moment (`ObjectGraph.contextAfter`), and it can be checked that each text was evaluated for that of its
first evaluation, then and ever after (`Scoped`).

What is open in the journal are lineages of the document, so elements that are over and elements beside
play no part in it (`Compiler.data_contexts`).
-/

set_option autoImplicit false

namespace ObjectMarkup

open Operation

variable {H : Host}

/-! ### Contexts in the journal -/

namespace ObjectGraph

/-- What the data-context property of an object holds after the entries of a journal, if that is not
null. The graph tells only the type of the object. -/
def ownContext? (g : ObjectGraph H) (journal : List Entry) (object : ObjectId) : Option Value :=
  (g.type? object).bind fun type =>
    (type.replay object journal).bind fun o =>
      ((type.property? type.dataContextProperty).bind fun property => property.get o).filter fun v =>
        !v.isNull

/-- The data context after the entries of a journal: that of the innermost open element that has one,
or else the one given. -/
def contextAfter (g : ObjectGraph H) (dataContext : Option Value) (journal : List Entry) :
    Option Value :=
  ((Entry.openObjects journal).findSome? (g.ownContext? journal)).or dataContext

variable {g g' : ObjectGraph H}

/-- The property of an object is read by the accessor of its type. -/
theorem property?_eq {object : ObjectId} {type : ElementType H} {o : Instance H}
    (hType : g.type? object = some type) (hObject : g.object? object = some o) (name : String) :
    g.property? object name = (type.property? name).bind fun property => property.get o := by
  obtain ⟨slot, hSlot, rfl⟩ := Option.map_eq_some_iff.1 hType
  rw [object?, hSlot] at hObject
  cases hObject
  simp only [property?, hSlot]
  cases slot.type.property? name <;> rfl

/-- What is found in a list depends on the members only. -/
theorem findSome?_congr {α β : Type} {f f' : α → Option β} {l : List α} (h : ∀ x ∈ l, f x = f' x) :
    l.findSome? f = l.findSome? f' := by
  induction l with
  | nil => rfl
  | cons x l ih =>
    obtain ⟨hFirst, hRest⟩ := List.forall_mem_cons.1 h
    rw [List.findSome?_cons, List.findSome?_cons, hFirst, ih hRest]

/-- What is there of the graph is all that contexts of the past need. -/
theorem contextAfter_grows (hGrows : g.Grows g') {journal : List Entry}
    (hTyped : ∀ object ∈ Entry.openObjects journal, ∃ type, g.type? object = some type)
    (dataContext : Option Value) :
    g'.contextAfter dataContext journal = g.contextAfter dataContext journal := by
  refine congrArg (·.or dataContext) (findSome?_congr fun object hMem => ?_)
  obtain ⟨type, hType⟩ := hTyped object hMem
  rw [ownContext?, ownContext?, hType, hGrows _ _ hType]

end ObjectGraph

/-- An entry without an outcome of a text is no evaluation of it. -/
theorem Entry.evaluated_ne {entry : Entry} {n : Nat} (h : entry.outcomeOf? n = none) (target : Target)
    (outcome : Outcome) : .evaluated n target outcome ≠ entry := by
  rintro rfl
  rw [outcomeOf?, if_pos rfl] at h
  cases h

/-- All evaluations up to a moment were for the right data contexts. The first of each text was for the
innermost element that was open then, and for the context of that moment; all others are for the same
target, and so will be those of the bindings that wait. -/
structure Scoped (dataContext : Option Value) (m : Moment H) : Prop where
  first : ∀ n target outcome earlier, .evaluated n target outcome :: earlier <:+ m.journal →
    (∀ target' outcome', .evaluated n target' outcome' ∉ earlier) →
      (Entry.openObjects earlier).head? = some target.object ∧
        target.dataContext = m.graph.contextAfter dataContext earlier
  again : ∀ n target outcome target' outcome', .evaluated n target outcome ∈ m.journal →
    .evaluated n target' outcome' ∈ m.journal → target' = target
  recalled : ∀ b ∈ m.bindings, ∃ outcome, .evaluated b.occurrence b.reading.1 outcome ∈ m.journal

/-- A text with this number was evaluated. -/
def Moment.Evaluated (m : Moment H) (n : Nat) : Prop :=
  ∃ target outcome, .evaluated n target outcome ∈ m.journal

namespace Scoped

variable {dataContext : Option Value} {m : Moment H}

/-- Before anything is made, all contexts are in scope. -/
theorem start (dataContext : Option Value) : Scoped dataContext (.start : Moment H) where
  first _ _ _ _ hSuffix := absurd (List.suffix_nil.1 hSuffix) (List.cons_ne_nil _ _)
  again _ _ _ _ _ hMem := absurd hMem List.not_mem_nil
  recalled _ hMem := absurd hMem List.not_mem_nil

/-- Fewer bindings leave the contexts in scope. -/
theorem fewer (h : Scoped dataContext m) (path : List (Enclosing H)) {bindings : List Binding}
    (hFewer : bindings ⊆ m.bindings) : Scoped dataContext { m with path, bindings } :=
  ⟨h.first, h.again, fun b hMem => h.recalled b (hFewer hMem)⟩

/-- A graph that grew leaves the contexts in scope, if its instances are in their classes. -/
theorem grows (h : Scoped dataContext m) {g : ObjectGraph H} (hGrows : m.graph.Grows g)
    (hClassed : Classed m.graph m.journal) : Scoped dataContext { m with graph := g } where
  first n target outcome earlier hSuffix hNone := by
    obtain ⟨hObject, hContext⟩ := h.first n target outcome earlier hSuffix hNone
    refine ⟨hObject, hContext.trans (ObjectGraph.contextAfter_grows hGrows ?_ dataContext).symm⟩
    intro object hMem
    have hOpened := List.mem_cons_of_mem (.evaluated n target outcome)
      (Entry.opened_of_mem_openObjects hMem)
    obtain ⟨type, o, hOld, -⟩ := hClassed.instances object (hSuffix.subset hOpened)
    exact ⟨type, hOld.typed⟩
  again := h.again
  recalled := h.recalled

/-- What is not an evaluation is none for another context. -/
theorem record (h : Scoped dataContext m) {entry : Entry}
    (hOther : ∀ n, entry.outcomeOf? n = none) :
    Scoped dataContext { m with journal := entry :: m.journal } where
  first n target outcome earlier hSuffix hNone := by
    rcases List.suffix_cons_iff.1 hSuffix with hSame | hSuffix
    · exact absurd (List.cons.inj hSame).1 (Entry.evaluated_ne (hOther n) target outcome)
    · exact h.first n target outcome earlier hSuffix hNone
  again n target outcome target' outcome' hMem hMem' := by
    have hOld {target : Target} {outcome : Outcome}
        (hMem : .evaluated n target outcome ∈ entry :: m.journal) :
        .evaluated n target outcome ∈ m.journal :=
      (List.mem_cons.1 hMem).resolve_left (Entry.evaluated_ne (hOther n) target outcome)
    exact h.again n target outcome target' outcome' (hOld hMem) (hOld hMem')
  recalled b hMem := by
    obtain ⟨outcome, hRead⟩ := h.recalled b hMem
    exact ⟨outcome, List.mem_cons_of_mem _ hRead⟩

/-- A text is evaluated that was not evaluated before, for the context of the moment. -/
theorem reads (h : Scoped dataContext m) {b : Binding} (outcome : Outcome)
    (hNew : ¬m.Evaluated b.occurrence)
    (hObject : (Entry.openObjects m.journal).head? = some b.target)
    (hContext : b.dataContext = m.graph.contextAfter dataContext m.journal) (occurrences : Nat) :
    Scoped dataContext { m with
      bindings := b :: m.bindings
      occurrences
      journal := .evaluated b.occurrence b.reading.1 outcome :: m.journal } where
  first n target outcome' earlier hSuffix hNone := by
    rcases List.suffix_cons_iff.1 hSuffix with hSame | hSuffix
    · cases hSame
      exact ⟨hObject, hContext⟩
    · exact h.first n target outcome' earlier hSuffix hNone
  again n target₁ outcome₁ target₂ outcome₂ hMem₁ hMem₂ := by
    rcases List.mem_cons.1 hMem₁ with hSame₁ | hMem₁ <;> rcases List.mem_cons.1 hMem₂ with hSame₂ | hMem₂
    · cases hSame₁
      cases hSame₂
      rfl
    · cases hSame₁
      exact absurd ⟨_, _, hMem₂⟩ hNew
    · cases hSame₂
      exact absurd ⟨_, _, hMem₁⟩ hNew
    · exact h.again n target₁ outcome₁ target₂ outcome₂ hMem₁ hMem₂
  recalled b' hMem := by
    rcases List.mem_cons.1 hMem with rfl | hMem
    · exact ⟨outcome, List.mem_cons_self ..⟩
    · obtain ⟨outcome', hRead⟩ := h.recalled b' hMem
      exact ⟨outcome', List.mem_cons_of_mem _ hRead⟩

/-- A binding is evaluated again, for the target that it was evaluated for. -/
theorem rereads (h : Scoped dataContext m) {b : Binding} (hMem : b ∈ m.bindings) (outcome : Outcome) :
    Scoped dataContext
      { m with journal := .evaluated b.occurrence b.reading.1 outcome :: m.journal } where
  first n target outcome' earlier hSuffix hNone := by
    rcases List.suffix_cons_iff.1 hSuffix with hSame | hSuffix
    · cases hSame
      obtain ⟨outcome₀, hRead⟩ := h.recalled b hMem
      exact absurd hRead (hNone _ _)
    · exact h.first n target outcome' earlier hSuffix hNone
  again n target₁ outcome₁ target₂ outcome₂ hMem₁ hMem₂ := by
    -- What a new evaluation is for is what the one was for that the binding recalls.
    have hTarget {target : Target} {outcome' : Outcome}
        (hRead : .evaluated n target outcome' ∈
          Entry.evaluated b.occurrence b.reading.1 outcome :: m.journal) :
        ∃ outcome'', .evaluated n target outcome'' ∈ m.journal := by
      rcases List.mem_cons.1 hRead with hSame | hRead
      · cases hSame
        exact h.recalled b hMem
      · exact ⟨outcome', hRead⟩
    obtain ⟨outcome₁', hOld₁⟩ := hTarget hMem₁
    obtain ⟨outcome₂', hOld₂⟩ := hTarget hMem₂
    exact h.again n target₁ outcome₁' target₂ outcome₂' hOld₁ hOld₂
  recalled b' hMem' := by
    obtain ⟨outcome', hRead⟩ := h.recalled b' hMem'
    exact ⟨outcome', List.mem_cons_of_mem _ hRead⟩

end Scoped

/-! ### Runs -/

/-- What a run keeps up: the journal tells what is open and that each text was evaluated, and all texts
are evaluated for the right data contexts. -/
structure Overseen (dataContext : Option Value) (m : Moment H) : Prop where
  opened : Entry.openObjects m.journal = m.path.map Enclosing.object
  evaluated : ∀ n, n < m.occurrences ↔ m.Evaluated n
  contexts : Scoped dataContext m

variable [Hooks H]

/-- The first evaluation of the latest text fails. It was for the innermost open element and for the
context of that moment, too, but the journal does not tell of it. -/
def Moment.FailsFirst (setting : Setting H) (scope : NameScope) (failure : Failure) (m : Moment H)
    (n : Nat) : Prop :=
  n + 1 = m.occurrences ∧ ∃ target text,
    (Entry.openObjects m.journal).head? = some target.object ∧
      target.dataContext = m.graph.contextAfter setting.dataContext m.journal ∧
        evaluate setting.vocabulary ⟨scope, m.graph, m.names⟩ target text = .error failure

/-- What a run leaves that fails: all its evaluations were for the right data contexts, also the one
that failed, if that was the first of its text. -/
structure FailsScoped (setting : Setting H) (scope : NameScope) (failure : Failure) (m : Moment H) :
    Prop where
  contexts : Scoped setting.dataContext m
  evaluated : ∀ n < m.occurrences, m.Evaluated n ∨ m.FailsFirst setting scope failure n

namespace Overseen

variable {setting : Setting H} {m : Moment H}

omit [Hooks H] in
/-- Before anything is made, all contexts are overseen. -/
theorem start (dataContext : Option Value) : Overseen dataContext (.start : Moment H) where
  opened := rfl
  evaluated n := by
    constructor
    · exact fun hLess => absurd hLess (Nat.not_lt_zero n)
    · rintro ⟨_, _, hMem⟩
      cases hMem
  contexts := .start dataContext

omit [Hooks H] in
/-- An entry that is no evaluation, with what else it comes with. -/
theorem record {dataContext : Option Value} (h : Overseen dataContext m)
    (hClassed : Classed m.graph m.journal) {path : List (Enclosing H)} {g : ObjectGraph H}
    (hGrows : m.graph.Grows g) {entry : Entry}
    (hOther : ∀ n, entry.outcomeOf? n = none)
    (hOpen : Entry.openObjects (entry :: m.journal) = path.map Enclosing.object) :
    Overseen dataContext { m with path, graph := g, journal := entry :: m.journal } where
  opened := hOpen
  evaluated n := by
    rw [h.evaluated n]
    constructor
    · rintro ⟨target, outcome, hMem⟩
      exact ⟨target, outcome, List.mem_cons_of_mem _ hMem⟩
    · rintro ⟨target, outcome, hMem⟩
      refine ⟨target, outcome, (List.mem_cons.1 hMem).resolve_left ?_⟩
      exact Entry.evaluated_ne (hOther n) target outcome
  contexts := by
    have hMore := (h.contexts.grows hGrows hClassed).record hOther
    exact ⟨hMore.first, hMore.again, hMore.recalled⟩

omit [Hooks H] in
/-- Objects are made besides. -/
theorem enlarged {dataContext : Option Value} (h : Overseen dataContext m)
    (hClassed : Classed m.graph m.journal) {graph : ObjectGraph H} (hExtends : m.graph.Extends graph) :
    Overseen dataContext { m with graph } :=
  ⟨h.opened, h.evaluated, h.contexts.grows hExtends.grows hClassed⟩

omit [Hooks H] in
/-- Only the bindings change. -/
theorem fewer {dataContext : Option Value} (h : Overseen dataContext m) {bindings : List Binding}
    (hRecalled : ∀ b ∈ bindings, ∃ b' ∈ m.bindings, b'.occurrence = b.occurrence ∧
      b'.reading.1 = b.reading.1) : Overseen dataContext { m with bindings } where
  opened := h.opened
  evaluated := h.evaluated
  contexts := by
    refine ⟨h.contexts.first, h.contexts.again, fun b hMem => ?_⟩
    obtain ⟨b', hMem', hNumber, hTarget⟩ := hRecalled b hMem
    obtain ⟨outcome, hRead⟩ := h.contexts.recalled b' hMem'
    rw [hNumber, hTarget] at hRead
    exact ⟨outcome, hRead⟩

omit [Hooks H] in
/-- What is overseen with one more binding is without it. -/
theorem forget {dataContext : Option Value} {b : Binding}
    (h : Overseen dataContext { m with bindings := b :: m.bindings }) : Overseen dataContext m :=
  h.fewer fun b' hMem => ⟨b', List.mem_cons_of_mem b hMem, rfl, rfl⟩

omit [Hooks H] in
/-- The data context that the machine looks up is that of the journal. -/
theorem dataContext_eq (h : Overseen setting.dataContext m) (hClassing : Classing setting.vocabulary m) :
    m.dataContext setting = m.graph.contextAfter setting.dataContext m.journal := by
  rw [Moment.dataContext, ObjectGraph.contextAfter, h.opened, List.findSome?_map]
  refine congrArg (·.or setting.dataContext) (ObjectGraph.findSome?_congr fun e hMem => ?_)
  have hType := hClassing.placed.typed e hMem
  obtain ⟨o, hObject, hOld⟩ :=
    hClassing.classed.exists_object (hClassing.placed.opened e hMem) hType
  rw [ObjectGraph.property?_eq hType hObject, Function.comp_apply, ObjectGraph.ownContext?, hType,
    Option.bind_some, hOld.made, Option.bind_some]

omit [Hooks H] in
/-- A text has not been evaluated before it is given, and is given for the context of the moment. -/
theorem of_applies (h : Overseen setting.dataContext m) (hClassing : Classing setting.vocabulary m)
    {b : Binding} (hApplies : m.Applies setting b) :
    ¬m.Evaluated b.occurrence ∧ (Entry.openObjects m.journal).head? = some b.target ∧
      b.dataContext = m.graph.contextAfter setting.dataContext m.journal := by
  obtain ⟨e, hTop, hTarget⟩ := hApplies.target
  refine ⟨?_, ?_, hApplies.dataContext.trans (h.dataContext_eq hClassing)⟩
  · rw [← h.evaluated, hApplies.number]
    exact Nat.lt_irrefl _
  · rw [h.opened, List.head?_map, Option.mem_def.1 hTop, hTarget]
    rfl

/-- Where a step fails that is no first evaluation, all first evaluations were told of. -/
theorem failsScoped (h : Overseen setting.dataContext m) (scope : NameScope) (failure : Failure) :
    FailsScoped setting scope failure m :=
  ⟨h.contexts, fun n hLess => .inl ((h.evaluated n).1 hLess)⟩

/-- What is kept up, where something may be put into an object. -/
theorem of_aims {J : Binding → Outcome → Moment H → Prop} {object : ObjectId}
    (hText : ∀ b outcome, J b outcome m →
      Upkeep.InHand (Classing setting.vocabulary) b outcome m ∧
        Overseen setting.dataContext { m with bindings := b :: m.bindings })
    (hAims : Course.Aims
      (fun m => Classing setting.vocabulary m ∧ Overseen setting.dataContext m) J m object) :
    Classing setting.vocabulary m ∧ Overseen setting.dataContext m := by
  cases hAims with
  | element e stands top => exact stands
  | text b value inHand =>
    obtain ⟨hInHand, h⟩ := hText b _ inHand
    exact ⟨(Classing.kept setting).forget hInHand.1, h.forget⟩

/-- Every step of a run evaluates for the right data contexts. -/
theorem course (setting : Setting H) (scope : NameScope) :
    Course setting (· = scope) (fun _ => True)
      (fun m => Classing setting.vocabulary m ∧ Overseen setting.dataContext m)
      (fun b outcome m => Upkeep.InHand (Classing setting.vocabulary) b outcome m ∧
        Overseen setting.dataContext { m with bindings := b :: m.bindings })
      (FailsScoped setting scope) where
  told _ _ _ _ := trivial
  sorted m bindings h hPerm :=
    ⟨(Classing.kept setting).fewer m bindings h.1 hPerm.subset,
      h.2.fewer fun b hMem => ⟨b, hPerm.subset hMem, rfl, rfl⟩⟩
  made m type fresh h hKnows hFresh := by
    refine ⟨(Classing.kept setting).made m type fresh h.1 hKnows hFresh, ?_⟩
    refine h.2.record h.1.classed (.insert m.graph type fresh) (fun _ => rfl) ?_
    rw [Entry.openObjects, h.2.opened]
    rfl
  applied m scope' b outcome h hScope _ hApplies hOutcome := by
    have hKept := (Classing.kept setting).course.applied m scope' b outcome h.1 trivial trivial hApplies
      hOutcome
    obtain ⟨hNew, hObject, hContext⟩ := h.2.of_applies h.1 hApplies
    refine ⟨hKept, h.2.opened, fun n => ?_, ?_⟩
    · show n < m.occurrences + 1 ↔ _
      rw [Nat.lt_succ_iff_lt_or_eq, h.2.evaluated n, ← hApplies.number]
      constructor
      · rintro (⟨target, outcome', hMem⟩ | rfl)
        · exact ⟨target, outcome', List.mem_cons_of_mem _ hMem⟩
        · exact ⟨_, outcome, List.mem_cons_self ..⟩
      · rintro ⟨target, outcome', hMem⟩
        rcases List.mem_cons.1 hMem with hSame | hMem
        · cases hSame
          exact .inr rfl
        · exact .inl ⟨target, outcome', hMem⟩
    · exact h.2.contexts.reads outcome hNew hObject hContext _
  reapplied m scope' b rest outcome h hScope hBindings hReady hOutcome := by
    have hKept := (Classing.kept setting).course.reapplied m scope' b rest outcome h.1 trivial hBindings
      hReady hOutcome
    have hMem : b ∈ m.bindings := by
      rw [hBindings]
      exact List.mem_cons_self ..
    have hReads := h.2.contexts.rereads hMem outcome
    refine ⟨hKept, h.2.opened, fun n => ?_, ?_⟩
    · rw [h.2.evaluated n]
      constructor
      · rintro ⟨target, outcome', hRead⟩
        exact ⟨target, outcome', List.mem_cons_of_mem _ hRead⟩
      · rintro ⟨target, outcome', hRead⟩
        rcases List.mem_cons.1 hRead with hSame | hRead
        · cases hSame
          obtain ⟨outcome₀, hOld⟩ := h.2.contexts.recalled b hMem
          exact ⟨_, outcome₀, hOld⟩
        · exact ⟨target, outcome', hRead⟩
    · refine ⟨hReads.first, hReads.again, fun b' hMem' => hReads.recalled b' ?_⟩
      rw [hBindings]
      exact hMem'
  waits m b required h := by
    refine ⟨(Classing.kept setting).course.waits m b required h.1, h.2.fewer fun b' hMem => ?_⟩
    rcases List.mem_append.1 hMem with hMem | hMem
    · exact ⟨b', List.mem_cons_of_mem b hMem, rfl, rfl⟩
    · rw [List.mem_singleton.1 hMem]
      exact ⟨b, List.mem_cons_self .., rfl, rfl⟩
  skipped m b h := ⟨(Classing.kept setting).course.skipped m b h.1, h.2.forget⟩
  assigned m b g o w value h hOrigin hObject hProperty hStored hPut := by
    have hClassing := (Classing.kept setting).forget h.1.1
    refine ⟨(Classing.kept setting).course.assigned m b g o w value h.1 hOrigin hObject hProperty
      hStored hPut, ?_⟩
    have hGrows := hStored.extends.grows.trans (.replace g w.object o)
    exact h.2.forget.record hClassing.classed hGrows (fun _ => rfl) h.2.opened
  placed m child e g o w value h hTop hClosed hOrigin hObject hStored hPut := by
    refine ⟨(Classing.kept setting).course.placed m child e g o w value h.1 hTop hClosed hOrigin hObject
      hStored hPut, ?_⟩
    have hGrows := hStored.extends.grows.trans (.replace g w.object o)
    exact h.2.record h.1.classed hGrows (fun _ => rfl) h.2.opened
  closed m e path id value h hPath hStands hNone := by
    refine ⟨(Classing.kept setting).closed m e path id value h.1 hPath hStands hNone, ?_⟩
    refine h.2.record h.1.classed (.refl m.graph) (fun _ => rfl) ?_
    rw [Entry.openObjects, h.2.opened, hPath]
    rfl
  rooted m value h hPath hClosed :=
    ⟨(Classing.kept setting).rooted m value h.1 hPath hClosed, h.2.opened, h.2.evaluated,
      ⟨h.2.contexts.first, h.2.contexts.again, h.2.contexts.recalled⟩⟩
  named m id value names h hNew hClosed :=
    ⟨(Classing.kept setting).named m id value names h.1 hNew hClosed, h.2.opened, h.2.evaluated,
      ⟨h.2.contexts.first, h.2.contexts.again, h.2.contexts.recalled⟩⟩
  unapplied m scope' b failure h hScope _ hApplies hFault := by
    subst hScope
    obtain ⟨-, hObject, hContext⟩ := h.2.of_applies h.1 hApplies
    refine ⟨⟨h.2.contexts.first, h.2.contexts.again, h.2.contexts.recalled⟩, fun n hLess => ?_⟩
    rcases Nat.lt_succ_iff_lt_or_eq.1 hLess with hOld | rfl
    · exact .inl ((h.2.evaluated n).1 hOld)
    · exact .inr ⟨rfl, b.reading.1, b.expression, hObject, hContext, hFault⟩
  faulted m scope' b rest failure h hScope hBindings _ hFault := by
    refine failsScoped ?_ scope failure
    refine h.2.fewer fun b' hMem => ⟨b', ?_, rfl, rfl⟩
    rw [hBindings]
    exact List.mem_cons_of_mem b hMem
  refused m graph failure h hExtends hRefusal := by
    have hKept : Classing setting.vocabulary m ∧ Overseen setting.dataContext m := by
      rcases h with h | ⟨b, outcome, h⟩
      · exact h
      · exact ⟨(Classing.kept setting).forget h.1.1, h.2.forget⟩
    exact (hKept.2.enlarged hKept.1.classed hExtends).failsScoped scope failure
  unknown m object hAims hAbsent := (of_aims (fun _ _ h => h) hAims).2.failsScoped scope _
  mismatched m graph owner object hAims hExtends hRefuses := by
    obtain ⟨hClassing, h⟩ := of_aims (fun _ _ h => h) hAims
    exact (h.enlarged hClassing.classed hExtends).failsScoped scope _
  lost failure m path bindings h hFewer :=
    ⟨h.contexts.fewer path hFewer, h.evaluated⟩

omit [Hooks H] in
/-- A run starts with all contexts overseen. -/
theorem upheld (c : Compiler H) (dataContext : Option Value)
    (items : List (Except Markup.Fault Markup.Event)) :
    Course.Upheld (· = c.scopeOf items) (fun _ => True)
      (fun m => Classing c.vocabulary m ∧ Overseen dataContext m)
      (items.filterMap Except.toOption) (.ofDefaults c.settings.defaults) :=
  .start ⟨.start, .start dataContext⟩ rfl fun _ _ => trivial

end Overseen

/-- Data contexts follow the tree. At each moment of a run, every text that was given was evaluated,
first for the innermost element that was open then, and for the data context that is told by what the
data-context properties of the open elements held at that moment; every evaluation after that, and every
one that is still to come, is for the same target. What is open at a moment is an element of the document
with those around it. So it is at the end of a run, of which a failing evaluation may be the last step. -/
theorem Compiler.data_contexts (c : Compiler H) (dataContext : Option Value)
    (items : List (Except Markup.Fault Markup.Event)) :
    (∀ n s, c.Reaches dataContext items n s →
      (∀ k < s.assembly.occurrences, s.moment.Evaluated k) ∧ Scoped dataContext s.moment ∧
        ∃ o : Outline H, items.take n = o.events.map .ok ∧
          o.heads.map ElementHead.object = (s.assembly.journal.filterMap Entry.opened?).reverse ∧
            Entry.Follows o.lineages s.assembly.journal) ∧
    (∀ root s, c.construct items dataContext (.ofDefaults c.settings.defaults) = .ok root s →
      ∃ t : ObjectTree H,
        Document.Tells items t
          ⟨s.assembly.graph, root, s.assembly.names, s.assembly.journal.reverse⟩ ∧
        s.assembly.Evaluates t.uses ∧ Scoped dataContext s.moment ∧
        Entry.Follows t.lineages s.assembly.journal) ∧
    ∀ failure s, c.construct items dataContext (.ofDefaults c.settings.defaults) = .error failure s →
      FailsScoped (c.setting dataContext) (c.scopeOf items) failure s.moment := by
  have u := Overseen.course (c.setting dataContext) (c.scopeOf items)
  have hStart := Overseen.upheld c dataContext items
  have hEnds := u.construct hStart fun a root h => h.2.failsScoped _ _
  refine ⟨fun n s h => ?_, fun root s hRun => ?_, fun failure s hRun => ?_⟩
  · obtain ⟨-, hOverseen⟩ := (h.upheld u hStart).stands
    obtain ⟨-, events, hTake, -, hFed⟩ := h
    obtain ⟨o, ds, hTraced⟩ := traced_of_feedEvents hFed
    refine ⟨fun k hLess => (hOverseen.evaluated k).1 hLess, hOverseen.contexts, o, ?_, ?_,
      hTraced.follows⟩
    · rw [hTake, hTraced.told]
    · rw [← (Elements.doesAll hTraced.done).opened, hTraced.objects, List.map_map]
      rfl
  · obtain ⟨t, ds, a, hBuilt⟩ := constructed_of_construct hRun
    obtain ⟨n, hDrain⟩ := hBuilt.drained
    have hEvaluates := (Assembly.Evaluates.doesAll hBuilt.done).grows (Assemble.grows_of_drain hDrain)
    rw [hBuilt.uses] at hEvaluates
    exact ⟨t, hBuilt.tells root, hEvaluates, (hEnds.of_ok hRun).2.contexts, hBuilt.follows⟩
  · obtain ⟨hContexts, hEvaluated⟩ := hEnds.of_error hRun
    exact ⟨⟨hContexts.first, hContexts.again, hContexts.recalled⟩, hEvaluated⟩

namespace Frames

/-- A frame has a source, which is the data context of what is in it. -/
def type : ElementType Record.host :=
  .assemble Record.view ⟨"urn:frames", "Frame"⟩
    [ .constructor (.ofInitial []),
      .readable "Source" .any (fun fields => fields.read "Source") (Record.Fields.put "Source"),
      .scalar "Text" .any (Record.Fields.put "Text"),
      .list "Inner" (Record.Fields.put "Inner"),
      .contentProperty "Inner",
      .dataContextProperty "Source" ]

/-- A compiler for frames. -/
def compiler : Compiler Record.host := ⟨Vocabulary.builtIn.register type, ⟨["urn:frames"], true, none⟩⟩

/-- The text of the outer frame waits for the last inner one, and in the meantime the outer frame gets a
source. The first inner frame has a source as well, and is over when the last one starts. -/
def nested : List Markup.Event :=
  [ .start "Frame", .attribute "xmlns:x" "urn:kiln:metadata", .attribute "Text" "\x7bRef b\x7d",
    .attribute "Source" "outer",
    .start "Frame", .attribute "Source" "inner", .finish,
    .start "Frame", .attribute "x:Id" "b", .attribute "Text" "\x7bDataContext\x7d", .finish, .finish ]

/-- The document of nested frames is constructed, with these evaluations in its journal. -/
theorem exists_nested :
    ∃ root s, compiler.construct (nested.map .ok) (some (.string "given")) (.ofDefaults ["urn:frames"]) =
        .ok root s ∧
      (.evaluated 0 ⟨⟨0⟩, "Text", some (.string "given"), true⟩ (.deferred (.ofList ["b"])) ∈
          s.assembly.journal ∧
        .evaluated 0 ⟨⟨0⟩, "Text", some (.string "given"), true⟩ (.value (.object ⟨2⟩)) ∈
          s.assembly.journal) ∧
      .evaluated 3 ⟨⟨2⟩, "Text", some (.string "outer"), true⟩ (.value (.string "outer")) ∈
        s.assembly.journal := by
  have hRun : (outcome (compiler.construct (nested.map .ok) (some (.string "given")))
      (.ofDefaults ["urn:frames"])).toOption.any (fun p =>
        (p.2.assembly.journal.contains
            (.evaluated 0 ⟨⟨0⟩, "Text", some (.string "given"), true⟩ (.deferred (.ofList ["b"]))) &&
          p.2.assembly.journal.contains
            (.evaluated 0 ⟨⟨0⟩, "Text", some (.string "given"), true⟩ (.value (.object ⟨2⟩)))) &&
        p.2.assembly.journal.contains
          (.evaluated 3 ⟨⟨2⟩, "Text", some (.string "outer"), true⟩ (.value (.string "outer")))) =
        true := by
    decide +kernel
  obtain ⟨⟨root, s⟩, hRun, hAll⟩ := except_exists_of_any hRun
  rw [Bool.and_eq_true, Bool.and_eq_true, List.contains_iff_mem, List.contains_iff_mem,
    List.contains_iff_mem] at hAll
  exact ⟨root, s, outcome_eq_ok.1 hRun, hAll⟩

end Frames

/-- A text that waits keeps the context that was given to the compiler, although its frame has another
one when it is evaluated again. The last frame sees the source of the frame around it, not that of the
one before it. -/
theorem frames_scoped :
    ∃ root s, Frames.compiler.construct (Frames.nested.map .ok) (some (.string "given"))
          (.ofDefaults ["urn:frames"]) = .ok root s ∧
      (.evaluated 0 ⟨⟨0⟩, "Text", some (.string "given"), true⟩ (.deferred (.ofList ["b"])) ∈
          s.assembly.journal ∧
        .evaluated 0 ⟨⟨0⟩, "Text", some (.string "given"), true⟩ (.value (.object ⟨2⟩)) ∈
          s.assembly.journal) ∧
      .evaluated 3 ⟨⟨2⟩, "Text", some (.string "outer"), true⟩ (.value (.string "outer")) ∈
          s.assembly.journal ∧
        Scoped (some (.string "given")) s.moment := by
  obtain ⟨root, s, hRun, hWaits, hSees⟩ := Frames.exists_nested
  have hFrames := Compiler.data_contexts Frames.compiler (some (.string "given"))
    (Frames.nested.map .ok)
  obtain ⟨t, -, -, hScoped, -⟩ := hFrames.2.1 root s hRun
  exact ⟨root, s, hRun, hWaits, hSees, hScoped⟩

end ObjectMarkup
