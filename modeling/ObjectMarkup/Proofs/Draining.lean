import ObjectMarkup.Proofs.Growth
import ObjectMarkup.Proofs.Release

/-!
# What a drain does

A drain is told by the bindings that it evaluates again and what each of them came to (`Rerun`). From
that follows all that it leaves: the graph, by the writes one after the other (`Rerun.TurnAll`), the
journal, and the queue, in which the bindings that were not ready come first and those that wait again
come after them (`Assemble.drain_eq_ok_iff_reruns`).

A drain that fails was a drain up to the binding that failed (`Assemble.rerunAll_eq_error`). Nothing is
declared on the way, so whatever is in the queue after the last drain waits for an identifier that is
not declared, and a report names all of these and nothing else (`Assemble.ends_settle`).
-/

set_option autoImplicit false

namespace ObjectMarkup

open Operation

variable {H : Host}

/-! ### Bindings that were evaluated again -/

/-- A binding that was evaluated again: what it came to and, if that was a value, what was written
then, with the number of objects. -/
structure Rerun where
  binding : Binding
  outcome : Outcome
  written : Option (Write × Nat)

namespace Rerun

/-- What the journal tells of it, in order. -/
def entries (r : Rerun) : List Entry :=
  .evaluated r.binding.occurrence r.binding.reading.1 r.outcome ::
    r.written.toList.map fun w => .wrote w.1 w.2

/-- The binding as it waits again, if it does. -/
def again? (r : Rerun) : Option Binding :=
  match r.outcome with
  | .deferred required => some { r.binding with required }
  | _ => none

/-- A binding that is evaluated again in the graph `g` leaves the graph `g'`: a value is converted and
goes into the property of the binding, and all else leaves the graph. Once the document is complete, a
binding waits again only for something that is not declared. -/
inductive Turns [Hooks H] (vocabulary : Vocabulary H) (scope : NameScope) (names : NameTable)
    (complete : Bool) : ObjectGraph H → Rerun → ObjectGraph H → Prop where
  | value (b : Binding) (v : Value) (w : Write) (g g₁ : ObjectGraph H) (o : Instance H)
      (evaluated : evaluate vocabulary ⟨scope, g, names⟩ b.reading.1 b.expression = .ok (.value v))
      (place : w.origin = .occurrence b.occurrence ∧ w.object = b.target ∧
        w.property = b.property ∧ w.key = none)
      (stored : w.Stored vocabulary v g g₁) (put : g₁.put? w = some o) :
      Turns vocabulary scope names complete g ⟨b, .value v, some (w, g₁.size)⟩ (g₁.replace b.target o)
  | nothing (b : Binding) (g : ObjectGraph H)
      (evaluated : evaluate vocabulary ⟨scope, g, names⟩ b.reading.1 b.expression = .ok .nothing) :
      Turns vocabulary scope names complete g ⟨b, .nothing, none⟩ g
  | deferred (b : Binding) (required : Identifiers) (g : ObjectGraph H)
      (evaluated : evaluate vocabulary ⟨scope, g, names⟩ b.reading.1 b.expression =
        .ok (.deferred required))
      (missing : complete = true → ∃ id ∈ required, names.contains id = false) :
      Turns vocabulary scope names complete g ⟨b, .deferred required, none⟩ g

/-- Bindings are evaluated again one after the other, each in the graph that the one before left. -/
inductive TurnAll [Hooks H] (vocabulary : Vocabulary H) (scope : NameScope) (names : NameTable)
    (complete : Bool) : ObjectGraph H → List Rerun → ObjectGraph H → Prop where
  | nil (g : ObjectGraph H) : TurnAll vocabulary scope names complete g [] g
  | cons (g g₁ g' : ObjectGraph H) (r : Rerun) (rs : List Rerun)
      (first : r.Turns vocabulary scope names complete g g₁)
      (rest : TurnAll vocabulary scope names complete g₁ rs g') :
      TurnAll vocabulary scope names complete g (r :: rs) g'

variable [Hooks H] {vocabulary : Vocabulary H} {scope : NameScope} {names : NameTable}
  {g g' : ObjectGraph H}

/-- What waits again at the end of the document waits for something that is not declared. -/
theorem Turns.not_isReady {r : Rerun} (h : r.Turns vocabulary scope names true g g') {b : Binding}
    (hAgain : r.again? = some b) : b.isReady names = false := by
  cases h with
  | value b v w g g₁ o evaluated place stored put => cases hAgain
  | nothing b g evaluated => cases hAgain
  | deferred b required g evaluated missing =>
    cases hAgain
    exact Binding.isReady_eq_false_iff.2 (missing rfl)

/-- At the end of a document, what waits again is not ready. -/
theorem TurnAll.not_isReady {rs : List Rerun} (h : TurnAll vocabulary scope names true g rs g') :
    ∀ b ∈ rs.filterMap again?, b.isReady names = false := by
  induction h with
  | nil g => exact fun _ hMem => absurd hMem List.not_mem_nil
  | cons g g₁ g' r rs first rest ih =>
    intro b hMem
    obtain ⟨r', hMem', hAgain⟩ := List.mem_filterMap.1 hMem
    rcases List.mem_cons.1 hMem' with rfl | hMem'
    · exact first.not_isReady hAgain
    · exact ih b (List.mem_filterMap.2 ⟨r', hMem', hAgain⟩)

end Rerun

/-- What is left of an assembly, with the graph `g`, when bindings were evaluated again. -/
def Assembly.after (a : Assembly H) (rs : List Rerun) (g : ObjectGraph H) : Assembly H :=
  { a with
    graph := g
    waiting := a.waiting ++ rs.filterMap Rerun.again?
    journal := (rs.flatMap Rerun.entries).reverse ++ a.journal }

namespace Assembly

/-- No reruns change nothing. -/
theorem after_nil (a : Assembly H) : a.after [] a.graph = a := by
  simp [after]

/-- A rerun with a value is recorded and leaves its graph. -/
theorem after_value (a : Assembly H) (b : Binding) (v : Value) (w : Write) (extent : Nat)
    (g : ObjectGraph H) :
    a.after [⟨b, .value v, some (w, extent)⟩] g =
      record { a.record (.evaluated b.occurrence b.reading.1 (.value v)) with graph := g }
        (.wrote w extent) := by
  simp [after, Rerun.entries, Rerun.again?, record]

/-- A rerun that came to nothing is recorded. -/
theorem after_nothing (a : Assembly H) (b : Binding) :
    a.after [⟨b, .nothing, none⟩] a.graph = a.record (.evaluated b.occurrence b.reading.1 .nothing) := by
  simp [after, Rerun.entries, Rerun.again?, record]

/-- A rerun that has to wait again is recorded and joins the queue. -/
theorem after_deferred (a : Assembly H) (b : Binding) (required : Identifiers) :
    a.after [⟨b, .deferred required, none⟩] a.graph =
      (a.record (.evaluated b.occurrence b.reading.1 (.deferred required))).enqueue
        { b with required } := by
  simp [after, Rerun.entries, Rerun.again?, record, enqueue]

/-- Reruns that follow each other are done together. -/
theorem after_cons (a : Assembly H) (r : Rerun) (rs : List Rerun) (g g' : ObjectGraph H) :
    (a.after [r] g).after rs g' = a.after (r :: rs) g' := by
  simp [after, List.append_assoc, ← List.filterMap_append]

/-- The queue without the bindings that are ready. -/
def withoutReady (a : Assembly H) : Assembly H :=
  { a with waiting := a.waiting.filter fun b => !b.isReady a.names }

end Assembly

namespace Assemble

variable [Hooks H] {vocabulary : Vocabulary H} {complete : Bool} {b : Binding} {a a' : Assembly H}

/-! ### Drains that succeed -/

/-- An assignment of a value that has no key. It fails if the property is a map. -/
theorem assign_eq_ok {origin : Origin} {object : ObjectId} {name : String} {value : Value} :
    assign vocabulary origin object name value none a = .ok () a' ↔
      ∃ w g o, (w.origin = origin ∧ w.object = object ∧ w.property = name ∧ w.key = none) ∧
        w.Stored vocabulary value a.graph g ∧ g.put? w = some o ∧
        a' = Assembly.record { a with graph := g.replace object o } (.wrote w g.size) := by
  constructor
  · intro h
    obtain ⟨w, hOrigin, rfl, rfl, g, o, hStored, hPut, hState⟩ := assigns_of_assign h
    refine ⟨w, g, o, ⟨hOrigin, rfl, rfl, ?_⟩, hStored, hPut, hState⟩
    obtain ⟨type, property, hType, hProperty, hStores⟩ := hStored
    unfold assign at h
    obtain ⟨_, _, hTypeOf, h⟩ := bind_eq_ok.1 h
    obtain ⟨hTyped, rfl⟩ := typeOf_eq_ok.1 hTypeOf
    cases hType.symm.trans hTyped
    obtain ⟨_, _, hPropertyOf, h⟩ := bind_eq_ok.1 h
    obtain ⟨hNamed, rfl⟩ := propertyOf_eq_ok.1 hPropertyOf
    cases hProperty.symm.trans hNamed
    cases hStore : property.store with
    | scalar target set =>
      rw [hStore] at hStores
      exact hStores.1
    | collection target push =>
      rw [hStore] at hStores
      exact hStores.1
    | list push =>
      rw [hStore] at hStores
      exact hStores.1
    | map keyTarget target insert =>
      rw [hStore] at h
      cases h
  · rintro ⟨⟨_, _, _, _, v⟩, g, o, ⟨rfl, rfl, rfl, rfl⟩, ⟨type, property, hType, hProperty, hStores⟩,
      hPut, rfl⟩
    refine bind_eq_ok.2 ⟨type, a, typeOf_eq_ok.2 ⟨hType, rfl⟩, bind_eq_ok.2
      ⟨property, a, propertyOf_eq_ok.2 ⟨hProperty, rfl⟩, ?_⟩⟩
    rw [ObjectGraph.put?_eq (hStores.extends.grows _ type hType) hProperty] at hPut
    cases hStore : property.store with
    | scalar target set =>
      rw [hStore] at hStores hPut
      refine bind_eq_ok.2 ⟨v, _, onGraph_eq_ok.2 ⟨g, hStores.2, rfl⟩, ?_⟩
      exact write_eq_ok.2 ⟨o, hPut, rfl⟩
    | collection target push =>
      rw [hStore] at hStores hPut
      refine bind_eq_ok.2 ⟨v, _, onGraph_eq_ok.2 ⟨g, hStores.2, rfl⟩, ?_⟩
      exact write_eq_ok.2 ⟨o, hPut, rfl⟩
    | list push =>
      rw [hStore] at hStores hPut
      obtain ⟨-, rfl, rfl⟩ := hStores
      exact write_eq_ok.2 ⟨o, hPut, rfl⟩
    | map keyTarget target insert =>
      rw [hStore] at hStores
      obtain ⟨_, _, _, hKey, -⟩ := hStores
      cases hKey

/-- A binding that is evaluated again turns the graph, and is told to the journal and the queue. -/
theorem rerun_eq_ok :
    rerun vocabulary complete b a = .ok () a' ↔
      ∃ r g, r.binding = b ∧ r.Turns vocabulary a.scope a.names complete a.graph g ∧
        a' = a.after [r] g := by
  unfold rerun
  rw [bind_eq_ok]
  constructor
  · rintro ⟨outcome, a₁, hEvaluate, h⟩
    obtain ⟨hOutcome, rfl⟩ := evaluate_eq_ok.1 hEvaluate
    cases outcome with
    | value v =>
      obtain ⟨w, g, o, hPlace, hStored, hPut, rfl⟩ := assign_eq_ok.1 h
      exact ⟨_, _, rfl, .value b v w _ g o hOutcome hPlace hStored hPut, (a.after_value ..).symm⟩
    | nothing =>
      cases h
      exact ⟨_, _, rfl, .nothing b _ hOutcome, (a.after_nothing b).symm⟩
    | deferred required =>
      obtain ⟨_, _, hGet, h⟩ := bind_eq_ok.1 h
      cases hGet
      split at h
      · cases h
      · next hWaits =>
        cases h
        refine ⟨_, _, rfl, .deferred b required _ hOutcome ?_, (a.after_deferred b required).symm⟩
        rintro rfl
        rw [Bool.true_and, Bool.not_eq_true] at hWaits
        exact NameTable.containsAll_eq_false_iff.1 hWaits
  · rintro ⟨r, g', rfl, hTurns, rfl⟩
    cases hTurns with
    | value b v w g g₁ o evaluated place stored put =>
      refine ⟨.value v, _, evaluate_eq_ok.2 ⟨evaluated, rfl⟩, ?_⟩
      exact assign_eq_ok.2 ⟨w, g₁, o, place, stored, put, a.after_value ..⟩
    | nothing b g evaluated =>
      refine ⟨.nothing, _, evaluate_eq_ok.2 ⟨evaluated, rfl⟩, ?_⟩
      rw [Assembly.after_nothing]
      rfl
    | deferred b required g evaluated missing =>
      refine ⟨.deferred required, _, evaluate_eq_ok.2 ⟨evaluated, rfl⟩, bind_eq_ok.2 ⟨_, _, rfl, ?_⟩⟩
      split
      · next hRefused =>
        obtain ⟨hComplete, hAll⟩ := Bool.and_eq_true_iff.1 hRefused
        cases hAll.symm.trans (NameTable.containsAll_eq_false_iff.2 (missing hComplete))
      · rw [Assembly.after_deferred]
        rfl

/-- Bindings are all evaluated again if each one is, and the assembly tells what came of it. -/
theorem rerunAll_eq_ok {held : List Binding} :
    rerunAll vocabulary complete held a = .ok () a' ↔
      ∃ rs g, rs.map Rerun.binding = held ∧
        Rerun.TurnAll vocabulary a.scope a.names complete a.graph rs g ∧ a' = a.after rs g := by
  induction held generalizing a with
  | nil =>
    constructor
    · intro h
      cases h
      exact ⟨[], _, rfl, .nil _, (Assembly.after_nil _).symm⟩
    · rintro ⟨rs, g, hBindings, hTurns, rfl⟩
      cases List.map_eq_nil_iff.1 hBindings
      cases hTurns
      rw [Assembly.after_nil]
      rfl
  | cons b rest ih =>
    unfold rerunAll
    rw [bind_eq_ok]
    constructor
    · rintro ⟨_, a₁, hFirst, hRest⟩
      obtain ⟨r, g₁, rfl, hTurns, rfl⟩ := rerun_eq_ok.1 hFirst
      obtain ⟨rs, g, rfl, hTurnAll, rfl⟩ := ih.1 hRest
      exact ⟨r :: rs, g, rfl, .cons _ g₁ g r rs hTurns hTurnAll, Assembly.after_cons _ r rs g₁ g⟩
    · rintro ⟨rs, g, hBindings, hTurns, rfl⟩
      cases hTurns with
      | nil => cases hBindings
      | cons _ g₁ _ r rs first rest =>
        cases hBindings
        refine ⟨(), _, rerun_eq_ok.2 ⟨r, g₁, rfl, first, rfl⟩, ?_⟩
        exact ih.2 ⟨rs, g, rfl, rest, (Assembly.after_cons _ r rs g₁ g).symm⟩

/-- A drain that succeeds evaluates the bindings again that are ready when it starts, and no other: each
once, and in the order of the queue. They turn the graph one after the other, as a value is written or
nothing is, and the journal tells of each in that order. What was not ready stays in the queue as it
was, and behind it come those that wait again, which differ in what they wait for only. Nothing is
declared. Once the document is complete, what waits again waits for something that is not declared. -/
theorem drain_eq_ok_iff_reruns (vocabulary : Vocabulary H) (complete : Bool) (a a' : Assembly H)
    (n : Nat) :
    drain vocabulary complete a = .ok n a' ↔
      n = (a.waiting.filter (·.isReady a.names)).length ∧
      ∃ rs g, rs.map Rerun.binding = a.waiting.filter (·.isReady a.names) ∧
        Rerun.TurnAll vocabulary a.scope a.names complete a.graph rs g ∧
        a' = { a with
          graph := g
          waiting := a.waiting.filter (fun b => !b.isReady a.names) ++ rs.filterMap Rerun.again?
          journal := (rs.flatMap Rerun.entries).reverse ++ a.journal } ∧
        (complete = true → ∀ b ∈ rs.filterMap Rerun.again?,
          ∃ id ∈ b.required, a.names.contains id = false) := by
  rw [drain_eq_ok, rerunAll_eq_ok]
  constructor
  · rintro ⟨hCount, rs, g, hBindings, hTurns, rfl⟩
    refine ⟨hCount, rs, g, hBindings, hTurns, rfl, ?_⟩
    rintro rfl b hMem
    exact Binding.isReady_eq_false_iff.1 (hTurns.not_isReady b hMem)
  · rintro ⟨hCount, rs, g, hBindings, hTurns, rfl, -⟩
    exact ⟨hCount, rs, g, hBindings, hTurns, rfl⟩

/-! ### Drains that fail -/

/-- How a binding fails to be evaluated again in `a`: its evaluation fails, or the assignment of its
value does, or it would wait after the end of the document for nothing but what is declared. -/
inductive Falls (vocabulary : Vocabulary H) (complete : Bool) (b : Binding) (a : Assembly H) :
    Failure → Assembly H → Prop where
  | evaluation (failure : Failure)
      (failed : ObjectMarkup.evaluate vocabulary a.surroundings b.reading.1 b.expression =
        .error failure) :
      Falls vocabulary complete b a failure a
  | assignment (v : Value) (failure : Failure) (a' : Assembly H)
      (evaluated : ObjectMarkup.evaluate vocabulary a.surroundings b.reading.1 b.expression =
        .ok (.value v))
      (failed : assign vocabulary (.occurrence b.occurrence) b.target b.property v none
        (a.record (.evaluated b.occurrence b.reading.1 (.value v))) = .error failure a') :
      Falls vocabulary complete b a failure a'
  | waiting (required : Identifiers)
      (evaluated : ObjectMarkup.evaluate vocabulary a.surroundings b.reading.1 b.expression =
        .ok (.deferred required))
      (ended : complete = true) (declared : ∀ id ∈ required, a.names.contains id = true) :
      Falls vocabulary complete b a (.deferredAfterEnd b.expression)
        (a.record (.evaluated b.occurrence b.reading.1 (.deferred required)))

/-- A rerun that fails leaves the assembly as its failure tells. -/
theorem falls_of_rerun {failure : Failure} (h : rerun vocabulary complete b a = .error failure a') :
    Falls vocabulary complete b a failure a' := by
  unfold rerun at h
  rcases bind_eq_error.1 h with hEvaluate | ⟨outcome, a₁, hEvaluate, h⟩
  · unfold evaluate at hEvaluate
    split at hEvaluate
    · cases hEvaluate
    · next hFailed =>
      cases hEvaluate
      exact .evaluation failure hFailed
  · obtain ⟨hOutcome, rfl⟩ := evaluate_eq_ok.1 hEvaluate
    cases outcome with
    | value v => exact .assignment v failure a' hOutcome h
    | nothing => cases h
    | deferred required =>
      rcases bind_eq_error.1 h with hGet | ⟨_, _, hGet, h⟩
      · cases hGet
      · cases hGet
        split at h
        · next hRefused =>
          cases h
          obtain ⟨hComplete, hAll⟩ := Bool.and_eq_true_iff.1 hRefused
          exact .waiting required hOutcome hComplete (List.all_eq_true.1 hAll)
        · cases h

/-- A failure leaves the queue and the names. -/
theorem Falls.rest {failure : Failure} (h : Falls vocabulary complete b a failure a') :
    a'.waiting = a.waiting ∧ a'.names = a.names := by
  cases h with
  | evaluation failure failed => exact ⟨rfl, rfl⟩
  | assignment v failure a' evaluated failed =>
    cases balks_of_assign failed with
    | refused failure a' enlarged refusal =>
      obtain ⟨g, -, rfl⟩ := enlarged
      exact ⟨rfl, rfl⟩
    | unknown absent => exact ⟨rfl, rfl⟩
    | mismatched owner w g aimed stored fails => exact ⟨rfl, rfl⟩
  | waiting required evaluated ended declared => exact ⟨rfl, rfl⟩

/-- Only an evaluation can fail with a report of its own. -/
theorem Falls.of_unresolved {missing : List String}
    (h : Falls vocabulary complete b a (.unresolvedReferences missing) a') :
    ObjectMarkup.evaluate vocabulary a.surroundings b.reading.1 b.expression =
      .error (.unresolvedReferences missing) := by
  cases h with
  | evaluation failure failed => exact failed
  | assignment v failure a' evaluated failed =>
    cases balks_of_assign failed with
    | refused failure a' enlarged refusal => exact refusal.elim

/-- If reruns fail, all are done before the one that does. -/
theorem falls_of_rerunAll {held : List Binding} {failure : Failure}
    (h : rerunAll vocabulary complete held a = .error failure a') :
    ∃ rs g b rest, held = rs.map Rerun.binding ++ b :: rest ∧
      Rerun.TurnAll vocabulary a.scope a.names complete a.graph rs g ∧
      Falls vocabulary complete b (a.after rs g) failure a' := by
  induction held generalizing a with
  | nil => cases h
  | cons b rest ih =>
    unfold rerunAll at h
    rcases bind_eq_error.1 h with hFirst | ⟨_, a₁, hFirst, hRest⟩
    · refine ⟨[], _, b, rest, rfl, .nil _, ?_⟩
      rw [Assembly.after_nil]
      exact falls_of_rerun hFirst
    · obtain ⟨r, g₁, rfl, hTurns, rfl⟩ := rerun_eq_ok.1 hFirst
      obtain ⟨rs, g, b', rest', rfl, hTurnAll, hFalls⟩ := ih hRest
      refine ⟨r :: rs, g, b', rest', rfl, .cons _ g₁ g r rs hTurns hTurnAll, ?_⟩
      rwa [Assembly.after_cons] at hFalls

/-- A drain that fails was a drain up to the binding that failed. -/
theorem falls_of_drain {failure : Failure} (h : drain vocabulary complete a = .error failure a') :
    ∃ rs g b rest, a.waiting.filter (·.isReady a.names) = rs.map Rerun.binding ++ b :: rest ∧
      Rerun.TurnAll vocabulary a.scope a.names complete a.graph rs g ∧
      Falls vocabulary complete b (a.withoutReady.after rs g) failure a' := by
  unfold drain at h
  rcases bind_eq_error.1 h with hTake | ⟨_, _, hTake, h⟩
  · rw [takeReady_run] at hTake
    cases hTake
  · rw [takeReady_run] at hTake
    cases hTake
    rcases bind_eq_error.1 h with hRun | ⟨_, _, -, h⟩
    · exact falls_of_rerunAll hRun
    · cases h

end Assemble

/-! ### The last drain -/

/-- `missing` is what the bindings of the queue wait for and what is not declared: all of it, each
identifier once, and something for each binding. -/
structure Assembly.Lacks (a : Assembly H) (missing : List String) : Prop where
  some : missing ≠ []
  increasing : missing.Pairwise (· < ·)
  exact : ∀ id, id ∈ missing ↔ a.names.contains id = false ∧ ∃ b ∈ a.waiting, id ∈ b.required
  each : ∀ b ∈ a.waiting, ∃ id ∈ b.required, id ∈ missing

/-- An identifier is missing if it is not declared and some binding waits for it. -/
theorem Assembly.mem_missing {a : Assembly H} {id : String} :
    id ∈ a.missing.toList ↔ a.names.contains id = false ∧ ∃ b ∈ a.waiting, id ∈ b.required := by
  rw [← Identifiers.mem_def, missing, Identifiers.mem_ofList, List.mem_filter, List.mem_flatMap,
    Bool.not_eq_true', and_comm]
  rfl

/-- What is missing is lacking, if something waits and none of it is ready. -/
theorem Assembly.NoneReady.lacks {a : Assembly H} (h : a.NoneReady) (hWaiting : a.waiting ≠ []) :
    a.Lacks a.missing.toList := by
  have hEach : ∀ b ∈ a.waiting, ∃ id ∈ b.required, id ∈ a.missing.toList := by
    intro b hMem
    obtain ⟨id, hRequired, hNew⟩ := Binding.isReady_eq_false_iff.1 (h b hMem)
    exact ⟨id, hRequired, mem_missing.2 ⟨hNew, b, hMem, hRequired⟩⟩
  refine ⟨?_, a.missing.increasing, fun _ => mem_missing, hEach⟩
  obtain ⟨b, hMem⟩ := List.exists_mem_of_ne_nil _ hWaiting
  obtain ⟨id, -, hMissing⟩ := hEach b hMem
  exact List.ne_nil_of_mem hMissing

namespace Assemble

variable [Hooks H] {vocabulary : Vocabulary H} {a a' : Assembly H}

omit [Hooks H] in
/-- Without the bindings that are ready, none is. -/
theorem noneReady_withoutReady (a : Assembly H) : a.withoutReady.NoneReady := by
  intro b hMem
  rw [← Bool.not_eq_true']
  exact (List.mem_filter.1 hMem).2

/-- What was evaluated again at the end of the document leaves nothing ready. -/
theorem noneReady_after {rs : List Rerun} {g : ObjectGraph H}
    (h : Rerun.TurnAll vocabulary a.scope a.names true a.graph rs g) :
    (a.withoutReady.after rs g).NoneReady := by
  intro b hMem
  rcases List.mem_append.1 hMem with hMem | hMem
  · exact noneReady_withoutReady a b hMem
  · exact h.not_isReady b hMem

/-- How the end of a document fails: a binding fails to be evaluated again, after others were; or the
drain is over, and what is lacking is reported. -/
inductive Unsettled (vocabulary : Vocabulary H) (a : Assembly H) : Failure → Assembly H → Prop where
  | falls (rs : List Rerun) (b : Binding) (rest : List Binding) (g : ObjectGraph H) (failure : Failure)
      (a' : Assembly H)
      (ready : a.waiting.filter (·.isReady a.names) = rs.map Rerun.binding ++ b :: rest)
      (turns : Rerun.TurnAll vocabulary a.scope a.names true a.graph rs g)
      (falls : Falls vocabulary true b (a.withoutReady.after rs g) failure a') :
      Unsettled vocabulary a failure a'
  | lacks (n : Nat) (missing : List String) (a' : Assembly H)
      (drained : drain vocabulary true a = .ok n a') (lacks : a'.Lacks missing) :
      Unsettled vocabulary a (.unresolvedReferences missing) a'

/-- A last drain that fails declares nothing. -/
theorem Unsettled.names_eq {failure : Failure} (h : Unsettled vocabulary a failure a') :
    a'.names = a.names := by
  cases h with
  | falls rs b rest g failure a' ready turns falls => exact falls.rest.2
  | lacks n missing a' drained lacks => exact names_of_drain drained

/-- Also a failure leaves nothing ready. -/
theorem Unsettled.noneReady {failure : Failure} (h : Unsettled vocabulary a failure a') :
    a'.NoneReady := by
  have hNames := h.names_eq
  intro b hMem
  rw [hNames]
  cases h with
  | falls rs b' rest g failure a' ready turns falls =>
    rw [falls.rest.1] at hMem
    exact noneReady_after turns b hMem
  | lacks n missing a' drained lacks =>
    obtain ⟨-, rs, g, -, hTurns, rfl, -⟩ := (drain_eq_ok_iff_reruns ..).1 drained
    exact noneReady_after hTurns b hMem

/-- The last drain fails in one of the ways that are told. -/
theorem unsettled_of_settle {failure : Failure} (h : settle vocabulary a = .error failure a') :
    Unsettled vocabulary a failure a' := by
  rcases bind_eq_error.1 h with hDrain | ⟨n, a₁, hDrain, hRest⟩
  · obtain ⟨rs, g, b, rest, hReady, hTurns, hFalls⟩ := falls_of_drain hDrain
    exact .falls rs b rest g failure a' hReady hTurns hFalls
  · rcases bind_eq_error.1 hRest with hGet | ⟨_, _, hGet, hRest⟩
    · cases hGet
    · cases hGet
      split at hRest
      · cases hRest
      · next hWaiting =>
        cases hRest
        obtain ⟨-, rs, g, -, hTurns, rfl, -⟩ := (drain_eq_ok_iff_reruns ..).1 hDrain
        rw [List.isEmpty_iff] at hWaiting
        exact .lacks n _ _ hDrain (Assembly.NoneReady.lacks (noneReady_after hTurns) hWaiting)

/-- One drain is enough at the end of the document, whatever extensions do: it leaves nothing ready,
and declares nothing, so a second one would find nothing to do. The end succeeds if nothing waits then.
If it fails, a binding failed to be evaluated again; or the drain was over, and the failure reports
what is lacking, which is something. A report of nothing can only be an evaluation's own failure. -/
theorem settle_in_one_drain (vocabulary : Vocabulary H) (a : Assembly H) :
    Ends (settle vocabulary) a
      (fun _ a' => a'.waiting = [] ∧ a'.names = a.names ∧ ∃ n, drain vocabulary true a = .ok n a')
      (fun failure a' => Unsettled vocabulary a failure a' ∧ a'.names = a.names ∧
        (∀ b ∈ a'.waiting, ∃ id ∈ b.required, a'.names.contains id = false) ∧
        drain vocabulary true a' = .ok 0 a') ∧
    ∀ a', settle vocabulary a = .error (.unresolvedReferences []) a' →
      ∃ b ∈ a.waiting, ∃ g, ObjectMarkup.evaluate vocabulary ⟨a.scope, g, a.names⟩ b.reading.1
        b.expression = .error (.unresolvedReferences []) := by
  refine ⟨.of_runs (fun _ a' hRun => ?_) fun failure a' hRun => ?_, fun a' hRun => ?_⟩
  · obtain ⟨hWaiting, n, hDrain⟩ := of_settle hRun
    exact ⟨hWaiting, names_of_drain hDrain, n, hDrain⟩
  · have hUnsettled := unsettled_of_settle hRun
    have hNone := hUnsettled.noneReady
    exact ⟨hUnsettled, hUnsettled.names_eq,
      fun b hMem => Binding.isReady_eq_false_iff.1 (hNone b hMem), drain_of_noneReady hNone⟩
  · cases unsettled_of_settle hRun with
    | falls rs b rest g failure a' ready turns falls =>
      have hMem : b ∈ a.waiting.filter (·.isReady a.names) := by
        rw [ready]
        exact List.mem_append_right _ (List.mem_cons_self ..)
      exact ⟨b, List.mem_of_mem_filter hMem, g, falls.of_unresolved⟩
    | lacks n missing a' drained lacks => exact absurd rfl lacks.some

end Assemble

end ObjectMarkup
