import ObjectMarkup.Evaluation
import ObjectMarkup.Proofs.Scope

/-!
# Runs of expressions

An expression is evaluated from the inside, so what holds of its outcome is shown for an extension
that is applied to gathered arguments (`Evaluation.run_induction`). Of the failures, some are faults
of the expression itself; where deferring is allowed, all others are those that an extension of the
host gave (`evaluate_eq_error`).
-/

set_option autoImplicit false

namespace ObjectMarkup

variable {H : Host} [Hooks H]

/-- A fault of an expression itself: it cannot be read, a name in it means nothing, or an extension
rejects its arguments. -/
def Failure.IsExpressionFault : Failure → Prop
  | .invalidExtension _ _ => True
  | failure => failure.kind = .markup ∨ failure.kind = .typeResolution

omit [Hooks H] in
/-- A failure of type resolution is an expression fault. -/
theorem Failure.isExpressionFault_of_typeResolution {failure : Failure}
    (h : failure.kind = .typeResolution) : failure.IsExpressionFault := by
  unfold IsExpressionFault
  split
  · trivial
  · exact .inr h

namespace Evaluation

/-- What holds of gathered arguments: `G` of what they wait for, and `P` of the values that they were
evaluated to. What came to nothing is null. -/
structure Gathered.Holds {α : Type} (P : Except Failure Outcome → Prop) (G : Identifiers → Prop)
    (value : α → Value) (g : Gathered α) : Prop where
  missing : G g.missing
  values : ∀ a ∈ g.values, value a = .null ∨ P (.ok (.value (value a)))

/-- `Gathered.Holds`, or `P` of the failure. -/
def GatheredHolds {α : Type} (P : Except Failure Outcome → Prop) (G : Identifiers → Prop)
    (value : α → Value) : Except Failure (Gathered α) → Prop
  | .ok g => g.Holds P G value
  | .error failure => P (.error failure)

/-- What has to be shown for `P` to hold of all outcomes at a site, where `G` holds of what gathered
arguments wait for. -/
structure Rules (vocabulary : Vocabulary H) (site : Site H) (P : Except Failure Outcome → Prop)
    (G : Identifiers → Prop) : Prop where
  fault : ∀ failure : Failure, failure.IsExpressionFault → P (.error failure)
  text : ∀ content, P (.ok (.value (.string content)))
  empty : G .empty
  waits : ∀ ids missing, P (.ok (.deferred ids)) → G missing → G (ids.union missing)
  applied : ∀ type ∈ vocabulary.types, ∀ key e, type.extension = some (key, e) →
    ∀ (name : String) (positional : Gathered Value) (named : Gathered (String × Value)),
      positional.Holds P G id → named.Holds P G Prod.snd →
        P (applyExtension site name e positional named)

variable {vocabulary : Vocabulary H} {scope : NameScope} {site : Site H}
  {P : Except Failure Outcome → Prop} {G : Identifiers → Prop}

/-- One more outcome in front of gathered arguments keeps what the rules maintain. -/
theorem Rules.cons (rules : Rules vocabulary site P G) {α : Type} {wrap : Value → α}
    {value : α → Value} (hWrap : ∀ v, value (wrap v) = v) {outcome : Outcome} {g : Gathered α}
    (h : P (.ok outcome)) (hRest : g.Holds P G value) : (g.cons wrap outcome).Holds P G value := by
  cases outcome with
  | value v =>
    refine ⟨hRest.missing, List.forall_mem_cons.2 ⟨.inr ?_, hRest.values⟩⟩
    rw [hWrap]
    exact h
  | nothing => exact ⟨hRest.missing, List.forall_mem_cons.2 ⟨.inl (hWrap .null), hRest.values⟩⟩
  | deferred ids => exact ⟨rules.waits ids g.missing h hRest.missing, hRest.values⟩

omit [Hooks H] in
/-- No arguments gather nothing, and wait for what nothing waits for. -/
theorem Gathered.holds_empty {α : Type} {value : α → Value} (h : G .empty) :
    (Gathered.empty : Gathered α).Holds P G value :=
  ⟨h, fun _ hMem => absurd hMem List.not_mem_nil⟩

mutual

/-- What holds of faults, of texts, and of every extension that is applied to arguments of which it
holds, holds of every expression. -/
theorem run_induction (rules : Rules vocabulary site P G) (e : Expression) :
    P (run vocabulary scope site e) := by
  obtain ⟨name, positional, named⟩ := e
  have hPositional := runPositional_induction rules positional
  have hNamed := runNamed_induction rules named
  rw [run]
  cases hFind : scope.findExtension vocabulary name with
  | error failure =>
    have hKind := NameScope.kind_of_findExtension hFind
    exact rules.fault failure (Failure.isExpressionFault_of_typeResolution hKind)
  | ok type =>
    simp only
    cases hExtension : type.extension with
    | none => exact rules.fault _ (.inr rfl)
    | some found =>
      simp only
      cases hRun : runPositional vocabulary scope site positional with
      | error failure =>
        rw [hRun] at hPositional
        exact hPositional
      | ok p =>
        rw [hRun] at hPositional
        simp only
        cases hRunNamed : runNamed vocabulary scope site named with
        | error failure =>
          rw [hRunNamed] at hNamed
          exact hNamed
        | ok n =>
          rw [hRunNamed] at hNamed
          have hMem := NameScope.mem_types_of_findExtension hFind
          exact rules.applied type hMem found.1 found.2 hExtension name p n hPositional hNamed

/-- The outcome of one argument is as the rules give it. -/
theorem runArgument_induction (rules : Rules vocabulary site P G) (a : Argument) :
    P (runArgument vocabulary scope site a) := by
  cases a with
  | text content =>
    rw [runArgument]
    exact rules.text _
  | nested e =>
    rw [runArgument]
    exact run_induction rules e

/-- The gathered positional arguments are as the rules give them. -/
theorem runPositional_induction (rules : Rules vocabulary site P G) (arguments : List Argument) :
    GatheredHolds P G id (runPositional vocabulary scope site arguments) := by
  cases arguments with
  | nil =>
    rw [runPositional]
    exact Gathered.holds_empty rules.empty
  | cons a rest =>
    have hFirst := runArgument_induction rules a
    have hRest := runPositional_induction rules rest
    rw [runPositional]
    cases hRun : runArgument vocabulary scope site a with
    | error failure =>
      rw [hRun] at hFirst
      exact hFirst
    | ok outcome =>
      rw [hRun] at hFirst
      simp only
      cases hOthers : runPositional vocabulary scope site rest with
      | error failure =>
        rw [hOthers] at hRest
        exact hRest
      | ok g =>
        rw [hOthers] at hRest
        exact rules.cons (fun _ => rfl) hFirst hRest

/-- The gathered named arguments are as the rules give them. -/
theorem runNamed_induction (rules : Rules vocabulary site P G) (arguments : List NamedArgument) :
    GatheredHolds P G Prod.snd (runNamed vocabulary scope site arguments) := by
  cases arguments with
  | nil =>
    rw [runNamed]
    exact Gathered.holds_empty rules.empty
  | cons a rest =>
    obtain ⟨name, value⟩ := a
    have hFirst := runArgument_induction rules value
    have hRest := runNamed_induction rules rest
    rw [runNamed]
    cases hRun : runArgument vocabulary scope site value with
    | error failure =>
      rw [hRun] at hFirst
      exact hFirst
    | ok outcome =>
      rw [hRun] at hFirst
      simp only
      cases hOthers : runNamed vocabulary scope site rest with
      | error failure =>
        rw [hOthers] at hRest
        exact hRest
      | ok g =>
        rw [hOthers] at hRest
        exact rules.cons (fun _ => rfl) hFirst hRest

end

end Evaluation

end ObjectMarkup
