import ObjectMarkup.Operation

/-!
# Runs of operations

An operation is read in three ways here. A run that succeeds falls apart into the runs of its steps
(`bind_eq_ok`), which is how the effect of a successful operation is read off. A run as seen from
outside (`outcome`) forgets the state that a failure leaves behind; two operations with the same
outcomes are interchangeable for whoever stops at the first failure. And where the failures of an
operation can come from (`FailsWith`) is told step by step.

What holds at the end of a run, whether it succeeds or fails, is told by `Ends`. It has a rule for
each way in which operations are put together.
-/

set_option autoImplicit false

namespace ObjectMarkup

namespace Operation

variable {σ τ α β : Type}

/-! ### Single steps -/

/-- An operation that only gives a value changes nothing. -/
@[simp] theorem pure_run (a : α) (s : σ) : (pure a : Operation σ α) s = .ok a s := rfl

/-- An operation that only fails changes nothing. -/
@[simp] theorem throw_run (failure : Failure) (s : σ) :
    (throw failure : Operation σ α) s = .error failure s := rfl

/-- A result that is there already is given, and nothing changes. -/
@[simp] theorem ofExcept_ok_run (a : α) (s : σ) :
    (ofExcept (.ok a) : Operation σ α) s = .ok a s := rfl

/-- A failure that is there already is reported, and nothing changes. -/
@[simp] theorem ofExcept_error_run (failure : Failure) (s : σ) :
    (ofExcept (.error failure) : Operation σ α) s = .error failure s := rfl

/-! ### Successful runs -/

/-- A sequence succeeds if both of its steps do, one after the other. -/
theorem bind_eq_ok {x : Operation σ α} {f : α → Operation σ β} {s s' : σ} {b : β} :
    (x >>= f) s = .ok b s' ↔ ∃ a t, x s = .ok a t ∧ f a t = .ok b s' := by
  show EStateM.bind x f s = _ ↔ _
  unfold EStateM.bind
  cases h : x s with
  | ok a t =>
    constructor
    · intro e
      exact ⟨a, t, rfl, e⟩
    · rintro ⟨_, _, e, e'⟩
      cases e
      exact e'
  | error failure t => simp

/-- A sequence fails where its first step fails, or where the second does after the first. -/
theorem bind_eq_error {x : Operation σ α} {f : α → Operation σ β} {s s' : σ} {failure : Failure} :
    (x >>= f) s = .error failure s' ↔
      x s = .error failure s' ∨ ∃ a t, x s = .ok a t ∧ f a t = .error failure s' := by
  show EStateM.bind x f s = _ ↔ _
  unfold EStateM.bind
  cases h : x s with
  | ok a t =>
    constructor
    · intro e
      exact .inr ⟨a, t, rfl, e⟩
    · rintro (e | ⟨_, _, e, e'⟩)
      · cases e
      · cases e
        exact e'
  | error failure t => simp

/-- A result that is there already is the only one to be given. -/
theorem ofExcept_eq_ok {result : Except Failure α} {a : α} {s s' : σ} :
    (ofExcept result : Operation σ α) s = .ok a s' ↔ result = .ok a ∧ s = s' := by
  cases result <;> simp

/-- A run on a part succeeds as the run of the part does, and leaves the rest of the state. -/
theorem within_eq_ok {view : σ → τ} {update : σ → τ → σ} {act : Operation τ α} {s s' : σ} {a : α} :
    within view update act s = .ok a s' ↔ ∃ part, act (view s) = .ok a part ∧ s' = update s part := by
  unfold within
  cases act (view s) with
  | ok b part =>
    constructor
    · intro e
      cases e
      exact ⟨part, rfl, rfl⟩
    · rintro ⟨_, e, rfl⟩
      cases e
      rfl
  | error failure part => simp

/-- A failure inside of a state is one of the part, which the state then holds. -/
theorem within_eq_error {view : σ → τ} {update : σ → τ → σ} {act : Operation τ α} {s s' : σ}
    {failure : Failure} :
    within view update act s = .error failure s' ↔
      ∃ part, act (view s) = .error failure part ∧ s' = update s part := by
  unfold within
  cases act (view s) with
  | ok b part => simp
  | error failure part =>
    constructor
    · intro e
      cases e
      exact ⟨part, rfl, rfl⟩
    · rintro ⟨_, e, rfl⟩
      cases e
      rfl

/-! ### Runs as seen from outside -/

/-- What a run shows to whoever stops at the first failure: the failure, or else the result and the
state it leaves. -/
def outcome (act : Operation σ α) (s : σ) : Except Failure (α × σ) :=
  match act s with
  | .ok a s' => .ok (a, s')
  | .error failure _ => .error failure

/-- An outcome with a value tells what the operation gave and left. -/
theorem outcome_eq_ok {act : Operation σ α} {s s' : σ} {a : α} :
    act.outcome s = .ok (a, s') ↔ act s = .ok a s' := by
  unfold outcome
  cases act s <;> simp

/-- An outcome with a failure says nothing of what was left. -/
theorem outcome_eq_error {act : Operation σ α} {s : σ} {failure : Failure} :
    act.outcome s = .error failure ↔ ∃ s', act s = .error failure s' := by
  unfold outcome
  cases act s <;> simp

/-- The outcome of giving a value. -/
@[simp] theorem outcome_pure (a : α) (s : σ) :
    outcome (pure a : Operation σ α) s = .ok (a, s) := rfl

/-- The outcome of looking at the state. -/
@[simp] theorem outcome_get (s : σ) : outcome (get : Operation σ σ) s = .ok (s, s) := rfl

/-- The outcome of replacing the state. -/
@[simp] theorem outcome_set (s' s : σ) :
    outcome (set s' : Operation σ PUnit) s = .ok (⟨⟩, s') := rfl

/-- The outcome of changing the state. -/
@[simp] theorem outcome_modify (f : σ → σ) (s : σ) :
    outcome (modify f : Operation σ PUnit) s = .ok (⟨⟩, f s) := rfl

/-- The outcome of failing. -/
@[simp] theorem outcome_throw (failure : Failure) (s : σ) :
    outcome (throw failure : Operation σ α) s = .error failure := rfl

/-- The outcome of a result that is there already leaves the state as it was. -/
@[simp] theorem outcome_ofExcept (result : Except Failure α) (s : σ) :
    outcome (Operation.ofExcept result : Operation σ α) s = result.map fun a => (a, s) := by
  cases result <;> rfl

/-- A sequence shows what its second step shows after the first. -/
theorem outcome_bind (x : Operation σ α) (f : α → Operation σ β) (s : σ) :
    outcome (x >>= f) s = (outcome x s).bind fun p => outcome (f p.1) p.2 := by
  show outcome (EStateM.bind x f) s = _
  unfold outcome EStateM.bind
  cases x s <;> rfl

/-- What happens to a part of a state has the outcome that it has on its own. -/
theorem outcome_within (view : σ → τ) (update : σ → τ → σ) (act : Operation τ α) (s : σ) :
    outcome (within view update act) s =
      (outcome act (view s)).map fun p => (p.1, update s p.2) := by
  unfold outcome within
  cases act (view s) <;> rfl

section Except

variable {ε γ : Type}

/-- After a value comes what follows it. -/
@[simp] theorem except_ok_bind (a : α) (f : α → Except ε β) : (Except.ok a).bind f = f a := rfl

/-- After an error comes nothing. -/
@[simp] theorem except_error_bind (e : ε) (f : α → Except ε β) :
    (Except.error e : Except ε α).bind f = .error e := rfl

/-- A value is mapped. -/
@[simp] theorem except_ok_map (a : α) (f : α → β) : (Except.ok a : Except ε α).map f = .ok (f a) := rfl

/-- An error stays the same when values are mapped. -/
@[simp] theorem except_error_map (e : ε) (f : α → β) :
    (Except.error e : Except ε α).map f = .error e := rfl

/-- Mapping a value and going on is going on with the mapped value. -/
theorem except_map_bind (x : Except ε α) (f : α → β) (g : β → Except ε γ) :
    (x.map f).bind g = x.bind fun a => g (f a) := by
  cases x <;> rfl

/-- Mapping what comes last may be done in the last step. -/
theorem except_bind_map (x : Except ε α) (f : α → Except ε β) (g : β → γ) :
    (x.bind f).map g = x.bind fun a => (f a).map g := by
  cases x <;> rfl

/-- Steps may be grouped in both ways. -/
theorem except_bind_bind (x : Except ε α) (f : α → Except ε β) (g : β → Except ε γ) :
    (x.bind f).bind g = x.bind fun a => (f a).bind g := by
  cases x <;> rfl

/-- Mapping twice is mapping once. -/
theorem except_map_map (x : Except ε α) (f : α → β) (g : β → γ) :
    (x.map f).map g = x.map fun a => g (f a) := by
  cases x <;> rfl

/-- A last step that cannot fail is a mapping. -/
theorem except_bind_ok (x : Except ε α) (f : α → β) : (x.bind fun a => .ok (f a)) = x.map f := by
  cases x <;> rfl

/-- Two steps give a value if the first one gives what the second one needs for it. -/
theorem except_bind_eq_ok_iff {x : Except ε α} {f : α → Except ε β} {b : β} :
    x.bind f = .ok b ↔ ∃ a, x = .ok a ∧ f a = .ok b := by
  cases x <;> simp

/-- A mapped result is a value if the result is one that is mapped to it. -/
theorem except_map_eq_ok_iff {x : Except ε α} {f : α → β} {b : β} :
    x.map f = .ok b ↔ ∃ a, x = .ok a ∧ f a = b := by
  cases x <;> simp

/-- A result that is no error is a value. -/
theorem except_exists_of_isOk {x : Except ε α} (h : x.isOk = true) : ∃ a, x = .ok a := by
  cases x with
  | error e => cases h
  | ok a => exact ⟨a, rfl⟩

/-- A result that is no value is an error. -/
theorem except_exists_of_not_isOk {x : Except ε α} (h : x.isOk = false) : ∃ e, x = .error e := by
  cases x with
  | error e => exact ⟨e, rfl⟩
  | ok a => cases h

/-- A result of which a test holds is a value that passes it. -/
theorem except_exists_of_any {x : Except ε α} {p : α → Bool} (h : x.toOption.any p = true) :
    ∃ a, x = .ok a ∧ p a = true := by
  cases x with
  | error e => cases h
  | ok a => exact ⟨a, rfl, h⟩

end Except

/-! ### Failures -/

/-- Every failure of an operation has a property. -/
def FailsWith (Q : Failure → Prop) (act : Operation σ α) : Prop :=
  ∀ s failure s', act s = .error failure s' → Q failure

namespace FailsWith

variable {Q : Failure → Prop}

/-- Giving a value does not fail. -/
theorem of_pure (a : α) : FailsWith Q (pure a : Operation σ α) := by
  rintro s failure s' ⟨⟩

/-- Looking at the state does not fail. -/
theorem of_get : FailsWith Q (get : Operation σ σ) := by
  rintro s failure s' ⟨⟩

/-- Replacing the state does not fail. -/
theorem of_set (s₁ : σ) : FailsWith Q (set s₁ : Operation σ PUnit) := by
  rintro s failure s' ⟨⟩

/-- Changing the state does not fail. -/
theorem of_modify (f : σ → σ) : FailsWith Q (modify f : Operation σ PUnit) := by
  rintro s failure s' ⟨⟩

/-- Failing fails as it says. -/
theorem of_throw {failure : Failure} (h : Q failure) :
    FailsWith Q (throw failure : Operation σ α) := by
  rintro s failure s' ⟨⟩
  exact h

/-- A result that is there already fails as it says. -/
theorem of_ofExcept {result : Except Failure α} (h : ∀ failure, result = .error failure → Q failure) :
    FailsWith Q (ofExcept result : Operation σ α) := by
  intro s failure s' hRun
  cases result with
  | ok a => cases hRun
  | error failure' =>
    cases hRun
    exact h failure rfl

/-- A sequence fails as its steps do. -/
theorem bind {x : Operation σ α} {f : α → Operation σ β} (hx : FailsWith Q x)
    (hf : ∀ a, FailsWith Q (f a)) : FailsWith Q (x >>= f) := by
  intro s failure s' hRun
  rcases bind_eq_error.1 hRun with hFirst | ⟨a, t, -, hSecond⟩
  · exact hx s failure s' hFirst
  · exact hf a t failure s' hSecond

/-- What happens to a part of a state fails in the ways in which it fails on its own. -/
theorem within {view : σ → τ} {update : σ → τ → σ} {act : Operation τ α} (h : FailsWith Q act) :
    FailsWith Q (Operation.within view update act) := by
  intro s failure s' hRun
  obtain ⟨part, hPart, -⟩ := within_eq_error.1 hRun
  exact h _ failure part hPart

end FailsWith

/-- Every failure that something gives has a property. -/
def ErrsWith (Q : Failure → Prop) (x : Except Failure α) : Prop :=
  ∀ failure, x = .error failure → Q failure

/-- The failures of an operation are those of its outcomes. -/
theorem FailsWith.outcome {Q : Failure → Prop} {act : Operation σ α} (h : FailsWith Q act) (s : σ) :
    ErrsWith Q (act.outcome s) := by
  intro failure hRun
  obtain ⟨s', hError⟩ := outcome_eq_error.1 hRun
  exact h s failure s' hError

namespace ErrsWith

variable {Q : Failure → Prop}

/-- A value is no failure. -/
theorem of_ok (a : α) : ErrsWith Q (.ok a) := by
  intro failure hRun
  cases hRun

/-- A failure of the kind is one. -/
theorem of_error {failure : Failure} (h : Q failure) : ErrsWith Q (.error failure : Except _ α) := by
  rintro _ ⟨⟩
  exact h

/-- Two steps fail in the ways of either. -/
theorem bind {x : Except Failure α} {f : α → Except Failure β} (hx : ErrsWith Q x)
    (hf : ∀ a, ErrsWith Q (f a)) : ErrsWith Q (x.bind f) := by
  cases x with
  | ok a => exact hf a
  | error failure => exact of_error (hx failure rfl)

/-- Mapping the values adds no way to fail. -/
theorem map {x : Except Failure α} (hx : ErrsWith Q x) (f : α → β) : ErrsWith Q (x.map f) := by
  cases x with
  | ok a => exact of_ok (f a)
  | error failure => exact of_error (hx failure rfl)

end ErrsWith

/-! ### Both ends of a run -/

/-- A run that succeeds ends in `Q`, and one that fails ends in `E`. -/
def Ends (act : Operation σ α) (s : σ) (Q : α → σ → Prop) (E : Failure → σ → Prop) : Prop :=
  match act s with
  | .ok a s' => Q a s'
  | .error failure s' => E failure s'

namespace Ends

variable {Q : α → σ → Prop} {E : Failure → σ → Prop} {act : Operation σ α} {s : σ}

/-- Giving a value ends with it, in the same state. -/
theorem of_pure {a : α} (h : Q a s) : Ends (pure a) s Q E := h

/-- A result that is there already ends an operation in the state that it started in. -/
theorem of_ofExcept {result : Except Failure α} (hOk : ∀ a, result = .ok a → Q a s)
    (hError : ∀ failure, result = .error failure → E failure s) : Ends (ofExcept result) s Q E := by
  cases result with
  | ok a => exact hOk a rfl
  | error failure => exact hError failure rfl

/-- What holds of both kinds of runs holds of every end. -/
theorem of_runs (hOk : ∀ a s', act s = .ok a s' → Q a s')
    (hError : ∀ failure s', act s = .error failure s' → E failure s') : Ends act s Q E := by
  unfold Ends
  cases h : act s with
  | ok a s' => exact hOk a s' h
  | error failure s' => exact hError failure s' h

/-- What holds of every end holds of a run that gives a value. -/
theorem of_ok (h : Ends act s Q E) {a : α} {s' : σ} (hRun : act s = .ok a s') : Q a s' := by
  unfold Ends at h
  rwa [hRun] at h

/-- What holds of every end holds of a run that fails. -/
theorem of_error (h : Ends act s Q E) {failure : Failure} {s' : σ}
    (hRun : act s = .error failure s') : E failure s' := by
  unfold Ends at h
  rwa [hRun] at h

/-- Less may be said of an end. -/
theorem mono {Q' : α → σ → Prop} {E' : Failure → σ → Prop} (h : Ends act s Q E)
    (hOk : ∀ a s', Q a s' → Q' a s') (hError : ∀ failure s', E failure s' → E' failure s') :
    Ends act s Q' E' :=
  of_runs (fun a s' hRun => hOk a s' (h.of_ok hRun))
    fun failure s' hRun => hError failure s' (h.of_error hRun)

/-- Where a run succeeds, it may be remembered. -/
theorem with_run (h : Ends act s Q E) : Ends act s (fun a s' => act s = .ok a s' ∧ Q a s') E :=
  of_runs (fun _ _ hRun => ⟨hRun, h.of_ok hRun⟩) fun _ _ hRun => h.of_error hRun

/-- The second step starts where the first one ends. -/
theorem bind {x : Operation σ β} {f : β → Operation σ α} {R : β → σ → Prop} (hx : Ends x s R E)
    (hf : ∀ b t, R b t → Ends (f b) t Q E) : Ends (x >>= f) s Q E := by
  refine of_runs (fun a s' hRun => ?_) fun failure s' hRun => ?_
  · obtain ⟨b, t, hFirst, hSecond⟩ := bind_eq_ok.1 hRun
    exact (hf b t (hx.of_ok hFirst)).of_ok hSecond
  · rcases bind_eq_error.1 hRun with hFirst | ⟨b, t, hFirst, hSecond⟩
    · exact hx.of_error hFirst
    · exact (hf b t (hx.of_ok hFirst)).of_error hSecond

/-- An operation after one that reads the state. -/
theorem bind_get {f : σ → Operation σ α} (h : Ends (f s) s Q E) : Ends (get >>= f) s Q E := h

/-- An operation after one that replaces the state. -/
theorem bind_set {s' : σ} {f : PUnit → Operation σ α} (h : Ends (f ⟨⟩) s' Q E) :
    Ends (set s' >>= f) s Q E := h

/-- A check that fails, or the rest of an operation. -/
theorem guard {c : Prop} [Decidable c] {failure : Failure} {f : PUnit → Operation σ α}
    (hFails : c → E failure s) (hRest : ¬ c → Ends (f ⟨⟩) s Q E) :
    Ends (if c then throw failure >>= f else f ⟨⟩) s Q E := by
  split
  · next h => exact hFails h
  · next h => exact hRest h

/-- What happens to a part of a state ends as it does on its own, with the rest left alone. -/
theorem within {view : σ → τ} {update : σ → τ → σ} {part : Operation τ α}
    (h : Ends part (view s) (fun a t => Q a (update s t)) fun failure t => E failure (update s t)) :
    Ends (Operation.within view update part) s Q E := by
  refine of_runs (fun a s' hRun => ?_) fun failure s' hRun => ?_
  · obtain ⟨t, hPart, rfl⟩ := within_eq_ok.1 hRun
    exact h.of_ok hPart
  · obtain ⟨t, hPart, rfl⟩ := within_eq_error.1 hRun
    exact h.of_error hPart

end Ends

end Operation

end ObjectMarkup
