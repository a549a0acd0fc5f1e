import ObjectMarkup.Failure

/-!
# Operations

An operation changes a state and gives a result or fails. What it did to the state stays done also
when it fails. An operation on a part of a state is one on the whole.
-/

set_option autoImplicit false

namespace ObjectMarkup

/-- A change of a state `σ` that gives an `α` or fails. -/
abbrev Operation (σ α : Type) := EStateM Failure σ α

namespace Operation

variable {σ τ α : Type}

/-- Gives a result or fails, and leaves the state as it is. -/
def ofExcept (result : Except Failure α) : Operation σ α := fun s =>
  match result with
  | .ok a => .ok a s
  | .error failure => .error failure s

/-- Runs an operation on the part of the state that `view` shows and `update` replaces. -/
def within (view : σ → τ) (update : σ → τ → σ) (act : Operation τ α) : Operation σ α := fun s =>
  match act (view s) with
  | .ok a part => .ok a (update s part)
  | .error failure part => .error failure (update s part)

end Operation

end ObjectMarkup
