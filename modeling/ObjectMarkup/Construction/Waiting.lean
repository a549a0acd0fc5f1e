import ObjectMarkup.Construction.Assembly

/-!
# Bindings that wait

A text that needs identifiers not declared yet waits in a queue. When identifiers are declared, the
queue is drained: the bindings whose identifiers are all declared by then are evaluated again, in
the order of the queue, and the others keep their places. A binding that has to wait again goes to
the end, with what it waits for now.

At the end of the document nothing can be declared any more. One last drain is enough, because
draining declares nothing: what waits afterwards waits for an identifier that no element declares.
-/

set_option autoImplicit false

namespace ObjectMarkup

/-- Whether everything a binding waits for is declared. -/
def Binding.isReady (names : NameTable) (b : Binding) : Bool :=
  names.containsAll b.required

namespace Assembly

variable {H : Host}

/-- A binding goes behind those that wait. -/
def enqueue (s : Assembly H) (b : Binding) : Assembly H :=
  { s with waiting := s.waiting ++ [b] }

/-- The first binding that waits to put a value into an object. -/
def waitingOn? (s : Assembly H) (object : ObjectId) : Option Binding :=
  s.waiting.find? fun b => b.target == object

/-- The identifiers that are waited for and not declared. -/
def missing (s : Assembly H) : Identifiers :=
  .ofList ((s.waiting.flatMap fun b => b.required.toList).filter fun id => !s.names.contains id)

end Assembly

namespace Assemble

variable {H : Host}

/-- Takes the bindings that are ready out of those that wait, in order. -/
def takeReady : Assemble H (List Binding) := fun s =>
  let (ready, others) := s.waiting.partition (·.isReady s.names)
  .ok ready { s with waiting := others }

variable [Hooks H] (vocabulary : Vocabulary H)

/-- Evaluates a binding again. `complete` says that the document is: then a binding may wait only
for an identifier that is not declared. -/
def rerun (complete : Bool) (b : Binding) : Assemble H Unit := do
  let outcome ← evaluate vocabulary b.occurrence ⟨b.target, b.property, b.dataContext, true⟩
    b.expression
  match outcome with
  | .value v => assign vocabulary (.occurrence b.occurrence) b.target b.property v none
  | .nothing => pure ()
  | .deferred required =>
    let s ← get
    if complete && s.names.containsAll required then throw (.deferredAfterEnd b.expression)
    else set (s.enqueue { b with required })

/-- Evaluates bindings again, one after the other, up to the first failure. -/
def rerunAll (complete : Bool) : List Binding → Assemble H Unit
  | [] => pure ()
  | b :: rest => do
    rerun vocabulary complete b
    rerunAll complete rest

/-- Evaluates the bindings again that are ready now, and tells how many. -/
def drain (complete : Bool) : Assemble H Nat := do
  let ready ← takeReady
  rerunAll vocabulary complete ready
  return ready.length

/-- The last drain. Fails if a binding still waits. -/
def settle : Assemble H Unit := do
  let _ ← drain vocabulary true
  let s ← get
  if s.waiting.isEmpty then pure () else throw (.unresolvedReferences s.missing.toList)

end Assemble

end ObjectMarkup
