import ObjectMarkup.Conversion
import ObjectMarkup.Evaluation

/-!
# Assembling objects

An assembly is what a compilation has made so far: the meaning of names, the graph, the declared
identifiers, the bindings that wait for identifiers, and a journal of what was done. Its operations
keep what they did also when they fail, so that a failure can be told from the state it left.

Every text that is evaluated for a property has a number, its occurrence. A binding keeps the number
of its occurrence however often it is evaluated again, and the journal files evaluations and writes
under it.
-/

set_option autoImplicit false

namespace ObjectMarkup

/-- Where a value that goes into a property comes from. -/
inductive Origin where
  /-- The text with this number. -/
  | occurrence (number : Nat)
  /-- An element inside the object, by the object it made. -/
  | element (child : ObjectId)
deriving DecidableEq, Repr

/-- A value that went into a property, after conversion. -/
structure Write where
  origin : Origin
  object : ObjectId
  property : String
  /-- The key, if the property is a map. -/
  key : Option Value
  value : Value
deriving DecidableEq

/-- Something that was done. -/
inductive Entry where
  /-- An element was opened and its object made. -/
  | opened (object : ObjectId)
  /-- A text was evaluated. -/
  | evaluated (occurrence : Nat) (target : Target) (outcome : Outcome)
  /-- A value went into a property; the graph held `extent` objects then. -/
  | wrote (write : Write) (extent : Nat)
  /-- An element was closed; this is what it stands for. -/
  | closed (object : ObjectId) (identifier : Option String) (value : Value)
deriving DecidableEq

/-- A text that waits for identifiers. -/
structure Binding where
  occurrence : Nat
  expression : String
  target : ObjectId
  property : String
  /-- The data context at its first evaluation. -/
  dataContext : Option Value
  required : Identifiers
deriving DecidableEq

/-- What has been made so far. -/
structure Assembly (H : Host) where
  scope : NameScope
  graph : ObjectGraph H
  names : NameTable
  /-- The bindings that wait, oldest first. -/
  waiting : List Binding
  /-- The number of the next occurrence. -/
  occurrences : Nat
  /-- What was done, latest first. -/
  journal : List Entry

/-- An operation on an assembly. -/
abbrev Assemble (H : Host) := Operation (Assembly H)

namespace Assembly

variable {H : Host}

/-- An assembly of nothing, with these namespaces for unqualified names. -/
def ofDefaults (defaults : List String) : Assembly H where
  scope := .ofDefaults defaults
  graph := .empty
  names := .empty
  waiting := []
  occurrences := 0
  journal := []

/-- What evaluations read. -/
def surroundings (s : Assembly H) : Surroundings H := ⟨s.scope, s.graph, s.names⟩

/-- An assembly with one more entry in its journal, the last first. -/
def record (s : Assembly H) (entry : Entry) : Assembly H :=
  { s with journal := entry :: s.journal }

end Assembly

namespace Assemble

variable {H : Host}

/-- Lifts an act on the graph alone. -/
def onGraph {α : Type} : Operation (ObjectGraph H) α → Assemble H α :=
  Operation.within Assembly.graph fun s graph => { s with graph }

/-- The type of an object of the graph. -/
def typeOf (id : ObjectId) : Assemble H (ElementType H) := fun s =>
  match s.graph.type? id with
  | some type => .ok type s
  | none => .error (.structural (.unknownObject id)) s

/-- The property of a type with a name, which the type has to have. -/
def propertyOf (type : ElementType H) (name : String) : Assemble H (Property H) :=
  match type.property? name with
  | some property => pure property
  | none => throw (.propertyNotFound type.key.name name)

/-- A number for the next text, counted from zero. -/
def newOccurrence : Assemble H Nat := fun s =>
  .ok s.occurrences { s with occurrences := s.occurrences + 1 }

variable [Hooks H] (vocabulary : Vocabulary H)

/-- Evaluates a text for a property. -/
def evaluate (occurrence : Nat) (target : Target) (text : String) : Assemble H Outcome := fun s =>
  match ObjectMarkup.evaluate vocabulary s.surroundings target text with
  | .ok outcome => .ok outcome (s.record (.evaluated occurrence target outcome))
  | .error failure => .error failure s

/-- Puts a converted value into an object by an accessor of its type. -/
def write (owner : String) (w : Write) (act : Instance H → Option (Instance H)) :
    Assemble H Unit := fun s =>
  match (s.graph.object? w.object).bind act with
  | some object =>
    .ok () (Assembly.record { s with graph := s.graph.replace w.object object }
      (.wrote w s.graph.size))
  | none => .error (.instanceMismatch owner w.object) s

/-- Converts a value and puts it into a property. `key` is the key that the element of the value
declares; only maps use it, and they need it. -/
def assign (origin : Origin) (object : ObjectId) (name : String) (value : Value)
    (key : Option String) : Assemble H Unit := do
  let type ← typeOf object
  let property ← propertyOf type name
  let owner := type.key.name
  match property.store with
  | .scalar target set =>
    let v ← onGraph (convert vocabulary target value)
    write owner ⟨origin, object, name, none, v⟩ fun o => set o v
  | .collection target push =>
    let v ← onGraph (convert vocabulary target value)
    write owner ⟨origin, object, name, none, v⟩ fun o => push o v
  | .list push => write owner ⟨origin, object, name, none, value⟩ fun o => push o value
  | .map keyTarget target insert =>
    match key with
    | none => throw (.missingKey owner name)
    | some key =>
      let k ← onGraph (convert vocabulary keyTarget (.string key))
      let v ← onGraph (convert vocabulary target value)
      write owner ⟨origin, object, name, some k, v⟩ fun o => insert o k v

end Assemble

end ObjectMarkup
