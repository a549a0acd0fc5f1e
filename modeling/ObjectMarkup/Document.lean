import ObjectMarkup.Construction.Machine
import ObjectMarkup.Markup.Reader

/-!
# Compiling documents

A compiler is a vocabulary with settings. It reads a document event by event and constructs its
objects. It can be cancelled between events: whoever holds the signal raises it, and the compiler
looks at it whenever it has asked for an event, also when there was none left.
-/

set_option autoImplicit false

namespace ObjectMarkup

/-- A signal to stop. All that matters about it is from which look on it is seen raised. -/
structure Signal where
  raisedFrom : Option Nat
deriving DecidableEq, Repr

namespace Signal

/-- A signal that is never raised. -/
def quiet : Signal := ⟨none⟩

/-- A signal that is raised from the first look on. -/
def raised : Signal := ⟨some 0⟩

/-- Whether the signal is seen raised at a look, counted from zero. -/
def isRaised (s : Signal) (look : Nat) : Bool :=
  match s.raisedFrom with
  | none => false
  | some n => n ≤ look

end Signal

/-- How documents are compiled. -/
structure Settings where
  /-- The namespaces of unqualified names, before those that a document adds. -/
  defaults : List String
  /-- Whether metadata attributes other than the key and the identifier are refused. -/
  strict : Bool
  signal : Option Signal
deriving DecidableEq, Repr

namespace Settings

/-- No default namespaces, strict, and without a signal. -/
def standard : Settings := ⟨[], true, none⟩

/-- Settings with one more default namespace, searched last. -/
def addDefault (s : Settings) (space : String) : Settings :=
  { s with defaults := s.defaults ++ [space] }

/-- Settings whose signal, if there is one, is raised. -/
def raise (s : Settings) : Settings := { s with signal := s.signal.map fun _ => .raised }

/-- Whether the signal, if there is one, is seen raised at a look. -/
def isCancelled (s : Settings) (look : Nat) : Bool :=
  match s.signal with
  | none => false
  | some signal => signal.isRaised look

end Settings

/-- What a compilation gives. -/
structure Document (H : Host) where
  graph : ObjectGraph H
  /-- What the root element stands for. -/
  root : Value
  names : NameTable
  /-- What was done, in order. -/
  journal : List Entry

namespace Document

variable {H : Host}

/-- The object that the root stands for, if it stands for one. -/
def rootId (d : Document H) : Option ObjectId := d.root.object?

/-- The instance of that object. -/
def rootObject (d : Document H) : Option (Instance H) := d.rootId.bind d.graph.object?

/-- The value declared under an identifier. -/
def lookup (d : Document H) (id : String) : Option Value := d.names.get? id

/-- The instance of the object that an identifier stands for. -/
def object? (d : Document H) (id : String) : Option (Instance H) :=
  ((d.lookup id).bind Value.object?).bind d.graph.object?

/-- How the root is named to someone who expected another. -/
def rootDescription (d : Document H) : String :=
  match d.rootId.bind d.graph.type? with
  | some type => "`" ++ type.key.text ++ "`"
  | none => d.root.shown

end Document

/-- A vocabulary with settings. -/
structure Compiler (H : Host) where
  vocabulary : Vocabulary H
  settings : Settings

namespace Compiler

variable {H : Host} [Hooks H]

/-- Feeds events, of which `count` were fed before, up to the first fault. -/
def feedAll (settings : Settings) (setting : Setting H) (count : Nat) :
    List (Except Markup.Fault Markup.Event) → Construct H Unit
  | [] => if settings.isCancelled count then throw .cancelled else pure ()
  | item :: rest =>
    if settings.isCancelled count then throw .cancelled
    else
      match item with
      | .error fault => throw (.markup fault)
      | .ok event => do
        Construct.feed setting event
        feedAll settings setting (count + 1) rest

/-- Constructs the objects of a whole document and gives the value of its root. -/
def construct (c : Compiler H) (events : List (Except Markup.Fault Markup.Event))
    (dataContext : Option Value) : Construct H Value := do
  let setting : Setting H := ⟨c.vocabulary, c.settings.strict, dataContext⟩
  feedAll c.settings setting 0 events
  Construct.finish setting

/-- Compiles a stream of events. -/
def compileEvents (c : Compiler H) (events : List (Except Markup.Fault Markup.Event))
    (dataContext : Option Value) : Except Failure (Document H) :=
  match c.construct events dataContext (.ofDefaults c.settings.defaults) with
  | .error failure _ => .error failure
  | .ok root s =>
    .ok ⟨s.assembly.graph, root, s.assembly.names, s.assembly.journal.reverse⟩

/-- Compiles a source: reads its events and builds a document from them. -/
def compile (c : Compiler H) (source : String) (dataContext : Option Value) :
    Except Failure (Document H) :=
  c.compileEvents (Markup.Reader.ofSource source).drain.1 dataContext

/-- Requires the root of a document to be an object of a class. -/
def requireRoot (isExpected : Instance H → Bool) (d : Document H) :
    Except Failure (Document H) :=
  if d.rootObject.any isExpected then .ok d else .error (.rootType d.rootDescription)

end Compiler

end ObjectMarkup
