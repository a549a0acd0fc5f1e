import ObjectMarkup.Expression.Parse
import ObjectMarkup.Extension.BuiltIn
import ObjectMarkup.Vocabulary.Scope

/-!
# Evaluation

The text of an attribute or an element is a literal, or, if it starts with a brace, an expression;
a pair of braces in front makes the rest a literal. An expression is evaluated from the inside: its
arguments first, in the order of the source, then the extension itself. If arguments have to wait,
the whole waits for everything they wait for, and the extension is not made.

Evaluation only reads: the scope, the graph and the names.
-/

set_option autoImplicit false

namespace ObjectMarkup

/-- The text of a value, by how it is to be taken. -/
inductive ValueText where
  | literal (text : String)
  | expression (source : String)
deriving DecidableEq, Repr

/-- How the text of a value is to be taken. -/
def ValueText.classify (text : String) : ValueText :=
  match text.toList with
  | '\x7b' :: '\x7d' :: rest => .literal (String.ofList rest)
  | '\x7b' :: _ => .expression text
  | _ => .literal text

/-- The property that a value is evaluated for. -/
structure Target where
  object : ObjectId
  property : String
  dataContext : Option Value
  canDefer : Bool
deriving DecidableEq

/-- What an evaluation reads. -/
structure Surroundings (H : Host) where
  scope : NameScope
  graph : ObjectGraph H
  names : NameTable

namespace Evaluation

variable {H : Host}

/-- Evaluated arguments of one kind: the values of those that have one, in order, and the
identifiers that the others wait for. -/
structure Gathered (α : Type) where
  values : List α
  missing : Identifiers

/-- No arguments, which wait for nothing. -/
def Gathered.empty {α : Type} : Gathered α := ⟨[], .empty⟩

/-- Puts the outcome of an argument in front of the others. Nothing counts as null; an argument that
has to wait has no value. -/
def Gathered.cons {α : Type} (wrap : Value → α) (outcome : Outcome) (g : Gathered α) :
    Gathered α :=
  match outcome with
  | .value v => { g with values := wrap v :: g.values }
  | .nothing => { g with values := wrap .null :: g.values }
  | .deferred ids => { g with missing := ids.union g.missing }

/-- The site at which the extensions of an expression compute. -/
def siteOf (around : Surroundings H) (target : Target) (source : String) : Site H where
  property := target.property
  target := target.object
  dataContext := target.dataContext
  graph := around.graph
  names := around.names
  canDefer := target.canDefer
  expression := source

variable [Hooks H]

/-- Applies an extension to its arguments, or waits for what they wait for. -/
def applyExtension (site : Site H) (name : String) (extension : Extension H)
    (positional : Gathered Value) (named : Gathered (String × Value)) : Except Failure Outcome :=
  let missing := positional.missing.union named.missing
  if missing.isEmpty then
    match extension.create ⟨positional.values, named.values⟩ with
    | .error reason => .error (.invalidExtension name reason)
    | .ok provide => provide site
  else site.defer missing

mutual

/-- Evaluates an expression. -/
def run (vocabulary : Vocabulary H) (scope : NameScope) (site : Site H) :
    Expression → Except Failure Outcome
  | ⟨name, positional, named⟩ =>
    match scope.findExtension vocabulary name with
    | .error failure => .error failure
    | .ok type =>
      match type.extension with
      | none => .error (.extensionNotFound name [type.key.space])
      | some (_, extension) =>
        match runPositional vocabulary scope site positional with
        | .error failure => .error failure
        | .ok positional =>
          match runNamed vocabulary scope site named with
          | .error failure => .error failure
          | .ok named => applyExtension site name extension positional named

/-- Evaluates an argument: a text is itself, and a nested expression is run. -/
def runArgument (vocabulary : Vocabulary H) (scope : NameScope) (site : Site H) :
    Argument → Except Failure Outcome
  | .text content => .ok (.value (.string content))
  | .nested e => run vocabulary scope site e

/-- Evaluates positional arguments in order, up to the first failure. -/
def runPositional (vocabulary : Vocabulary H) (scope : NameScope) (site : Site H) :
    List Argument → Except Failure (Gathered Value)
  | [] => .ok .empty
  | a :: rest =>
    match runArgument vocabulary scope site a with
    | .error failure => .error failure
    | .ok outcome =>
      match runPositional vocabulary scope site rest with
      | .error failure => .error failure
      | .ok gathered => .ok (gathered.cons id outcome)

/-- Evaluates named arguments in order, up to the first failure. -/
def runNamed (vocabulary : Vocabulary H) (scope : NameScope) (site : Site H) :
    List NamedArgument → Except Failure (Gathered (String × Value))
  | [] => .ok .empty
  | ⟨name, value⟩ :: rest =>
    match runArgument vocabulary scope site value with
    | .error failure => .error failure
    | .ok outcome =>
      match runNamed vocabulary scope site rest with
      | .error failure => .error failure
      | .ok gathered => .ok (gathered.cons (fun v => (name, v)) outcome)

end

end Evaluation

/-- Evaluates a text for a property. -/
def evaluate {H : Host} [Hooks H] (vocabulary : Vocabulary H) (around : Surroundings H)
    (target : Target) (text : String) : Except Failure Outcome :=
  match ValueText.classify text with
  | .literal literal => .ok (.value (.string literal))
  | .expression source =>
    match Expression.parse source with
    | .error fault => .error (.markup fault)
    | .ok e =>
      Evaluation.run vocabulary around.scope (Evaluation.siteOf around target source) e

end ObjectMarkup
