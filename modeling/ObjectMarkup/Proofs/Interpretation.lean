import ObjectMarkup.Construction.Machine
import ObjectMarkup.Proofs.Tree

/-!
# The meaning of a tree by recursion

What a tree of markup does to an assembly, said along the tree and without a machine. An element is
made from its tag, its attributes are applied in order, then its content is interpreted from left to
right, then the text that stood in it is applied, and what is left of it is the value it stands for.
Inside of an element, a tag with a full stop opens a property for the content in it; any other
element is interpreted by itself, and its value goes into the open property or else into the content
property.

Nothing is on a stack: what an interpretation needs to know of its surroundings is an argument, and
what it finds out about its element is a result. `ObjectMarkup.Proofs.Recursion` shows that the
machine does the same.
-/

set_option autoImplicit false

namespace ObjectMarkup

/-- An element that content stands in, by its type and its object. -/
structure Enclosing (H : Host) where
  type : ElementType H
  object : ObjectId

/-- A place for content. -/
structure ContentPlace (H : Host) where
  /-- The innermost element around the place. -/
  element : Enclosing H
  /-- The elements around that one, from the inside out. -/
  outer : List (Enclosing H)
  /-- The property of the innermost element whose tag is open. -/
  property : Option String

namespace ContentPlace

variable {H : Host}

/-- All elements around a place, from the inside out. -/
def path (p : ContentPlace H) : List (Enclosing H) := p.element :: p.outer

/-- The property that takes what stands at a place. -/
def receiver (p : ContentPlace H) : String := p.property.getD p.element.type.contentProperty

end ContentPlace

/-- What the metadata attributes of an element tell. -/
structure Metadata where
  key : Option String
  identifier : Option String

/-- What is left of an element when it is over. -/
structure Finished where
  object : ObjectId
  value : Value
  metadata : Metadata

namespace Interpret

variable {H : Host} (setting : Setting H)

/-- Fails because of the structure of the tree. -/
def refuse {α : Type} (fault : StructureFault) : Assemble H α :=
  throw (.structural fault)

/-- The type that a tag names. -/
def typeNamed (name : String) : Assemble H (ElementType H) :=
  match ElementType.box? name with
  | some type => pure type
  | none => do
    let a ← get
    Operation.ofExcept (a.scope.findType setting.vocabulary name)

/-- The data context inside of elements, given from the inside out. -/
def dataContext (path : List (Enclosing H)) (a : Assembly H) : Option Value :=
  (path.findSome? fun e =>
    (a.graph.property? e.object e.type.dataContextProperty).filter fun v =>
      !v.isNull).or setting.dataContext

/-- Refuses namespace declarations: only the root may have any. -/
def forbidDeclarations (tag : String) : List (String × String) → Assemble H Unit
  | [] => pure ()
  | (name, _) :: rest =>
    if (Name.declaredQualifier name).isSome then refuse (.nestedDeclaration name tag)
    else forbidDeclarations tag rest

/-- Lets the namespace declarations of the root take effect, and gives its other attributes. -/
def declareNamespaces : List (String × String) → Assemble H (List (String × String))
  | [] => pure []
  | (name, value) :: rest => do
    match Name.declaredQualifier name with
    | none =>
      let others ← declareNamespaces rest
      return (name, value) :: others
    | some qualifier =>
      modify fun a =>
        { a with
          scope :=
            if qualifier.isEmpty then a.scope.addDefault value
            else a.scope.declare qualifier value }
      declareNamespaces rest

/-- Makes the object of an element. -/
def make (tag : String) : Assemble H (Enclosing H) := do
  let type ← typeNamed setting tag
  match type.fresh with
  | none => throw (.notConstructible type.key.name)
  | some object =>
    let a ← get
    let id := a.graph.nextId
    set (Assembly.record { a with graph := a.graph.insert type object } (.opened id))
    return ⟨type, id⟩

/-- What an element stands for once nothing more goes into it. -/
def product (e : Enclosing H) : Assemble H Value := fun a =>
  if e.type.isFactory then
    match a.waitingOn? e.object with
    | some b => .error (.deferredProduct e.type.key.name b.expression) a
    | none =>
      match (a.graph.object? e.object).bind e.type.produce with
      | some v => .ok v a
      | none => .error (.instanceMismatch e.type.key.name e.object) a
  else .ok (.object e.object) a

/-- Checks a property tag at a place where `text` stands already. -/
def checkPropertyTag (p : ContentPlace H) (text : Option String) (tag owner name : String)
    (attributes : List (String × String)) : Assemble H Unit := do
  if !attributes.isEmpty then refuse (.propertyTagAttributes tag)
  else
    let ownerType ← typeNamed setting owner
    match p.property with
    | some property => refuse (.propertyTagInProperty tag property)
    | none =>
      if text.isSome then refuse (.propertyTagAfterText tag)
      else if !p.element.type.isAssignableTo ownerType.key then
        refuse (.foreignPropertyTag tag p.element.type.key.name)
      else if (p.element.type.property? name).isNone then
        throw (.propertyNotFound p.element.type.key.name name)
      else pure ()

variable [Hooks H]

/-- Evaluates a text for a property and puts the value into it, or lets it wait. -/
def putText (path : List (Enclosing H)) (object : ObjectId) (name text : String) :
    Assemble H Unit := do
  let type ← Assemble.typeOf object
  let _ ← Assemble.propertyOf type name
  let a ← get
  let context := dataContext setting path a
  let occurrence ← Assemble.newOccurrence
  let outcome ←
    Assemble.evaluate setting.vocabulary occurrence ⟨object, name, context, true⟩ text
  match outcome with
  | .value v => Assemble.assign setting.vocabulary (.occurrence occurrence) object name v none
  | .nothing => pure ()
  | .deferred required =>
    modify fun a => a.enqueue ⟨occurrence, text, object, name, context, required⟩

/-- Puts the text that stood in a tag into a property, if there was any. -/
def putRemembered (path : List (Enclosing H)) (object : ObjectId) (name : String) :
    Option String → Assemble H Unit
  | none => pure ()
  | some text => putText setting path object name text

/-- Applies an attribute: its text goes into a property, or it is metadata. -/
def applyAttribute (path : List (Enclosing H)) (object : ObjectId) (metadata : Metadata)
    (name value : String) : Assemble H Metadata := do
  match Name.splitQualifier name with
  | (none, _) =>
    putText setting path object name value
    return metadata
  | (some qualifier, rest) =>
    let a ← get
    let space ← Operation.ofExcept (a.scope.spaceOf qualifier)
    if space ≠ metadataSpace then refuse (.foreignAttribute name space)
    else if rest = keyAttribute then return { metadata with key := some value }
    else if rest = identifierAttribute then return { metadata with identifier := some value }
    else if setting.strict then refuse (.unknownMetadata name)
    else return metadata

/-- Applies attributes, one after the other, and gives what they tell in the end. -/
def applyAttributes (path : List (Enclosing H)) (object : ObjectId) (metadata : Metadata) :
    List (String × String) → Assemble H Metadata
  | [] => pure metadata
  | (name, value) :: rest => do
    let metadata' ← applyAttribute setting path object metadata name value
    applyAttributes path object metadata' rest

/-- Declares what an element stands for under its identifier, if it has one, and evaluates what
waited for it. `complete` says that the element was the root. -/
def identify (complete : Bool) (made : Finished) : Assemble H Unit := do
  match made.metadata.identifier with
  | none => pure ()
  | some id =>
    let a ← get
    let names ← Operation.ofExcept (a.names.register id made.value)
    set { a with names }
    let _ ← Assemble.drain setting.vocabulary complete

/-- Interprets an element; `inside` interprets its content and gives the text that stood in it. -/
def element (outer : List (Enclosing H)) (tag : String) (others : List (String × String))
    (inside : ContentPlace H → Assemble H (Option String)) : Assemble H Finished := do
  let e ← make setting tag
  let metadata ← applyAttributes setting (e :: outer) e.object ⟨none, none⟩ others
  let text ← inside ⟨e, outer, none⟩
  putRemembered setting (e :: outer) e.object e.type.contentProperty text
  let value ← product e
  modify fun a => a.record (.closed e.object metadata.identifier value)
  return ⟨e.object, value, metadata⟩

mutual

/-- Interprets a piece of content at a place where `text` stands already, and gives the text that
stands there then. -/
def node (p : ContentPlace H) (text : Option String) : Markup.Node → Assemble H (Option String)
  | .text content =>
    if text.isSome then refuse (.secondText p.element.type.key.name) else pure (some content)
  | .element tag attributes children => do
    forbidDeclarations tag attributes
    match Name.splitProperty tag with
    | some (owner, name) =>
      checkPropertyTag setting p text tag owner name attributes
      let inner ← content { p with property := some name } none children
      putRemembered setting p.path p.element.object name inner
      return none
    | none =>
      let made ← element setting p.path tag attributes fun q => content q none children
      Assemble.assign setting.vocabulary (.element made.object) p.element.object p.receiver
        made.value made.metadata.key
      identify setting false made
      return text

/-- Interprets pieces of content from left to right. -/
def content (p : ContentPlace H) (text : Option String) :
    List Markup.Node → Assemble H (Option String)
  | [] => pure text
  | first :: rest => do
    let text' ← node p text first
    content p text' rest

end

/-- Interprets the root of a document and gives what it stands for. -/
def document (tag : String) (attributes : List (String × String)) (children : List Markup.Node) :
    Assemble H Value := do
  let others ← declareNamespaces attributes
  let made ← element setting [] tag others fun q => content setting q none children
  identify setting true made
  return made.value

end Interpret

namespace OpenElement

variable {H : Host}

/-- An open element without what is still to come. -/
def enclosing (e : OpenElement H) : Enclosing H := ⟨e.type, e.object⟩

/-- The place inside an open element. -/
def place (e : OpenElement H) (outer : List (OpenElement H)) : ContentPlace H :=
  ⟨e.enclosing, outer.map enclosing, e.property⟩

end OpenElement

namespace Construct

variable {H : Host} [Hooks H] (setting : Setting H)

/-- What an element does to a construction whose tags are complete, by recursion: it is the root, or
it stands in the innermost open element. -/
def interpret (tag : String) (attributes : List (String × String)) (children : List Markup.Node) :
    Construct H Unit := do
  let s ← get
  match s.stack with
  | [] =>
    if s.root.isSome then refuse (.secondRoot tag)
    else
      let value ← onAssembly (Interpret.document setting tag attributes children)
      modify fun s => { s with root := some value }
  | e :: outer =>
    let text ← onAssembly
      (Interpret.node setting (e.place outer) e.text (.element tag attributes children))
    modifyTop fun e => { e with text }

end Construct

end ObjectMarkup
