import ObjectMarkup.Construction.Waiting
import ObjectMarkup.Markup.Event

/-!
# Constructing objects from events

The events of a document drive a machine with a stack of open elements. A start tag is kept until
its attributes are complete. Then it opens an element, whose object is made at once, or, if it is a
property tag, a property of the innermost element. Text is kept until the tag around it ends. When
an element closes, what it stands for goes into the open property of the element around it, or else
into that element's content property; then its identifier is declared, and the bindings that waited
for it are evaluated again.
-/

set_option autoImplicit false

namespace ObjectMarkup

/-- What stays the same while a document is compiled. -/
structure Setting (H : Host) where
  vocabulary : Vocabulary H
  /-- Whether metadata attributes other than the key and the identifier are refused. -/
  strict : Bool
  /-- The data context of elements that have no nearer one. -/
  dataContext : Option Value

/-- An element that is open. -/
structure OpenElement (H : Host) where
  type : ElementType H
  object : ObjectId
  /-- The property whose tag is open inside the element. -/
  property : Option String
  /-- The text since the last tag, if there was any. -/
  text : Option String
  key : Option String
  identifier : Option String

/-- The property that takes what comes inside an open element. -/
def OpenElement.receiver {H : Host} (e : OpenElement H) : String :=
  e.property.getD e.type.contentProperty

/-- A start tag whose attributes may not be complete. -/
structure StartTag where
  name : String
  attributes : List (String × String)
deriving DecidableEq, Repr

/-- A construction under way. -/
structure Construction (H : Host) where
  assembly : Assembly H
  /-- The open elements, innermost first. -/
  stack : List (OpenElement H)
  tag : Option StartTag
  root : Option Value

/-- An operation on a construction. -/
abbrev Construct (H : Host) := Operation (Construction H)

/-- A construction of nothing, with these namespaces for unqualified names. -/
def Construction.ofDefaults {H : Host} (defaults : List String) : Construction H :=
  ⟨.ofDefaults defaults, [], none, none⟩

namespace Construct

variable {H : Host}

/-- Fails with a fault of the structure of the events. -/
def refuse {α : Type} (fault : StructureFault) : Construct H α :=
  throw (.structural fault)

/-- Lifts an act on the assembly alone. -/
def onAssembly {α : Type} : Assemble H α → Construct H α :=
  Operation.within Construction.assembly fun s assembly => { s with assembly }

/-- Changes what names mean from here on. -/
def modifyScope (f : NameScope → NameScope) : Construct H Unit :=
  modify fun s => { s with assembly := { s.assembly with scope := f s.assembly.scope } }

/-- The innermost open element. -/
def top : Construct H (OpenElement H) := do
  let s ← get
  match s.stack with
  | [] => refuse .noOpenElement
  | e :: _ => pure e

/-- Changes the innermost open element; with none open there is one end too many. -/
def modifyTop (f : OpenElement H → OpenElement H) : Construct H Unit := fun s =>
  match s.stack with
  | [] => .error (.structural .strayEnd) s
  | top :: outer => .ok () { s with stack := f top :: outer }

variable (setting : Setting H)

/-- The type that a tag names: a box under its short name, or else what the scope finds. -/
def resolveType (name : String) : Construct H (ElementType H) := do
  match ElementType.box? name with
  | some type => pure type
  | none =>
    let s ← get
    Operation.ofExcept (s.assembly.scope.findType setting.vocabulary name)

/-- The data context of what is evaluated now: that of the nearest open element that has one which
is not null, or else that of the document. -/
def effectiveDataContext (s : Construction H) : Option Value :=
  (s.stack.findSome? fun e =>
    (s.assembly.graph.property? e.object e.type.dataContextProperty).filter fun v =>
      !v.isNull).or setting.dataContext

variable [Hooks H]

/-- Evaluates a text for a property and puts the value into it, or lets it wait. -/
def applyText (object : ObjectId) (name text : String) : Construct H Unit := do
  let type ← onAssembly (Assemble.typeOf object)
  let _ ← onAssembly (Assemble.propertyOf type name)
  let s ← get
  let dataContext := effectiveDataContext setting s
  let occurrence ← onAssembly Assemble.newOccurrence
  let outcome ← onAssembly
    (Assemble.evaluate setting.vocabulary occurrence ⟨object, name, dataContext, true⟩ text)
  match outcome with
  | .value v =>
    onAssembly (Assemble.assign setting.vocabulary (.occurrence occurrence) object name v none)
  | .nothing => pure ()
  | .deferred required =>
    onAssembly (modify fun a => a.enqueue ⟨occurrence, text, object, name, dataContext, required⟩)

/-- Puts a text into a property of the innermost element. -/
def applyToTop (name text : String) : Construct H Unit := do
  let e ← top
  applyText setting e.object name text

/-- Applies an attribute of the innermost element. A qualified one must be metadata. -/
def applyAttribute (name value : String) : Construct H Unit := do
  match Name.splitQualifier name with
  | (none, _) => applyToTop setting name value
  | (some qualifier, rest) =>
    let s ← get
    let space ← Operation.ofExcept (s.assembly.scope.spaceOf qualifier)
    if space ≠ metadataSpace then refuse (.foreignAttribute name space)
    else if rest = keyAttribute then modifyTop fun e => { e with key := some value }
    else if rest = identifierAttribute then modifyTop fun e => { e with identifier := some value }
    else if setting.strict then refuse (.unknownMetadata name)
    else pure ()

/-- Applies the attributes of a start tag to the element just opened, in order. -/
def applyAttributes : List (String × String) → Construct H Unit
  | [] => pure ()
  | (name, value) :: rest => do
    applyAttribute setting name value
    applyAttributes rest

omit [Hooks H] in
/-- Takes the namespace declarations out of the attributes of a tag. Only the root may have any. -/
def declareNamespaces (isRoot : Bool) (tag : String) :
    List (String × String) → Construct H (List (String × String))
  | [] => pure []
  | (name, value) :: rest => do
    match Name.declaredQualifier name with
    | none =>
      let others ← declareNamespaces isRoot tag rest
      return (name, value) :: others
    | some qualifier =>
      if !isRoot then refuse (.nestedDeclaration name tag)
      else
        modifyScope fun scope =>
          if qualifier.isEmpty then scope.addDefault value else scope.declare qualifier value
        declareNamespaces isRoot tag rest

omit [Hooks H] in
/-- Opens a property of the innermost element. -/
def openProperty (tag owner name : String) (attributes : List (String × String)) :
    Construct H Unit := do
  if !attributes.isEmpty then refuse (.propertyTagAttributes tag)
  let ownerType ← resolveType setting owner
  let s ← get
  match s.stack with
  | [] => refuse (.propertyTagOutside tag)
  | e :: outer =>
    match e.property with
    | some property => refuse (.propertyTagInProperty tag property)
    | none =>
      if e.text.isSome then refuse (.propertyTagAfterText tag)
      else if !e.type.isAssignableTo ownerType.key then
        refuse (.foreignPropertyTag tag e.type.key.name)
      else if (e.type.property? name).isNone then
        throw (.propertyNotFound e.type.key.name name)
      else set { s with stack := { e with property := some name } :: outer }

/-- Opens an element: makes its object and applies its attributes. -/
def openObject (tag : String) (attributes : List (String × String)) : Construct H Unit := do
  let type ← resolveType setting tag
  match type.fresh with
  | none => throw (.notConstructible type.key.name)
  | some object =>
    let s ← get
    let id := s.assembly.graph.nextId
    let assembly :=
      Assembly.record { s.assembly with graph := s.assembly.graph.insert type object } (.opened id)
    set { s with assembly, stack := ⟨type, id, none, none, none, none⟩ :: s.stack }
    applyAttributes setting attributes

/-- Opens what a complete start tag stands for. -/
def openTag (tag : StartTag) : Construct H Unit := do
  let s ← get
  let isRoot := s.stack.isEmpty
  if isRoot && s.root.isSome then refuse (.secondRoot tag.name)
  let attributes ← declareNamespaces isRoot tag.name tag.attributes
  match if isRoot then none else Name.splitProperty tag.name with
  | some (owner, property) => openProperty setting tag.name owner property attributes
  | none => openObject setting tag.name attributes

/-- Opens what the start tag stands for, if there is one: its attributes are complete. -/
def completeTag : Construct H Unit := do
  let s ← get
  match s.tag with
  | none => pure ()
  | some tag =>
    set { s with tag := none }
    openTag setting tag

omit [Hooks H] in
/-- Keeps a run of text for the end of the tag around it. -/
def keepText (text : String) : Construct H Unit := do
  let s ← get
  match s.stack with
  | [] => refuse .strayText
  | e :: outer =>
    if e.text.isSome then refuse (.secondText e.type.key.name)
    else set { s with stack := { e with text := some text } :: outer }

omit [Hooks H] in
/-- What a closing element stands for: the product of a factory, or the object itself. A factory
may not wait for anything then. -/
def valueOf (e : OpenElement H) : Construct H Value := fun s =>
  if e.type.isFactory then
    match s.assembly.waitingOn? e.object with
    | some b => .error (.deferredProduct e.type.key.name b.expression) s
    | none =>
      match (s.assembly.graph.object? e.object).bind e.type.produce with
      | some v => .ok v s
      | none => .error (.instanceMismatch e.type.key.name e.object) s
  else .ok (.object e.object) s

/-- Hands the value of a closed element to the element around it, or makes it the root. -/
def handOver (e : OpenElement H) (value : Value) : Construct H Unit := do
  let s ← get
  match s.stack with
  | [] => set { s with root := some value }
  | parent :: _ =>
    onAssembly (Assemble.assign setting.vocabulary (.element e.object) parent.object
      parent.receiver value e.key)

/-- Declares the value of a closed element under its identifier, if it has one, and evaluates what
waited for it. -/
def declareIdentifier (e : OpenElement H) (value : Value) : Construct H Unit := do
  match e.identifier with
  | none => pure ()
  | some id =>
    let s ← get
    let names ← Operation.ofExcept (s.assembly.names.register id value)
    set { s with assembly := { s.assembly with names } }
    let _ ← onAssembly (Assemble.drain setting.vocabulary s.stack.isEmpty)

/-- Closes the innermost element. -/
def closeElement : Construct H Unit := do
  let s ← get
  match s.stack with
  | [] => refuse .strayEnd
  | e :: outer =>
    set { s with stack := outer }
    let value ← valueOf e
    onAssembly (modify fun a => a.record (.closed e.object e.identifier value))
    handOver setting e value
    declareIdentifier setting e value

/-- Ends the innermost tag: applies the text inside it, then closes its property or its element. -/
def endTag : Construct H Unit := do
  let s ← get
  match s.stack with
  | [] => refuse .strayEnd
  | e :: outer =>
    set { s with stack := { e with property := none, text := none } :: outer }
    match e.text with
    | some text => applyText setting e.object e.receiver text
    | none => pure ()
    if e.property.isSome then pure () else closeElement setting

/-- Takes the next event of the document. -/
def feed : Markup.Event → Construct H Unit
  | .attribute name value => do
    let s ← get
    match s.tag with
    | none => refuse (.strayAttribute name)
    | some tag =>
      set { s with tag := some { tag with attributes := tag.attributes ++ [(name, value)] } }
  | .start name => do
    completeTag setting
    modify fun s => { s with tag := some ⟨name, []⟩ }
  | .text text => do
    completeTag setting
    keepText text
  | .finish => do
    completeTag setting
    endTag setting

/-- Ends the document and gives the value of its root. -/
def finish : Construct H Value := do
  completeTag setting
  let s ← get
  match s.stack with
  | e :: _ => refuse (.unclosedElement e.type.key.name)
  | [] =>
    match s.root with
    | none => refuse .noRoot
    | some root =>
      onAssembly (Assemble.settle setting.vocabulary)
      return root

end Construct

end ObjectMarkup
