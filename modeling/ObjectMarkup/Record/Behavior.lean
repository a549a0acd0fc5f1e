import ObjectMarkup.Hooks
import ObjectMarkup.Markup.Name
import ObjectMarkup.Number.Whole
import ObjectMarkup.Record.Data
import ObjectMarkup.Text.Blank

/-!
# What records do

The converters and extensions of the host of records, kind by kind.
-/

set_option autoImplicit false

namespace ObjectMarkup

namespace Record

/-! ### Converters -/

/-- Asks for a new record and gives its handle, or fails with the reason why there is none. -/
def createFields (key : TypeName) (initial : List (String × Value)) : ConverterRun host :=
  .create key (view.wrap (.ofInitial initial)) fun result _ => .done result

/-- The widths in a text, separated by commas. -/
def readSides : List (List Char) → Except String (List Int)
  | [] => .ok []
  | piece :: rest =>
    match Whole.read 10 .int32 (String.ofList (trim piece)) with
    | .error fault => .error fault.message
    | .ok n => (readSides rest).map fun ns => n :: ns

/-- Makes a record of four widths. -/
def sides (key : TypeName) (left top right bottom : Int) : ConverterRun host :=
  let width (n : Int) : Value := .int (Int32.ofInt n)
  createFields key
    [("Left", width left), ("Top", width top), ("Right", width right), ("Bottom", width bottom)]

/-- Makes a record from the widths that a text lists. -/
def thickness (key : TypeName) (value : Value) : ConverterRun host :=
  match value with
  | .string text =>
    match readSides (splitAll ',' text.toList) with
    | .error reason => .done (.error reason)
    | .ok [all] => sides key all all all all
    | .ok [left, top, right, bottom] => sides key left top right bottom
    | .ok several =>
      .done (.error ("expected 1 or 4 sides, got " ++ toString several.length))
  | _ => .done (.error "expected text")

/-- What a property of an object value holds. -/
def unwrapProperty (property : String) (value : Value) (g : ObjectGraph host) :
    Except String Value :=
  match value.object?.bind fun id => g.property? id property with
  | some held => .ok held
  | none => .error "nothing to unwrap"

/-- What a converter does with a value, given the graph. -/
def convert (c : Converter) (value : Value) (target : ValueType) (g : ObjectGraph host) :
    ConverterRun host :=
  match c.action with
  | .thickness => thickness c.own value
  | .wrap key property => createFields key [(property, value)]
  | .foreign key => .create key foreignInstance fun result _ => .done result
  | .unwrap property => .done (unwrapProperty property value g)
  | .constant held => .done (.ok held)
  | .describe => .done (.ok (.string (value.shown ++ " -> " ++ target.text)))
  | .fail reason => .done (.error reason)

/-! ### Extensions -/

/-- The identifiers in a list of values, all of which have to be strings. -/
def identifiers : List Value → Except String (List String)
  | [] => .ok []
  | .string id :: rest => (identifiers rest).map fun ids => id :: ids
  | other :: _ => .error s!"expected an identifier, got {other.shown}"

/-- The arguments as a text, the named ones last. -/
def echo (arguments : ArgumentValues) : String :=
  ", ".intercalate
    (arguments.positional.map Value.shown ++
      arguments.named.map fun (name, v) => name ++ "=" ++ v.shown)

/-- The outcome of a value that there may be. -/
def outcomeOf : Option Value → Outcome
  | some v => .value v
  | none => .nothing

/-- The values declared under all of some identifiers. -/
def declaredValues (names : NameTable) : List String → Option (List Value)
  | [] => some []
  | id :: rest =>
    match names.get? id, declaredValues names rest with
    | some v, some vs => some (v :: vs)
    | _, _ => none

/-- A text of the declared values, once there are all of them. -/
def wait (ids : List String) (site : Site host) : Except Failure Outcome :=
  match declaredValues site.names ids with
  | some values => .ok (.value (.string ("+".intercalate (values.map Value.shown))))
  | none => site.defer (.ofList ids)

/-- What a property of a declared object is, which waits while the identifier is not declared. -/
def readDeclared (id property : String) (site : Site host) : Except Failure Outcome :=
  match site.names.get? id with
  | none => site.defer (.ofList [id])
  | some value =>
    .ok (outcomeOf (value.object?.bind fun object => site.graph.property? object property))

/-- The property, its type, the data context and whether waiting is allowed, as a text. -/
def describeSite (site : Site host) : String :=
  let context :=
    match site.dataContext with
    | some v => v.shown
    | none => "none"
  let flag := if site.canDefer then "true" else "false"
  "|".intercalate [site.property, site.target.text, context, flag]

/-- What an extension makes of its arguments: a function of the site, or a reason to refuse them. -/
def extend (kind : ExtensionKind) (arguments : ArgumentValues) :
    Except String (Site host → Except Failure Outcome) :=
  match kind with
  | .echo => .ok fun _ => .ok (.value (.string (echo arguments)))
  | .first => .ok fun _ => .ok (outcomeOf arguments.positional.head?)
  | .named name => .ok fun _ => .ok (outcomeOf (arguments.firstOrNamed? name))
  | .nothing => .ok fun _ => .ok .nothing
  | .constant value => .ok fun _ => .ok (.value value)
  | .wait => (identifiers arguments.positional).map wait
  | .always => (identifiers arguments.positional).map fun ids site => site.defer (.ofList ids)
  | .read =>
    match identifiers arguments.positional with
    | .error reason => .error reason
    | .ok [id, property] => .ok (readDeclared id property)
    | .ok _ => .error "expected an identifier and a property"
  | .context => .ok fun site => .ok (.value (.string (describeSite site)))
  | .reject reason => .error reason
  | .raise owner => .ok fun site => .error (.propertyNotFound owner site.property)

/-- What the converters and extensions of records do. -/
instance : Hooks host where
  convertsTo c type := lists c.targets type
  convertsFrom c type := lists c.sources type
  convert := convert
  extend := extend

end Record

end ObjectMarkup
