import ObjectMarkup.Hooks
import ObjectMarkup.Markup.Name
import ObjectMarkup.Text.Blank

/-!
# The extensions that come with the library

`Ref` gives the value declared under an identifier and waits until it is declared. `Null` gives
null. `DataContext` gives the data context, or what is reached from it by a path of properties; it
gives nothing where the path breaks off.
-/

set_option autoImplicit false

namespace ObjectMarkup

namespace Extension

variable {H : Host}

/-- The identifier that a reference names. -/
def referenceName (arguments : ArgumentValues) : Except String String :=
  match arguments.firstOrNamed? "Name" with
  | none => .error "missing identifier"
  | some (.string name) =>
    if name.isEmpty then .error (unexpected (.string name)) else .ok name
  | some other => .error (unexpected other)
where
  unexpected (value : Value) : String := s!"expected an identifier, got {value.shown}"

/-- The value declared under an identifier. -/
def declaredValue (name : String) (site : Site H) : Except Failure Outcome :=
  match site.names.get? name with
  | some value => .ok (.value value)
  | none => site.defer (.ofList [name])

/-- The properties of a path, from a text in which full stops separate them. -/
def contextPath (arguments : ArgumentValues) : Except String (List String) :=
  match arguments.firstOrNamed? "Path" with
  | none => .ok []
  | some (.string text) =>
    let path := (splitAll '.' text.toList).map fun piece => String.ofList (trim piece)
    if path.any String.isEmpty then .error "empty segment in property path" else .ok path
  | some other => .error s!"expected a property path, got {other.shown}"

/-- Follows a path of properties from a value. -/
def follow (g : ObjectGraph H) : List String → Value → Option Value
  | [], value => some value
  | name :: rest, value =>
    match value.object? with
    | none => none
    | some id =>
      match g.property? id name with
      | none => none
      | some next => follow g rest next

/-- The data context, or what a path leads to from it. -/
def dataContextValue (path : List String) (site : Site H) : Outcome :=
  match site.dataContext with
  | none => .nothing
  | some context =>
    match follow site.graph path context with
    | some value => .value value
    | none => .nothing

/-- Makes an extension from its arguments, or says what is wrong with them. -/
def create [Hooks H] (arguments : ArgumentValues) :
    Extension H → Except String (Site H → Except Failure Outcome)
  | .reference => (referenceName arguments).map declaredValue
  | .null => .ok fun _ => .ok (.value .null)
  | .dataContext => (contextPath arguments).map fun path site => .ok (dataContextValue path site)
  | .host extension => Hooks.extend extension arguments

end Extension

end ObjectMarkup
