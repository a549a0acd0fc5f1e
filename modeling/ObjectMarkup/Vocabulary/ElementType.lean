import ObjectMarkup.Host

/-!
# Element types

An element type is everything that is known about the elements of one name: how an instance is
made, its properties and how values get into them, the types it can stand in for, and the roles that
the type may play besides: it may convert values, be an extension, or stand for a product.

All accessors work on any instance and answer with nothing when the instance is of another class.
-/

set_option autoImplicit false

namespace ObjectMarkup

/-- How values get into a property. -/
inductive Store (H : Host) where
  /-- One value, replaced by the next. -/
  | scalar (type : ValueType) (set : Instance H → Value → Option (Instance H))
  /-- Values in the order they come. -/
  | collection (element : ValueType) (push : Instance H → Value → Option (Instance H))
  /-- Values in the order they come, as they are. -/
  | list (push : Instance H → Value → Option (Instance H))
  /-- Values under keys. -/
  | map (key value : ValueType) (insert : Instance H → Value → Value → Option (Instance H))

/-- The word for a way of storing. -/
def Store.shape {H : Host} : Store H → String
  | .scalar _ _ => "scalar"
  | .collection _ _ => "collection"
  | .list _ => "list"
  | .map _ _ _ => "map"

/-- The value types a way of storing declares. -/
def Store.types {H : Host} : Store H → List ValueType
  | .scalar type _ => [type]
  | .collection element _ => [element]
  | .list _ => []
  | .map key value _ => [key, value]

/-- A property of an element type. -/
structure Property (H : Host) where
  name : String
  store : Store H
  /-- Reads the property, if it can be read. -/
  read : Option (Instance H → Option Value)

namespace Property

variable {H : Host}

/-- The value of a property, if it can be read and the instance is of its class. -/
def get (p : Property H) (object : Instance H) : Option Value :=
  p.read.bind fun read => read object

/-- A property as a text for diagnostics. -/
def summary (p : Property H) : String :=
  let readable := if p.read.isSome then "true" else "false"
  "PropertyDescriptor \x7b name: " ++ Quoted.text p.name ++ ", shape: " ++
    Quoted.text p.store.shape ++ ", readable: " ++ readable ++ " \x7d"

end Property

/-- A type's name as a text for diagnostics. -/
def TypeName.summary (key : TypeName) : String :=
  "TypeKey \x7b namespace: " ++ Quoted.text key.space ++ ", name: " ++ Quoted.text key.name ++
    " \x7d"

/-- Everything that is known about the elements of one name. -/
structure ElementType (H : Host) where
  key : TypeName
  /-- A fresh instance, if elements of the type can be made. -/
  fresh : Option (Instance H)
  /-- The properties, in the order of their declarations, no two of one name. -/
  properties : List (Property H)
  /-- The other types that instances can stand in for. -/
  bases : List TypeName
  contentName : Option String
  dataContextName : Option String
  converter : Option H.Converter
  /-- The extension that the type is, under the name that expressions use. -/
  extension : Option (String × Extension H)
  /-- What an instance stands for, if not for itself. -/
  product : Option (Instance H → Option Value)

namespace ElementType

variable {H : Host}

/-- The first property with a name. -/
def property? (t : ElementType H) (name : String) : Option (Property H) :=
  t.properties.find? fun p => p.name == name

/-- Whether instances may stand where `key` is expected. -/
def isAssignableTo (t : ElementType H) (key : TypeName) : Bool :=
  t.key == key || t.bases.contains key

/-- The property that takes the content of an element. -/
def contentProperty (t : ElementType H) : String := t.contentName.getD "Content"

/-- The property that holds the data context of an element. -/
def dataContextProperty (t : ElementType H) : String := t.dataContextName.getD "DataContext"

/-- The name of a type's extension, if it is one. -/
def extensionName (t : ElementType H) : Option String := t.extension.map Prod.fst

/-- Whether a type stands for what its objects produce. -/
def isFactory (t : ElementType H) : Bool := t.product.isSome

/-- What an instance stands for; nothing if the instance is of another class. -/
def produce (t : ElementType H) (object : Instance H) : Option Value :=
  t.product.bind fun product => product object

/-- A type as a text for diagnostics. -/
def summary (t : ElementType H) : String :=
  let extension :=
    match t.extensionName with
    | some name => "Some(" ++ Quoted.text name ++ ")"
    | none => "None"
  "TypeDescriptor \x7b key: " ++ t.key.summary ++ ", properties: " ++
    toString t.properties.length ++ ", extension: " ++ extension ++ " \x7d"

end ElementType

end ObjectMarkup
