import ObjectMarkup.Extension.Basic

/-!
# Records

A ready-made host whose types are described by data instead of functions. Its objects are records:
they start with named values and log everything that is put into them, and nothing else happens to
them. Some of its objects are foreign: they belong to another class, which no accessor of a described
type takes.

Converters and extensions of this host are chosen from fixed kinds. What they do is in
`ObjectMarkup.Record.Behavior`.
-/

set_option autoImplicit false

namespace ObjectMarkup

namespace Record

/-- Something that was put into a record. -/
structure Assignment where
  property : String
  /-- The key, if the property is a map. -/
  key : Option Value
  value : Value
deriving DecidableEq

/-- A record: the values it started with, and what was put into it, latest first. -/
structure Fields where
  initial : List (String × Value)
  log : List Assignment
deriving DecidableEq

namespace Fields

/-- The fields of a new record, with nothing put into them. -/
def ofInitial (initial : List (String × Value)) : Fields := ⟨initial, []⟩

/-- Puts a value into a property, as the latest of what was put. -/
def put (property : String) (fields : Fields) (value : Value) : Fields :=
  { fields with log := ⟨property, none, value⟩ :: fields.log }

/-- Puts a value into a property under a key, as the latest of what was put. -/
def putAt (property : String) (fields : Fields) (key value : Value) : Fields :=
  { fields with log := ⟨property, some key, value⟩ :: fields.log }

/-- The value put last into a property, or else the one it started with, or else null. -/
def read (fields : Fields) (property : String) : Value :=
  match fields.log.find? fun a => a.property == property with
  | some a => a.value
  | none => (fields.initial.lookup property).getD .null

end Fields

/-- The data of an object of this host. -/
inductive Data where
  | fields (fields : Fields)
  | foreign
deriving DecidableEq

/-- What a converter does. -/
inductive Action where
  /-- Makes an object of the converter's own type from the widths of one or four sides. -/
  | thickness
  /-- Makes an object of a type whose property starts with the value. -/
  | wrap (key : TypeName) (property : String)
  /-- Makes a foreign object of a type. -/
  | foreign (key : TypeName)
  /-- Gives what a property of the object holds. -/
  | unwrap (property : String)
  | constant (value : Value)
  | describe
  | fail (reason : String)
deriving DecidableEq

/-- A list of value types by their texts, or all of them. -/
def lists (texts : List String) (type : ValueType) : Bool :=
  texts.contains type.text || texts.contains "*"

/-- A converter: the type that declares it, the types it converts from and to, and what it does. -/
structure Converter where
  own : TypeName
  sources : List String
  targets : List String
  action : Action
deriving DecidableEq

/-- What an extension does. -/
inductive ExtensionKind where
  | echo
  | first
  | named (name : String)
  | nothing
  | constant (value : Value)
  /-- Waits until all identifiers it lists are declared, then gives a text of their values. -/
  | wait
  /-- Waits for the identifiers it lists, again and again. -/
  | always
  /-- Gives a property of the object declared under an identifier. -/
  | read
  | context
  | reject (reason : String)
  /-- Fails as if the target's property belonged to a type that lacks it. -/
  | raise (owner : String)
deriving DecidableEq

/-- The host of records. -/
def host : Host where
  Data := Data
  Converter := Converter
  Extension := ExtensionKind

/-- The records, seen as their fields. -/
def view : View host Fields where
  wrap fields := .host (.fields fields)
  unwrap
    | .host (.fields fields) => some fields
    | .host .foreign => none
    | .box _ => none
  unwrap_wrap _ := rfl

/-- An instance that is no record. -/
def foreignInstance : Instance host := .host .foreign

/-- Whether an instance is a record. -/
def isRecord (object : Instance host) : Bool := (view.unwrap object).isSome

/-- Whether an instance is the one that is no record. -/
def isForeign : Instance host → Bool
  | .host .foreign => true
  | _ => false

end Record

end ObjectMarkup
