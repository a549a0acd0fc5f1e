import ObjectMarkup.Record.Data
import ObjectMarkup.Vocabulary.Basic

/-!
# Descriptions of record types

A record type is described by data. `TypeSpec.build` declares it, with accessors that log what is
put into a record and read it back.
-/

set_option autoImplicit false

namespace ObjectMarkup

namespace Record

/-- A property of a record, by its shape, its name and the types of what it takes. -/
inductive PropertySpec where
  | scalar (name : String) (type : ValueType)
  /-- A scalar property that can also be read. -/
  | readable (name : String) (type : ValueType)
  | collection (name : String) (element : ValueType)
  | list (name : String)
  | map (name : String) (key value : ValueType)
deriving DecidableEq

/-- Declares a property whose accessors put values into fields. -/
def PropertySpec.declaration : PropertySpec → Declaration host Fields
  | .scalar name type => .scalar name type (Fields.put name)
  | .readable name type => .readable name type (Fields.read · name) (Fields.put name)
  | .collection name element => .collection name element (Fields.put name)
  | .list name => .list name (Fields.put name)
  | .map name key value => .map name key value (Fields.putAt name)

/-- What a record stands for. -/
inductive Product where
  /-- What a property reads as. -/
  | property (name : String)
  | constant (value : Value)
deriving DecidableEq

/-- What a record stands for, from its fields. -/
def Product.of : Product → Fields → Value
  | .property name, fields => fields.read name
  | .constant value, _ => value

/-- What a type of records is declared with. -/
structure TypeSpec where
  key : TypeName
  /-- What new records start with, if records can be made. -/
  fresh : Option (List (String × Value))
  properties : List PropertySpec
  bases : List TypeName
  contentProperties : List String
  dataContextProperties : List String
  converters : List Converter
  extensions : List (String × ExtensionKind)
  product : Option Product

/-- The declarations of a type, in the order of its specification. -/
def TypeSpec.declarations (s : TypeSpec) : List (Declaration host Fields) :=
  (s.fresh.toList.map fun initial => .constructor (.ofInitial initial)) ++
    s.properties.map PropertySpec.declaration ++
    s.bases.map .assignableTo ++
    s.contentProperties.map .contentProperty ++
    s.dataContextProperties.map .dataContextProperty ++
    s.converters.map (fun c => (.converter c : Declaration host Fields)) ++
    (s.extensions.map fun (name, kind) => .extension name (.host kind)) ++
    s.product.toList.map fun p => .product p.of

/-- The element type that a description stands for. -/
def TypeSpec.build (s : TypeSpec) : Except Failure (ElementType host) :=
  ElementType.declare view s.key s.declarations

/-- A vocabulary with more record types, in order, or the first failure. -/
def register (v : Vocabulary host) : List TypeSpec → Except Failure (Vocabulary host)
  | [] => .ok v
  | s :: rest =>
    match s.build with
    | .error failure => .error failure
    | .ok type => register (v.register type) rest

end Record

end ObjectMarkup
