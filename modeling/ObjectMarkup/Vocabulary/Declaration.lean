import ObjectMarkup.Failure
import ObjectMarkup.Vocabulary.ElementType

/-!
# Declaring element types

A host describes an element type by a list of declarations about one of its classes, which it sees
as a Lean type. `ElementType.declare` puts them together. What a type can have only one of may be
declared only once: the content property, the data-context property, the converter, the extension
and each property. Of several constructors or products the last one counts.
-/

set_option autoImplicit false

namespace ObjectMarkup

/-- One statement about an element type whose instances are seen as `α`. -/
inductive Declaration (H : Host) (α : Type) where
  /-- Elements can be made, and start as this. -/
  | constructor (fresh : α)
  | scalar (name : String) (type : ValueType) (set : α → Value → α)
  /-- A scalar property that can also be read. -/
  | readable (name : String) (type : ValueType) (get : α → Value) (set : α → Value → α)
  | collection (name : String) (element : ValueType) (push : α → Value → α)
  | list (name : String) (push : α → Value → α)
  | map (name : String) (key value : ValueType) (insert : α → Value → Value → α)
  | assignableTo (base : TypeName)
  | contentProperty (name : String)
  | dataContextProperty (name : String)
  | converter (converter : H.Converter)
  | extension (name : String) (extension : Extension H)
  /-- Instances stand for this. -/
  | product (produce : α → Value)

namespace Declaration

variable {H : Host} {α : Type}

/-- An accessor of the class as an accessor of instances. -/
def lift (v : View H α) (act : α → Value → α) (object : Instance H) (value : Value) :
    Option (Instance H) :=
  (v.unwrap object).map fun a => v.wrap (act a value)

/-- An act on the data of a class with a key and a value, as one on instances of it. -/
def liftKeyed (v : View H α) (act : α → Value → Value → α) (object : Instance H)
    (key value : Value) : Option (Instance H) :=
  (v.unwrap object).map fun a => v.wrap (act a key value)

/-- A reading of the data of a class, as one of instances of it. -/
def liftRead (v : View H α) (get : α → Value) (object : Instance H) : Option Value :=
  (v.unwrap object).map get

/-- The property that a declaration is about. -/
def property? (v : View H α) : Declaration H α → Option (Property H)
  | .scalar name type set => some ⟨name, .scalar type (lift v set), none⟩
  | .readable name type get set =>
    some ⟨name, .scalar type (lift v set), some (liftRead v get)⟩
  | .collection name element push => some ⟨name, .collection element (lift v push), none⟩
  | .list name push => some ⟨name, .list (lift v push), none⟩
  | .map name key value insert => some ⟨name, .map key value (liftKeyed v insert), none⟩
  | _ => none

/-- What a constructor makes. -/
def constructor? : Declaration H α → Option α
  | .constructor fresh => some fresh
  | _ => none

/-- A type to which objects are assignable. -/
def base? : Declaration H α → Option TypeName
  | .assignableTo base => some base
  | _ => none

/-- The name of a content property. -/
def contentProperty? : Declaration H α → Option String
  | .contentProperty name => some name
  | _ => none

/-- The name of a property for the data context. -/
def dataContextProperty? : Declaration H α → Option String
  | .dataContextProperty name => some name
  | _ => none

/-- The converter of a declaration. -/
def converter? : Declaration H α → Option H.Converter
  | .converter c => some c
  | _ => none

/-- The name and the extension of a declaration. -/
def extension? : Declaration H α → Option (String × Extension H)
  | .extension name e => some (name, e)
  | _ => none

/-- What a factory makes of its data. -/
def product? : Declaration H α → Option (α → Value)
  | .product produce => some produce
  | _ => none

/-- The first name that comes a second time. -/
def firstRepeated : List String → List String → Option String
  | _, [] => none
  | seen, name :: rest =>
    if seen.contains name then some name else firstRepeated (name :: seen) rest

/-- What is declared more than once although there can be only one, if anything. -/
def repeated? (v : View H α) (ds : List (Declaration H α)) : Option String :=
  if 1 < (ds.filterMap contentProperty?).length then some "content property"
  else if 1 < (ds.filterMap dataContextProperty?).length then some "data-context property"
  else if 1 < (ds.filterMap converter?).length then some "converter"
  else if 1 < (ds.filterMap extension?).length then some "extension name"
  else
    (firstRepeated [] ((ds.filterMap (property? v)).map Property.name)).map fun name =>
      s!"property `{name}`"

end Declaration

namespace ElementType

variable {H : Host} {α : Type}

/-- The element type that declarations describe, each of them taken by itself. -/
def assemble (v : View H α) (key : TypeName) (ds : List (Declaration H α)) : ElementType H where
  key := key
  fresh := (ds.filterMap Declaration.constructor?).getLast?.map v.wrap
  properties := ds.filterMap (Declaration.property? v)
  bases := ds.filterMap Declaration.base?
  contentName := (ds.filterMap Declaration.contentProperty?).head?
  dataContextName := (ds.filterMap Declaration.dataContextProperty?).head?
  converter := (ds.filterMap Declaration.converter?).head?
  extension := (ds.filterMap Declaration.extension?).head?
  product := (ds.filterMap Declaration.product?).getLast?.map (Declaration.liftRead v)

/-- The element type that declarations describe, unless they declare something twice that a type
can have only once. -/
def declare (v : View H α) (key : TypeName) (ds : List (Declaration H α)) :
    Except Failure (ElementType H) :=
  match Declaration.repeated? v ds with
  | some what => .error (.ambiguousMetadata key.name what)
  | none => .ok (assemble v key ds)

end ElementType

end ObjectMarkup
