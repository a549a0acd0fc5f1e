import ObjectMarkup.Number.Shortest
import ObjectMarkup.Text.Quoted

/-!
# Values and their types

A value is what flows from markup into objects: a literal, a member of an enumeration, a handle of an
object in the graph, or an external datum that is passed on untouched. A value type is what a
property declares; conversion aims at one.
-/

set_option autoImplicit false

namespace ObjectMarkup

/-- The handle of an object: its place in the graph. -/
structure ObjectId where
  index : Nat
deriving DecidableEq, Repr

/-- A handle as messages show it. -/
def ObjectId.text (id : ObjectId) : String := "#" ++ toString id.index

/-- The name of a type, qualified by a namespace. -/
structure TypeName where
  space : String
  name : String
deriving DecidableEq, Repr

/-- A qualified name with its namespace in braces. -/
def TypeName.text (key : TypeName) : String := "\x7b" ++ key.space ++ "\x7d" ++ key.name

/-- A named set of members. Names are told apart by case. -/
structure Enumeration where
  name : String
  members : List String
deriving DecidableEq, Repr

/-- A member of an enumeration, by the names of both. -/
structure Member where
  enumeration : String
  name : String
deriving DecidableEq, Repr

/-- The member with exactly this name. -/
def Enumeration.member? (e : Enumeration) (name : String) : Option Member :=
  if e.members.contains name then some ⟨e.name, name⟩ else none

/-- What flows into properties. -/
inductive Value where
  | null
  | string (s : String)
  | bool (b : Bool)
  | int (i : Int32)
  | double (d : Double)
  | float (s : Single)
  | char (c : Char)
  | member (m : Member)
  | object (id : ObjectId)
  /-- A datum of the host, known by its identity only. -/
  | external (identity : Nat)
deriving DecidableEq

/-- The value that stands for nothing is as good as any. -/
instance : Inhabited Value := ⟨.null⟩

namespace Value

/-- Whether a value is null. -/
def isNull : Value → Bool
  | .null => true
  | _ => false

/-- The text of a string. -/
def string? : Value → Option String
  | .string s => some s
  | _ => none

/-- The truth value of a boolean. -/
def bool? : Value → Option Bool
  | .bool b => some b
  | _ => none

/-- The integer of an integer value. -/
def int? : Value → Option Int32
  | .int i => some i
  | _ => none

/-- The number of a double. -/
def double? : Value → Option Double
  | .double d => some d
  | _ => none

/-- The character of a character value. -/
def char? : Value → Option Char
  | .char c => some c
  | _ => none

/-- The member of an enumeration. -/
def member? : Value → Option Member
  | .member m => some m
  | _ => none

/-- The object that a value refers to. -/
def object? : Value → Option ObjectId
  | .object id => some id
  | _ => none

/-- The identity of an external value. -/
def external? : Value → Option Nat
  | .external identity => some identity
  | _ => none

/-- Equality as values: floating point numbers are compared as numbers, all else by content. -/
def equals : Value → Value → Bool
  | .double a, .double b => a.number.equals b.number
  | .float a, .float b => a.number.equals b.number
  | a, b => a = b

/-- A value as messages show it. -/
def shown : Value → String
  | .null => "null"
  | .string s => Quoted.text s
  | .bool b => if b then "true" else "false"
  | .int i => toString i.toInt
  | .double d => d.text
  | .float s => s.text ++ "f"
  | .char c => Quoted.char c
  | .member m => m.enumeration ++ "." ++ m.name
  | .object id => "object " ++ id.text
  | .external _ => "opaque"

end Value

/-- What a property declares about its values. -/
inductive ValueType where
  /-- Takes every value. -/
  | any
  | string
  | bool
  | int
  | nullableInt
  | double
  | float
  | char
  | nullableChar
  | enumeration (e : Enumeration)
  /-- Takes objects of a type and of the types that are assignable to it. -/
  | object (key : TypeName)
  | external
deriving DecidableEq, Repr

/-- A value type as messages show it. -/
def ValueType.text : ValueType → String
  | .any => "Any"
  | .string => "String"
  | .bool => "Bool"
  | .int => "Int"
  | .nullableInt => "Int?"
  | .double => "Double"
  | .float => "Float"
  | .char => "Char"
  | .nullableChar => "Char?"
  | .enumeration e => "enum " ++ e.name
  | .object key => key.text
  | .external => "Opaque"

end ObjectMarkup
