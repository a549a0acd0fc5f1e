import ObjectMarkup.Hooks
import ObjectMarkup.Operation
import ObjectMarkup.Value.Literal

/-!
# Conversion

A value becomes a value of the type that a property declares by the first of these ways that
applies:

* the type takes the value as it is;
* a text names a member of an enumeration;
* a text spells a value of a simple type;
* the value is an object whose type has a converter to the type;
* the type is an object type with a converter from the type of the value.

An enumeration or a simple type decides about every text, so such a text is not converted in any
other way.
-/

set_option autoImplicit false

namespace ObjectMarkup

variable {H : Host}

namespace Conversion

/-- Whether a type takes a value as it is. -/
def accepts (g : ObjectGraph H) : ValueType → Value → Bool
  | .any, _ => true
  | .string, .null => true
  | .object _, .null => true
  | .external, .null => true
  | .nullableInt, .null => true
  | .nullableChar, .null => true
  | .string, .string _ => true
  | .bool, .bool _ => true
  | .int, .int _ => true
  | .nullableInt, .int _ => true
  | .double, .double _ => true
  | .float, .float _ => true
  | .char, .char _ => true
  | .nullableChar, .char _ => true
  | .enumeration e, .member m => m.enumeration == e.name
  | .object key, .object id =>
    match g.type? id with
    | some type => type.isAssignableTo key
    | none => false
  | .external, .external _ => true
  | _, _ => false

/-- The type of a value, as converters are told it. Of an enumeration only the name is known. -/
def sourceType (g : ObjectGraph H) : Value → ValueType
  | .null => .any
  | .string _ => .string
  | .bool _ => .bool
  | .int _ => .int
  | .double _ => .double
  | .float _ => .float
  | .char _ => .char
  | .member m => .enumeration ⟨m.enumeration, []⟩
  | .object id =>
    match g.type? id with
    | some type => .object type.key
    | none => .any
  | .external _ => .external

/-- The value that a text names or spells for a type, or why there is none; nothing if the type
does not decide about texts. -/
def ofText (target : ValueType) (text : String) : Option (Except Failure Value) :=
  match target with
  | .enumeration e =>
    match e.member? text with
    | some m => some (.ok (.member m))
    | none => some (.error (.notAMember text e.name))
  | target => (Literal.read text target).map fun r => r.mapError (.invalidLiteral text target)

/-- `ofText` for the text of a value, if the value is one. -/
def ofValueText (target : ValueType) (value : Value) : Option (Except Failure Value) :=
  match value with
  | .string text => ofText target text
  | _ => none

variable [Hooks H]

/-- A type whose converter is to be used, with that converter. -/
structure Choice (H : Host) where
  owner : ElementType H
  converter : H.Converter

/-- The converter of the type of an object, if it converts to the target. -/
def sourceChoice (g : ObjectGraph H) (target : ValueType) (value : Value) : Option (Choice H) :=
  match value with
  | .object id =>
    match g.type? id with
    | none => none
    | some owner =>
      match owner.converter with
      | none => none
      | some c => if Hooks.convertsTo c target then some ⟨owner, c⟩ else none
  | _ => none

/-- The converter of the target type, if it converts from the type of the value. -/
def targetChoice (vocabulary : Vocabulary H) (g : ObjectGraph H) (target : ValueType)
    (value : Value) : Option (Choice H) :=
  match target with
  | .object key =>
    match vocabulary.describe key with
    | none => none
    | some owner =>
      match owner.converter with
      | none => none
      | some c => if Hooks.convertsFrom c (sourceType g value) then some ⟨owner, c⟩ else none
  | _ => none

/-- The converter to be used: that of the source comes first. -/
def choice (vocabulary : Vocabulary H) (g : ObjectGraph H) (target : ValueType) (value : Value) :
    Option (Choice H) :=
  (sourceChoice g target value).or (targetChoice vocabulary g target value)

/-- Has a chosen converter convert a value. Its objects stay in the graph if it fails. -/
def convertBy (vocabulary : Vocabulary H) (c : Choice H) (target : ValueType) (value : Value) :
    Operation (ObjectGraph H) Value := fun g =>
  match (Hooks.convert c.converter value target g).perform vocabulary g with
  | (.ok converted, g') => .ok converted g'
  | (.error reason, g') => .error (.converterFailed c.owner.key.name value target reason) g'

end Conversion

/-- Converts a value to a type. Objects made on the way stay in the graph, even if the conversion
fails. -/
def convert [Hooks H] (vocabulary : Vocabulary H) (target : ValueType) (value : Value) :
    Operation (ObjectGraph H) Value := fun g =>
  if Conversion.accepts g target value then .ok value g
  else
    match Conversion.ofValueText target value with
    | some (.ok converted) => .ok converted g
    | some (.error failure) => .error failure g
    | none =>
      match Conversion.choice vocabulary g target value with
      | some c => Conversion.convertBy vocabulary c target value g
      | none =>
        .error (.unsupportedConversion value (Conversion.sourceType g value) target) g

end ObjectMarkup
