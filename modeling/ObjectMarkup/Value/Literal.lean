import ObjectMarkup.Number.Whole
import ObjectMarkup.Text.Blank
import ObjectMarkup.Value.Basic

/-!
# Literals

Text becomes a value of a simple type by the spelling of that type. Blanks around numbers do not
count; the words for truth values are told apart by nothing but their letters; the empty text is
null where the type allows it.
-/

set_option autoImplicit false

namespace ObjectMarkup

namespace Literal

/-- Reads a truth value. -/
def bool (text : String) : Except String Value :=
  let word := text.map Char.toLower
  if word = "true" then .ok (.bool true)
  else if word = "false" then .ok (.bool false)
  else .error "expected `true` or `false`"

/-- Reads an integer of 32 bits. -/
def int (text : String) : Except String Value :=
  match Whole.read 10 .int32 (trimText text) with
  | .ok n => .ok (.int (Int32.ofInt n))
  | .error fault => .error fault.message

/-- Reads a double. -/
def double (text : String) : Except String Value :=
  match Double.read (trimText text) with
  | .ok d => .ok (.double d)
  | .error fault => .error fault.message

/-- Reads a single. -/
def float (text : String) : Except String Value :=
  match Single.read (trimText text) with
  | .ok s => .ok (.float s)
  | .error fault => .error fault.message

/-- Reads a text of one character. -/
def char (text : String) : Except String Value :=
  match text.toList with
  | [c] => .ok (.char c)
  | _ => .error "expected exactly one character"

/-- The value that a text spells for a type, or why it spells none; types without a spelling give
nothing. -/
def read (text : String) : ValueType → Option (Except String Value)
  | .bool => some (bool text)
  | .int => some (int text)
  | .nullableInt => some (if text.isEmpty then .ok .null else int text)
  | .double => some (double text)
  | .float => some (float text)
  | .char => some (char text)
  | .nullableChar => some (if text.isEmpty then .ok .null else char text)
  | _ => none

end Literal

end ObjectMarkup
