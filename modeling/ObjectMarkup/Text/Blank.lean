/-!
# Blank characters

Two notions of white space are in use. Text runs, literals and expressions are trimmed by the
Unicode property White_Space (`isBlank`); between the parts of a tag only the four characters that
markup itself names count (`isMarkupSpace`).
-/

set_option autoImplicit false

namespace ObjectMarkup

/-- The Unicode property White_Space. -/
def isBlank (c : Char) : Bool :=
  let n := c.val
  (0x09 ≤ n && n ≤ 0x0D) || n == 0x20 || n == 0x85 || n == 0xA0 || n == 0x1680 ||
    (0x2000 ≤ n && n ≤ 0x200A) || n == 0x2028 || n == 0x2029 || n == 0x202F || n == 0x205F ||
    n == 0x3000

/-- Space, tab, carriage return and line feed. -/
def isMarkupSpace (c : Char) : Bool :=
  c == ' ' || c == '\t' || c == '\r' || c == '\n'

/-- Characters without the blanks in front. -/
def trimLeft (cs : List Char) : List Char :=
  cs.dropWhile isBlank

/-- Characters without the blanks behind. -/
def trimRight (cs : List Char) : List Char :=
  (cs.reverse.dropWhile isBlank).reverse

/-- Characters without the blanks they start and end with. -/
def trim (cs : List Char) : List Char :=
  trimRight (trimLeft cs)

/-- A text without the blanks it starts and ends with. -/
def trimText (s : String) : String :=
  String.ofList (trim s.toList)

end ObjectMarkup
