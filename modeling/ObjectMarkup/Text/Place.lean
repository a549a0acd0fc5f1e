/-!
# Places in a text

A fault is reported at a place: a line and a column, both counted from one, columns in characters.
Scanners keep byte offsets instead, because they add up. `Place.ofOffset` turns an offset into
the place that the text before it leads to: an offset past the end counts as the end, and an offset
inside a character counts as that character's start.
-/

set_option autoImplicit false

namespace ObjectMarkup

/-- A line and a column of a text, both counted from one. -/
structure Place where
  line : Nat
  column : Nat
deriving DecidableEq, Repr

namespace Place

/-- The first column of the first line. -/
def start : Place := ⟨1, 1⟩

/-- The place that follows a character: a line feed starts a line, anything else takes one column. -/
def after (p : Place) (c : Char) : Place :=
  if c = '\n' then ⟨p.line + 1, 1⟩ else ⟨p.line, p.column + 1⟩

/-- The longest run of leading characters whose UTF-8 form fits into `budget` bytes. -/
def leading (budget : Nat) : List Char → List Char
  | [] => []
  | c :: rest =>
    if c.utf8Size ≤ budget then c :: leading (budget - c.utf8Size) rest else []

/-- The place at byte `offset` of `source`. -/
def ofOffset (source : String) (offset : Nat) : Place :=
  (leading offset source.toList).foldl after start

/-- The column at byte `offset` of a text that is looked at as one line. -/
def columnOfOffset (source : String) (offset : Nat) : Nat :=
  (leading offset source.toList).length + 1

end Place

/-- The number of bytes that characters take in UTF-8. -/
def byteLength : List Char → Nat
  | [] => 0
  | c :: rest => c.utf8Size + byteLength rest

end ObjectMarkup
