/-!
# Scanning

A scanner reads a text one character at a time and emits items on the way. It is given by what it
does with a character in a state and by what it does at the end; it may fail at either. The result
of a scan keeps the items that were emitted before a fault, so a reader can hand them out first.

`Scanner.run` recurses on the text, hence every scan ends, whatever the scanner.
-/

set_option autoImplicit false

namespace ObjectMarkup

/-- A machine over characters with states `σ`, items `ω` and faults `ε`. Both of its functions are
told the byte offset they are called at. -/
structure Scanner (σ ω ε : Type) where
  step : σ → Nat → Char → Except ε (List ω × σ)
  finish : σ → Nat → Except ε (List ω)

/-- The items of a scan, in order, and the fault that ended it, if it did not reach the end. -/
structure Scan (ω ε : Type) where
  items : List ω
  fault : Option ε

namespace Scan

variable {ω ε : Type}

/-- A scan with items in front of its own. -/
def prepend (items : List ω) (s : Scan ω ε) : Scan ω ε :=
  ⟨items ++ s.items, s.fault⟩

/-- All items of a scan that reached the end, or its fault. -/
def complete (s : Scan ω ε) : Except ε (List ω) :=
  match s.fault with
  | none => .ok s.items
  | some e => .error e

end Scan

/-- Reads `text` from state `s`; the first character stands at byte `offset`. -/
def Scanner.run {σ ω ε : Type} (m : Scanner σ ω ε) (s : σ) (offset : Nat) :
    List Char → Scan ω ε
  | [] =>
    match m.finish s offset with
    | .ok items => ⟨items, none⟩
    | .error e => ⟨[], some e⟩
  | c :: rest =>
    match m.step s offset c with
    | .ok (items, s') => (m.run s' (offset + c.utf8Size) rest).prepend items
    | .error e => ⟨[], some e⟩

end ObjectMarkup
