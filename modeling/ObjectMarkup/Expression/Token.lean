import ObjectMarkup.Markup.Event
import ObjectMarkup.Text.Blank
import ObjectMarkup.Text.Quoted
import ObjectMarkup.Text.Scan

/-!
# Tokens of expressions

Braces, commas and equals signs stand for themselves. A single quote opens a quoted run, in which a
backslash takes the next character as it is. Anything else is a run of text up to the next of these
five characters, without the blanks around it. A token knows the byte at which it starts, and the
last token marks the end of the source.
-/

set_option autoImplicit false

namespace ObjectMarkup

namespace Expression

/-- What an expression is made of: braces, separators and runs of text, quoted or not. -/
inductive Token where
  | leftBrace
  | rightBrace
  | comma
  | equals
  | text (content : String)
  | quoted (content : String)
  | finish
deriving DecidableEq, Repr

/-- A token and the byte it starts at. -/
structure PlacedToken where
  token : Token
  offset : Nat
deriving DecidableEq, Repr

/-- A token as messages name it. -/
def Token.name : Token → String
  | .leftBrace => "LBrace"
  | .rightBrace => "RBrace"
  | .comma => "Comma"
  | .equals => "Equals"
  | .text content => "Text(" ++ Quoted.text content ++ ")"
  | .quoted content => "Quoted(" ++ Quoted.text content ++ ")"
  | .finish => "Eof"

/-- The deepest nesting of braces. -/
def depthLimit : Nat := 64

/-- Why a text is not an expression. -/
inductive Cause where
  | unterminatedQuote
  | unterminatedEscape
  | tooDeep
  | expected (token got : Token)
  | expectedName (got : Token)
  | expectedSeparator (got : Token)
  | expectedValue (got : Token)
  | missingArgumentName
  | positionalAfterNamed
  | trailing (got : Token)
deriving DecidableEq, Repr

/-- The text of a fault that does not name its column. -/
def Cause.message : Cause → String
  | .unterminatedQuote => "unterminated quoted string"
  | .unterminatedEscape => "unterminated escape sequence"
  | .tooDeep =>
    let limit := toString depthLimit
    s!"expression nested deeper than {limit} levels"
  | .expected token got => s!"expected {token.name}, got {got.name}"
  | .expectedName got => s!"expected an extension name, got {got.name}"
  | .expectedSeparator got => "expected ',' or '\x7d', got " ++ got.name
  | .expectedValue got => s!"expected a value, got {got.name}"
  | .missingArgumentName => "named argument is missing its name"
  | .positionalAfterNamed => "positional argument after a named argument"
  | .trailing got => s!"unexpected {got.name} after expression"

/-- A cause and the byte of the source it is reported at. -/
structure Fault where
  cause : Cause
  offset : Nat
deriving DecidableEq, Repr

/-- A fault of an expression as a fault of markup: the source counts as one line. -/
def Fault.inSource (f : Fault) (source : String) : Markup.Fault :=
  ⟨f.cause.message, ⟨1, Place.columnOfOffset source f.offset⟩⟩

namespace Token

/-- The token of a character that stands for itself. -/
def ofMark (c : Char) : Option Token :=
  if c = '\x7b' then some .leftBrace
  else if c = '\x7d' then some .rightBrace
  else if c = ',' then some .comma
  else if c = '=' then some .equals
  else none

/-- What a scan is inside of. Runs keep the byte they start at and their characters, last first. -/
inductive Mode where
  | between
  | text (start : Nat) (taken : List Char)
  | quoted (start : Nat) (taken : List Char)
  /-- After a backslash in a quoted run. -/
  | escaped (start : Nat) (taken : List Char)

/-- A run of text as a token: blanks at its end do not count. -/
def ofRun (start : Nat) (taken : List Char) : PlacedToken :=
  ⟨.text (String.ofList (taken.dropWhile isBlank).reverse), start⟩

/-- Reads a character outside of runs; `before` are the tokens that end there. -/
def stepBetween (before : List PlacedToken) (offset : Nat) (c : Char) :
    List PlacedToken × Mode :=
  match ofMark c with
  | some token => (before ++ [⟨token, offset⟩], .between)
  | none =>
    if c = '\'' then (before, .quoted offset [])
    else if isBlank c then (before, .between)
    else (before, .text offset [c])

/-- Reads a character. -/
def step : Mode → Nat → Char → List PlacedToken × Mode
  | .between, offset, c => stepBetween [] offset c
  | .text start taken, offset, c =>
    if (ofMark c).isSome || c = '\'' then stepBetween [ofRun start taken] offset c
    else ([], .text start (c :: taken))
  | .quoted start taken, _, c =>
    if c = '\'' then ([⟨.quoted (String.ofList taken.reverse), start⟩], .between)
    else if c = '\\' then ([], .escaped start taken)
    else ([], .quoted start (c :: taken))
  | .escaped start taken, _, c => ([], .quoted start (c :: taken))

/-- Ends the source at byte `offset`. -/
def finishAt : Mode → Nat → Except Fault (List PlacedToken)
  | .between, offset => .ok [⟨.finish, offset⟩]
  | .text start taken, offset => .ok [ofRun start taken, ⟨.finish, offset⟩]
  | .quoted start _, _ => .error ⟨.unterminatedQuote, start⟩
  | .escaped start _, _ => .error ⟨.unterminatedEscape, start⟩

/-- The scanner of expressions. Only the end of the source can be wrong. -/
def scanner : Scanner Mode PlacedToken Fault where
  step mode offset c := .ok (step mode offset c)
  finish := finishAt

/-- The tokens of a source. -/
def scan (source : String) : Except Fault (List PlacedToken) :=
  (scanner.run .between 0 source.toList).complete

end Token

end Expression

end ObjectMarkup
