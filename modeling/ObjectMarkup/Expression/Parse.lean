import ObjectMarkup.Expression.Basic
import ObjectMarkup.Expression.Token

/-!
# Parsing expressions

An expression is a brace, a run of text, arguments separated by commas, and a brace. The run of text
is the name up to its first blank; what follows the blanks after the name is the first token of the
arguments. Text before an equals sign names an argument, and arguments without a name come first.

Every part of the parser returns the tokens it leaves together with the fact that they are fewer
than those it was given. This is why parsing ends, although the rest of a run of text goes back to
the tokens.
-/

set_option autoImplicit false

namespace ObjectMarkup

namespace Expression

/-- What is left of fewer than `limit` tokens, and the offset of the token read last. -/
structure Remaining (limit : Nat) where
  tokens : List PlacedToken
  last : Nat
  shorter : tokens.length < limit

namespace Remaining

/-- Fewer than `m` is fewer than any larger number. -/
def relax {m n : Nat} (r : Remaining m) (h : m ≤ n) : Remaining n :=
  ⟨r.tokens, r.last, Nat.lt_of_lt_of_le r.shorter h⟩

end Remaining

/-- The token to be read next; past the last one there is only the end. -/
def peek : List PlacedToken → Token
  | [] => .finish
  | t :: _ => t.token

/-- The offset to be reported before reading on: that of the next token, or else of the last one. -/
def offsetOf (last : Nat) : List PlacedToken → Nat
  | [] => last
  | t :: _ => t.offset

/-- The fault that the token to be read next does not fit. -/
def reject {α : Type} (cause : Token → Cause) (last : Nat) (tokens : List PlacedToken) :
    Except Fault α :=
  .error ⟨cause (peek tokens), offsetOf last tokens⟩

/-- A run of text at byte `offset` split into a name and the token of the rest, if any is left. -/
def splitHead (content : String) (offset : Nat) : String × List PlacedToken :=
  let cs := content.toList
  let name := cs.takeWhile fun c => !isBlank c
  let rest := trimLeft (cs.dropWhile fun c => !isBlank c)
  (String.ofList name,
    if rest.isEmpty then [] else [⟨.text (String.ofList rest), offset + byteLength name⟩])

/-- A head leaves at most one token of its run. -/
theorem length_splitHead_le (content : String) (offset : Nat) :
    (splitHead content offset).2.length ≤ 1 := by
  unfold splitHead
  dsimp only
  split <;> simp

/-- What stands in an expression behind its name. -/
structure Arguments where
  positional : List Argument
  named : List NamedArgument

mutual

/-- Parses an expression of at most `depth` nested pairs of braces. -/
def parseBraced (depth last : Nat) (tokens : List PlacedToken) :
    Except Fault (Expression × Remaining tokens.length) :=
  match depth, tokens with
  | 0, tokens => .error ⟨.tooDeep, offsetOf last tokens⟩
  | depth + 1, ⟨.leftBrace, offset⟩ :: rest =>
    match parseOpened depth offset rest with
    | .error fault => .error fault
    | .ok (e, left) => .ok (e, left.relax (by simp))
  | _, tokens => reject (.expected .leftBrace) last tokens
termination_by 4 * tokens.length

/-- Parses an expression behind its opening brace; its arguments nest at most `depth` pairs. -/
def parseOpened (depth last : Nat) (tokens : List PlacedToken) :
    Except Fault (Expression × Remaining tokens.length) :=
  match tokens with
  | [] => .error ⟨.expectedName .finish, last⟩
  | ⟨.text content, offset⟩ :: rest =>
    if content.isEmpty then .error ⟨.expectedName (.text content), offsetOf offset rest⟩
    else
      have fits : ((splitHead content offset).2 ++ rest).length ≤ rest.length + 1 := by
        have := length_splitHead_le content offset
        simp
        omega
      match h : (splitHead content offset).2 ++ rest with
      | ⟨.rightBrace, offset'⟩ :: rest' =>
        .ok (⟨(splitHead content offset).1, [], []⟩,
          ⟨rest', offset', by rw [h] at fits; simp at fits ⊢; omega⟩)
      | tokens' =>
        match parseArguments depth offset false tokens' with
        | .error fault => .error fault
        | .ok (arguments, left) =>
          .ok (⟨(splitHead content offset).1, arguments.positional, arguments.named⟩,
            left.relax (by rw [h] at fits; simpa using fits))
  | ⟨head, offset⟩ :: rest => .error ⟨.expectedName head, offsetOf offset rest⟩
termination_by 4 * tokens.length + 3
decreasing_by rw [h] at fits; simp_wf; omega

/-- Parses arguments up to the closing brace. After an argument with a name, all need one. -/
def parseArguments (depth last : Nat) (namedOnly : Bool) (tokens : List PlacedToken) :
    Except Fault (Arguments × Remaining tokens.length) :=
  match tokens with
  | ⟨.text name, offset⟩ :: ⟨.equals, offset'⟩ :: rest =>
    if name.isEmpty then .error ⟨.missingArgumentName, offset⟩
    else
      match parseValue depth offset' rest with
      | .error fault => .error fault
      | .ok (value, left) =>
        match parseSeparator depth left.last true left.tokens with
        | .error fault => .error fault
        | .ok (arguments, left') =>
          .ok ({ arguments with named := ⟨name, value⟩ :: arguments.named },
            left'.relax (by have := left.shorter; simp; omega))
  | tokens =>
    if namedOnly then .error ⟨.positionalAfterNamed, offsetOf last tokens⟩
    else
      match parseValue depth last tokens with
      | .error fault => .error fault
      | .ok (value, left) =>
        match parseSeparator depth left.last false left.tokens with
        | .error fault => .error fault
        | .ok (arguments, left') =>
          .ok ({ arguments with positional := value :: arguments.positional },
            left'.relax (by have := left.shorter; omega))
termination_by 4 * tokens.length + 2
decreasing_by
  · simp
    omega
  · have := left.shorter
    simp
    omega
  · omega
  · have := left.shorter
    omega

/-- Parses a value: text, a quoted run, or an expression. -/
def parseValue (depth last : Nat) (tokens : List PlacedToken) :
    Except Fault (Argument × Remaining tokens.length) :=
  match tokens with
  | ⟨.text content, offset⟩ :: rest => .ok (.text content, ⟨rest, offset, by simp⟩)
  | ⟨.quoted content, offset⟩ :: rest => .ok (.text content, ⟨rest, offset, by simp⟩)
  | ⟨.leftBrace, offset⟩ :: rest =>
    match parseBraced depth last (⟨.leftBrace, offset⟩ :: rest) with
    | .error fault => .error fault
    | .ok (e, left) => .ok (.nested e, left)
  | tokens => reject .expectedValue last tokens
termination_by 4 * tokens.length + 1

/-- Parses what follows an argument: the closing brace, or a comma and more arguments. -/
def parseSeparator (depth last : Nat) (namedOnly : Bool) (tokens : List PlacedToken) :
    Except Fault (Arguments × Remaining tokens.length) :=
  match tokens with
  | ⟨.rightBrace, offset⟩ :: rest => .ok (⟨[], []⟩, ⟨rest, offset, by simp⟩)
  | ⟨.comma, offset⟩ :: rest =>
    match parseArguments depth offset namedOnly rest with
    | .error fault => .error fault
    | .ok (arguments, left) => .ok (arguments, left.relax (by simp))
  | tokens => reject .expectedSeparator last tokens
termination_by 4 * tokens.length + 2

end

/-- Parses tokens that must be one expression and the end. -/
def parseTokens (tokens : List PlacedToken) : Except Fault Expression :=
  match parseBraced depthLimit 0 tokens with
  | .error fault => .error fault
  | .ok (e, left) =>
    if peek left.tokens = .finish then .ok e else reject .trailing left.last left.tokens

/-- The expression that a source spells: what is scanned from it and then parsed. -/
def parseSource (source : String) : Except Fault Expression :=
  match Token.scan source with
  | .error fault => .error fault
  | .ok tokens => parseTokens tokens

/-- Parses an expression; a fault tells its place in the source. -/
def parse (source : String) : Except Markup.Fault Expression :=
  (parseSource source).mapError fun fault => fault.inSource source

end Expression

end ObjectMarkup
