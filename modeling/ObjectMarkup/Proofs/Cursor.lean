import ObjectMarkup.Proofs.Grammar

/-!
# The parser as a cursor

A cursor stands in front of the tokens that are not read yet. It reads them one by one, puts the
rest of a head back in front of the others, counts the braces that are open, and writes down on its
way where expressions start and end, what arguments take, and what it put back. A run has no result
if calls go deeper than `calls`, and nothing in the definition says how deep is enough: every call
is made with whatever tokens there are.

From every cursor whose count is within the limit some depth is enough, and the result is that of
the parser (`Cursor.document_eq`). The parser carries what is left of the depth and the place of the
token read last from call to call, where the cursor keeps one counter and one position for all
calls.
-/

set_option autoImplicit false

namespace ObjectMarkup

namespace Expression

/-- What a cursor writes down on its way. -/
inductive Note where
  /-- An expression starts, and so many tokens are not read yet. -/
  | opens (left : Nat)
  /-- An expression is over, with a result or with a fault. -/
  | closes
  /-- An argument was read: so many tokens were not read before it, and so many are not after it. -/
  | argument (before after : Nat)
  /-- The rest of a head was put back. -/
  | inserts
deriving DecidableEq

/-- The place of the token read last, the tokens that are not read yet, how many braces are open,
and what was written down, in order. -/
structure Cursor where
  last : Nat
  left : List PlacedToken
  depth : Nat
  notes : List Note

namespace Cursor

/-- In front of all tokens. -/
def start (tokens : List PlacedToken) : Cursor :=
  ⟨0, tokens, 0, []⟩

/-- The token to be read next. -/
def next (c : Cursor) : Token :=
  peek c.left

/-- The place of a fault. -/
def offset (c : Cursor) : Nat :=
  offsetOf c.last c.left

/-- Reads a token; behind the last one the cursor does not move. -/
def advance (c : Cursor) : Cursor :=
  match c.left with
  | [] => c
  | t :: rest => { c with last := t.offset, left := rest }

/-- Notes what the cursor does. -/
def note (n : Note) (c : Cursor) : Cursor :=
  { c with notes := c.notes ++ [n] }

/-- Puts tokens in front of those that are not read yet. -/
def insert (tokens : List PlacedToken) (c : Cursor) : Cursor :=
  { c with left := tokens ++ c.left, notes := c.notes ++ tokens.map fun _ => .inserts }

/-- Goes one level deeper, and notes that. -/
def enter (c : Cursor) : Cursor :=
  { c with depth := c.depth + 1, notes := c.notes ++ [.opens c.left.length] }

/-- Goes one level further out, and notes that. -/
def leave (c : Cursor) : Cursor :=
  { c with depth := c.depth - 1, notes := c.notes ++ [.closes] }

/-- Reports a fault where the cursor stands. -/
def fail {α : Type} (cause : Cause) (c : Cursor) : Except Fault α × Cursor :=
  (.error ⟨cause, c.offset⟩, c)

/-- Reads a token that has to be the next one. -/
def expect (token : Token) (c : Cursor) : Except Fault Unit × Cursor :=
  if c.next = token then (.ok (), c.advance) else c.fail (.expected token c.next)

/-- Ends an expression. -/
def close (e : Expression) (c : Cursor) : Except Fault Expression × Cursor :=
  match c.expect .rightBrace with
  | (.error fault, c') => (.error fault, c')
  | (.ok (), c') => (.ok e, c')

mutual

/-- Reads an expression. However that ends, the count is taken back. There is no result if calls go
deeper than `calls`. -/
def expression : Nat → Cursor → Option (Except Fault Expression × Cursor)
  | 0, _ => none
  | calls + 1, c =>
    if c.depth = depthLimit then some (c.fail .tooDeep)
    else do
      let (result, c') ← braced calls c.enter
      some (result, c'.leave)

/-- Reads an expression whose start is written down. -/
def braced : Nat → Cursor → Option (Except Fault Expression × Cursor)
  | 0, _ => none
  | calls + 1, c =>
    match c.expect .leftBrace with
    | (.error fault, c') => some (.error fault, c')
    | (.ok (), c') => opened calls c'

/-- Reads an expression behind its opening brace. -/
def opened : Nat → Cursor → Option (Except Fault Expression × Cursor)
  | 0, _ => none
  | calls + 1, c =>
    match c.next with
    | .text content =>
      if content.isEmpty then some (c.advance.fail (.expectedName c.next))
      else
        let e : Expression := ⟨(splitHead content c.offset).1, [], []⟩
        let inside := c.advance.insert (splitHead content c.offset).2
        if inside.next = .rightBrace then some (inside.close e)
        else do
          match ← arguments calls e inside with
          | (.error fault, c') => some (.error fault, c')
          | (.ok e', c') => some (c'.close e')
    | _ => some (c.advance.fail (.expectedName c.next))

/-- Reads arguments up to the closing brace and adds them to the expression. -/
def arguments : Nat → Expression → Cursor → Option (Except Fault Expression × Cursor)
  | 0, _, _ => none
  | calls + 1, e, c => do
    match ← argument calls e c with
    | (.error fault, c') => some (.error fault, c')
    | (.ok e', c') => separator calls e' c'

/-- Reads what follows an argument, up to the closing brace. -/
def separator : Nat → Expression → Cursor → Option (Except Fault Expression × Cursor)
  | 0, _, _ => none
  | calls + 1, e, c =>
    match c.next with
    | .comma => arguments calls e c.advance
    | .rightBrace => some (.ok e, c)
    | _ => some (c.fail (.expectedSeparator c.next))

/-- Reads one argument and adds it to the expression. -/
def argument : Nat → Expression → Cursor → Option (Except Fault Expression × Cursor)
  | 0, _, _ => none
  | calls + 1, e, c =>
    match c.left with
    | ⟨.text name, _⟩ :: ⟨.equals, _⟩ :: _ =>
      if name.isEmpty then some (c.fail .missingArgumentName)
      else do
        match ← value calls c.advance.advance with
        | (.error fault, c') => some (.error fault, c')
        | (.ok a, c') =>
          some (.ok { e with named := e.named ++ [⟨name, a⟩] },
            c'.note (.argument c.left.length c'.left.length))
    | _ =>
      if e.named.isEmpty then do
        match ← value calls c with
        | (.error fault, c') => some (.error fault, c')
        | (.ok a, c') =>
          some (.ok { e with positional := e.positional ++ [a] },
            c'.note (.argument c.left.length c'.left.length))
      else some (c.fail .positionalAfterNamed)

/-- Reads a value. -/
def value : Nat → Cursor → Option (Except Fault Argument × Cursor)
  | 0, _ => none
  | calls + 1, c =>
    match c.next with
    | .leftBrace => do
      let (result, c') ← expression calls c
      some (result.map .nested, c')
    | .text content => some (.ok (.text content), c.advance)
    | .quoted content => some (.ok (.text content), c.advance)
    | _ => some (c.fail (.expectedValue c.next))

end

/-- Reads one expression and the end. -/
def document (calls : Nat) (c : Cursor) : Option (Except Fault Expression × Cursor) := do
  match ← expression calls c with
  | (.error fault, c') => some (.error fault, c')
  | (.ok e, c') =>
    if c'.next = .finish then some (.ok e, c') else some (c'.fail (.trailing c'.next))

/-! ### The cursor and the parser -/

/-- A run comes to an end, and to what a part of the parser gives. -/
def Gives {α : Type} {limit : Nat} (level : Nat) (run : Option (Except Fault α × Cursor)) :
    Except Fault (α × Remaining limit) → Prop
  | .error fault => ∃ c, run = some (.error fault, c)
  | .ok (a, left) => ∃ notes, run = some (.ok a, ⟨left.last, left.tokens, level, notes⟩)

/-- An expression with more arguments. -/
def extend (e : Expression) (more : Arguments) : Expression :=
  ⟨e.name, e.positional ++ more.positional, e.named ++ more.named⟩

/-- A run comes to an end in front of the brace that closes the arguments. -/
def GivesArguments {limit : Nat} (level : Nat) (e : Expression)
    (run : Option (Except Fault Expression × Cursor)) :
    Except Fault (Arguments × Remaining limit) → Prop
  | .error fault => ∃ c, run = some (.error fault, c)
  | .ok (more, left) => ∃ last notes, run = some (.ok (extend e more),
    ⟨last, ⟨.rightBrace, left.last⟩ :: left.tokens, level, notes⟩)

/-- The token that is seen next is the first one that is left. -/
theorem starts_of_peek {tokens : List PlacedToken} {token : Token} (h : peek tokens = token)
    (hInner : token ≠ .finish) : ∃ place rest, tokens = ⟨token, place⟩ :: rest := by
  rcases tokens with _ | ⟨⟨token', place⟩, rest⟩
  · exact absurd h.symm hInner
  · exact ⟨place, rest, by rw [← h]; rfl⟩

/-- A name is split off its text, and what is left of the text goes back to the tokens. -/
theorem opened_text {calls last level place : Nat} {content : String}
    {tokens : List PlacedToken} {notes : List Note} (h : ¬ content.isEmpty = true) :
    opened (calls + 1) ⟨last, ⟨.text content, place⟩ :: tokens, level, notes⟩ =
      if peek ((splitHead content place).2 ++ tokens) = .rightBrace then
        some (close ⟨(splitHead content place).1, [], []⟩
          ⟨place, (splitHead content place).2 ++ tokens, level,
            notes ++ (splitHead content place).2.map fun _ => .inserts⟩)
      else (do
        match ← arguments calls ⟨(splitHead content place).1, [], []⟩
          ⟨place, (splitHead content place).2 ++ tokens, level,
            notes ++ (splitHead content place).2.map fun _ => .inserts⟩ with
        | (.error fault, c') => some (.error fault, c')
        | (.ok e', c') => some (c'.close e')) := by
  rw [opened]
  simp only [next, peek, h]
  rfl

/-- Text in front of an equals sign is read as a name. -/
theorem argument_named {calls last level place place' : Nat} {e : Expression} {name : String}
    {tokens : List PlacedToken} {notes : List Note} (h : name.isEmpty = false) :
    argument (calls + 1) e
        ⟨last, ⟨.text name, place⟩ :: ⟨.equals, place'⟩ :: tokens, level, notes⟩ = (do
      match ← value calls ⟨place', tokens, level, notes⟩ with
      | (.error fault, c') => some (.error fault, c')
      | (.ok a, c') =>
        some (.ok { e with named := e.named ++ [⟨name, a⟩] },
          c'.note (.argument (tokens.length + 2) c'.left.length))) := by
  rw [argument]
  simp only [h, Bool.false_eq_true, ↓reduceIte]
  rfl

/-- Anything else is read as a value without a name. -/
theorem argument_positional {calls : Nat} {e : Expression} {c : Cursor}
    (h : ∀ name place place' tokens,
      c.left ≠ ⟨.text name, place⟩ :: ⟨.equals, place'⟩ :: tokens) :
    argument (calls + 1) e c =
      if e.named.isEmpty then do
        match ← value calls c with
        | (.error fault, c') => some (.error fault, c')
        | (.ok a, c') =>
          some (.ok { e with positional := e.positional ++ [a] },
            c'.note (.argument c.left.length c'.left.length))
      else some (c.fail .positionalAfterNamed) := by
  rw [argument]
  split
  · next hStarts => exact absurd hStarts (h _ _ _ _)
  · rfl

/-- No arguments extend nothing. -/
theorem extend_none (e : Expression) : extend e ⟨[], []⟩ = e := by
  cases e
  simp only [extend, List.append_nil]

/-- A named argument and more behind it extend an expression together. -/
theorem extend_named (e : Expression) (a : NamedArgument) (more : Arguments) :
    extend { e with named := e.named ++ [a] } more =
      extend e { more with named := a :: more.named } := by
  simp [extend]

/-- A positional argument and more behind it extend an expression together. -/
theorem extend_positional (e : Expression) (a : Argument) (more : Arguments) :
    extend { e with positional := e.positional ++ [a] } more =
      extend e { more with positional := a :: more.positional } := by
  simp [extend]

/-- A run that ends behind an expression takes the count back. -/
theorem Gives.leave {level limit : Nat} {run : Option (Except Fault Expression × Cursor)}
    {result : Except Fault (Expression × Remaining limit)} (h : Gives (level + 1) run result) :
    Gives level (do let (r, c) ← run; some (r, c.leave)) result := by
  cases result with
  | error fault =>
    obtain ⟨c, rfl⟩ := h
    exact ⟨c.leave, rfl⟩
  | ok r =>
    obtain ⟨notes, rfl⟩ := h
    exact ⟨notes ++ [.closes], rfl⟩

/-- A run that reads a value and then what follows it. -/
theorem Gives.join {calls level limit limit' before : Nat} {e : Expression}
    {run : Option (Except Fault Argument × Cursor)}
    {result : Except Fault (Argument × Remaining limit)} (h : Gives level run result)
    {add : Argument → Expression} {wrap : Argument → Arguments → Arguments}
    (hAdd : ∀ a more, extend (add a) more = extend e (wrap a more))
    {others : ∀ left : Remaining limit, Except Fault (Arguments × Remaining left.tokens.length)}
    {fits : limit ≤ limit'}
    (hOthers : ∀ a left notes, GivesArguments level (add a)
      (separator calls (add a) ⟨left.last, left.tokens, level, notes⟩) (others left)) :
    GivesArguments level e
      (do
        match ← (do
          match ← run with
          | (.error fault, c) => some (.error fault, c)
          | (.ok a, c) => some (.ok (add a), c.note (.argument before c.left.length)) :
          Option (Except Fault Expression × Cursor)) with
        | (.error fault, c) => some (.error fault, c)
        | (.ok e', c) => separator calls e' c) (Expression.join wrap result others fits) := by
  cases result with
  | error fault =>
    obtain ⟨c, rfl⟩ := h
    exact ⟨c, rfl⟩
  | ok r =>
    obtain ⟨a, left⟩ := r
    obtain ⟨notes, rfl⟩ := h
    have hRest := hOthers a left (notes ++ [.argument before left.tokens.length])
    dsimp only [Expression.join]
    generalize others left = result at hRest
    cases result with
    | error fault => exact hRest
    | ok r =>
      obtain ⟨last, notes', hRest⟩ := hRest
      rw [hAdd] at hRest
      exact ⟨last, notes', hRest⟩

mutual

/-- Six calls for each token are enough: no more calls than that follow one another without reading
a token. -/
theorem gives_expression {calls level depth last : Nat} {tokens : List PlacedToken}
    {notes : List Note} (h : level + depth = depthLimit) (hCalls : 6 * tokens.length + 1 < calls) :
    Gives level (expression calls ⟨last, tokens, level, notes⟩)
      (parseBraced depth last tokens) := by
  cases calls with
  | zero => exact absurd hCalls (Nat.not_lt_zero _)
  | succ calls =>
    rw [expression]
    cases depth with
    | zero =>
      rw [if_pos (by simpa using h), parseBraced.eq_def]
      exact ⟨_, rfl⟩
    | succ depth =>
      rw [if_neg (by dsimp only; omega)]
      exact Gives.leave (gives_braced (by omega) (by dsimp only; omega))

/-- With enough calls the cursor gives of braces what the parse gives. -/
theorem gives_braced {calls level depth last : Nat} {tokens : List PlacedToken}
    {notes : List Note} (h : level + depth = depthLimit) (hCalls : 6 * tokens.length < calls) :
    Gives level (braced calls ⟨last, tokens, level, notes⟩)
      (parseBraced (depth + 1) last tokens) := by
  cases calls with
  | zero => exact absurd hCalls (Nat.not_lt_zero _)
  | succ calls =>
    rw [braced, parseBraced.eq_def]
    rcases tokens with _ | ⟨⟨token, place⟩, tokens⟩
    · exact ⟨_, rfl⟩
    rw [List.length_cons] at hCalls
    cases token with
    | leftBrace =>
      have hOpened : Gives level (opened calls ⟨place, tokens, level, notes⟩)
          (parseOpened depth place tokens) := gives_opened h (by omega)
      change Gives level (opened calls ⟨place, tokens, level, notes⟩) _
      dsimp only
      generalize parseOpened depth place tokens = result at hOpened ⊢
      cases result with
      | error fault => exact hOpened
      | ok r => exact hOpened
    | _ => exact ⟨_, rfl⟩

/-- With enough calls the cursor gives behind a brace what the parse gives. -/
theorem gives_opened {calls level depth last : Nat} {tokens : List PlacedToken}
    {notes : List Note} (h : level + depth = depthLimit) (hCalls : 6 * tokens.length + 5 < calls) :
    Gives level (opened calls ⟨last, tokens, level, notes⟩) (parseOpened depth last tokens) := by
  cases calls with
  | zero => exact absurd hCalls (Nat.not_lt_zero _)
  | succ calls =>
    rcases tokens with _ | ⟨⟨token, place⟩, tokens⟩
    · rw [opened, parseOpened.eq_def]
      exact ⟨_, rfl⟩
    cases token with
    | text content =>
      by_cases hContent : content.isEmpty = true
      · rw [opened, parseOpened.eq_def]
        simp only [next, peek, hContent, ↓reduceIte]
        exact ⟨_, rfl⟩
      generalize hRun : opened _ _ = run
      rw [parseOpened.eq_def]
      dsimp only
      rw [if_neg hContent]
      split
      · next place' rest hBrace =>
        rw [opened_text hContent, hBrace] at hRun
        rw [← hRun]
        exact ⟨_, rfl⟩
      · next hOther =>
        have hNext : peek ((splitHead content place).2 ++ tokens) ≠ .rightBrace := by
          intro hBrace
          obtain ⟨place', rest, hStarts⟩ := starts_of_peek hBrace (by simp)
          exact hOther place' rest hStarts
        rw [opened_text hContent, if_neg hNext] at hRun
        rw [← hRun]
        -- The rest of the head takes the place of the text itself, so the tokens are no more.
        have hFewer : 6 * ((splitHead content place).2 ++ tokens).length + 4 < calls := by
          have hLength := length_splitHead_le content place
          rw [List.length_cons] at hCalls
          rw [List.length_append]
          omega
        have hArguments : GivesArguments level ⟨(splitHead content place).1, [], []⟩
            (arguments calls ⟨(splitHead content place).1, [], []⟩
              ⟨place, (splitHead content place).2 ++ tokens, level,
                notes ++ (splitHead content place).2.map fun _ => .inserts⟩)
            (parseArguments depth place false ((splitHead content place).2 ++ tokens)) :=
          gives_arguments h rfl hFewer
        generalize parseArguments depth place false _ = result at hArguments ⊢
        cases result with
        | error fault =>
          obtain ⟨c, hArguments⟩ := hArguments
          rw [hArguments]
          exact ⟨c, rfl⟩
        | ok r =>
          obtain ⟨last', notes', hArguments⟩ := hArguments
          rw [hArguments]
          exact ⟨notes', rfl⟩
    | _ =>
      rw [opened, parseOpened.eq_def]
      exact ⟨_, rfl⟩

/-- With enough calls the cursor gives of arguments what the parse gives. -/
theorem gives_arguments {calls level depth last : Nat} {namedOnly : Bool}
    {tokens : List PlacedToken} {notes : List Note} {e : Expression}
    (h : level + depth = depthLimit) (hNamed : namedOnly = !e.named.isEmpty)
    (hCalls : 6 * tokens.length + 4 < calls) :
    GivesArguments level e (arguments calls e ⟨last, tokens, level, notes⟩)
      (parseArguments depth last namedOnly tokens) := by
  match calls with
  | 0 | 1 => exact absurd hCalls (by omega)
  | calls + 2 =>
    by_cases hStarts : ∃ name place place' rest,
      tokens = ⟨.text name, place⟩ :: ⟨.equals, place'⟩ :: rest
    · obtain ⟨name, place, place', rest, rfl⟩ := hStarts
      simp only [List.length_cons] at hCalls
      by_cases hName : name.isEmpty = true
      · rw [arguments, argument, parseArguments.eq_def]
        simp only [hName, ↓reduceIte]
        exact ⟨_, rfl⟩
      rw [arguments, argument_named (by simpa using hName),
        parseArguments_named (by simpa using hName)]
      refine (gives_value h (by omega)).join (fun a more => extend_named e ⟨name, a⟩ more) ?_
      intro a left notes'
      have hShorter := left.shorter
      exact gives_separator h (by simp) (by omega)
    · have hPositional : ∀ name place place' rest,
          tokens ≠ ⟨.text name, place⟩ :: ⟨.equals, place'⟩ :: rest := by simpa using hStarts
      rw [arguments, argument_positional hPositional]
      by_cases hNone : e.named.isEmpty = true
      · rw [if_pos hNone, hNamed, hNone]
        rw [Bool.not_true, parseArguments_positional hPositional]
        refine (gives_value h (by omega)).join (extend_positional e) ?_
        intro a left notes'
        have hShorter := left.shorter
        exact gives_separator h (by simp [hNone]) (by omega)
      · rw [if_neg hNone, parseArguments.eq_def]
        split
        · exact absurd rfl (hPositional _ _ _ _)
        · rw [if_pos (by simp [hNamed, hNone])]
          exact ⟨_, rfl⟩

/-- With enough calls the cursor gives behind an argument what the parse gives. -/
theorem gives_separator {calls level depth last : Nat} {namedOnly : Bool}
    {tokens : List PlacedToken} {notes : List Note} {e : Expression}
    (h : level + depth = depthLimit) (hNamed : namedOnly = !e.named.isEmpty)
    (hCalls : 6 * tokens.length < calls) :
    GivesArguments level e (separator calls e ⟨last, tokens, level, notes⟩)
      (parseSeparator depth last namedOnly tokens) := by
  cases calls with
  | zero => exact absurd hCalls (Nat.not_lt_zero _)
  | succ calls =>
    rw [separator, parseSeparator.eq_def]
    rcases tokens with _ | ⟨⟨token, place⟩, tokens⟩
    · exact ⟨_, rfl⟩
    rw [List.length_cons] at hCalls
    cases token with
    | rightBrace =>
      refine ⟨last, notes, ?_⟩
      rw [extend_none]
      rfl
    | comma =>
      have hArguments : GivesArguments level e (arguments calls e ⟨place, tokens, level, notes⟩)
          (parseArguments depth place namedOnly tokens) := gives_arguments h hNamed (by omega)
      change GivesArguments level e (arguments calls e ⟨place, tokens, level, notes⟩) _
      dsimp only
      generalize parseArguments depth place namedOnly tokens = result at hArguments ⊢
      cases result with
      | error fault => exact hArguments
      | ok r => exact hArguments
    | _ => exact ⟨_, rfl⟩

/-- With enough calls the cursor gives of a value what the parse gives. -/
theorem gives_value {calls level depth last : Nat} {tokens : List PlacedToken}
    {notes : List Note} (h : level + depth = depthLimit) (hCalls : 6 * tokens.length + 2 < calls) :
    Gives level (value calls ⟨last, tokens, level, notes⟩) (parseValue depth last tokens) := by
  cases calls with
  | zero => exact absurd hCalls (Nat.not_lt_zero _)
  | succ calls =>
    rw [value, parseValue.eq_def]
    rcases tokens with _ | ⟨⟨token, place⟩, tokens⟩
    · exact ⟨_, rfl⟩
    cases token with
    | leftBrace =>
      have hExpression : Gives level
          (expression calls ⟨last, ⟨.leftBrace, place⟩ :: tokens, level, notes⟩)
          (parseBraced depth last (⟨.leftBrace, place⟩ :: tokens)) :=
        gives_expression h (by omega)
      dsimp only [next, peek]
      generalize parseBraced depth last (⟨.leftBrace, place⟩ :: tokens) = result at hExpression ⊢
      cases result with
      | error fault =>
        obtain ⟨c, hExpression⟩ := hExpression
        rw [hExpression]
        exact ⟨c, rfl⟩
      | ok r =>
        obtain ⟨notes', hExpression⟩ := hExpression
        rw [hExpression]
        exact ⟨notes', rfl⟩
    | text => exact ⟨notes, rfl⟩
    | quoted => exact ⟨notes, rfl⟩
    | _ => exact ⟨_, rfl⟩

end

/-! ### More calls change nothing -/

/-- A result of two steps stays with more calls if that of the first step does. -/
theorem bind_more {α β : Type} {run run' : Option α} {next : α → Option β} {r : β}
    (hMore : ∀ x, run = some x → run' = some x) (h : run.bind next = some r) :
    run'.bind next = some r := by
  obtain ⟨x, hRun, hRest⟩ := Option.bind_eq_some_iff.mp h
  exact Option.bind_eq_some_iff.mpr ⟨x, hMore x hRun, hRest⟩

/-- A result stays the same if calls may go deeper. -/
theorem more_calls (calls : Nat) :
    (∀ c r, expression calls c = some r → expression (calls + 1) c = some r) ∧
    (∀ c r, braced calls c = some r → braced (calls + 1) c = some r) ∧
    (∀ c r, opened calls c = some r → opened (calls + 1) c = some r) ∧
    (∀ e c r, arguments calls e c = some r → arguments (calls + 1) e c = some r) ∧
    (∀ e c r, separator calls e c = some r → separator (calls + 1) e c = some r) ∧
    (∀ e c r, argument calls e c = some r → argument (calls + 1) e c = some r) ∧
    ∀ c r, value calls c = some r → value (calls + 1) c = some r := by
  induction calls with
  | zero => simp [expression, braced, opened, arguments, separator, argument, value]
  | succ calls ih =>
    obtain ⟨hExpression, hBraced, hOpened, hArguments, hSeparator, hArgument, hValue⟩ := ih
    refine ⟨?_, ?_, ?_, ?_, ?_, ?_, ?_⟩
    · intro c r h
      rw [expression] at h ⊢
      split at h
      · next hDepth => rw [if_pos hDepth, h]
      · next hDepth =>
        rw [if_neg hDepth]
        exact bind_more (hBraced _) h
    · intro c r h
      rw [braced] at h ⊢
      grind
    · intro c r h
      rw [opened] at h ⊢
      split at h
      · next content hNext =>
        simp only [hNext] at h ⊢
        split at h
        · grind
        · next hContent =>
          rw [if_neg hContent]
          split at h
          · grind
          · next hBrace =>
            rw [if_neg hBrace]
            exact bind_more (hArguments _ _) h
      · grind
    · intro e c r h
      rw [arguments] at h ⊢
      obtain ⟨⟨result, c'⟩, hFirst, hRest⟩ := Option.bind_eq_some_iff.mp h
      refine Option.bind_eq_some_iff.mpr ⟨(result, c'), hArgument _ _ _ hFirst, ?_⟩
      cases result with
      | error fault => exact hRest
      | ok e' => exact hSeparator _ _ _ hRest
    · intro e c r h
      rw [separator] at h ⊢
      grind
    · intro e c r h
      rw [argument] at h
      split at h
      · next hLeft =>
        rw [argument]
        simp only [hLeft] at h ⊢
        split at h
        · grind
        · next hName =>
          rw [if_neg hName]
          exact bind_more (hValue _) h
      · next hUnnamed =>
        rw [argument_positional hUnnamed]
        split at h
        · next hNone =>
          rw [if_pos hNone]
          exact bind_more (hValue c) h
        · next hSome => rw [if_neg hSome, h]
    · intro c r h
      rw [value] at h ⊢
      grind [Option.bind_eq_some_iff]

/-- A result stays with more calls. -/
theorem document_more {calls : Nat} {c : Cursor} {r : Except Fault Expression × Cursor}
    (h : document calls c = some r) (more : Nat) : document (calls + more) c = some r := by
  induction more with
  | zero => exact h
  | succ more ih => exact bind_more ((more_calls (calls + more)).1 c) ih

/-- Whatever tokens there are, a cursor comes to an end, and to the result of the parser. -/
theorem document_eq (tokens : List PlacedToken) :
    ∃ calls c, ∀ more, document (calls + more) (start tokens) = some (parseTokens tokens, c) := by
  have hExpression : Gives 0 (expression (6 * tokens.length + 2) (start tokens))
      (parseBraced depthLimit 0 tokens) :=
    gives_expression (Nat.zero_add depthLimit) (Nat.lt_succ_self _)
  have hDocument :
      ∃ c, document (6 * tokens.length + 2) (start tokens) = some (parseTokens tokens, c) := by
    rw [document, parseTokens]
    generalize parseBraced depthLimit 0 tokens = result at hExpression ⊢
    cases result with
    | error fault =>
      obtain ⟨c, hExpression⟩ := hExpression
      rw [hExpression]
      exact ⟨c, rfl⟩
    | ok r =>
      obtain ⟨e, left⟩ := r
      obtain ⟨notes, hExpression⟩ := hExpression
      rw [hExpression]
      dsimp only
      split
      · next hEnd => exact ⟨_, if_pos hEnd⟩
      · next hEnd => exact ⟨_, if_neg hEnd⟩
  obtain ⟨c, hRun⟩ := hDocument
  exact ⟨_, c, document_more hRun⟩

end Cursor

end Expression

end ObjectMarkup
