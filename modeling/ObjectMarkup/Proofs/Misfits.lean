import ObjectMarkup.Proofs.Progress
import ObjectMarkup.Proofs.Spelling

/-!
# The token that does not fit

A fault that names a token names the first one that no expression goes on with: what stands in front
of it is the start of an expression, and with it there is none, whatever follows (`IsFirstMisfit`).
The column is that of this token, except where a name is expected: that token is read before the
fault is placed, so the column is that of the token behind it (`parse_reports_misfit`).

A part of the parser is looked at as what it reads, from which tokens to which (`Returns`). A misfit
of a part is one of the part around it, with what was read before in front (`Stops.lift`), so the
cases follow the calls of the parser.
-/

set_option autoImplicit false

namespace ObjectMarkup

namespace Expression

/-- The token that a fault says was got. -/
def Cause.got? : Cause → Option Token
  | .expected _ got | .expectedName got | .expectedSeparator got | .expectedValue got
  | .trailing got => some got
  | .unterminatedQuote | .unterminatedEscape | .tooDeep | .missingArgumentName
  | .positionalAfterNamed => none

/-- The place of a fault when `t` does not fit: where `t` stands, or, if a name was expected, where
the token behind it stands. -/
def Cause.place (cause : Cause) (t : PlacedToken) (back : List PlacedToken) : Nat :=
  match cause with
  | .expectedName _ => offsetOf t.offset back
  | _ => t.offset

/-- The first token that no expression goes on with. -/
def IsFirstMisfit (front : List PlacedToken) (t : PlacedToken) : Prop :=
  (∃ more e, parseTokens (front ++ more) = .ok e) ∧
    ∀ more e, parseTokens (front ++ t :: more) ≠ .ok e

/-- No misfit stands behind the first one. -/
theorem IsFirstMisfit.eq_nil {front middle back back' : List PlacedToken} {t t' : PlacedToken}
    (h : IsFirstMisfit front t) (h' : IsFirstMisfit (front ++ middle) t')
    (hSame : t :: back = middle ++ t' :: back') : middle = [] := by
  cases middle with
  | nil => rfl
  | cons u middle =>
    obtain ⟨rfl, -⟩ := List.cons.inj hSame
    obtain ⟨more, e, hMore⟩ := h'.1
    rw [List.append_assoc] at hMore
    exact absurd hMore (h.2 _ e)

/-- A source has one first misfit. -/
theorem IsFirstMisfit.unique {front front' back back' : List PlacedToken} {t t' : PlacedToken}
    (h : IsFirstMisfit front t) (h' : IsFirstMisfit front' t')
    (hSame : front ++ t :: back = front' ++ t' :: back') : front = front' ∧ t = t' := by
  rcases List.append_eq_append_iff.mp hSame with ⟨middle, rfl, hBack⟩ | ⟨middle, rfl, hBack⟩
  · obtain rfl := h.eq_nil h' hBack
    exact ⟨(List.append_nil front).symm, (List.cons.inj hBack).1⟩
  · obtain rfl := h'.eq_nil h hBack
    exact ⟨List.append_nil front', (List.cons.inj hBack).1.symm⟩

/-! ### Tokens as a source has them -/

/-- No text is empty, and there is an end. -/
structure Lexed (tokens : List PlacedToken) : Prop where
  texts : .text "" ∉ tokens.map PlacedToken.token
  finish : .finish ∈ tokens.map PlacedToken.token

/-- There is always one more token, the end. -/
theorem Lexed.exists_cons {tokens : List PlacedToken} (h : Lexed tokens) :
    ∃ t rest, tokens = t :: rest := by
  cases tokens with
  | nil => cases h.finish
  | cons t rest => exact ⟨t, rest, rfl⟩

/-- What is left behind tokens that are used up ends as the whole does. -/
theorem Lexed.behind {used left : List PlacedToken} (h : Lexed (used ++ left))
    (hUsed : .finish ∉ used.map PlacedToken.token) : Lexed left := by
  obtain ⟨hTexts, hFinish⟩ := h
  rw [List.map_append, List.mem_append] at hTexts hFinish
  exact ⟨fun hText => hTexts (.inr hText), hFinish.resolve_left hUsed⟩

/-- No text that is used up is empty. -/
theorem Lexed.texts_before {used left : List PlacedToken} (h : Lexed (used ++ left)) :
    .text "" ∉ used.map PlacedToken.token := by
  intro hText
  apply h.texts
  rw [List.map_append]
  exact List.mem_append_left _ hText

/-- Behind a token that is not the end there are more. -/
theorem Lexed.tail {t : PlacedToken} {rest : List PlacedToken} (h : Lexed (t :: rest))
    (hInner : t.token ≠ .finish) : Lexed rest := by
  have hAll : Lexed ([t] ++ rest) := h
  exact hAll.behind (by simpa using hInner.symm)

/-- The first text is not empty. -/
theorem Lexed.nonempty {content : String} {place : Nat} {rest : List PlacedToken}
    (h : Lexed (⟨.text content, place⟩ :: rest)) : content ≠ "" := by
  rintro rfl
  exact h.texts List.mem_cons_self

/-- A text whose first word was taken off leaves tokens that end as before. -/
theorem Lexed.split {content : String} {place : Nat} {rest : List PlacedToken}
    (h : Lexed (⟨.text content, place⟩ :: rest)) : Lexed ((splitHead content place).2 ++ rest) := by
  have hRest := h.tail (by simp)
  obtain ⟨name, rest', hHead⟩ := exists_isHead content
  obtain ⟨-, hSplit⟩ := splitHead_of_isHead hHead place
  refine ⟨?_, ?_⟩
  · rw [List.map_append, hSplit, List.mem_append, not_or]
    exact ⟨not_mem_restTokens rest', hRest.texts⟩
  · rw [List.map_append, List.mem_append]
    exact .inr hRest.finish

/-- The tokens of a source end as they should, and no text among them is empty. -/
theorem lexed_of_scan {source : String} {tokens : List PlacedToken}
    (h : Token.scan source = .ok tokens) : Lexed tokens := by
  obtain ⟨front, last, rfl, hInner⟩ := Token.inner_of_scan h
  refine ⟨?_, by simp⟩
  rw [List.map_append, List.mem_append, not_or]
  exact ⟨not_mem_of_allInner hInner, by simp⟩

/-! ### Misfits of a part -/

section Stops

variable {α β : Type} {tokens : List PlacedToken} {fault : Fault}

/-- A part of the parser that reads tokens for a value and leaves others stops at a token: what
stands in front of it can go on so that the part reads it, with the token there is nothing it reads.
-/
def Stops (reads : List PlacedToken → α → List PlacedToken → Prop) (tokens : List PlacedToken)
    (fault : Fault) : Prop :=
  ∃ front t back, tokens = front ++ t :: back ∧ fault.cause.got? = some t.token ∧
    fault.offset = fault.cause.place t back ∧
    (∃ more a, ∀ rest, reads (front ++ (more ++ rest)) a rest) ∧
    ∀ more a rest, ¬ reads (front ++ t :: more) a rest

/-- A part stops where a part that it calls stops. In front of that it has read `before`, and behind
it `closing` ends it. -/
theorem Stops.lift {inner : List PlacedToken → α → List PlacedToken → Prop}
    {outer : List PlacedToken → β → List PlacedToken → Prop} (h : Stops inner tokens fault)
    (before closing : List PlacedToken) (f : α → β)
    (hReads : ∀ tokens' a rest, inner tokens' a (closing ++ rest) →
      outer (before ++ tokens') (f a) rest)
    (hRejects : ∀ tokens' b rest, tokens'.head? = tokens.head? →
      outer (before ++ tokens') b rest → ∃ a left, inner tokens' a left) :
    Stops outer (before ++ tokens) fault := by
  obtain ⟨front, t, back, rfl, hGot, hPlace, ⟨more, a, hMore⟩, hNone⟩ := h
  refine ⟨before ++ front, t, back, by simp, hGot, hPlace, ⟨more ++ closing, f a, ?_⟩, ?_⟩
  · intro rest
    rw [List.append_assoc, List.append_assoc more]
    exact hReads _ a rest (hMore _)
  · intro more' b rest hOuter
    have hHead : (front ++ t :: more').head? = (front ++ t :: back).head? := by
      cases front <;> rfl
    rw [List.append_assoc] at hOuter
    obtain ⟨a', left, hInner⟩ := hRejects _ b rest hHead hOuter
    exact hNone more' a' left hInner

/-- A part stops at the first token. -/
theorem Stops.here {reads : List PlacedToken → α → List PlacedToken → Prop} {t : PlacedToken}
    {back : List PlacedToken} {cause : Cause} {place : Nat} (hGot : cause.got? = some t.token)
    (hPlace : place = cause.place t back) (hReads : ∃ more a, ∀ rest, reads (more ++ rest) a rest)
    (hNone : ∀ more a rest, ¬ reads (t :: more) a rest) : Stops reads (t :: back) ⟨cause, place⟩ :=
  ⟨[], t, back, rfl, hGot, hPlace, hReads, hNone⟩

/-! ### What the parts read -/

/-- An expression in braces is read from the tokens, and `rest` is left. -/
def ReadsBraced (depth : Nat) (tokens : List PlacedToken) (e : Expression)
    (rest : List PlacedToken) : Prop :=
  Returns (parseBraced depth 0 tokens) e rest

/-- An expression is read behind its brace, and `rest` is left. -/
def ReadsOpened (depth : Nat) (tokens : List PlacedToken) (e : Expression)
    (rest : List PlacedToken) : Prop :=
  Returns (parseOpened depth 0 tokens) e rest

/-- Arguments are read up to the brace behind them, and `rest` is left. -/
def ReadsArguments (depth : Nat) (namedOnly : Bool) (tokens : List PlacedToken)
    (arguments : Arguments) (rest : List PlacedToken) : Prop :=
  Returns (parseArguments depth 0 namedOnly tokens) arguments rest

/-- What separates arguments is read with those behind it, and `rest` is left. -/
def ReadsSeparator (depth : Nat) (namedOnly : Bool) (tokens : List PlacedToken)
    (arguments : Arguments) (rest : List PlacedToken) : Prop :=
  Returns (parseSeparator depth 0 namedOnly tokens) arguments rest

/-- One value is read, and `rest` is left. -/
def ReadsValue (depth : Nat) (tokens : List PlacedToken) (a : Argument)
    (rest : List PlacedToken) : Prop :=
  Returns (parseValue depth 0 tokens) a rest

/-- A parse returns one thing and leaves one rest. -/
theorem Returns.unique {limit : Nat} {result : Except Fault (α × Remaining limit)} {a a' : α}
    {rest rest' : List PlacedToken} (h : Returns result a rest) (h' : Returns result a' rest') :
    a = a' ∧ rest = rest' := by
  obtain ⟨left, hResult, rfl⟩ := h
  obtain ⟨left', hResult', rfl⟩ := h'
  rw [hResult] at hResult'
  cases hResult'
  exact ⟨rfl, rfl⟩

/-- What arguments are does not depend on where the token before them stands. -/
theorem Returns.arguments_at {depth last : Nat} {namedOnly : Bool} {arguments : Arguments}
    {rest : List PlacedToken}
    (h : Returns (parseArguments depth last namedOnly tokens) arguments rest) (last' : Nat) :
    Returns (parseArguments depth last' namedOnly tokens) arguments rest := by
  rw [returns_parseArguments_iff] at h ⊢
  obtain ⟨item, tokens', left, others, hFirst, hValue, hSeparator, hAdd⟩ := h
  exact ⟨item, tokens', left, others, hFirst, hValue.value_at last', hSeparator.separator_at last',
    hAdd⟩

/-- A value in front of anything but an equals sign does not look like a name. -/
theorem Returns.not_named {depth last : Nat} {a : Argument} {left : List PlacedToken}
    (h : Returns (parseValue depth last tokens) a left) (hLeft : peek left ≠ .equals)
    (name : String) (place place' : Nat) (rest : List PlacedToken) :
    tokens ≠ ⟨.text name, place⟩ :: ⟨.equals, place'⟩ :: rest := by
  rintro rfl
  rcases returns_parseValue_iff.mp h with ⟨_, _, _, hText | hQuoted⟩ | ⟨e, _, hBraced⟩
  · rw [← (List.cons.inj hText).2] at hLeft
    exact hLeft rfl
  · cases hQuoted
  · obtain ⟨_, _, _, _, hStarts, _⟩ := returns_parseBraced_iff.mp hBraced
    cases hStarts

/-- What a value is read from does not depend on what follows it. -/
theorem exists_used {depth last : Nat} {a : Argument} {left : List PlacedToken}
    (hTokens : Lexed tokens) (h : Returns (parseValue depth last tokens) a left) :
    ∃ used, tokens = used ++ left ∧ Lexed left ∧ used ≠ [] ∧
      ∀ rest, ReadsValue depth (used ++ rest) a rest := by
  have hShorter := h.shorter
  obtain ⟨used, rfl, hSpells, hNesting⟩ := spells_of_parseValue h
  refine ⟨used, rfl, hTokens.behind (finish_not_mem_of_spells hSpells), ?_, ?_⟩
  · rintro rfl
    exact lt_irrefl _ hShorter
  · intro rest
    exact parses_of_spells hSpells used rfl hTokens.texts_before depth hNesting 0 rest

/-- An expression in braces is what stands behind the brace, one level deeper. -/
theorem readsBraced_iff {depth place : Nat} {e : Expression} {rest : List PlacedToken} :
    ReadsBraced (depth + 1) (⟨.leftBrace, place⟩ :: tokens) e rest ↔
      ReadsOpened depth tokens e rest := by
  rw [ReadsBraced, returns_parseBraced_iff]
  constructor
  · rintro ⟨depth', place', tokens', hDepth, hTokens, hOpened⟩
    cases hDepth
    cases hTokens
    exact returns_parseOpened_iff.mpr (returns_parseOpened_iff.mp hOpened)
  · intro hOpened
    exact ⟨depth, place, tokens, rfl, rfl,
      returns_parseOpened_iff.mpr (returns_parseOpened_iff.mp hOpened)⟩

/-- A named argument is a name that is not empty, its value, and only named ones behind it. -/
theorem readsArguments_named_iff {depth place place' : Nat} {namedOnly : Bool} {name : String}
    {arguments : Arguments} {rest : List PlacedToken} :
    ReadsArguments depth namedOnly (⟨.text name, place⟩ :: ⟨.equals, place'⟩ :: tokens) arguments
        rest ↔
      name ≠ "" ∧ ∃ a left others, ReadsValue depth tokens a left ∧
        ReadsSeparator depth true left others rest ∧ arguments = others.add (.named ⟨name, a⟩) := by
  rw [ReadsArguments, returns_parseArguments_iff]
  constructor
  · rintro ⟨item, tokens', left, others, hFirst, hValue, hSeparator, rfl⟩
    cases hFirst with
    | named starts nonempty =>
      cases starts
      exact ⟨nonempty, _, left, others, hValue, hSeparator, rfl⟩
    | positional _ starts => exact absurd rfl (starts _ _ _ _)
  · rintro ⟨nonempty, a, left, others, hValue, hSeparator, rfl⟩
    exact ⟨.named ⟨name, a⟩, tokens, left, others, .named rfl nonempty, hValue, hSeparator, rfl⟩

/-- An argument that starts with no name is a value, and others may follow it. -/
theorem readsArguments_positional_iff {depth : Nat} {arguments : Arguments}
    {rest : List PlacedToken}
    (h : ∀ name place place' rest, tokens ≠ ⟨.text name, place⟩ :: ⟨.equals, place'⟩ :: rest) :
    ReadsArguments depth false tokens arguments rest ↔
      ∃ a left others, ReadsValue depth tokens a left ∧
        ReadsSeparator depth false left others rest ∧ arguments = others.add (.positional a) := by
  rw [ReadsArguments, returns_parseArguments_iff]
  constructor
  · rintro ⟨item, tokens', left, others, hFirst, hValue, hSeparator, rfl⟩
    cases hFirst with
    | named starts => exact absurd starts (h _ _ _ _)
    | positional => exact ⟨_, left, others, hValue, hSeparator, rfl⟩
  · rintro ⟨a, left, others, hValue, hSeparator, rfl⟩
    exact ⟨.positional a, tokens, left, others, .positional rfl h, hValue, hSeparator, rfl⟩

/-- The closing brace ends the arguments. -/
theorem readsSeparator_close (depth place : Nat) (namedOnly : Bool) (rest : List PlacedToken) :
    ReadsSeparator depth namedOnly (⟨.rightBrace, place⟩ :: rest) ⟨[], []⟩ rest :=
  returns_parseSeparator_iff.mpr (.inl ⟨place, rfl, rfl⟩)

/-- Behind an opening brace a name and the closing brace can follow. -/
theorem readsOpened_name (depth : Nat) (rest : List PlacedToken) :
    ReadsOpened depth (⟨.text "x", 0⟩ :: ⟨.rightBrace, 0⟩ :: rest) ⟨"x", [], []⟩ rest :=
  returns_parseOpened_iff.mpr ⟨"x", 0, _, rfl, by decide, rfl, .inl ⟨0, rfl, rfl, rfl⟩⟩

/-! ### From a part to the part around it -/

/-- What stops behind the brace stops in braces, one level further out. -/
theorem Stops.braced {depth : Nat} (h : Stops (ReadsOpened depth) tokens fault) (place : Nat) :
    Stops (ReadsBraced (depth + 1)) (⟨.leftBrace, place⟩ :: tokens) fault := by
  refine h.lift [⟨.leftBrace, place⟩] [] id ?_ ?_
  · intro tokens' e rest hOpened
    exact readsBraced_iff.mpr hOpened
  · intro tokens' e rest _ hBraced
    exact ⟨e, rest, readsBraced_iff.mp hBraced⟩

/-- What stops in an inner expression stops where its value is read. -/
theorem Stops.nested {depth place : Nat}
    (h : Stops (ReadsBraced depth) (⟨.leftBrace, place⟩ :: tokens) fault) :
    Stops (ReadsValue depth) (⟨.leftBrace, place⟩ :: tokens) fault := by
  refine h.lift [] [] .nested ?_ ?_
  · intro tokens' e rest hBraced
    exact returns_parseValue_iff.mpr (.inr ⟨e, rfl, hBraced⟩)
  · intro tokens' a rest hHead hValue
    rcases returns_parseValue_iff.mp hValue with ⟨_, _, _, rfl | rfl⟩ | ⟨e, _, hBraced⟩
    · cases hHead
    · cases hHead
    · exact ⟨e, rest, hBraced⟩

/-- What stops in the arguments behind a comma stops at the comma. -/
theorem Stops.comma {depth : Nat} {namedOnly : Bool}
    (h : Stops (ReadsArguments depth namedOnly) tokens fault) (place : Nat) :
    Stops (ReadsSeparator depth namedOnly) (⟨.comma, place⟩ :: tokens) fault := by
  refine h.lift [⟨.comma, place⟩] [] id ?_ ?_
  · intro tokens' arguments rest hArguments
    exact returns_parseSeparator_iff.mpr (.inr ⟨place, tokens', rfl, hArguments.arguments_at place⟩)
  · intro tokens' arguments rest _ hSeparator
    rcases returns_parseSeparator_iff.mp hSeparator with ⟨_, hClose, _⟩ | ⟨_, _, hComma, hArguments⟩
    · cases hClose
    · cases hComma
      exact ⟨arguments, rest, hArguments.arguments_at 0⟩

/-- What stops in the value of a named argument stops in the arguments. -/
theorem Stops.named {depth : Nat} {namedOnly : Bool} {name : String} (hName : name ≠ "")
    (h : Stops (ReadsValue depth) tokens fault) (place place' : Nat) :
    Stops (ReadsArguments depth namedOnly) (⟨.text name, place⟩ :: ⟨.equals, place'⟩ :: tokens)
      fault := by
  refine h.lift [⟨.text name, place⟩, ⟨.equals, place'⟩] [⟨.rightBrace, 0⟩]
    (fun a => Arguments.add (.named ⟨name, a⟩) ⟨[], []⟩) ?_ ?_
  · intro tokens' a rest hValue
    exact readsArguments_named_iff.mpr
      ⟨hName, a, _, _, hValue, readsSeparator_close depth 0 true rest, rfl⟩
  · intro tokens' arguments rest _ hArguments
    obtain ⟨-, a, left, -, hValue, -⟩ := readsArguments_named_iff.mp hArguments
    exact ⟨a, left, hValue⟩

/-- What stops behind a named argument stops in the arguments that it is the first of. -/
theorem Stops.behind_named {depth : Nat} {namedOnly : Bool} {name : String} {a : Argument}
    {used : List PlacedToken} (hName : name ≠ "")
    (hUsed : ∀ rest, ReadsValue depth (used ++ rest) a rest)
    (h : Stops (ReadsSeparator depth true) tokens fault) (place place' : Nat) :
    Stops (ReadsArguments depth namedOnly)
      (⟨.text name, place⟩ :: ⟨.equals, place'⟩ :: (used ++ tokens)) fault := by
  refine h.lift (⟨.text name, place⟩ :: ⟨.equals, place'⟩ :: used) []
    (Arguments.add (.named ⟨name, a⟩)) ?_ ?_
  · intro tokens' others rest hSeparator
    exact readsArguments_named_iff.mpr ⟨hName, a, tokens', others, hUsed tokens', hSeparator, rfl⟩
  · intro tokens' arguments rest _ hArguments
    obtain ⟨-, a', left, others, hValue, hSeparator, -⟩ := readsArguments_named_iff.mp hArguments
    obtain ⟨-, rfl⟩ := hValue.unique (hUsed tokens')
    exact ⟨others, rest, hSeparator⟩

/-- Tokens that do not start with a name and its equals sign. -/
def Unnamed (tokens : List PlacedToken) : Prop :=
  ∀ name place place' rest, tokens ≠ ⟨.text name, place⟩ :: ⟨.equals, place'⟩ :: rest

/-- Whether tokens start with a name can be seen at a value and the token behind it. -/
theorem Unnamed.of_head {used tokens' : List PlacedToken} (h : Unnamed (used ++ tokens))
    (hUsed : used ≠ []) (hHead : tokens'.head? = tokens.head?) : Unnamed (used ++ tokens') := by
  intro name place place' rest hStarts
  match used with
  | [] => exact hUsed rfl
  | [t] =>
    obtain ⟨rfl, rfl⟩ := List.cons.inj hStarts
    obtain ⟨rest', rfl⟩ := List.head?_eq_some_iff.mp hHead.symm
    exact h name place place' rest' rfl
  | t :: t' :: others =>
    obtain ⟨rfl, hTail⟩ := List.cons.inj hStarts
    obtain ⟨rfl, -⟩ := List.cons.inj hTail
    exact h name place place' _ rfl

/-- What stops in a value that is no text stops in the arguments that it is the first of. -/
theorem Stops.positional {depth : Nat}
    (hText : ∀ name place rest, tokens ≠ ⟨.text name, place⟩ :: rest)
    (h : Stops (ReadsValue depth) tokens fault) :
    Stops (ReadsArguments depth false) tokens fault := by
  refine h.lift [] [⟨.rightBrace, 0⟩] (fun a => Arguments.add (.positional a) ⟨[], []⟩) ?_ ?_
  · intro tokens' a rest hValue
    have hUnnamed : Unnamed tokens' := hValue.not_named (by simp [peek])
    exact (readsArguments_positional_iff hUnnamed).mpr
      ⟨a, _, _, hValue, readsSeparator_close depth 0 false rest, rfl⟩
  · intro tokens' arguments rest hHead hArguments
    have hUnnamed : Unnamed tokens' := by
      rintro name place place' rest' rfl
      obtain ⟨rest'', rfl⟩ := List.head?_eq_some_iff.mp hHead.symm
      exact hText name place rest'' rfl
    obtain ⟨a, left, -, hValue, -⟩ := (readsArguments_positional_iff hUnnamed).mp hArguments
    exact ⟨a, left, hValue⟩

/-- What stops behind a value stops in the arguments that it is the first of. -/
theorem Stops.behind_positional {depth : Nat} {a : Argument} {used : List PlacedToken}
    (hUnnamed : Unnamed (used ++ tokens)) (hSome : used ≠ [])
    (hUsed : ∀ rest, ReadsValue depth (used ++ rest) a rest)
    (h : Stops (ReadsSeparator depth false) tokens fault) :
    Stops (ReadsArguments depth false) (used ++ tokens) fault := by
  refine h.lift used [] (Arguments.add (.positional a)) ?_ ?_
  · intro tokens' others rest hSeparator
    have hUnnamed' : Unnamed (used ++ tokens') :=
      (hUsed tokens').not_named hSeparator.separator_starts
    exact (readsArguments_positional_iff hUnnamed').mpr
      ⟨a, tokens', others, hUsed tokens', hSeparator, rfl⟩
  · intro tokens' arguments rest hHead hArguments
    have hUnnamed' := hUnnamed.of_head hSome hHead
    obtain ⟨a', left, others, hValue, hSeparator, -⟩ :=
      (readsArguments_positional_iff hUnnamed').mp hArguments
    obtain ⟨-, rfl⟩ := hValue.unique (hUsed tokens')
    exact ⟨others, rest, hSeparator⟩

/-- The rest of a head is the first argument, or the name of one, so no part stops at it. -/
theorem Stops.behind_head {depth : Nat} {content : String} {place : Nat}
    (h : Stops (ReadsArguments depth false) ((splitHead content place).2 ++ tokens) fault) :
    Stops (fun tokens' => ReadsArguments depth false ((splitHead content place).2 ++ tokens'))
      tokens fault := by
  rcases splitHead_cases content place with hEmpty | ⟨rest, place', hPut⟩
  · rw [hEmpty] at h ⊢
    exact h
  · rw [hPut] at h ⊢
    obtain ⟨front, t, back, hSplit, hGot, hPlace, ⟨more, a, hMore⟩, hNone⟩ := h
    cases front with
    | nil =>
      -- The rest of the head would not fit, but it is an argument with nothing behind it.
      obtain ⟨rfl, -⟩ := List.cons.inj hSplit
      have hValue : ReadsValue depth [⟨.text rest, place'⟩, ⟨.rightBrace, 0⟩] (.text rest)
          [⟨.rightBrace, 0⟩] := returns_parseValue_iff.mpr (.inl ⟨rest, place', rfl, .inl rfl⟩)
      have hUnnamed : Unnamed [⟨.text rest, place'⟩, ⟨.rightBrace, 0⟩] :=
        hValue.not_named (by simp [peek])
      have hArguments := (readsArguments_positional_iff hUnnamed).mpr
        ⟨_, _, _, hValue, readsSeparator_close depth 0 false [], rfl⟩
      exact absurd hArguments (hNone _ _ _)
    | cons u front =>
      obtain ⟨rfl, hTokens⟩ := List.cons.inj hSplit
      exact ⟨front, t, back, hTokens, hGot, hPlace, ⟨more, a, hMore⟩, hNone⟩

/-- What stops in the arguments stops in the expression that they are arguments of. -/
theorem Stops.opened {depth : Nat} {content : String} {place : Nat} (hContent : content ≠ "")
    (hNext : peek ((splitHead content place).2 ++ tokens) ≠ .rightBrace)
    (h : Stops (ReadsArguments depth false) ((splitHead content place).2 ++ tokens) fault) :
    Stops (ReadsOpened depth) (⟨.text content, place⟩ :: tokens) fault := by
  refine h.behind_head.lift [⟨.text content, place⟩] []
    (fun arguments => ⟨(splitHead content place).1, arguments.positional, arguments.named⟩) ?_ ?_
  · intro tokens' arguments rest hArguments
    exact returns_parseOpened_iff.mpr ⟨content, place, tokens', rfl, hContent, rfl,
      .inr (hArguments.arguments_at place)⟩
  · intro tokens' e rest hHead hOpened
    obtain ⟨_, _, _, hTokens, -, -, hInside⟩ := returns_parseOpened_iff.mp hOpened
    cases hTokens
    rcases hInside with ⟨close, hClose, -, -⟩ | hArguments
    · -- The closing brace would have to be the token that is next here too.
      exfalso
      rcases splitHead_cases content place with hEmpty | ⟨_, _, hPut⟩
      · rw [hEmpty] at hClose hNext
        change tokens' = _ at hClose
        rw [hClose] at hHead
        obtain ⟨rest', rfl⟩ := List.head?_eq_some_iff.mp hHead.symm
        exact hNext rfl
      · rw [hPut] at hClose
        cases hClose
    · exact ⟨_, rest, hArguments.arguments_at 0⟩

end Stops

/-- An argument with those behind it is faulty if it is, or if they are. -/
theorem join_eq_error {limit limit' : Nat} {wrap : Argument → Arguments → Arguments}
    {value : Except Fault (Argument × Remaining limit)}
    {others : ∀ left : Remaining limit, Except Fault (Arguments × Remaining left.tokens.length)}
    {fits : limit ≤ limit'} {fault : Fault} (h : join wrap value others fits = .error fault) :
    value = .error fault ∨ ∃ a left, value = .ok (a, left) ∧ others left = .error fault := by
  cases value with
  | error fault' =>
    cases h
    exact .inl rfl
  | ok r =>
    obtain ⟨a, left⟩ := r
    right
    refine ⟨a, left, rfl, ?_⟩
    dsimp only [join] at h
    generalize others left = result at h ⊢
    cases result with
    | error fault' =>
      cases h
      rfl
    | ok r => cases h

mutual

/-- A fault in braces that names a token stops there. -/
theorem stops_braced {depth last : Nat} {tokens : List PlacedToken} {fault : Fault}
    (hTokens : Lexed tokens) (h : parseBraced depth last tokens = .error fault)
    (hGot : fault.cause.got?.isSome) : Stops (ReadsBraced depth) tokens fault := by
  rw [parseBraced.eq_def] at h
  split at h
  · cases h
    cases hGot
  · next depth place rest =>
    split at h
    · next hOpened =>
      cases h
      exact (stops_opened (hTokens.tail (by simp)) hOpened hGot).braced place
    · cases h
  · next hZero hOther =>
    obtain ⟨depth, rfl⟩ := Nat.exists_eq_succ_of_ne_zero hZero
    cases h
    obtain ⟨t, back, rfl⟩ := hTokens.exists_cons
    refine Stops.here rfl rfl
      ⟨[⟨.leftBrace, 0⟩, ⟨.text "x", 0⟩, ⟨.rightBrace, 0⟩], ⟨"x", [], []⟩, ?_⟩ ?_
    · intro rest
      exact readsBraced_iff.mpr (readsOpened_name depth rest)
    · intro more e rest hBraced
      obtain ⟨_, place, _, _, hStarts, -⟩ := returns_parseBraced_iff.mp hBraced
      cases hStarts
      exact hOther depth place back rfl rfl
termination_by 4 * tokens.length

/-- A fault behind a brace that names a token stops there. -/
theorem stops_opened {depth last : Nat} {tokens : List PlacedToken} {fault : Fault}
    (hTokens : Lexed tokens) (h : parseOpened depth last tokens = .error fault)
    (hGot : fault.cause.got?.isSome) : Stops (ReadsOpened depth) tokens fault := by
  obtain ⟨⟨token, place⟩, rest, hCons⟩ := hTokens.exists_cons
  have hLength : tokens.length = rest.length + 1 := by rw [hCons]; rfl
  rw [hCons] at hTokens h ⊢
  rw [parseOpened.eq_def] at h
  cases token with
  | text content =>
    have hContent := hTokens.nonempty
    have hPut := length_splitHead_le content place
    dsimp only at h
    rw [if_neg (by simpa using hContent)] at h
    split at h
    · cases h
    · next hOther =>
      have hNext : peek ((splitHead content place).2 ++ rest) ≠ .rightBrace := by
        intro hClose
        obtain ⟨place', rest', hStarts⟩ := Cursor.starts_of_peek hClose (by simp)
        exact hOther place' rest' hStarts
      split at h
      · next hArguments =>
        cases h
        exact (stops_arguments hTokens.split hArguments hGot).opened hContent hNext
      · cases h
  | _ =>
    cases h
    refine Stops.here rfl rfl ⟨[⟨.text "x", 0⟩, ⟨.rightBrace, 0⟩], _, readsOpened_name depth⟩ ?_
    intro more e rest' hOpened
    obtain ⟨_, _, _, hStarts, -⟩ := returns_parseOpened_iff.mp hOpened
    cases hStarts
termination_by 4 * tokens.length + 3

/-- A fault in arguments that names a token stops there. -/
theorem stops_arguments {depth last : Nat} {namedOnly : Bool} {tokens : List PlacedToken}
    {fault : Fault} (hTokens : Lexed tokens)
    (h : parseArguments depth last namedOnly tokens = .error fault)
    (hGot : fault.cause.got?.isSome) : Stops (ReadsArguments depth namedOnly) tokens fault := by
  by_cases hStarts : ∃ name place place' rest,
    tokens = ⟨.text name, place⟩ :: ⟨.equals, place'⟩ :: rest
  · obtain ⟨name, place, place', rest, hNamed⟩ := hStarts
    have hLength : tokens.length = rest.length + 2 := by rw [hNamed]; rfl
    rw [hNamed] at hTokens h ⊢
    have hName := hTokens.nonempty
    have hRest : Lexed rest := (hTokens.tail (by simp)).tail (by simp)
    rw [parseArguments_named (by simpa using hName)] at h
    rcases join_eq_error h with hValue | ⟨a, left, hValue, hSeparator⟩
    · exact (stops_value hRest hValue hGot).named hName place place'
    · have hShorter := left.shorter
      obtain ⟨used, hUsed, hLeft, -, hReads⟩ := exists_used hRest ⟨left, hValue, rfl⟩
      rw [hUsed]
      exact (stops_separator hLeft hSeparator hGot).behind_named hName hReads place place'
  · have hUnnamed : Unnamed tokens := by
      intro name place place' rest hNamed
      exact hStarts ⟨name, place, place', rest, hNamed⟩
    cases namedOnly with
    | true =>
      rw [parseArguments.eq_def] at h
      split at h
      · exact absurd rfl (hUnnamed _ _ _ _)
      · cases h
        cases hGot
    | false =>
      rw [parseArguments_positional hUnnamed] at h
      rcases join_eq_error h with hValue | ⟨a, left, hValue, hSeparator⟩
      · refine (stops_value hTokens hValue hGot).positional ?_
        rintro name place rest rfl
        rw [parseValue.eq_def] at hValue
        cases hValue
      · have hShorter := left.shorter
        obtain ⟨used, hUsed, hLeft, hSome, hReads⟩ := exists_used hTokens ⟨left, hValue, rfl⟩
        rw [hUsed] at hUnnamed ⊢
        exact (stops_separator hLeft hSeparator hGot).behind_positional hUnnamed hSome hReads
termination_by 4 * tokens.length + 2

/-- A fault in a value that names a token stops there. -/
theorem stops_value {depth last : Nat} {tokens : List PlacedToken} {fault : Fault}
    (hTokens : Lexed tokens) (h : parseValue depth last tokens = .error fault)
    (hGot : fault.cause.got?.isSome) : Stops (ReadsValue depth) tokens fault := by
  rw [parseValue.eq_def] at h
  split at h
  · cases h
  · cases h
  · next place rest =>
    split at h
    · next hBraced =>
      cases h
      exact (stops_braced hTokens hBraced hGot).nested
    · cases h
  · next hText hQuoted hBrace =>
    cases h
    obtain ⟨t, back, rfl⟩ := hTokens.exists_cons
    refine Stops.here rfl rfl ⟨[⟨.text "x", 0⟩], .text "x", ?_⟩ ?_
    · intro rest
      exact returns_parseValue_iff.mpr (.inl ⟨"x", 0, rfl, .inl rfl⟩)
    · intro more a rest hValue
      rcases returns_parseValue_iff.mp hValue with ⟨_, _, -, hStarts | hStarts⟩ | ⟨e, -, hBraced⟩
      · cases hStarts
        exact hText _ _ back rfl
      · cases hStarts
        exact hQuoted _ _ back rfl
      · obtain ⟨_, _, _, -, hStarts, -⟩ := returns_parseBraced_iff.mp hBraced
        cases hStarts
        exact hBrace _ back rfl
termination_by 4 * tokens.length + 1

/-- A fault at what separates arguments that names a token stops there. -/
theorem stops_separator {depth last : Nat} {namedOnly : Bool} {tokens : List PlacedToken}
    {fault : Fault} (hTokens : Lexed tokens)
    (h : parseSeparator depth last namedOnly tokens = .error fault)
    (hGot : fault.cause.got?.isSome) : Stops (ReadsSeparator depth namedOnly) tokens fault := by
  rw [parseSeparator.eq_def] at h
  split at h
  · cases h
  · next place rest =>
    split at h
    · next hArguments =>
      cases h
      exact (stops_arguments (hTokens.tail (by simp)) hArguments hGot).comma place
    · cases h
  · next hClose hComma =>
    cases h
    obtain ⟨t, back, rfl⟩ := hTokens.exists_cons
    refine Stops.here rfl rfl ⟨[⟨.rightBrace, 0⟩], _, readsSeparator_close depth 0 namedOnly⟩ ?_
    intro more arguments rest hSeparator
    rcases returns_parseSeparator_iff.mp hSeparator with ⟨_, hStarts, -⟩ | ⟨_, _, hStarts, -⟩
    · cases hStarts
      exact hClose _ back rfl
    · cases hStarts
      exact hComma _ back rfl
termination_by 4 * tokens.length + 2

end

/-! ### The place that is reported -/

/-- A message says that a token was got, or that it was not expected behind an expression. -/
def Names (message : String) (token : Token) : Prop :=
  (∃ what, message = "expected " ++ what ++ ", got " ++ token.name) ∨
    message = "unexpected " ++ token.name ++ " after expression"

/-- The message of a cause names the token that was found. -/
theorem Cause.names_of_got {cause : Cause} {token : Token} (h : cause.got? = some token) :
    Names cause.message token := by
  cases cause with
  | expected wanted got =>
    cases h
    exact .inl ⟨wanted.name, rfl⟩
  | expectedName got =>
    cases h
    exact .inl ⟨"an extension name", rfl⟩
  | expectedSeparator got =>
    cases h
    exact .inl ⟨"',' or '\x7d'", rfl⟩
  | expectedValue got =>
    cases h
    exact .inl ⟨"a value", rfl⟩
  | trailing got =>
    cases h
    exact .inr rfl
  | _ => cases h

/-- A fault that names a token names the first misfit, and is reported in the place that its cause
tells. -/
theorem exists_firstMisfit {tokens : List PlacedToken} {fault : Fault} (hTokens : Lexed tokens)
    (h : parseTokens tokens = .error fault) (hGot : fault.cause.got?.isSome) :
    ∃ front t back, tokens = front ++ t :: back ∧ fault.cause.got? = some t.token ∧
      fault.offset = fault.cause.place t back ∧ IsFirstMisfit front t := by
  rw [parseTokens] at h
  split at h
  · next hBraced =>
    cases h
    obtain ⟨front, t, back, hSplit, hToken, hPlace, ⟨more, e, hMore⟩, hNone⟩ :=
      stops_braced hTokens hBraced hGot
    refine ⟨front, t, back, hSplit, hToken, hPlace, ⟨more, e, ?_⟩, ?_⟩
    · have hAll := hMore []
      rw [List.append_nil] at hAll
      exact parseTokens_eq_ok_iff_returns.mpr ⟨[], hAll, rfl⟩
    · intro more' e' hOk
      obtain ⟨rest, hReturns, -⟩ := parseTokens_eq_ok_iff_returns.mp hOk
      exact hNone more' e' rest hReturns
  · next e left hBraced =>
    split at h
    · cases h
    next hEnd =>
    cases h
    have hReturns : Returns (parseBraced depthLimit 0 tokens) e left.tokens := ⟨left, hBraced, rfl⟩
    obtain ⟨used, hUsed, hSpells, hNesting⟩ := spells_of_parseBraced hReturns
    rw [hUsed] at hTokens
    obtain ⟨t, back, hLeft⟩ := (hTokens.behind (finish_not_mem_of_spells hSpells)).exists_cons
    have hParses := parses_of_spells hSpells used rfl hTokens.texts_before depthLimit hNesting 0
    rw [hLeft] at hUsed hEnd ⊢
    refine ⟨used, t, back, hUsed, rfl, rfl, ⟨[], e, ?_⟩, ?_⟩
    · exact parseTokens_eq_ok_iff_returns.mpr ⟨[], hParses [], rfl⟩
    · intro more e' hOk
      obtain ⟨rest, hAgain, hFinish⟩ := parseTokens_eq_ok_iff_returns.mp hOk
      obtain ⟨-, rfl⟩ := hAgain.unique (hParses (t :: more))
      exact hEnd hFinish

/-- A fault about a token names the first misfit in its message, and reports the column of its
place: where the token stands, or, if a name was expected, where the token behind it stands. -/
theorem parse_reports_misfit (source : String) (tokens : List PlacedToken) (fault : Fault)
    (token : Token) (hScan : Token.scan source = .ok tokens)
    (hParse : parseTokens tokens = .error fault) (hGot : fault.cause.got? = some token) :
    ∃ front t back before after, tokens = front ++ t :: back ∧ t.token = token ∧
      IsFirstMisfit front t ∧ source.toList = before ++ after ∧
      byteLength before = fault.cause.place t back ∧ Names fault.cause.message token ∧
      parse source = .error ⟨fault.cause.message, ⟨1, before.length + 1⟩⟩ := by
  have hSome : fault.cause.got?.isSome := by rw [hGot]; rfl
  obtain ⟨front, t, back, hSplit, hToken, hPlace, hMisfit⟩ :=
    exists_firstMisfit (lexed_of_scan hScan) hParse hSome
  obtain ⟨before, after, hSource, hBefore⟩ := Cursor.isBoundary_of_parse hScan hParse
  rw [hGot] at hToken
  refine ⟨front, t, back, before, after, hSplit, (Option.some.inj hToken).symm, hMisfit, hSource,
    hBefore.trans hPlace, Cause.names_of_got hGot, ?_⟩
  rw [parse, parseSource, hScan]
  dsimp only
  rw [hParse]
  change Except.error (fault.inSource source) = _
  rw [Fault.inSource, ← hBefore, Place.columnOfOffset_byteLength hSource]

/-- The column of a brace that does not fit counts characters, and the brace stands at byte 5. -/
theorem accented_misfit_reported :
    ∃ tokens fault, Token.scan "\x7bé a\x7b" = .ok tokens ∧ parseTokens tokens = .error fault ∧
      fault.cause.got? = some .leftBrace ∧
      ∃ front t back before after, tokens = front ++ t :: back ∧ t.token = .leftBrace ∧
        IsFirstMisfit front t ∧ "\x7bé a\x7b".toList = before ++ after ∧
        byteLength before = fault.cause.place t back ∧ Names fault.cause.message .leftBrace ∧
        parse "\x7bé a\x7b" = .error ⟨fault.cause.message, ⟨1, before.length + 1⟩⟩ := by
  have hParse : parseTokens [⟨.leftBrace, 0⟩, ⟨.text "é a", 1⟩, ⟨.leftBrace, 5⟩, ⟨.finish, 6⟩] =
      .error ⟨.expectedSeparator .leftBrace, 5⟩ := by with_unfolding_all rfl
  exact ⟨_, _, rfl, hParse, rfl, parse_reports_misfit _ _ _ _ rfl hParse rfl⟩

/-- In a pair of braces without a name the closing one does not fit. It stands at column 2, and
column 3 is reported. -/
theorem missing_name_misplaced :
    ∃ tokens fault, Token.scan "\x7b\x7d" = .ok tokens ∧ parseTokens tokens = .error fault ∧
      fault.cause.got? = some .rightBrace ∧
      (∀ t ∈ tokens, t.token = .rightBrace → Place.columnOfOffset "\x7b\x7d" t.offset = 2) ∧
      parse "\x7b\x7d" = .error ⟨"expected an extension name, got RBrace", ⟨1, 3⟩⟩ := by
  have hParse : parseTokens [⟨.leftBrace, 0⟩, ⟨.rightBrace, 1⟩, ⟨.finish, 2⟩] =
      .error ⟨.expectedName .rightBrace, 2⟩ := by with_unfolding_all rfl
  have hScan : Token.scan "\x7b\x7d" = .ok [⟨.leftBrace, 0⟩, ⟨.rightBrace, 1⟩, ⟨.finish, 2⟩] := rfl
  refine ⟨_, _, hScan, hParse, rfl, by decide, ?_⟩
  rw [parse, parseSource, hScan]
  dsimp only
  rw [hParse]
  rfl

end Expression

end ObjectMarkup
