import ObjectMarkup.Expression.Parse
import ObjectMarkup.Proofs.Scanning

/-!
# The grammar of expressions

`Spells tokens phrase` says which tokens spell an expression, a list of arguments, an argument and a
value. The relation is said without the parser: it has no place for the next token, no order in
which choices are tried, and no tokens that are put back.

The parser is opened here once and for all. For each part of it there is one description of what it
returns and what tokens it leaves (`returns_parseBraced_iff` and those that follow it), in which
faults, places and bounds on lengths do not occur. `ObjectMarkup.Proofs.Spelling` compares these
descriptions with the grammar.
-/

set_option autoImplicit false

namespace ObjectMarkup

namespace Expression

/-! ### The grammar -/

/-- An argument as it stands among others. -/
inductive Item where
  | positional (value : Argument)
  | named (argument : NamedArgument)

/-- What tokens can spell. -/
inductive Phrase where
  | expression (e : Expression)
  | items (items : List Item)
  | item (item : Item)
  | value (a : Argument)

/-- A head is a name up to its first blank; the rest is what follows the blanks behind the name. -/
structure IsHead (content name rest : String) : Prop where
  parts : ∃ blanks : List Char, content.toList = name.toList ++ (blanks ++ rest.toList) ∧
    (∀ c ∈ blanks, isBlank c = true) ∧ (blanks = [] → rest = "")
  solid : ∀ c ∈ name.toList, isBlank c = false
  starts : StartsSolid rest.toList

/-- The token that the rest of a head stands for, if there is a rest. -/
def restTokens (rest : String) : List Token :=
  if rest = "" then [] else [.text rest]

/-- The arguments of an expression as they follow each other: first those without a name. -/
def itemsOf (positional : List Argument) (named : List NamedArgument) : List Item :=
  positional.map .positional ++ named.map .named

/-- The grammar. Items are separated by commas, none stands before the first or behind the last. A
text that is followed by an equals sign can only name an argument, because only a comma or the
closing brace follows a value. -/
inductive Spells : List Token → Phrase → Prop where
  | expression {content name rest : String} {inside : List Token} {positional : List Argument}
      {named : List NamedArgument} (head : IsHead content name rest)
      (arguments : Spells (restTokens rest ++ inside) (.items (itemsOf positional named))) :
      Spells (.leftBrace :: .text content :: (inside ++ [.rightBrace]))
        (.expression ⟨name, positional, named⟩)
  | none : Spells [] (.items [])
  | one {tokens : List Token} {item : Item} (only : Spells tokens (.item item)) :
      Spells tokens (.items [item])
  | more {tokens tokens' : List Token} {item next : Item} {items : List Item}
      (first : Spells tokens (.item item)) (others : Spells tokens' (.items (next :: items))) :
      Spells (tokens ++ .comma :: tokens') (.items (item :: next :: items))
  | positional {tokens : List Token} {a : Argument} (value : Spells tokens (.value a)) :
      Spells tokens (.item (.positional a))
  | named {name : String} {tokens : List Token} {a : Argument}
      (value : Spells tokens (.value a)) :
      Spells (.text name :: .equals :: tokens) (.item (.named ⟨name, a⟩))
  | text (content : String) : Spells [.text content] (.value (.text content))
  | quoted (content : String) : Spells [.quoted content] (.value (.text content))
  | nested {tokens : List Token} {e : Expression} (inner : Spells tokens (.expression e)) :
      Spells tokens (.value (.nested e))

mutual

/-- How many pairs of braces are open at once in an expression. -/
def nesting : Expression → Nat
  | ⟨_, positional, named⟩ => max (nestingOfPositional positional) (nestingOfNamed named) + 1

/-- How deep the expressions in an argument are nested. -/
def nestingOfArgument : Argument → Nat
  | .text _ => 0
  | .nested e => nesting e

/-- How deep the expressions in positional arguments are nested. -/
def nestingOfPositional : List Argument → Nat
  | [] => 0
  | a :: rest => max (nestingOfArgument a) (nestingOfPositional rest)

/-- How deep the expressions in named arguments are nested. -/
def nestingOfNamed : List NamedArgument → Nat
  | [] => 0
  | ⟨_, a⟩ :: rest => max (nestingOfArgument a) (nestingOfNamed rest)

end

/-- Where there are no items, there are no arguments. -/
theorem itemsOf_eq_nil {positional : List Argument} {named : List NamedArgument}
    (h : itemsOf positional named = []) : positional = [] ∧ named = [] := by
  simpa [itemsOf] using h

/-- The first item is the first argument without a name, or there is none and it is the first with
one. -/
theorem itemsOf_eq_cons {positional : List Argument} {named : List NamedArgument} {item : Item}
    {items : List Item} (h : itemsOf positional named = item :: items) :
    (∃ a others, positional = a :: others ∧ item = .positional a ∧
      items = itemsOf others named) ∨
    (∃ a others, positional = [] ∧ named = a :: others ∧ item = .named a ∧
      items = itemsOf [] others) := by
  cases positional with
  | cons a others =>
    left
    injection h with hItem hItems
    exact ⟨a, others, rfl, hItem.symm, hItems.symm⟩
  | nil =>
    cases named with
    | nil => cases h
    | cons a others =>
      right
      injection h with hItem hItems
      exact ⟨a, others, rfl, rfl, hItem.symm, hItems.symm⟩

/-! ### The head of an expression -/

/-- A name that is followed by a blank or by nothing ends where the first blank is. -/
theorem takeWhile_solid {name after : List Char} (hName : ∀ c ∈ name, isBlank c = false)
    (hAfter : ∀ c ∈ after.head?, isBlank c = true) :
    (name ++ after).takeWhile (fun c => !isBlank c) = name ∧
      (name ++ after).dropWhile (fun c => !isBlank c) = after := by
  induction name with
  | nil =>
    cases after with
    | nil => exact ⟨rfl, rfl⟩
    | cons c after =>
      have hc : isBlank c = true := hAfter c rfl
      simp [hc]
  | cons c name ih =>
    have hc : isBlank c = false := hName c (by simp)
    have hRest := ih fun x hx => hName x (by simp [hx])
    simp [hc, hRest.1, hRest.2]

/-- Blanks in front are trimmed. -/
theorem trimLeft_append_blanks {blanks rest : List Char} (hBlanks : ∀ c ∈ blanks, isBlank c = true)
    (hRest : StartsSolid rest) : trimLeft (blanks ++ rest) = rest := by
  induction blanks with
  | nil => exact trimLeft_eq_self hRest
  | cons c blanks ih =>
    have hc : isBlank c = true := hBlanks c (by simp)
    have hOthers := ih fun x hx => hBlanks x (by simp [hx])
    rw [trimLeft] at hOthers
    simp [trimLeft, hc, hOthers]

/-- What the parser takes for the name and the rest of a head. -/
theorem splitHead_of_isHead {content name rest : String} (h : IsHead content name rest)
    (offset : Nat) :
    (splitHead content offset).1 = name ∧
      (splitHead content offset).2.map PlacedToken.token = restTokens rest := by
  obtain ⟨⟨blanks, hContent, hBlanks, hNone⟩, hSolid, hStarts⟩ := h
  have hAfter : ∀ c ∈ (blanks ++ rest.toList).head?, isBlank c = true := by
    intro c hc
    cases blanks with
    | nil =>
      rw [hNone rfl] at hc
      cases hc
    | cons b blanks =>
      cases hc
      exact hBlanks c (by simp)
  obtain ⟨hTake, hDrop⟩ := takeWhile_solid hSolid hAfter
  have hTrim := trimLeft_append_blanks hBlanks hStarts
  rw [splitHead, hContent]
  simp only [hTake, hDrop, hTrim, String.ofList_toList, restTokens, true_and]
  by_cases hRest : rest = ""
  · simp [hRest]
  · have hList : rest.toList.isEmpty = false := by
      simpa using hRest
    simp [hRest]

/-- Every text is a head. -/
theorem exists_isHead (content : String) : ∃ name rest, IsHead content name rest := by
  let after := content.toList.dropWhile fun c => !isBlank c
  refine ⟨String.ofList (content.toList.takeWhile fun c => !isBlank c),
    String.ofList (trimLeft after), ⟨after.takeWhile isBlank, ?_, ?_, ?_⟩, ?_, ?_⟩
  · simp only [String.toList_ofList, trimLeft, List.takeWhile_append_dropWhile, after]
  · intro c hc
    exact List.mem_takeWhile_imp hc
  · intro hNone
    cases hAfter : after with
    | nil => rfl
    | cons c rest =>
      have hFirst := List.head?_dropWhile_not (fun c => !isBlank c) content.toList
      have hHead : (content.toList.dropWhile fun c => !isBlank c).head? = some c :=
        congrArg List.head? hAfter
      rw [hHead] at hFirst
      rw [hAfter] at hNone
      simp_all
  · intro c hc
    rw [String.toList_ofList] at hc
    have hSolid := List.mem_takeWhile_imp hc
    simpa using hSolid
  · rw [String.toList_ofList]
    exact startsSolid_trimLeft after

/-- What goes back to the tokens is nothing, or one text. -/
theorem splitHead_cases (content : String) (offset : Nat) :
    (splitHead content offset).2 = [] ∨
      ∃ rest place, (splitHead content offset).2 = [⟨.text rest, place⟩] := by
  unfold splitHead
  dsimp only
  split
  · exact .inl rfl
  · exact .inr ⟨_, _, rfl⟩

/-! ### What the parts of the parser return -/

/-- A part of the parser returns a value and leaves tokens. -/
def Returns {α : Type} {limit : Nat} (result : Except Fault (α × Remaining limit)) (value : α)
    (rest : List PlacedToken) : Prop :=
  ∃ left : Remaining limit, result = .ok (value, left) ∧ left.tokens = rest

/-- A parse that returns has taken a token. -/
theorem Returns.shorter {α : Type} {limit : Nat} {result : Except Fault (α × Remaining limit)}
    {value : α} {rest : List PlacedToken} (h : Returns result value rest) :
    rest.length < limit := by
  obtain ⟨left, -, rfl⟩ := h
  exact left.shorter

/-- Parsing braces takes a brace and what is opened by it, one level deeper. -/
theorem returns_parseBraced_iff {depth last : Nat} {tokens rest : List PlacedToken}
    {e : Expression} :
    Returns (parseBraced depth last tokens) e rest ↔
      ∃ depth' offset tokens', depth = depth' + 1 ∧ tokens = ⟨.leftBrace, offset⟩ :: tokens' ∧
        Returns (parseOpened depth' offset tokens') e rest := by
  constructor
  · rintro ⟨left, hParse, rfl⟩
    rw [parseBraced.eq_def] at hParse
    split at hParse
    · cases hParse
    · next depth' offset tokens' =>
      split at hParse
      · cases hParse
      · next e' left' hOpened =>
        cases hParse
        exact ⟨depth', offset, tokens', rfl, rfl, left', hOpened, rfl⟩
    · cases hParse
  · rintro ⟨depth', offset, tokens', rfl, rfl, left, hOpened, rfl⟩
    refine ⟨left.relax (by simp), ?_, rfl⟩
    rw [parseBraced.eq_def]
    simp only [hOpened]

/-- Parsing a value takes a text, or an expression in braces. -/
theorem returns_parseValue_iff {depth last : Nat} {tokens rest : List PlacedToken}
    {a : Argument} :
    Returns (parseValue depth last tokens) a rest ↔
      (∃ content offset, a = .text content ∧
        (tokens = ⟨.text content, offset⟩ :: rest ∨ tokens = ⟨.quoted content, offset⟩ :: rest)) ∨
      ∃ e, a = .nested e ∧ Returns (parseBraced depth last tokens) e rest := by
  constructor
  · rintro ⟨left, hParse, rfl⟩
    rw [parseValue.eq_def] at hParse
    split at hParse
    · next content offset rest =>
      cases hParse
      exact .inl ⟨content, offset, rfl, .inl rfl⟩
    · next content offset rest =>
      cases hParse
      exact .inl ⟨content, offset, rfl, .inr rfl⟩
    · split at hParse
      · cases hParse
      · next e left' hBraced =>
        cases hParse
        exact .inr ⟨e, rfl, left, hBraced, rfl⟩
    · cases hParse
  · rintro (⟨content, offset, rfl, rfl | rfl⟩ | ⟨e, rfl, hBraced⟩)
    · exact ⟨⟨rest, offset, by simp⟩, by rw [parseValue.eq_def], rfl⟩
    · exact ⟨⟨rest, offset, by simp⟩, by rw [parseValue.eq_def], rfl⟩
    · obtain ⟨depth', offset, tokens', rfl, rfl, -⟩ := returns_parseBraced_iff.mp hBraced
      obtain ⟨left, hParse, rfl⟩ := hBraced
      refine ⟨left, ?_, rfl⟩
      rw [parseValue.eq_def]
      simp only [hParse]

/-- Parsing a separator takes the closing brace, or a comma and more arguments. -/
theorem returns_parseSeparator_iff {depth last : Nat} {namedOnly : Bool}
    {tokens rest : List PlacedToken} {arguments : Arguments} :
    Returns (parseSeparator depth last namedOnly tokens) arguments rest ↔
      (∃ offset, tokens = ⟨.rightBrace, offset⟩ :: rest ∧ arguments = ⟨[], []⟩) ∨
      ∃ offset tokens', tokens = ⟨.comma, offset⟩ :: tokens' ∧
        Returns (parseArguments depth offset namedOnly tokens') arguments rest := by
  constructor
  · rintro ⟨left, hParse, rfl⟩
    rw [parseSeparator.eq_def] at hParse
    split at hParse
    · next offset rest =>
      cases hParse
      exact .inl ⟨offset, rfl, rfl⟩
    · next offset tokens' =>
      split at hParse
      · cases hParse
      · next arguments' left' hArguments =>
        cases hParse
        exact .inr ⟨offset, tokens', rfl, left', hArguments, rfl⟩
    · cases hParse
  · rintro (⟨offset, rfl, rfl⟩ | ⟨offset, tokens', rfl, left, hArguments, rfl⟩)
    · exact ⟨⟨rest, offset, by simp⟩, by rw [parseSeparator.eq_def], rfl⟩
    · refine ⟨left.relax (by simp), ?_, rfl⟩
      rw [parseSeparator.eq_def]
      simp only [hArguments]

/-- What the parser makes of a value and of the arguments behind it. -/
def join {limit limit' : Nat} (wrap : Argument → Arguments → Arguments)
    (value : Except Fault (Argument × Remaining limit))
    (others : ∀ left : Remaining limit, Except Fault (Arguments × Remaining left.tokens.length))
    (fits : limit ≤ limit') : Except Fault (Arguments × Remaining limit') :=
  match value with
  | .error fault => .error fault
  | .ok (a, left) =>
    match others left with
    | .error fault => .error fault
    | .ok (more, left') =>
      .ok (wrap a more, left'.relax (Nat.le_trans (Nat.le_of_lt left.shorter) fits))

/-- A name and an equals sign in front make a named argument. -/
theorem parseArguments_named {depth last place place' : Nat} {namedOnly : Bool} {name : String}
    {tokens : List PlacedToken} (h : name.isEmpty = false) :
    parseArguments depth last namedOnly (⟨.text name, place⟩ :: ⟨.equals, place'⟩ :: tokens) =
      join (fun a more => { more with named := ⟨name, a⟩ :: more.named })
        (parseValue depth place' tokens)
        (fun left => parseSeparator depth left.last true left.tokens)
        (by simp only [List.length_cons]; omega) := by
  rw [parseArguments.eq_def, join.eq_def]
  dsimp only
  rw [if_neg (by simp [h])]
  cases parseValue depth place' tokens with
  | error fault => rfl
  | ok r =>
    obtain ⟨a, left⟩ := r
    dsimp only
    cases parseSeparator depth left.last true left.tokens with
    | error fault => rfl
    | ok r => rfl

/-- Anything else in front makes a positional argument. -/
theorem parseArguments_positional {depth last : Nat} {tokens : List PlacedToken}
    (h : ∀ name place place' rest, tokens ≠ ⟨.text name, place⟩ :: ⟨.equals, place'⟩ :: rest) :
    parseArguments depth last false tokens =
      join (fun a more => { more with positional := a :: more.positional })
        (parseValue depth last tokens)
        (fun left => parseSeparator depth left.last false left.tokens) (Nat.le_refl _) := by
  rw [parseArguments.eq_def, join.eq_def]
  split
  · exact absurd rfl (h _ _ _ _)
  rw [if_neg Bool.false_ne_true]
  cases parseValue depth last tokens with
  | error fault => rfl
  | ok r =>
    obtain ⟨a, left⟩ := r
    dsimp only
    cases parseSeparator depth left.last false left.tokens with
    | error fault => rfl
    | ok r => rfl

/-- Where the token read last stands does not matter to what is returned. -/
theorem Returns.value_at {depth last : Nat} {tokens rest : List PlacedToken} {a : Argument}
    (h : Returns (parseValue depth last tokens) a rest) (last' : Nat) :
    Returns (parseValue depth last' tokens) a rest := by
  rw [returns_parseValue_iff] at h ⊢
  rcases h with hText | ⟨e, hValue, hBraced⟩
  · exact .inl hText
  · right
    rw [returns_parseBraced_iff] at hBraced
    exact ⟨e, hValue, returns_parseBraced_iff.mpr hBraced⟩

/-- What a separator returns does not depend on where the token before it stands. -/
theorem Returns.separator_at {depth last : Nat} {namedOnly : Bool}
    {tokens rest : List PlacedToken} {arguments : Arguments}
    (h : Returns (parseSeparator depth last namedOnly tokens) arguments rest) (last' : Nat) :
    Returns (parseSeparator depth last' namedOnly tokens) arguments rest := by
  rw [returns_parseSeparator_iff] at h ⊢
  exact h

/-- An argument in front of others. -/
def Arguments.add (item : Item) (others : Arguments) : Arguments :=
  match item with
  | .positional a => { others with positional := a :: others.positional }
  | .named a => { others with named := a :: others.named }

/-- Whether an item is a named argument. -/
def Item.isNamed : Item → Bool
  | .positional _ => false
  | .named _ => true

/-- The argument of an item. -/
def Item.value : Item → Argument
  | .positional a => a
  | .named a => a.value

/-- The first of some arguments, and the tokens that its value is read from. -/
inductive FirstItem (namedOnly : Bool) (tokens : List PlacedToken) :
    Item → List PlacedToken → Prop where
  | named {name : String} {offset offset' : Nat} {tokens' : List PlacedToken} {a : Argument}
      (starts : tokens = ⟨.text name, offset⟩ :: ⟨.equals, offset'⟩ :: tokens')
      (nonempty : name ≠ "") : FirstItem namedOnly tokens (.named ⟨name, a⟩) tokens'
  | positional {a : Argument} (allowed : namedOnly = false)
      (starts : ∀ name offset offset' tokens',
        tokens ≠ ⟨.text name, offset⟩ :: ⟨.equals, offset'⟩ :: tokens') :
      FirstItem namedOnly tokens (.positional a) tokens

/-- Parsing arguments takes the first item, its value, and what separates it from the others. -/
theorem returns_parseArguments_iff {depth last : Nat} {namedOnly : Bool}
    {tokens rest : List PlacedToken} {arguments : Arguments} :
    Returns (parseArguments depth last namedOnly tokens) arguments rest ↔
      ∃ item tokens' left others, FirstItem namedOnly tokens item tokens' ∧
        Returns (parseValue depth last tokens') item.value left ∧
        Returns (parseSeparator depth last item.isNamed left) others rest ∧
        arguments = others.add item := by
  constructor
  · rintro ⟨left, hParse, rfl⟩
    rw [parseArguments.eq_def] at hParse
    split at hParse
    · next name offset offset' tokens' =>
      split at hParse
      · cases hParse
      · next hName =>
        split at hParse
        · cases hParse
        · next a left' hValue =>
          split at hParse
          · cases hParse
          · next others left'' hSeparator =>
            cases hParse
            refine ⟨.named ⟨name, a⟩, tokens', left'.tokens, others, ?_, ?_, ?_, rfl⟩
            · exact .named rfl (by simpa using hName)
            · exact Returns.value_at ⟨left', hValue, rfl⟩ last
            · exact Returns.separator_at ⟨left'', hSeparator, rfl⟩ last
    · next starts =>
      split at hParse
      · cases hParse
      · next hNamedOnly =>
        split at hParse
        · cases hParse
        · next a left' hValue =>
          split at hParse
          · cases hParse
          · next others left'' hSeparator =>
            cases hParse
            refine ⟨.positional a, tokens, left'.tokens, others, ?_, ⟨left', hValue, rfl⟩, ?_,
              rfl⟩
            · exact .positional (by simpa using hNamedOnly) starts
            · exact Returns.separator_at ⟨left'', hSeparator, rfl⟩ last
  · rintro ⟨item, tokens', left, others, hFirst, hValue, hSeparator, rfl⟩
    cases hFirst with
    | @named name offset offset' _ _ starts nonempty =>
      subst starts
      obtain ⟨left', hParse, rfl⟩ := hValue.value_at offset'
      obtain ⟨left'', hOthers, rfl⟩ := hSeparator.separator_at left'.last
      refine ⟨left''.relax (by have := left'.shorter; simp; omega), ?_, rfl⟩
      have hName : name.isEmpty = false := by simpa using nonempty
      rw [parseArguments.eq_def]
      simp only [hName, Bool.false_eq_true, ↓reduceIte, hParse]
      simp only [Item.isNamed] at hOthers
      rw [hOthers]
      rfl
    | positional allowed starts =>
      obtain ⟨left', hParse, rfl⟩ := hValue
      obtain ⟨left'', hOthers, rfl⟩ := hSeparator.separator_at left'.last
      refine ⟨left''.relax (by have := left'.shorter; omega), ?_, rfl⟩
      rw [parseArguments.eq_def]
      split
      · next name offset offset' tokens'' =>
        exact absurd rfl (starts name offset offset' tokens'')
      · simp only [allowed, Bool.false_eq_true, ↓reduceIte, hParse]
        simp only [Item.isNamed] at hOthers
        rw [hOthers]
        rfl

/-- No argument starts with a closing brace. -/
theorem not_returns_parseArguments_rightBrace {depth last offset : Nat} {namedOnly : Bool}
    {tokens rest : List PlacedToken} {arguments : Arguments} :
    ¬ Returns (parseArguments depth last namedOnly (⟨.rightBrace, offset⟩ :: tokens)) arguments
      rest := by
  rw [returns_parseArguments_iff]
  rintro ⟨item, tokens', left, others, hFirst, hValue, -⟩
  cases hFirst with
  | named starts => cases starts
  | positional allowed starts =>
    rcases returns_parseValue_iff.mp hValue with ⟨_, _, _, h | h⟩ | ⟨e, rfl, hBraced⟩
    · cases h
    · cases h
    · obtain ⟨_, _, _, _, h, _⟩ := returns_parseBraced_iff.mp hBraced
      cases h

/-- Parsing behind a brace takes the name, and then the closing brace or the arguments. -/
theorem returns_parseOpened_iff {depth last : Nat} {tokens rest : List PlacedToken}
    {e : Expression} :
    Returns (parseOpened depth last tokens) e rest ↔
      ∃ content offset tokens', tokens = ⟨.text content, offset⟩ :: tokens' ∧ content ≠ "" ∧
        e.name = (splitHead content offset).1 ∧
        ((∃ close, (splitHead content offset).2 ++ tokens' = ⟨.rightBrace, close⟩ :: rest ∧
            e.positional = [] ∧ e.named = []) ∨
          Returns (parseArguments depth offset false ((splitHead content offset).2 ++ tokens'))
            ⟨e.positional, e.named⟩ rest) := by
  constructor
  · rintro ⟨left, hParse, rfl⟩
    rw [parseOpened.eq_def] at hParse
    split at hParse
    · cases hParse
    · next content offset tokens' =>
      split at hParse
      · cases hParse
      · next hContent =>
        refine ⟨content, offset, tokens', rfl, by simpa using hContent, ?_⟩
        split at hParse
        · next close rest' h =>
          cases hParse
          exact ⟨rfl, .inl ⟨close, h, rfl, rfl⟩⟩
        · next h =>
          split at hParse
          · cases hParse
          · next arguments left' hArguments =>
            cases hParse
            exact ⟨rfl, .inr ⟨left', hArguments, rfl⟩⟩
    · cases hParse
  · rintro ⟨content, offset, tokens', rfl, nonempty, hName, hArguments⟩
    obtain ⟨name, positional, named⟩ := e
    have hContent : content.isEmpty = false := by simpa using nonempty
    have hLength := length_splitHead_le content offset
    simp only at hName hArguments
    subst hName
    rcases hArguments with ⟨close, hClose, rfl, rfl⟩ | hArguments
    · have hShorter := congrArg List.length hClose
      simp only [List.length_append, List.length_cons] at hShorter
      refine ⟨⟨rest, close, by simp; omega⟩, ?_, rfl⟩
      rw [parseOpened.eq_def]
      simp only [hContent, Bool.false_eq_true, ↓reduceIte]
      split
      · next offset' rest' h =>
        rw [hClose] at h
        cases h
        rfl
      · next hNot => exact absurd hClose (hNot close rest)
    · have hNot : ∀ close rest',
          (splitHead content offset).2 ++ tokens' ≠ ⟨.rightBrace, close⟩ :: rest' := by
        intro close rest' h
        rw [h] at hArguments
        exact not_returns_parseArguments_rightBrace hArguments
      obtain ⟨left, hParse, rfl⟩ := hArguments
      refine ⟨left.relax (by simp; omega), ?_, rfl⟩
      rw [parseOpened.eq_def]
      simp only [hContent, Bool.false_eq_true, ↓reduceIte]
      split
      · next fault hFault =>
        rw [hParse] at hFault
        cases hFault
      · next arguments left' hArguments =>
        rw [hParse] at hArguments
        cases hArguments
        rfl

end Expression

end ObjectMarkup
