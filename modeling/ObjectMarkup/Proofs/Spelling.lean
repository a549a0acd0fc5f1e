import ObjectMarkup.Proofs.Grammar

/-!
# The parser accepts its grammar

The parser accepts exactly the tokens that spell an expression of at most `depthLimit` nested pairs
of braces, and its answer is the expression that they spell (`parseTokens_eq_ok_iff`).

Soundness follows the recursion of the parser (`spells_of_parseBraced` and the theorems with it).
Completeness is an induction on the derivation in which the tokens behind the phrase are arbitrary
(`parses_of_spells`): what stands behind an item decides where the item ends, so `Parses` asks of it
what the parser of separators accepts.
-/

set_option autoImplicit false

namespace ObjectMarkup

namespace Expression

/-! ### Soundness -/

/-- An expression is nested one level deeper than its arguments. -/
theorem nesting_mk_le {name : String} {positional : List Argument} {named : List NamedArgument}
    {depth : Nat} :
    nesting ⟨name, positional, named⟩ ≤ depth + 1 ↔
      nestingOfPositional positional ≤ depth ∧ nestingOfNamed named ≤ depth := by
  rw [nesting]
  omega

/-- An item that is added in front is the first item. -/
theorem itemsOf_add {item : Item} {others : Arguments}
    (h : item.isNamed = true → others.positional = []) :
    itemsOf (others.add item).positional (others.add item).named =
      item :: itemsOf others.positional others.named := by
  cases item with
  | positional a => rfl
  | named a =>
    have hNone : others.positional = [] := h rfl
    simp [Arguments.add, itemsOf, hNone]

/-- How deep some arguments nest. -/
def Arguments.nesting (arguments : Arguments) : Nat :=
  max (nestingOfPositional arguments.positional) (nestingOfNamed arguments.named)

/-- With one more item, arguments are nested as deep as the deeper of both. -/
theorem Arguments.nesting_add (item : Item) (others : Arguments) :
    (others.add item).nesting = max (nestingOfArgument item.value) others.nesting := by
  cases item with
  | positional a =>
    simp only [nesting, add, Item.value, nestingOfPositional]
    omega
  | named a =>
    obtain ⟨name, a⟩ := a
    simp only [nesting, add, Item.value, nestingOfNamed]
    omega

/-- The first item takes no token back. -/
theorem FirstItem.length_le {namedOnly : Bool} {tokens tokens' : List PlacedToken} {item : Item}
    (h : FirstItem namedOnly tokens item tokens') : tokens'.length ≤ tokens.length := by
  cases h with
  | named starts =>
    rw [starts]
    simp only [List.length_cons]
    omega
  | positional => exact Nat.le_refl _

/-- An item is spelled by its name, if it has one, and by what its value is spelled by. -/
theorem FirstItem.spells {namedOnly : Bool} {tokens tokens' value left : List PlacedToken}
    {item : Item} (h : FirstItem namedOnly tokens item tokens') (hValue : tokens' = value ++ left)
    (hSpells : Spells (value.map PlacedToken.token) (.value item.value)) :
    ∃ used, tokens = used ++ left ∧ Spells (used.map PlacedToken.token) (.item item) := by
  cases h with
  | @named name offset offset' _ a starts =>
    refine ⟨⟨.text name, offset⟩ :: ⟨.equals, offset'⟩ :: value, ?_, .named hSpells⟩
    rw [starts, hValue]
    rfl
  | positional => exact ⟨value, hValue, .positional hSpells⟩

/-- Tokens that start with no more than was used are used from there on. -/
theorem exists_inside {α : Type} {head tokens used tail : List α}
    (h : head ++ tokens = used ++ tail) (hLength : head.length ≤ used.length) :
    ∃ inside, used = head ++ inside ∧ tokens = inside ++ tail := by
  have hHead : head <+: used ++ tail := ⟨tokens, h⟩
  have hUsed : used <+: used ++ tail := ⟨tail, rfl⟩
  obtain ⟨inside, rfl⟩ := List.prefix_of_prefix_length_le hHead hUsed hLength
  rw [List.append_assoc] at h
  exact ⟨inside, rfl, List.append_cancel_left h⟩

/-- The rest of a head is no brace. -/
theorem head_of_brace {content : String} {offset close : Nat} {name rest' : String}
    {tokens rest : List PlacedToken} (hHead : IsHead content name rest')
    (h : (splitHead content offset).2 ++ tokens = ⟨.rightBrace, close⟩ :: rest) :
    restTokens rest' = [] ∧ tokens = ⟨.rightBrace, close⟩ :: rest := by
  obtain ⟨-, hRest⟩ := splitHead_of_isHead hHead offset
  cases hSplit : (splitHead content offset).2 with
  | nil =>
    rw [hSplit] at hRest h
    exact ⟨hRest.symm, h⟩
  | cons t others =>
    rw [hSplit] at hRest h
    injection h with hToken
    subst hToken
    unfold restTokens at hRest
    split at hRest
    · cases hRest
    · cases hRest

/-- What the tokens in front of a closing brace spell. -/
structure SpellsItems (used : List PlacedToken) (depth : Nat) (namedOnly : Bool)
    (arguments : Arguments) : Prop where
  spells : Spells (used.map PlacedToken.token)
    (.items (itemsOf arguments.positional arguments.named))
  nonempty : used ≠ []
  shallow : arguments.nesting ≤ depth
  ordered : namedOnly = true → arguments.positional = []

/-- Only no tokens spell no items. -/
theorem SpellsItems.exists_cons {used : List PlacedToken} {depth : Nat} {namedOnly : Bool}
    {arguments : Arguments} (h : SpellsItems used depth namedOnly arguments) :
    ∃ item items, itemsOf arguments.positional arguments.named = item :: items := by
  have hSpells := h.spells
  cases hItems : itemsOf arguments.positional arguments.named with
  | cons item items => exact ⟨item, items, rfl⟩
  | nil =>
    rw [hItems] at hSpells
    generalize hUsed : used.map PlacedToken.token = tokens at hSpells
    cases hSpells
    exact absurd (List.map_eq_nil_iff.mp hUsed) h.nonempty

/-- Behind a named argument only named ones are added. -/
theorem FirstItem.ordered {namedOnly : Bool} {tokens tokens' : List PlacedToken} {item : Item}
    {others : Arguments} (h : FirstItem namedOnly tokens item tokens')
    (hOthers : item.isNamed = true → others.positional = []) :
    namedOnly = true → (others.add item).positional = [] := by
  intro hNamedOnly
  cases h with
  | named => exact hOthers rfl
  | positional allowed => rw [allowed] at hNamedOnly; cases hNamedOnly

mutual

/-- What the parser takes for an expression spells it. -/
theorem spells_of_parseBraced {depth last : Nat} {tokens rest : List PlacedToken}
    {e : Expression} (h : Returns (parseBraced depth last tokens) e rest) :
    ∃ used, tokens = used ++ rest ∧ Spells (used.map PlacedToken.token) (.expression e) ∧
      nesting e ≤ depth := by
  obtain ⟨depth', offset, tokens', hDepth, hTokens, hOpened⟩ := returns_parseBraced_iff.mp h
  obtain ⟨used, hUsed, hSpells, hNesting⟩ := spells_of_parseOpened hOpened
  refine ⟨⟨.leftBrace, offset⟩ :: used, ?_, hSpells, ?_⟩
  · rw [hTokens, hUsed]
    rfl
  · omega
termination_by 4 * tokens.length
decreasing_by
  rw [hTokens, List.length_cons]
  omega

/-- What is parsed behind a brace is spelled by the tokens that were taken. -/
theorem spells_of_parseOpened {depth last : Nat} {tokens rest : List PlacedToken}
    {e : Expression} (h : Returns (parseOpened depth last tokens) e rest) :
    ∃ used, tokens = used ++ rest ∧
      Spells (.leftBrace :: used.map PlacedToken.token) (.expression e) ∧
      nesting e ≤ depth + 1 := by
  obtain ⟨content, offset, tokens', hTokens, -, hName, hArguments⟩ :=
    returns_parseOpened_iff.mp h
  have hLength := length_splitHead_le content offset
  obtain ⟨name, rest', hHead⟩ := exists_isHead content
  obtain ⟨hSplitName, hSplitRest⟩ := splitHead_of_isHead hHead offset
  obtain ⟨name', positional, named⟩ := e
  simp only at hName hArguments
  rw [hSplitName] at hName
  subst hName
  rcases hArguments with ⟨close, hClose, rfl, rfl⟩ | hArguments
  · obtain ⟨hRest, hTokens'⟩ := head_of_brace hHead hClose
    refine ⟨[⟨.text content, offset⟩, ⟨.rightBrace, close⟩], ?_, ?_, ?_⟩
    · rw [hTokens, hTokens']
      rfl
    · have hItems : Spells (restTokens rest' ++ []) (.items (itemsOf [] [])) := by
        rw [hRest]
        exact .none
      exact .expression hHead hItems
    · rw [nesting_mk_le]
      exact ⟨Nat.zero_le depth, Nat.zero_le depth⟩
  · obtain ⟨used, close, hUsed, hItems⟩ := spells_of_parseArguments hArguments
    have hUsedLength := List.length_pos_of_ne_nil hItems.nonempty
    obtain ⟨inside, rfl, hTokens'⟩ := exists_inside hUsed (by omega)
    refine ⟨⟨.text content, offset⟩ :: (inside ++ [⟨.rightBrace, close⟩]), ?_, ?_, ?_⟩
    · rw [hTokens, hTokens']
      simp
    · have hSpells := hItems.spells
      rw [List.map_append, hSplitRest] at hSpells
      simpa using Spells.expression hHead hSpells
    · rw [nesting_mk_le, ← Nat.max_le]
      exact hItems.shallow
termination_by 4 * tokens.length + 3
decreasing_by
  rw [hTokens]
  simp only [List.length_append, List.length_cons]
  omega

/-- Arguments that are parsed are spelled by the tokens before the closing brace. -/
theorem spells_of_parseArguments {depth last : Nat} {namedOnly : Bool}
    {tokens rest : List PlacedToken} {arguments : Arguments}
    (h : Returns (parseArguments depth last namedOnly tokens) arguments rest) :
    ∃ used close, tokens = used ++ ⟨.rightBrace, close⟩ :: rest ∧
      SpellsItems used depth namedOnly arguments := by
  obtain ⟨item, tokens', left, others, hFirst, hValue, hSeparator, rfl⟩ :=
    returns_parseArguments_iff.mp h
  have hLength := hFirst.length_le
  have hShorter := hValue.shorter
  obtain ⟨value, hLeft, hValueSpells, hNesting⟩ := spells_of_parseValue hValue
  obtain ⟨used, hUsed, hItem⟩ := hFirst.spells hLeft hValueSpells
  have hUsedLength := congrArg List.length hUsed
  rw [List.length_append] at hUsedLength
  have hSome : used ≠ [] := List.ne_nil_of_length_pos (by omega)
  rcases returns_parseSeparator_iff.mp hSeparator with ⟨close, hClose, rfl⟩ |
    ⟨offset, tokens'', hComma, hOthers⟩
  · refine ⟨used, close, by rw [hUsed, hClose], ?_, hSome, ?_, hFirst.ordered fun _ => rfl⟩
    · rw [itemsOf_add fun _ => rfl]
      exact .one hItem
    · rw [Arguments.nesting_add]
      exact Nat.max_le.mpr ⟨hNesting, Nat.zero_le depth⟩
  · obtain ⟨used', close, hUsed', hItems⟩ := spells_of_parseArguments hOthers
    refine ⟨used ++ ⟨.comma, offset⟩ :: used', close, ?_, ?_, by simp, ?_,
      hFirst.ordered hItems.ordered⟩
    · rw [hUsed, hComma, hUsed']
      simp
    · obtain ⟨next, items, hNext⟩ := hItems.exists_cons
      have hSpells := hItems.spells
      rw [hNext] at hSpells
      rw [itemsOf_add hItems.ordered, hNext, List.map_append, List.map_cons]
      exact .more hItem hSpells
    · rw [Arguments.nesting_add]
      exact Nat.max_le.mpr ⟨hNesting, hItems.shallow⟩
termination_by 4 * tokens.length + 2
decreasing_by
  · omega
  · rw [hComma, List.length_cons] at hShorter
    omega

/-- A value that is parsed is spelled by the tokens that were taken. -/
theorem spells_of_parseValue {depth last : Nat} {tokens rest : List PlacedToken} {a : Argument}
    (h : Returns (parseValue depth last tokens) a rest) :
    ∃ used, tokens = used ++ rest ∧ Spells (used.map PlacedToken.token) (.value a) ∧
      nestingOfArgument a ≤ depth := by
  rcases returns_parseValue_iff.mp h with ⟨content, offset, rfl, hText | hQuoted⟩ |
    ⟨e, rfl, hBraced⟩
  · exact ⟨[⟨.text content, offset⟩], hText, .text content, Nat.zero_le depth⟩
  · exact ⟨[⟨.quoted content, offset⟩], hQuoted, .quoted content, Nat.zero_le depth⟩
  · obtain ⟨used, hUsed, hSpells, hNesting⟩ := spells_of_parseBraced hBraced
    exact ⟨used, hUsed, .nested hSpells, hNesting⟩
termination_by 4 * tokens.length + 1

end

/-! ### Completeness -/

/-- What the parser does with tokens that spell a phrase, whatever follows them. An item is followed
by what the parser of separators accepts, and items by the closing brace. -/
def Parses (placed : List PlacedToken) (depth : Nat) : Phrase → Prop
  | .expression e => nesting e ≤ depth →
    ∀ last rest, Returns (parseBraced depth last (placed ++ rest)) e rest
  | .value a => nestingOfArgument a ≤ depth →
    ∀ last rest, Returns (parseValue depth last (placed ++ rest)) a rest
  | .item item => nestingOfArgument item.value ≤ depth →
    ∀ namedOnly left rest others, (namedOnly = true → item.isNamed = true) →
      Returns (parseSeparator depth 0 item.isNamed left) others rest →
        ∀ last, Returns (parseArguments depth last namedOnly (placed ++ left)) (others.add item) rest
  | .items items => ∀ arguments : Arguments,
    items = itemsOf arguments.positional arguments.named → items ≠ [] →
      arguments.nesting ≤ depth →
        ∀ namedOnly close rest, (namedOnly = true → arguments.positional = []) →
          ∀ last, Returns (parseArguments depth last namedOnly
            (placed ++ ⟨.rightBrace, close⟩ :: rest)) arguments rest

/-- Placed tokens start with a placed token if their tokens do. -/
theorem exists_placed {placed : List PlacedToken} {token : Token} {tokens : List Token}
    (h : placed.map PlacedToken.token = token :: tokens) :
    ∃ offset others, placed = ⟨token, offset⟩ :: others ∧
      others.map PlacedToken.token = tokens := by
  obtain ⟨⟨_, offset⟩, others, rfl, rfl, hOthers⟩ := List.map_eq_cons_iff.mp h
  exact ⟨offset, others, rfl, hOthers⟩

/-- A value is one text, or it does not start with text. -/
theorem value_starts {tokens : List Token} {a : Argument} (h : Spells tokens (.value a)) :
    (∃ content, tokens = [.text content]) ∨
      ∃ token tokens', tokens = token :: tokens' ∧ ∀ name, token ≠ .text name := by
  cases h with
  | text content => exact .inl ⟨content, rfl⟩
  | quoted content => exact .inr ⟨.quoted content, [], rfl, by simp⟩
  | nested inner =>
    cases inner with
    | expression => exact .inr ⟨.leftBrace, _, rfl, by simp⟩

/-- A value in front of a comma or a brace does not look like a name and its equals sign. -/
theorem value_not_named {placed left : List PlacedToken} {a : Argument}
    (h : Spells (placed.map PlacedToken.token) (.value a)) (hLeft : peek left ≠ .equals)
    (name : String) (offset offset' : Nat) (tokens : List PlacedToken) :
    placed ++ left ≠ ⟨.text name, offset⟩ :: ⟨.equals, offset'⟩ :: tokens := by
  intro hStarts
  rcases value_starts h with ⟨content, hText⟩ | ⟨token, tokens', hOther, hNot⟩
  · obtain ⟨_, others, rfl, hNil⟩ := exists_placed hText
    rw [List.map_eq_nil_iff] at hNil
    subst hNil
    injection hStarts with _ hRest
    have hEquals : left = ⟨.equals, offset'⟩ :: tokens := hRest
    rw [hEquals] at hLeft
    exact hLeft rfl
  · obtain ⟨_, others, rfl, -⟩ := exists_placed hOther
    injection hStarts with hToken
    injection hToken with hToken
    exact hNot name hToken

/-- What a separator returns from does not start with an equals sign. -/
theorem Returns.separator_starts {depth last : Nat} {namedOnly : Bool}
    {left rest : List PlacedToken} {others : Arguments}
    (h : Returns (parseSeparator depth last namedOnly left) others rest) :
    peek left ≠ .equals := by
  rcases returns_parseSeparator_iff.mp h with ⟨close, rfl, -⟩ | ⟨offset, tokens, rfl, -⟩
  · intro hEquals
    cases hEquals
  · intro hEquals
    cases hEquals

/-- Where there is a first item, it was added in front of the others. -/
theorem itemsOf_cons_add {arguments : Arguments} {item : Item} {items : List Item}
    (h : itemsOf arguments.positional arguments.named = item :: items) :
    ∃ others : Arguments, arguments = others.add item ∧
      items = itemsOf others.positional others.named ∧
      (item.isNamed = true → others.positional = []) ∧
      (arguments.positional = [] → item.isNamed = true) := by
  obtain ⟨positional, named⟩ := arguments
  rcases itemsOf_eq_cons h with ⟨a, others, rfl, rfl, hItems⟩ | ⟨a, others, rfl, rfl, rfl, hItems⟩
  · exact ⟨⟨others, named⟩, rfl, hItems, by simp [Item.isNamed], by simp⟩
  · exact ⟨⟨[], others⟩, rfl, hItems, fun _ => rfl, fun _ => rfl⟩

/-- What is left of a text behind its first word is not empty. -/
theorem not_mem_restTokens (rest : String) : .text "" ∉ restTokens rest := by
  intro h
  unfold restTokens at h
  split at h
  · cases h
  · next hRest =>
    rw [List.mem_singleton] at h
    injection h with hText
    exact hRest hText.symm

/-- Behind a head stands the closing brace, or arguments that the parser reads up to it. -/
theorem inside_of_parses {extra middle after : List PlacedToken} {depth offset close : Nat}
    {positional : List Argument} {named : List NamedArgument}
    (hSpells : Spells ((extra ++ middle).map PlacedToken.token)
      (.items (itemsOf positional named)))
    (hParses : Parses (extra ++ middle) depth (.items (itemsOf positional named)))
    (hNesting : (Arguments.mk positional named).nesting ≤ depth) :
    (∃ close', extra ++ (middle ++ ⟨.rightBrace, close⟩ :: after) =
        ⟨.rightBrace, close'⟩ :: after ∧ positional = [] ∧ named = []) ∨
      Returns (parseArguments depth offset false
        (extra ++ (middle ++ ⟨.rightBrace, close⟩ :: after))) ⟨positional, named⟩ after := by
  rw [← List.append_assoc]
  by_cases hItems : itemsOf positional named = []
  · left
    rw [hItems] at hSpells
    generalize hPlaced : (extra ++ middle).map PlacedToken.token = tokens at hSpells
    cases hSpells
    rw [List.map_eq_nil_iff] at hPlaced
    rw [hPlaced]
    exact ⟨close, rfl, itemsOf_eq_nil hItems⟩
  · right
    exact hParses ⟨positional, named⟩ rfl hItems hNesting false close after (by simp) offset

/-- By induction on the derivation. No text is empty, because the parser refuses empty names. -/
theorem parses_of_spells {tokens : List Token} {phrase : Phrase} (h : Spells tokens phrase) :
    ∀ placed : List PlacedToken, placed.map PlacedToken.token = tokens → .text "" ∉ tokens →
      ∀ depth, Parses placed depth phrase := by
  induction h with
  | @expression content name rest inside positional named head arguments ih =>
    intro placed hPlaced hTexts depth hNesting last after
    obtain ⟨offset, opened, rfl, hOpened⟩ := exists_placed hPlaced
    obtain ⟨offset', others, rfl, hOthers⟩ := exists_placed hOpened
    obtain ⟨middle, last', rfl, hMiddle, hClose⟩ := List.map_eq_append_iff.mp hOthers
    obtain ⟨close, nothing, rfl, hNil⟩ := exists_placed hClose
    rw [List.map_eq_nil_iff] at hNil
    subst hNil
    obtain ⟨depth', rfl⟩ : ∃ depth', depth = depth' + 1 := by
      rw [nesting] at hNesting
      exact ⟨depth - 1, by omega⟩
    rw [nesting_mk_le, ← Nat.max_le] at hNesting
    have hContent : content ≠ "" := by
      intro h
      subst h
      simp at hTexts
    obtain ⟨hName, hRest⟩ := splitHead_of_isHead head offset'
    have hInside : ((splitHead content offset').2 ++ middle).map PlacedToken.token =
        restTokens rest ++ inside := by
      rw [List.map_append, hRest, hMiddle]
    have hInsideTexts : .text "" ∉ restTokens rest ++ inside := by
      rw [List.mem_append, not_or]
      exact ⟨not_mem_restTokens rest, fun h => hTexts (by simp [h])⟩
    have hParses := ih _ hInside hInsideTexts depth'
    rw [← hInside] at arguments
    have hSame : ⟨.leftBrace, offset⟩ :: ⟨.text content, offset'⟩ ::
        (middle ++ [⟨.rightBrace, close⟩]) ++ after = ⟨.leftBrace, offset⟩ ::
          ⟨.text content, offset'⟩ :: (middle ++ ⟨.rightBrace, close⟩ :: after) := by
      simp
    rw [hSame]
    refine returns_parseBraced_iff.mpr ⟨depth', offset, _, rfl, rfl, ?_⟩
    refine returns_parseOpened_iff.mpr ⟨content, offset', _, rfl, hContent, hName.symm, ?_⟩
    exact inside_of_parses arguments hParses hNesting
  | none =>
    intro placed hPlaced hTexts depth arguments hItems hSome
    exact absurd rfl hSome
  | @one tokens item only ih =>
    intro placed hPlaced hTexts depth arguments hItems hSome hNesting namedOnly close rest
      hOrdered last
    obtain ⟨others, rfl, hOthers, hItemOrdered, hAllowed⟩ := itemsOf_cons_add hItems.symm
    obtain ⟨hNoPositional, hNoNamed⟩ := itemsOf_eq_nil hOthers.symm
    rw [Arguments.nesting_add, Nat.max_le] at hNesting
    have hClose : Returns (parseSeparator depth 0 item.isNamed (⟨.rightBrace, close⟩ :: rest))
        others rest := by
      obtain ⟨positional, named⟩ := others
      simp only at hNoPositional hNoNamed
      subst hNoPositional hNoNamed
      exact returns_parseSeparator_iff.mpr (.inl ⟨close, rfl, rfl⟩)
    exact ih placed hPlaced hTexts depth hNesting.1 namedOnly _ rest others
      (fun h => hAllowed (hOrdered h)) hClose last
  | @more tokens tokens' item next items first others ihFirst ihOthers =>
    intro placed hPlaced hTexts depth arguments hItems hSome hNesting namedOnly close rest
      hOrdered last
    obtain ⟨later, rfl, hLater, hItemOrdered, hAllowed⟩ := itemsOf_cons_add hItems.symm
    rw [Arguments.nesting_add, Nat.max_le] at hNesting
    obtain ⟨front, back, rfl, hFront, hBack⟩ := List.map_eq_append_iff.mp hPlaced
    obtain ⟨offset, back', rfl, hBack'⟩ := exists_placed hBack
    rw [List.mem_append, List.mem_cons, not_or, not_or] at hTexts
    have hOthers := ihOthers back' hBack' hTexts.2.2 depth later hLater (by simp) hNesting.2
      item.isNamed close rest hItemOrdered offset
    have hSeparator : Returns (parseSeparator depth 0 item.isNamed
        (⟨.comma, offset⟩ :: (back' ++ ⟨.rightBrace, close⟩ :: rest))) later rest :=
      returns_parseSeparator_iff.mpr (.inr ⟨offset, _, rfl, hOthers⟩)
    have hFirst := ihFirst front hFront hTexts.1 depth hNesting.1 namedOnly _ rest later
      (fun h => hAllowed (hOrdered h)) hSeparator last
    have hSame : front ++ ⟨.comma, offset⟩ :: back' ++ ⟨.rightBrace, close⟩ :: rest =
        front ++ ⟨.comma, offset⟩ :: (back' ++ ⟨.rightBrace, close⟩ :: rest) := by
      simp
    rw [hSame]
    exact hFirst
  | @positional tokens a value ih =>
    intro placed hPlaced hTexts depth hNesting namedOnly left rest others hAllowed hSeparator last
    have hNamedOnly : namedOnly = false := by
      cases namedOnly with
      | false => rfl
      | true => cases hAllowed rfl
    subst hPlaced
    have hStarts := value_not_named value hSeparator.separator_starts
    have hValue := ih placed rfl hTexts depth hNesting last left
    rw [returns_parseArguments_iff]
    exact ⟨.positional a, placed ++ left, left, others, .positional hNamedOnly hStarts, hValue,
      hSeparator.separator_at last, rfl⟩
  | @named name tokens a value ih =>
    intro placed hPlaced hTexts depth hNesting namedOnly left rest others hAllowed hSeparator last
    obtain ⟨offset, placed', rfl, hPlaced'⟩ := exists_placed hPlaced
    obtain ⟨offset', placed'', rfl, hPlaced''⟩ := exists_placed hPlaced'
    have hName : name ≠ "" := by
      intro h
      subst h
      simp at hTexts
    have hTexts' : .text "" ∉ tokens := by
      intro hMem
      exact hTexts (by simp [hMem])
    have hValue := ih placed'' hPlaced'' hTexts' depth hNesting last left
    rw [returns_parseArguments_iff]
    exact ⟨.named ⟨name, a⟩, placed'' ++ left, left, others, .named rfl hName, hValue,
      hSeparator.separator_at last, rfl⟩
  | text content =>
    intro placed hPlaced _ depth _ last rest
    obtain ⟨offset, others, rfl, hNil⟩ := exists_placed hPlaced
    rw [List.map_eq_nil_iff] at hNil
    subst hNil
    exact returns_parseValue_iff.mpr (.inl ⟨content, offset, rfl, .inl rfl⟩)
  | quoted content =>
    intro placed hPlaced _ depth _ last rest
    obtain ⟨offset, others, rfl, hNil⟩ := exists_placed hPlaced
    rw [List.map_eq_nil_iff] at hNil
    subst hNil
    exact returns_parseValue_iff.mpr (.inl ⟨content, offset, rfl, .inr rfl⟩)
  | @nested tokens e inner ih =>
    intro placed hPlaced hTexts depth hNesting last rest
    have hBraced := ih placed hPlaced hTexts depth hNesting last rest
    exact returns_parseValue_iff.mpr (.inr ⟨e, rfl, hBraced⟩)

/-! ### The parser and its grammar -/

/-- No token before the end is an empty text. -/
theorem not_mem_of_allInner {front : List PlacedToken} (h : Token.AllInner front) :
    .text "" ∉ front.map PlacedToken.token := by
  intro hMem
  obtain ⟨t, ht, hText⟩ := List.mem_map.mp hMem
  have hInner := h t ht
  rw [hText] at hInner
  exact hInner.nonempty rfl

/-- The end is in no phrase. -/
theorem finish_not_mem_of_spells {tokens : List Token} {phrase : Phrase}
    (h : Spells tokens phrase) : .finish ∉ tokens := by
  induction h with
  | expression head arguments ih =>
    simp only [List.mem_append, not_or] at ih
    simp [ih.2]
  | none => simp
  | one only ih => exact ih
  | more first others ihFirst ihOthers => simp [ihFirst, ihOthers]
  | positional value ih => exact ih
  | named value ih => simp [ih]
  | text content => simp
  | quoted content => simp
  | nested inner ih => exact ih

/-- Where inner tokens and the end are read up to the end, only the end is left. -/
theorem rest_of_finish {front used rest : List PlacedToken} {last : Nat}
    (hInner : Token.AllInner front) (h : used ++ rest = front ++ [⟨.finish, last⟩])
    (hUsed : .finish ∉ used.map PlacedToken.token) (hEnd : peek rest = .finish) :
    rest = [⟨.finish, last⟩] := by
  let finish : PlacedToken := ⟨.finish, last⟩
  by_cases hLength : used.length ≤ front.length
  · obtain ⟨inside, rfl, rfl⟩ := exists_inside h hLength
    cases inside with
    | nil => rfl
    | cons t others =>
      have hToken : t.token.IsInner := hInner t (by simp)
      have hFinish : t.token = .finish := hEnd
      rw [hFinish] at hToken
      exact hToken.elim
  · have hLonger : (front ++ [finish]).length ≤ used.length := by
      simp only [List.length_append, List.length_cons, List.length_nil]
      omega
    have hAll : (front ++ [finish]) ++ [] = used ++ rest := by
      rw [List.append_nil, h]
    obtain ⟨inside, rfl, -⟩ := exists_inside hAll hLonger
    simp [finish] at hUsed

/-- A source is parsed if braces are, with nothing but the end behind them. -/
theorem parseTokens_eq_ok_iff_returns {tokens : List PlacedToken} {e : Expression} :
    parseTokens tokens = .ok e ↔
      ∃ rest, Returns (parseBraced depthLimit 0 tokens) e rest ∧ peek rest = .finish := by
  unfold parseTokens
  constructor
  · intro h
    split at h
    · cases h
    · next e' left hBraced =>
      split at h
      · next hEnd =>
        cases h
        exact ⟨left.tokens, ⟨left, hBraced, rfl⟩, hEnd⟩
      · cases h
  · rintro ⟨rest, ⟨left, hBraced, rfl⟩, hEnd⟩
    simp [hBraced, hEnd]

/-- What is parsed is spelled by its tokens, and is not nested too deep. -/
theorem spells_of_parseTokens {front : List PlacedToken} {last : Nat} {e : Expression}
    (hInner : Token.AllInner front) (h : parseTokens (front ++ [⟨.finish, last⟩]) = .ok e) :
    Spells (front.map PlacedToken.token) (.expression e) ∧ nesting e ≤ depthLimit := by
  obtain ⟨rest, hReturns, hEnd⟩ := parseTokens_eq_ok_iff_returns.mp h
  obtain ⟨used, hUsed, hSpells, hNesting⟩ := spells_of_parseBraced hReturns
  have hRest := rest_of_finish hInner hUsed.symm (finish_not_mem_of_spells hSpells) hEnd
  rw [hRest] at hUsed
  have hFront : front = used := List.append_cancel_right hUsed
  rw [hFront]
  exact ⟨hSpells, hNesting⟩

/-- What is spelled by its tokens and is not nested too deep is parsed. -/
theorem parseTokens_of_spells {front : List PlacedToken} {e : Expression}
    (hInner : Token.AllInner front)
    (hSpells : Spells (front.map PlacedToken.token) (.expression e))
    (hNesting : nesting e ≤ depthLimit) (last : Nat) :
    parseTokens (front ++ [⟨.finish, last⟩]) = .ok e := by
  have hParses := parses_of_spells hSpells front rfl (not_mem_of_allInner hInner) depthLimit
  exact parseTokens_eq_ok_iff_returns.mpr ⟨[⟨.finish, last⟩], hParses hNesting 0 _, rfl⟩

/-- The tokens of a source parse to an expression exactly if they are what spells it, with at most
`depthLimit` pairs of braces open at once, and the end. -/
theorem parseTokens_eq_ok_iff (source : String) (tokens : List PlacedToken) (e : Expression)
    (hScan : Token.scan source = .ok tokens) :
    parseTokens tokens = .ok e ↔
      ∃ body, tokens.map PlacedToken.token = body ++ [.finish] ∧ Spells body (.expression e) ∧
        nesting e ≤ depthLimit := by
  obtain ⟨front, last, rfl, hInner⟩ := Token.inner_of_scan hScan
  constructor
  · intro h
    obtain ⟨hSpells, hNesting⟩ := spells_of_parseTokens hInner h
    exact ⟨front.map PlacedToken.token, by simp, hSpells, hNesting⟩
  · rintro ⟨body, hBody, hSpells, hNesting⟩
    rw [List.map_append, List.map_singleton] at hBody
    have hFront : front.map PlacedToken.token = body := List.append_cancel_right hBody
    subst hFront
    exact parseTokens_of_spells hInner hSpells hNesting last

/-- The head of an expression can hold the name of its first argument. -/
theorem parseTokens_named_in_head :
    ∃ tokens, Token.scan "{Bind Path={Ref a}}" = .ok tokens ∧
      parseTokens tokens = .ok ⟨"Bind", [], [⟨"Path", .nested ⟨"Ref", [.text "a"], []⟩⟩]⟩ := by
  have hSolid {name : String} (h : name.toList.all (fun c => !isBlank c) = true) :
      ∀ c ∈ name.toList, isBlank c = false := by
    simpa using h
  have hBlank : ∀ c ∈ [' '], isBlank c = true := List.forall_mem_singleton.mpr rfl
  have hBind : IsHead "Bind Path" "Bind" "Path" :=
    ⟨⟨[' '], rfl, hBlank, nofun⟩, hSolid (by decide), by decide⟩
  have hRef : IsHead "Ref a" "Ref" "a" :=
    ⟨⟨[' '], rfl, hBlank, nofun⟩, hSolid (by decide), by decide⟩
  have hInner : Spells (.leftBrace :: .text "Ref a" :: ([] ++ [.rightBrace]))
      (.expression ⟨"Ref", [.text "a"], []⟩) :=
    .expression hRef (.one (.positional (.text "a")))
  have hOuter : Spells (.leftBrace :: .text "Bind Path" ::
      ([.equals, .leftBrace, .text "Ref a", .rightBrace] ++ [.rightBrace]))
      (.expression ⟨"Bind", [], [⟨"Path", .nested ⟨"Ref", [.text "a"], []⟩⟩]⟩) :=
    .expression hBind (.one (.named (.nested hInner)))
  have hScan : Token.scan "{Bind Path={Ref a}}" = .ok [⟨.leftBrace, 0⟩, ⟨.text "Bind Path", 1⟩,
      ⟨.equals, 10⟩, ⟨.leftBrace, 11⟩, ⟨.text "Ref a", 12⟩, ⟨.rightBrace, 17⟩, ⟨.rightBrace, 18⟩,
      ⟨.finish, 19⟩] := rfl
  refine ⟨_, hScan, (parseTokens_eq_ok_iff _ _ _ hScan).mpr ?_⟩
  exact ⟨_, rfl, hOuter, by decide⟩

end Expression

end ObjectMarkup
