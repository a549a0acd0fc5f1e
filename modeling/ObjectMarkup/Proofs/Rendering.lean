import Mathlib.Data.List.Forall2
import ObjectMarkup.Proofs.Spelling

/-!
# Writing expressions

`render` writes an expression in one way: the arguments behind one blank, separated by a comma and a
blank, every text between quotes with its quotes and backslashes escaped. The expressions that some
source parses to are exactly the well formed ones, and each of them is what its rendering parses to
(`parse_render`).

`Scans` says what tokens characters have, whatever follows them, so the tokens of a rendering are
put together from those of its parts. The one place where this is not so is a run of text, which
takes the blank behind it and the name behind that blank with it: an expression's name and the name
of its first argument are one token. `Piece` therefore keeps the name that an item starts with apart
from the rest of it, which starts with a character that ends a run.
-/

set_option autoImplicit false

namespace ObjectMarkup

namespace Expression

/-! ### Rendering -/

/-- A character between quotes. -/
def escapeQuoted (c : Char) : List Char :=
  if c = '\'' ∨ c = '\\' then ['\\', c] else [c]

/-- A text between quotes. -/
def quote (text : String) : List Char :=
  '\'' :: (text.toList.flatMap escapeQuoted ++ ['\''])

/-- Items behind a blank, separated by commas, or nothing. -/
def renderItems (items : List (List Char)) : List Char :=
  if items = [] then [] else ' ' :: [',', ' '].intercalate items

mutual

/-- The characters of an expression. -/
def renderExpression : Expression → List Char
  | ⟨name, positional, named⟩ =>
    '\x7b' :: (name.toList ++
      (renderItems (renderPositional positional ++ renderNamed named) ++ ['\x7d']))

/-- The characters of an argument. Texts are quoted. -/
def renderArgument : Argument → List Char
  | .text content => quote content
  | .nested e => renderExpression e

/-- The characters of each positional argument. -/
def renderPositional : List Argument → List (List Char)
  | [] => []
  | a :: rest => renderArgument a :: renderPositional rest

/-- The characters of each named argument. -/
def renderNamed : List NamedArgument → List (List Char)
  | [] => []
  | ⟨name, a⟩ :: rest => (name.toList ++ '=' :: renderArgument a) :: renderNamed rest

end

/-- An expression as a text. -/
def render (e : Expression) : String :=
  String.ofList (renderExpression e)

/-! ### Well formed expressions -/

/-- A name of an extension: not empty, without blanks and marks. -/
structure IsName (name : String) : Prop where
  nonempty : name ≠ ""
  solid : ∀ c ∈ name.toList, isBlank c = false
  plain : Plain name.toList

mutual

/-- The names in an expression are ones that a source can give. -/
def WellNamed : Expression → Prop
  | ⟨name, positional, named⟩ =>
    IsName name ∧ WellNamedPositional positional ∧ WellNamedNamed named

/-- The names in an argument are well formed. -/
def WellNamedArgument : Argument → Prop
  | .text _ => True
  | .nested e => WellNamed e

/-- The names in positional arguments are well formed. -/
def WellNamedPositional : List Argument → Prop
  | [] => True
  | a :: rest => WellNamedArgument a ∧ WellNamedPositional rest

/-- Named arguments are well named, and so are the names in them. -/
def WellNamedNamed : List NamedArgument → Prop
  | [] => True
  | ⟨name, a⟩ :: rest => (Neat name ∧ WellNamedArgument a) ∧ WellNamedNamed rest

end

/-- An expression that a source can give. -/
structure WellFormed (e : Expression) : Prop where
  named : WellNamed e
  shallow : nesting e ≤ depthLimit

namespace Token

/-! ### The tokens of characters -/

/-- The tokens of characters that stand between runs, whatever follows them. -/
def Scans (cs : List Char) (tokens : List Token) : Prop :=
  ∀ offset rest, ∃ placed last, placed.map PlacedToken.token = tokens ∧
    scanner.run .between offset (cs ++ rest) = (scanner.run .between last rest).prepend placed

/-- Characters that follow each other are the tokens that follow each other. -/
theorem Scans.append {cs cs' : List Char} {tokens tokens' : List Token} (h : Scans cs tokens)
    (h' : Scans cs' tokens') : Scans (cs ++ cs') (tokens ++ tokens') := by
  intro offset rest
  obtain ⟨placed, middle, hPlaced, hRun⟩ := h offset (cs' ++ rest)
  obtain ⟨placed', last, hPlaced', hRun'⟩ := h' middle rest
  refine ⟨placed ++ placed', last, ?_, ?_⟩
  · rw [List.map_append, hPlaced, hPlaced']
  · rw [List.append_assoc, hRun, hRun', Scan.prepend_prepend]

/-- A mark is one token. -/
theorem Scans.mark {c : Char} {token : Token} (h : ofMark c = some token) : Scans [c] [token] := by
  intro offset rest
  refine ⟨[⟨token, offset⟩], offset + c.utf8Size, rfl, ?_⟩
  rw [List.singleton_append, run_cons]
  simp [step, stepBetween, h]

/-- A space is no token. -/
theorem Scans.space : Scans [' '] [] := by
  intro offset rest
  exact ⟨[], offset + ' '.utf8Size, rfl, rfl⟩

/-- Inside quotes, escaped characters are read back as they were. -/
theorem run_quoted (start : Nat) (text rest : List Char) :
    ∀ taken offset, ∃ last, scanner.run (.quoted start taken) offset
      (text.flatMap escapeQuoted ++ '\'' :: rest) =
        (scanner.run .between last rest).prepend
          [⟨.quoted (String.ofList (taken.reverse ++ text)), start⟩] := by
  induction text with
  | nil =>
    intro taken offset
    refine ⟨offset + '\''.utf8Size, ?_⟩
    rw [List.flatMap_nil, List.nil_append, run_cons, List.append_nil]
    rfl
  | cons c text ih =>
    intro taken offset
    have hTaken : (c :: taken).reverse ++ text = taken.reverse ++ c :: text := by
      simp
    by_cases hc : c = '\'' ∨ c = '\\'
    · obtain ⟨last, hRun⟩ := ih (c :: taken) (offset + '\\'.utf8Size + c.utf8Size)
      have hEscape : escapeQuoted c = ['\\', c] := if_pos hc
      have hFirst : step (.quoted start taken) offset '\\' = ([], .escaped start taken) := rfl
      have hSecond : ∀ offset', step (.escaped start taken) offset' c =
          ([], .quoted start (c :: taken)) := fun _ => rfl
      rw [List.flatMap_cons, hEscape]
      refine ⟨last, ?_⟩
      simp only [List.cons_append, List.nil_append]
      rw [run_silent hFirst, run_silent (hSecond _), hRun, hTaken]
    · obtain ⟨last, hRun⟩ := ih (c :: taken) (offset + c.utf8Size)
      have hEscape : escapeQuoted c = [c] := if_neg hc
      rw [not_or] at hc
      have hFirst : step (.quoted start taken) offset c = ([], .quoted start (c :: taken)) := by
        simp [step, hc.1, hc.2]
      refine ⟨last, ?_⟩
      rw [List.flatMap_cons, hEscape, List.singleton_append, List.cons_append, run_silent hFirst,
        hRun, hTaken]

/-- A quoted text is one token. -/
theorem Scans.quote (text : String) : Scans (quote text) [.quoted text] := by
  intro offset rest
  obtain ⟨last, hRun⟩ := run_quoted offset text.toList rest [] (offset + '\''.utf8Size)
  refine ⟨[⟨.quoted text, offset⟩], last, rfl, ?_⟩
  have hFirst : step .between offset '\'' = ([], .quoted offset []) := rfl
  have hShape : Expression.quote text ++ rest =
      '\'' :: (text.toList.flatMap escapeQuoted ++ '\'' :: rest) := by
    simp [Expression.quote]
  rw [hShape, run_silent hFirst, hRun, List.reverse_nil, List.nil_append, String.ofList_toList]

/-- A run of text goes on over characters that are no marks. -/
theorem run_text (start : Nat) (rest : List Char) {cs : List Char} (h : Plain cs) :
    ∀ taken offset, ∃ last, scanner.run (.text start taken) offset (cs ++ rest) =
      scanner.run (.text start (cs.reverse ++ taken)) last rest := by
  induction cs with
  | nil =>
    intro taken offset
    exact ⟨offset, rfl⟩
  | cons c cs ih =>
    intro taken offset
    have hc := ofMark_of_not_mem (h c (by simp))
    have hStep : step (.text start taken) offset c = ([], .text start (c :: taken)) := by
      simp [step, hc.1, hc.2]
    have hRest : Plain cs := fun x hx => h x (by simp [hx])
    obtain ⟨last, hRun⟩ := ih hRest (c :: taken) (offset + c.utf8Size)
    refine ⟨last, ?_⟩
    rw [List.cons_append, run_silent hStep, hRun]
    simp

/-- Characters that start with one that ends a run of text. -/
def StartsMark (cs : List Char) : Prop :=
  ∃ c rest, cs = c :: rest ∧ c ∈ marks

/-- What starts with a mark still does if more follows. -/
theorem StartsMark.append {cs : List Char} (h : StartsMark cs) (cs' : List Char) :
    StartsMark (cs ++ cs') := by
  obtain ⟨c, rest, rfl, hc⟩ := h
  exact ⟨c, rest ++ cs', rfl, hc⟩

/-- A run of text in front of a mark is one token, without the blanks at its end. -/
theorem Scans.run {cs tail : List Char} {tokens : List Token} (h : IsRun cs)
    (hTail : StartsMark tail) (hScans : Scans tail tokens) :
    Scans (cs ++ tail) (.text (String.ofList (trimRight cs)) :: tokens) := by
  intro offset rest
  obtain ⟨first, others, rfl⟩ := List.exists_cons_of_ne_nil h.nonempty
  obtain ⟨c, tail', rfl, hc⟩ := hTail
  have hFirst := ofMark_of_not_mem (h.plain first (by simp))
  have hSolid : isBlank first = false := h.starts first rfl
  have hStep : step .between offset first = ([], .text offset [first]) := by
    simp [step, stepBetween, hFirst.1, hFirst.2, hSolid]
  have hOthers : Plain others := fun x hx => h.plain x (by simp [hx])
  obtain ⟨middle, hRun⟩ := run_text offset (c :: tail' ++ rest) hOthers [first]
    (offset + first.utf8Size)
  obtain ⟨placed, last, hPlaced, hLast⟩ := hScans middle rest
  refine ⟨ofRun offset (others.reverse ++ [first]) :: placed, last, ?_, ?_⟩
  · rw [List.map_cons, hPlaced, ofRun_eq]
    simp
  · rw [List.append_assoc, List.cons_append, run_silent hStep, hRun, List.cons_append,
      run_text_mark hc, ← List.cons_append, hLast, Scan.prepend_prepend]
    rfl

/-- The tokens of characters that are all of a source. -/
theorem scan_of_scans {source : String} {tokens : List Token} (h : Scans source.toList tokens) :
    ∃ placed, scan source = .ok placed ∧
      placed.map PlacedToken.token = tokens ++ [.finish] := by
  obtain ⟨placed, last, hPlaced, hRun⟩ := h 0 []
  rw [List.append_nil] at hRun
  refine ⟨placed ++ [⟨.finish, last⟩], ?_, ?_⟩
  · rw [scan, hRun]
    rfl
  · rw [List.map_append, hPlaced]
    rfl

end Token

/-! ### The tokens of a rendering -/

open Token

/-- Characters that spell a phrase: a label, which is a name or nothing, and a tail that starts with
a mark. The label is kept apart because a run of text in front of it would swallow it. -/
def Piece (cs : List Char) (phrase : Phrase) : Prop :=
  ∃ (label : String) (tail : List Char) (tokens : List Token), cs = label.toList ++ tail ∧
    (label = "" ∨ Neat label) ∧ StartsMark tail ∧ Scans tail tokens ∧
    Spells (restTokens label ++ tokens) phrase

/-- A neat name is read in one run. -/
theorem Neat.isRun {name : String} (h : Neat name) : IsRun name.toList where
  nonempty := by
    intro hNil
    exact h.nonempty (String.toList_eq_nil_iff.mp hNil)
  starts := h.startsSolid
  plain := h.plain

/-- A name is neat. -/
theorem IsName.neat {name : String} (h : IsName name) : Neat name := by
  have hStarts : StartsSolid name.toList := by
    intro c hc
    exact h.solid c (List.mem_of_mem_head? hc)
  have hEnds : EndsSolid name.toList := by
    intro c hc
    exact h.solid c (List.mem_of_mem_getLast? hc)
  have hNonempty : name.toList ≠ [] := by
    intro hNil
    exact h.nonempty (String.toList_eq_nil_iff.mp hNil)
  have hNeat := neat_ofList ⟨hNonempty, hStarts, h.plain⟩ hEnds
  rwa [String.ofList_toList] at hNeat

/-- Between runs, a label is a token of its own. -/
theorem Piece.scans {cs : List Char} {phrase : Phrase} (h : Piece cs phrase) :
    ∃ tokens, Scans cs tokens ∧ Spells tokens phrase := by
  obtain ⟨label, tail, tokens, rfl, hLabel, hTail, hScans, hSpells⟩ := h
  refine ⟨restTokens label ++ tokens, ?_, hSpells⟩
  rcases hLabel with rfl | hNeat
  · exact hScans
  · have hRun := Scans.run hNeat.isRun hTail hScans
    rw [trimRight_eq_self hNeat.endsSolid, String.ofList_toList] at hRun
    rw [restTokens, if_neg hNeat.nonempty]
    exact hRun

/-- Several items, written behind each other. -/
theorem Piece.items {pieces : List (List Char)} {items : List Item}
    (h : List.Forall₂ (fun cs item => Piece cs (.item item)) pieces items) (hSome : pieces ≠ []) :
    Piece ([',', ' '].intercalate pieces) (.items items) := by
  induction h with
  | nil => exact absurd rfl hSome
  | @cons cs item pieces items hFirst hOthers ih =>
    obtain ⟨label, tail, tokens, rfl, hLabel, hTail, hScans, hSpells⟩ := hFirst
    cases hOthers with
    | nil =>
      have hAlone : [',', ' '].intercalate [label.toList ++ tail] = label.toList ++ tail := by
        simp [List.intercalate]
      exact ⟨label, tail, tokens, hAlone, hLabel, hTail, hScans, .one hSpells⟩
    | @cons cs' next pieces items hNext hRest =>
      obtain ⟨tokens', hScans', hSpells'⟩ := (ih (by simp)).scans
      have hComma : Scans [',', ' '] [.comma] := Scans.append (Scans.mark rfl) Scans.space
      refine ⟨label, tail ++ ([',', ' '] ++ [',', ' '].intercalate (cs' :: pieces)),
        tokens ++ ([.comma] ++ tokens'), ?_, hLabel, hTail.append _,
        hScans.append (hComma.append hScans'), ?_⟩
      · simp [List.intercalate, List.intersperse]
      · have hMore := Spells.more hSpells hSpells'
        rw [List.append_assoc] at hMore
        exact hMore

/-- A name is its own head. -/
theorem isHead_self {name : String} (h : IsName name) : IsHead name name "" where
  parts := ⟨[], by simp, by simp, fun _ => rfl⟩
  solid := h.solid
  starts := by
    intro c hc
    cases hc

/-- The head of an expression: a name, and behind a blank the label of the first argument. -/
theorem isHead_of_label {name label : String} (hName : IsName name)
    (hLabel : label = "" ∨ Neat label) :
    IsHead (String.ofList (trimRight (name.toList ++ ' ' :: label.toList))) name label := by
  rcases hLabel with rfl | hNeat
  · have hTrim : trimRight (name.toList ++ [' ']) = name.toList :=
      trimRight_append_space hName.neat.endsSolid
    rw [String.toList_empty, hTrim, String.ofList_toList]
    exact isHead_self hName
  · have hEnds : EndsSolid (name.toList ++ ' ' :: label.toList) := by
      intro c hc
      have hSome : label.toList ≠ [] := hNeat.isRun.nonempty
      rw [List.getLast?_append_of_ne_nil _ (by simp), List.getLast?_cons_of_ne_nil hSome] at hc
      exact hNeat.endsSolid c hc
    rw [trimRight_eq_self hEnds]
    have hBlank : ∀ c ∈ [' '], isBlank c = true := List.forall_mem_singleton.mpr rfl
    exact ⟨⟨[' '], by simp, hBlank, by simp⟩, hName.solid, hNeat.startsSolid⟩

/-- A name with a label is read in one run. -/
theorem isRun_head {name label : String} (hName : IsName name)
    (hLabel : label = "" ∨ Neat label) : IsRun (name.toList ++ ' ' :: label.toList) := by
  have hRun := hName.neat.isRun
  refine ⟨by simp, ?_, ?_⟩
  · intro c hc
    rw [List.head?_append_of_ne_nil _ hRun.nonempty] at hc
    exact hRun.starts c hc
  · intro c hc
    rw [List.mem_append, List.mem_cons] at hc
    rcases hc with hc | rfl | hc
    · exact hRun.plain c hc
    · decide
    · rcases hLabel with rfl | hNeat
      · cases hc
      · exact hNeat.plain c hc

mutual

/-- The characters of an expression scan to tokens that spell it. -/
theorem renderExpression_spells {e : Expression} (h : WellNamed e) :
    ∃ tokens, Scans (renderExpression e) tokens ∧ Spells tokens (.expression e) := by
  obtain ⟨name, positional, named⟩ := e
  obtain ⟨hName, hPositional, hNamed⟩ := h
  have hPieces : List.Forall₂ (fun cs item => Piece cs (.item item))
      (renderPositional positional ++ renderNamed named) (itemsOf positional named) :=
    List.rel_append (renderPositional_pieces hPositional) (renderNamed_pieces hNamed)
  have hOpen : Scans ['\x7b'] [.leftBrace] := Scans.mark rfl
  have hClose : Scans ['\x7d'] [.rightBrace] := Scans.mark rfl
  have hBrace : StartsMark ['\x7d'] := ⟨'\x7d', [], rfl, by decide⟩
  rw [renderExpression, renderItems]
  by_cases hNone : renderPositional positional ++ renderNamed named = []
  · rw [hNone, List.forall₂_nil_left_iff] at hPieces
    have hRun := Scans.run hName.neat.isRun hBrace hClose
    rw [trimRight_eq_self hName.neat.endsSolid, String.ofList_toList] at hRun
    have hItems : Spells (restTokens "" ++ []) (.items (itemsOf positional named)) := by
      rw [hPieces]
      exact .none
    rw [if_pos hNone]
    exact ⟨_, hOpen.append hRun, .expression (isHead_self hName) hItems⟩
  · obtain ⟨label, tail, tokens, hJoined, hLabel, hTail, hScans, hSpells⟩ :=
      Piece.items hPieces hNone
    have hRun := Scans.run (isRun_head hName hLabel) (hTail.append ['\x7d'])
      (hScans.append hClose)
    have hShape : name.toList ++ (' ' :: (label.toList ++ tail) ++ ['\x7d']) =
        name.toList ++ ' ' :: label.toList ++ (tail ++ ['\x7d']) := by
      simp
    rw [if_neg hNone, hJoined, hShape]
    exact ⟨_, hOpen.append hRun, .expression (isHead_of_label hName hLabel) hSpells⟩

/-- The characters of an argument scan to tokens that spell it. -/
theorem renderArgument_piece {a : Argument} (h : WellNamedArgument a) :
    Piece (renderArgument a) (.value a) := by
  cases a with
  | text content =>
    refine ⟨"", quote content, [.quoted content], rfl, .inl rfl, ?_, .quote content,
      .quoted content⟩
    exact ⟨'\'', _, rfl, by decide⟩
  | nested e =>
    obtain ⟨tokens, hScans, hSpells⟩ := renderExpression_spells h
    refine ⟨"", renderExpression e, tokens, rfl, .inl rfl, ?_, hScans, .nested hSpells⟩
    obtain ⟨name, positional, named⟩ := e
    exact ⟨'\x7b', _, rfl, by decide⟩

/-- The characters of positional arguments scan to tokens that spell them. -/
theorem renderPositional_pieces {arguments : List Argument} (h : WellNamedPositional arguments) :
    List.Forall₂ (fun cs item => Piece cs (.item item)) (renderPositional arguments)
      (arguments.map .positional) := by
  cases arguments with
  | nil => exact .nil
  | cons a rest =>
    obtain ⟨hFirst, hRest⟩ := h
    obtain ⟨label, tail, tokens, hShape, hLabel, hTail, hScans, hSpells⟩ :=
      renderArgument_piece hFirst
    refine .cons ⟨label, tail, tokens, hShape, hLabel, hTail, hScans, .positional hSpells⟩ ?_
    exact renderPositional_pieces hRest

/-- The characters of named arguments scan to tokens that spell them. -/
theorem renderNamed_pieces {arguments : List NamedArgument} (h : WellNamedNamed arguments) :
    List.Forall₂ (fun cs item => Piece cs (.item item)) (renderNamed arguments)
      (arguments.map .named) := by
  cases arguments with
  | nil => exact .nil
  | cons argument rest =>
    obtain ⟨name, a⟩ := argument
    obtain ⟨⟨hName, hValue⟩, hRest⟩ := h
    obtain ⟨tokens, hScans, hSpells⟩ := (renderArgument_piece hValue).scans
    have hEquals : Scans ['='] [.equals] := Scans.mark rfl
    have hItem : Spells (restTokens name ++ ([.equals] ++ tokens)) (.item (.named ⟨name, a⟩)) := by
      rw [restTokens, if_neg hName.nonempty]
      exact .named hSpells
    have hTail : Scans ('=' :: renderArgument a) ([.equals] ++ tokens) := hEquals.append hScans
    refine .cons ⟨name, _, _, rfl, .inr hName, ⟨'=', _, rfl, by decide⟩, hTail, hItem⟩ ?_
    exact renderNamed_pieces hRest

end

/-! ### What sources give -/

/-- A source is parsed if its tokens are there and are parsed. -/
theorem parse_eq_ok_iff {source : String} {e : Expression} :
    parse source = .ok e ↔ ∃ tokens, scan source = .ok tokens ∧ parseTokens tokens = .ok e := by
  unfold parse parseSource
  constructor
  · intro h
    cases hScan : scan source with
    | error fault => simp [hScan, Except.mapError] at h
    | ok tokens =>
      refine ⟨tokens, rfl, ?_⟩
      cases hParse : parseTokens tokens with
      | error fault => simp [hScan, hParse, Except.mapError] at h
      | ok e' => simpa [hScan, hParse, Except.mapError] using h
  · rintro ⟨tokens, hScan, hParse⟩
    simp [hScan, hParse, Except.mapError]

/-- The texts among tokens are neat. -/
def NeatTexts (tokens : List Token) : Prop :=
  ∀ content, Token.text content ∈ tokens → Neat content

/-- Among neat texts, fewer are neat. -/
theorem NeatTexts.subset {tokens tokens' : List Token} (h : NeatTexts tokens)
    (hSubset : tokens' ⊆ tokens) : NeatTexts tokens' := by
  intro content hMem
  exact h content (hSubset hMem)

/-- Tokens that stand inside of a source have neat texts. -/
theorem neatTexts_of_allInner {front : List PlacedToken} (h : AllInner front) :
    NeatTexts (front.map PlacedToken.token) := by
  intro content hMem
  obtain ⟨t, ht, hText⟩ := List.mem_map.mp hMem
  have hInner := h t ht
  rw [hText] at hInner
  exact hInner

/-- The names in one item of a list of arguments are well formed. -/
def Item.WellNamed : Item → Prop
  | .positional a => WellNamedArgument a
  | .named ⟨name, a⟩ => Neat name ∧ WellNamedArgument a

/-- The names in a phrase are ones that a source can give. -/
def Phrase.WellNamed : Phrase → Prop
  | .expression e => Expression.WellNamed e
  | .items all => ∀ item ∈ all, item.WellNamed
  | .item i => i.WellNamed
  | .value a => WellNamedArgument a

/-- Positional arguments are well named if each one is. -/
theorem wellNamedPositional_of_forall {arguments : List Argument}
    (h : ∀ a ∈ arguments, WellNamedArgument a) : WellNamedPositional arguments := by
  induction arguments with
  | nil => trivial
  | cons a rest ih => exact ⟨h a (by simp), ih fun x hx => h x (by simp [hx])⟩

/-- Named arguments are well named if each one is. -/
theorem wellNamedNamed_of_forall {arguments : List NamedArgument}
    (h : ∀ a ∈ arguments, (Item.named a).WellNamed) : WellNamedNamed arguments := by
  induction arguments with
  | nil => trivial
  | cons a rest ih =>
    obtain ⟨name, value⟩ := a
    exact ⟨h ⟨name, value⟩ (by simp), ih fun x hx => h x (by simp [hx])⟩

/-- The head of an expression gives a name, and a label if something follows it. -/
theorem IsHead.neat {content name rest : String} (h : IsHead content name rest)
    (hNeat : Neat content) : IsName name ∧ (rest = "" ∨ Neat rest) := by
  obtain ⟨⟨blanks, hContent, hBlanks, hNone⟩, hSolid, hStarts⟩ := h
  have hPlain := hNeat.plain
  rw [hContent] at hPlain
  refine ⟨⟨?_, hSolid, fun c hc => hPlain c (by simp [hc])⟩, ?_⟩
  · -- without a name, the content would be empty or start with a blank
    intro hName
    cases blanks with
    | nil =>
      rw [hName, hNone rfl] at hContent
      exact hNeat.nonempty (String.toList_eq_nil_iff.mp hContent)
    | cons b blanks =>
      have hFirst := hNeat.startsSolid b (by rw [hContent, hName]; rfl)
      rw [hBlanks b (by simp)] at hFirst
      cases hFirst
  · by_cases hRest : rest = ""
    · exact .inl hRest
    · right
      have hSome : rest.toList ≠ [] := by
        intro hNil
        exact hRest (String.toList_eq_nil_iff.mp hNil)
      have hEnds : EndsSolid rest.toList := by
        intro c hc
        apply hNeat.endsSolid
        rw [hContent, ← List.append_assoc, List.getLast?_append_of_ne_nil _ hSome]
        exact hc
      have hRun : IsRun rest.toList := ⟨hSome, hStarts, fun c hc => hPlain c (by simp [hc])⟩
      have hLabel := neat_ofList hRun hEnds
      rwa [String.ofList_toList] at hLabel

/-- By induction on the derivation: neat tokens spell well named phrases only. -/
theorem wellNamed_of_spells {tokens : List Token} {phrase : Phrase} (h : Spells tokens phrase) :
    NeatTexts tokens → phrase.WellNamed := by
  induction h with
  | @expression content name rest inside positional named head arguments ih =>
    intro hTexts
    obtain ⟨hName, hRest⟩ := head.neat (hTexts content (by simp))
    have hInside : NeatTexts (restTokens rest ++ inside) := by
      intro text hMem
      rw [List.mem_append] at hMem
      rcases hMem with hMem | hMem
      · unfold restTokens at hMem
        split_ifs at hMem with hEmpty
        · cases hMem
        · rw [List.mem_singleton] at hMem
          cases hMem
          exact hRest.resolve_left hEmpty
      · exact hTexts text (by simp [hMem])
    have hItems := ih hInside
    refine ⟨hName, wellNamedPositional_of_forall ?_, wellNamedNamed_of_forall ?_⟩
    · intro a ha
      exact hItems (.positional a) (by simp [itemsOf, ha])
    · intro a ha
      exact hItems (.named a) (by simp [itemsOf, ha])
  | none =>
    intro _ item hMem
    cases hMem
  | one only ih =>
    intro hTexts item hMem
    rw [List.mem_singleton] at hMem
    rw [hMem]
    exact ih hTexts
  | more first others ihFirst ihOthers =>
    intro hTexts item hMem
    rw [List.mem_cons] at hMem
    rcases hMem with rfl | hMem
    · exact ihFirst (hTexts.subset (by simp))
    · exact ihOthers (hTexts.subset (by simp)) item hMem
  | positional value ih => exact ih
  | named value ih =>
    intro hTexts
    exact ⟨hTexts _ (by simp), ih (hTexts.subset (by simp))⟩
  | text content => exact fun _ => trivial
  | quoted content => exact fun _ => trivial
  | nested inner ih => exact ih

/-- What a source is parsed to is well formed. -/
theorem wellFormed_of_parse {source : String} {e : Expression} (h : parse source = .ok e) :
    WellFormed e := by
  obtain ⟨tokens, hScan, hParse⟩ := parse_eq_ok_iff.mp h
  obtain ⟨front, last, rfl, hInner⟩ := inner_of_scan hScan
  obtain ⟨hSpells, hNesting⟩ := spells_of_parseTokens hInner hParse
  exact ⟨wellNamed_of_spells hSpells (neatTexts_of_allInner hInner), hNesting⟩

/-- What is well formed is parsed back from its characters. -/
theorem parse_render_of_wellFormed {e : Expression} (h : WellFormed e) :
    parse (render e) = .ok e := by
  obtain ⟨tokens, hScans, hSpells⟩ := renderExpression_spells h.named
  have hSource : Scans (render e).toList tokens := by
    rw [render, String.toList_ofList]
    exact hScans
  obtain ⟨placed, hScan, hPlaced⟩ := scan_of_scans hSource
  obtain ⟨front, last, rfl, hInner⟩ := inner_of_scan hScan
  rw [List.map_append, List.map_singleton] at hPlaced
  have hFront : front.map PlacedToken.token = tokens := List.append_cancel_right hPlaced
  rw [← hFront] at hSpells
  exact parse_eq_ok_iff.mpr ⟨_, hScan, parseTokens_of_spells hInner hSpells h.shallow last⟩

/-- Every expression that a source parses to is well formed and is what its rendering parses to, and
so is every other well formed expression. -/
theorem parse_render :
    (∀ (source : String) (e : Expression), parse source = .ok e →
      WellFormed e ∧ parse (render e) = .ok e) ∧
    ∀ e : Expression, WellFormed e → parse (render e) = .ok e := by
  constructor
  · intro source e h
    have hFormed := wellFormed_of_parse h
    exact ⟨hFormed, parse_render_of_wellFormed hFormed⟩
  · intro e h
    exact parse_render_of_wellFormed h

/-- Blanks go, a quote and a backslash stay, and the first argument can have a name. -/
theorem parse_render_quotes :
    ∃ e, parse "\x7b Bind\tPath = 'it\\'s \\\\' , Mode=\x7bx:Null\x7d \x7d" = .ok e ∧
      render e = "\x7bBind Path='it\\'s \\\\', Mode=\x7bx:Null\x7d\x7d" ∧
      parse (render e) = .ok e := by
  have hParse : parse "\x7b Bind\tPath = 'it\\'s \\\\' , Mode=\x7bx:Null\x7d \x7d" =
      .ok ⟨"Bind", [], [⟨"Path", .text "it's \\"⟩, ⟨"Mode", .nested ⟨"x:Null", [], []⟩⟩]⟩ := by
    with_unfolding_all rfl
  exact ⟨_, hParse, rfl, (parse_render.1 _ _ hParse).2⟩

end Expression

end ObjectMarkup
