import ObjectMarkup.Proofs.Places
import ObjectMarkup.Proofs.Scanning

/-!
# Tokens that tile a source

The characters of a source are blanks and the characters that its tokens are written with. A token
stands at the byte where these start, so the bytes of tokens grow, tokens share no character, and no
character of a source is lost (`Tiles`). Such a source closes every quote that opens a run
(`Covers.closed`), and a source leaves at most one quote open (`LeavesOpen.unique`).
-/

set_option autoImplicit false

namespace ObjectMarkup

/-- A scan with more in front is complete if it is, with more in front. -/
theorem Scan.complete_prepend {ω ε : Type} (items : List ω) (s : Scan ω ε) :
    (s.prepend items).complete = s.complete.map (items ++ ·) := by
  obtain ⟨later, fault⟩ := s
  cases fault with
  | none => rfl
  | some fault => rfl

namespace Expression

namespace Token

/-! ### What tokens are written with -/

/-- All of these characters are blank. -/
def Blank (cs : List Char) : Prop :=
  ∀ c ∈ cs, isBlank c = true

/-- The characters that one character is written with between quotes: itself, or a backslash in
front of it. A quote and a backslash need the backslash. -/
inductive Escapes : List Char → Char → Prop where
  | plain {c : Char} (notQuote : c ≠ '\'') (notBackslash : c ≠ '\\') : Escapes [c] c
  | escaped (c : Char) : Escapes ['\\', c] c

/-- What is left out of a run of text are the blanks at its end. -/
theorem exists_trimRight (cs : List Char) :
    ∃ blanks, trimRight cs ++ blanks = cs ∧ Blank blanks := by
  refine ⟨cs.rtakeWhile isBlank, List.rdropWhile_append_rtakeWhile, ?_⟩
  intro c hc
  exact List.mem_rtakeWhile_imp hc

/-- What the characters between two quotes stand for. -/
inductive Unescapes : List Char → List Char → Prop where
  | nil : Unescapes [] []
  | cons {front body content : List Char} {c : Char} (first : Escapes front c)
      (rest : Unescapes body content) : Unescapes (front ++ body) (c :: content)

/-- The characters that a token is written with. -/
inductive Written : Token → List Char → Prop where
  | leftBrace : Written .leftBrace ['\x7b']
  | rightBrace : Written .rightBrace ['\x7d']
  | comma : Written .comma [',']
  | equals : Written .equals ['=']
  | text {content : String} (neat : Neat content) : Written (.text content) content.toList
  | quoted {content : String} {body : List Char} (between : Unescapes body content.toList) :
      Written (.quoted content) ('\'' :: (body ++ ['\'']))
  | finish : Written .finish []

/-- A token is written at the byte where it stands, behind the characters `before`. -/
structure LiesAt (source : List Char) (t : PlacedToken) (before span : List Char) : Prop where
  written : Written t.token span
  offset : byteLength before = t.offset
  inside : ∃ after, source = before ++ (span ++ after)

/-- Tokens tile a source: their bytes grow, the end and nothing else is last, each of them is
written where it stands and is over where a later one stands, and a character that no token is written
with is blank. -/
structure Tiles (source : String) (tokens : List PlacedToken) : Prop where
  increasing : tokens.Pairwise fun t u => t.offset < u.offset
  ends : ∃ inner, tokens = inner ++ [⟨.finish, source.utf8ByteSize⟩] ∧
    ∀ t ∈ inner, t.token ≠ .finish
  written : ∀ t ∈ tokens, ∃ before span, LiesAt source.toList t before span
  disjoint : tokens.Pairwise fun t u => ∀ before span, LiesAt source.toList t before span →
    t.offset + byteLength span ≤ u.offset
  covered : ∀ before c after, source.toList = before ++ c :: after → isBlank c = true ∨
    ∃ t ∈ tokens, ∃ before' span, LiesAt source.toList t before' span ∧
      before'.length ≤ before.length ∧ before.length < before'.length + span.length

/-- All tokens but the end are written with some character. -/
theorem Written.ne_nil {token : Token} {span : List Char} (h : Written token span)
    (hInner : token ≠ .finish) : span ≠ [] := by
  cases h with
  | leftBrace => simp
  | rightBrace => simp
  | comma => simp
  | equals => simp
  | text neat =>
    intro hNil
    exact neat.nonempty (String.toList_eq_nil_iff.mp hNil)
  | quoted between => simp
  | finish => exact absurd rfl hInner

/-- A mark is written as it is, and is neither the end nor a quote. -/
theorem written_ofMark {c : Char} {token : Token} (h : ofMark c = some token) :
    Written token [c] ∧ token ≠ .finish ∧ c ≠ '\'' := by
  unfold ofMark at h
  split_ifs at h with hLeft hRight hComma hEquals
  · cases h
    rw [hLeft]
    exact ⟨.leftBrace, by simp, by decide⟩
  · cases h
    rw [hRight]
    exact ⟨.rightBrace, by simp, by decide⟩
  · cases h
    rw [hComma]
    exact ⟨.comma, by simp, by decide⟩
  · cases h
    rw [hEquals]
    exact ⟨.equals, by simp, by decide⟩

/-! ### Quotes that close and quotes that do not -/

/-- Every quote that opens a run is followed by one that closes it. -/
inductive Closed : List Char → Prop where
  | nil : Closed []
  | other {c : Char} {cs : List Char} (notQuote : c ≠ '\'') (rest : Closed cs) : Closed (c :: cs)
  | quoted {body content cs : List Char} (between : Unescapes body content) (rest : Closed cs) :
      Closed ('\'' :: (body ++ '\'' :: cs))

/-- No quote closes the run that starts in front of these characters. -/
def Unclosed (cs : List Char) : Prop :=
  ∀ body content rest, Unescapes body content → cs ≠ body ++ '\'' :: rest

/-- Read from the left, all quotes are closed up to one that opens a run and is not. -/
structure LeavesOpen (cs before : List Char) : Prop where
  closed : Closed before
  opens : ∃ body, cs = before ++ '\'' :: body ∧ Unclosed body

/-- Characters that are no quotes open nothing. -/
theorem Closed.append {cs cs' : List Char} (h : ∀ c ∈ cs, c ≠ '\'') (h' : Closed cs') :
    Closed (cs ++ cs') := by
  induction cs with
  | nil => exact h'
  | cons c cs ih =>
    have hRest := ih fun x hx => h x (List.mem_cons_of_mem c hx)
    exact .other (h c List.mem_cons_self) hRest

/-- What one character is written with is no closing quote. -/
theorem Escapes.ne_quote {front cs cs' : List Char} {c : Char} (h : Escapes front c) :
    front ++ cs ≠ '\'' :: cs' := by
  intro hSame
  cases h with
  | plain notQuote => exact notQuote (List.head_eq_of_cons_eq hSame)
  | escaped =>
    have hHead : '\\' = '\'' := List.head_eq_of_cons_eq hSame
    exact absurd hHead (by decide)

/-- In front of a text, one character is written in one way. -/
theorem Escapes.unique {front front' cs cs' : List Char} {c c' : Char} (h : Escapes front c)
    (h' : Escapes front' c') (hSame : front ++ cs = front' ++ cs') : front = front' ∧ cs = cs' := by
  cases h with
  | plain notQuote notBackslash =>
    cases h' with
    | plain => simpa using hSame
    | escaped => exact absurd (List.head_eq_of_cons_eq hSame) notBackslash
  | escaped =>
    cases h' with
    | plain _ notBackslash => exact absurd (List.head_eq_of_cons_eq hSame).symm notBackslash
    | escaped => simpa using hSame

/-- The first quote that is not escaped closes a run, so it closes at one place only. -/
theorem Unescapes.unique {body content body' content' rest rest' : List Char}
    (h : Unescapes body content) (h' : Unescapes body' content')
    (hSame : body ++ '\'' :: rest = body' ++ '\'' :: rest') : body = body' ∧ rest = rest' := by
  induction h generalizing body' content' with
  | nil =>
    cases h' with
    | nil => exact ⟨rfl, List.tail_eq_of_cons_eq hSame⟩
    | cons first =>
      rw [List.append_assoc] at hSame
      exact absurd hSame.symm first.ne_quote
  | cons first _ ih =>
    rw [List.append_assoc] at hSame
    cases h' with
    | nil => exact absurd hSame first.ne_quote
    | cons first' others =>
      rw [List.append_assoc] at hSame
      obtain ⟨rfl, hOthers⟩ := first.unique first' hSame
      obtain ⟨rfl, hRest⟩ := ih others hOthers
      exact ⟨rfl, hRest⟩

/-- By induction on what stands in front of the open quote: where all quotes are closed, the same
ones are closed in front of any other text. -/
theorem Closed.unclosed {before body : List Char} (hBefore : Closed before)
    (h : Closed (before ++ '\'' :: body)) : ¬ Unclosed body := by
  intro hBody
  induction hBefore with
  | nil =>
    cases h with
    | other notQuote => exact notQuote rfl
    | quoted between => exact hBody _ _ _ between rfl
  | @other c before notQuote _ ih =>
    generalize hWhole : c :: before ++ '\'' :: body = whole at h
    cases h with
    | nil => cases hWhole
    | other _ rest =>
      rw [← List.tail_eq_of_cons_eq hWhole] at rest
      exact ih rest
    | quoted => exact notQuote (List.head_eq_of_cons_eq hWhole)
  | @quoted inner _ before between _ ih =>
    generalize hWhole : '\'' :: (inner ++ '\'' :: before) ++ '\'' :: body = whole at h
    cases h with
    | nil => cases hWhole
    | other notQuote => exact notQuote (List.head_eq_of_cons_eq hWhole).symm
    | @quoted inner' _ cs between' rest =>
      have hTail : inner ++ '\'' :: (before ++ '\'' :: body) = inner' ++ '\'' :: cs := by
        simpa using hWhole
      obtain ⟨-, hRest⟩ := between.unique between' hTail
      rw [← hRest] at rest
      exact ih rest

/-- Where all quotes are closed, none is left open. -/
theorem Closed.not_leavesOpen {cs before : List Char} (h : Closed cs) : ¬ LeavesOpen cs before := by
  rintro ⟨hBefore, body, rfl, hBody⟩
  exact hBefore.unclosed h hBody

/-- Only one quote is left open. -/
theorem Closed.unique {before before' body body' : List Char} (h : Closed before)
    (h' : Closed before') (hBody : Unclosed body) (hBody' : Unclosed body')
    (hSame : before ++ '\'' :: body = before' ++ '\'' :: body') : before = before' := by
  induction h generalizing before' with
  | nil =>
    cases h' with
    | nil => rfl
    | other notQuote => exact absurd (List.head_eq_of_cons_eq hSame).symm notQuote
    | @quoted inner _ cs between =>
      have hInner : body = inner ++ '\'' :: (cs ++ '\'' :: body') := by
        simpa using hSame
      exact absurd hInner (hBody _ _ _ between)
  | other notQuote _ ih =>
    cases h' with
    | nil => exact absurd (List.head_eq_of_cons_eq hSame) notQuote
    | other _ rest =>
      have hRest := ih rest (List.tail_eq_of_cons_eq hSame)
      rw [List.head_eq_of_cons_eq hSame, hRest]
    | quoted => exact absurd (List.head_eq_of_cons_eq hSame) notQuote
  | @quoted inner _ cs between _ ih =>
    cases h' with
    | nil =>
      have hInner : body' = inner ++ '\'' :: (cs ++ '\'' :: body) := by
        simpa using hSame.symm
      exact absurd hInner (hBody' _ _ _ between)
    | other notQuote => exact absurd (List.head_eq_of_cons_eq hSame).symm notQuote
    | @quoted inner' _ cs' between' rest =>
      have hBoth :
          inner ++ '\'' :: (cs ++ '\'' :: body) = inner' ++ '\'' :: (cs' ++ '\'' :: body') := by
        simpa using hSame
      obtain ⟨rfl, hRest⟩ := between.unique between' hBoth
      rw [ih rest hRest]

/-- At most one quote is left open. -/
theorem LeavesOpen.unique {cs before before' : List Char} (h : LeavesOpen cs before)
    (h' : LeavesOpen cs before') : before = before' := by
  obtain ⟨hBefore, body, rfl, hBody⟩ := h
  obtain ⟨hBefore', body', hSame, hBody'⟩ := h'
  exact hBefore.unique hBefore' hBody hBody' hSame

/-! ### Tokens one after the other -/

/-- Characters from byte `offset` on, as blanks and what tokens are written with. -/
inductive Covers : Nat → List Char → List PlacedToken → Prop where
  | finish {offset : Nat} {blanks : List Char} (blank : Blank blanks) :
      Covers offset blanks [⟨.finish, offset + byteLength blanks⟩]
  | token {offset : Nat} {blanks span rest : List Char} {token : Token}
      {tokens : List PlacedToken} (blank : Blank blanks) (written : Written token span)
      (inner : token ≠ .finish)
      (others : Covers (offset + byteLength blanks + byteLength span) rest tokens) :
      Covers offset (blanks ++ (span ++ rest)) (⟨token, offset + byteLength blanks⟩ :: tokens)

/-- Blanks in front of the first token. -/
theorem Covers.append {offset : Nat} {blanks cs : List Char} {tokens : List PlacedToken}
    (hBlanks : Blank blanks) (h : Covers (offset + byteLength blanks) cs tokens) :
    Covers offset (blanks ++ cs) tokens := by
  have hBoth {more : List Char} (hMore : Blank more) : Blank (blanks ++ more) := by
    intro c hc
    exact (List.mem_append.mp hc).elim (hBlanks c) (hMore c)
  cases h with
  | @finish _ more blank =>
    rw [Nat.add_assoc, ← byteLength_append]
    exact .finish (hBoth blank)
  | @token _ more span rest _ _ blank written inner others =>
    rw [Nat.add_assoc offset, ← byteLength_append] at others ⊢
    rw [← List.append_assoc]
    exact .token (hBoth blank) written inner others

/-- Tokens stand behind the byte where their characters start. -/
theorem Covers.offset_le {offset : Nat} {cs : List Char} {tokens : List PlacedToken}
    (h : Covers offset cs tokens) : ∀ t ∈ tokens, offset ≤ t.offset := by
  induction h with
  | finish =>
    intro t ht
    rw [List.mem_singleton] at ht
    rw [ht]
    exact Nat.le_add_right _ _
  | token _ _ _ _ ih =>
    intro t ht
    rcases List.mem_cons.mp ht with rfl | ht
    · exact Nat.le_add_right _ _
    · have := ih t ht
      omega

/-- Tokens that cover characters stand one behind the other. -/
theorem Covers.increasing {offset : Nat} {cs : List Char} {tokens : List PlacedToken}
    (h : Covers offset cs tokens) : tokens.Pairwise fun t u => t.offset < u.offset := by
  induction h with
  | finish => exact List.pairwise_singleton _ _
  | token _ written inner others ih =>
    refine List.pairwise_cons.mpr ⟨?_, ih⟩
    intro u hu
    have hLater := others.offset_le u hu
    have hSome := byteLength_pos (written.ne_nil inner)
    dsimp only
    omega

/-- Tokens that cover characters end with the end, and nowhere before. -/
theorem Covers.ends {offset : Nat} {cs : List Char} {tokens : List PlacedToken}
    (h : Covers offset cs tokens) :
    ∃ inner, tokens = inner ++ [⟨.finish, offset + byteLength cs⟩] ∧
      ∀ t ∈ inner, t.token ≠ .finish := by
  induction h with
  | finish =>
    refine ⟨[], rfl, ?_⟩
    intro t ht
    cases ht
  | @token offset blanks span rest token tokens _ _ hInner _ ih =>
    obtain ⟨inner, rfl, hOthers⟩ := ih
    refine ⟨⟨token, offset + byteLength blanks⟩ :: inner, ?_, ?_⟩
    · simp only [byteLength_append, List.cons_append, Nat.add_assoc]
    · intro t ht
      rcases List.mem_cons.mp ht with rfl | ht
      · exact hInner
      · exact hOthers t ht

/-- Where a token starts, it is written with one run of characters only. -/
theorem Written.unique {token : Token} {span span' cs cs' : List Char} (h : Written token span)
    (h' : Written token span') (hSame : span ++ cs = span' ++ cs') : span = span' := by
  cases h with
  | quoted between =>
    cases h' with
    | quoted between' =>
      simp only [List.cons_append, List.append_assoc, List.nil_append, List.cons.injEq,
        true_and] at hSame
      rw [(between.unique between' hSame).1]
  | _ =>
    cases h'
    rfl

/-- In a source, a token is written with one run of characters only. -/
theorem LiesAt.unique {source : List Char} {t : PlacedToken} {before before' span span' : List Char}
    (h : LiesAt source t before span) (h' : LiesAt source t before' span') : span = span' := by
  obtain ⟨hWritten, hOffset, after, rfl⟩ := h
  obtain ⟨hWritten', hOffset', after', hSame⟩ := h'
  have hBefore : before = before' := by
    have hLeading := Place.leading_byteLength before (span ++ after)
    rw [hSame, hOffset, ← hOffset', Place.leading_byteLength] at hLeading
    exact hLeading.symm
  rw [hBefore] at hSame
  exact hWritten.unique hWritten' (List.append_cancel_left hSame)

/-- The first token behind some blanks. -/
theorem LiesAt.first {offset : Nat} {front blanks span rest : List Char} {token : Token}
    (hWritten : Written token span) (hFront : byteLength front = offset) :
    LiesAt (front ++ (blanks ++ (span ++ rest))) ⟨token, offset + byteLength blanks⟩
      (front ++ blanks) span := by
  refine ⟨hWritten, ?_, rest, ?_⟩
  · rw [byteLength_append, hFront]
  · rw [List.append_assoc]

/-- A token that covers what follows `front` is over where a later one stands. -/
theorem Covers.disjoint {offset : Nat} {cs : List Char} {tokens : List PlacedToken}
    (h : Covers offset cs tokens) : ∀ front, byteLength front = offset →
      tokens.Pairwise fun t u => ∀ before span, LiesAt (front ++ cs) t before span →
        t.offset + byteLength span ≤ u.offset := by
  induction h with
  | finish => exact fun front _ => List.pairwise_singleton _ _
  | @token offset blanks span rest token tokens _ written _ others ih =>
    intro front hFront
    have hOthers := ih (front ++ blanks ++ span) (by
      rw [byteLength_append, byteLength_append, hFront])
    simp only [List.append_assoc] at hOthers
    refine List.pairwise_cons.mpr ⟨fun u hu before span' hLies => ?_, hOthers⟩
    rw [hLies.unique (.first written hFront)]
    exact others.offset_le u hu

/-- The tokens that cover what follows `front` are written in the whole, and its characters are
covered. -/
theorem Covers.tiles {offset : Nat} {cs : List Char} {tokens : List PlacedToken}
    (h : Covers offset cs tokens) :
    ∀ front, byteLength front = offset →
      (∀ t ∈ tokens, ∃ before span, LiesAt (front ++ cs) t before span) ∧
      ∀ before c after, cs = before ++ c :: after → isBlank c = true ∨
        ∃ t ∈ tokens, ∃ before' span, LiesAt (front ++ cs) t before' span ∧
          before'.length ≤ (front ++ before).length ∧
          (front ++ before).length < before'.length + span.length := by
  induction h with
  | @finish offset blanks blank =>
    intro front hFront
    constructor
    · intro t ht
      rw [List.mem_singleton] at ht
      subst ht
      refine ⟨front ++ blanks, [], .finish, ?_, [], ?_⟩
      · rw [byteLength_append, hFront]
      · simp
    · rintro before c after rfl
      exact .inl (blank c (by simp))
  | @token offset blanks span rest token tokens blank written inner others ih =>
    intro front hFront
    have hHere : LiesAt (front ++ (blanks ++ (span ++ rest)))
        ⟨token, offset + byteLength blanks⟩ (front ++ blanks) span :=
      .first written hFront
    have hShape : front ++ blanks ++ span ++ rest = front ++ (blanks ++ (span ++ rest)) := by
      simp only [List.append_assoc]
    obtain ⟨hWritten, hCovered⟩ := ih (front ++ blanks ++ span) (by
      rw [byteLength_append, byteLength_append, hFront])
    rw [hShape] at hWritten hCovered
    constructor
    · intro t ht
      rcases List.mem_cons.mp ht with rfl | ht
      · exact ⟨_, _, hHere⟩
      · exact hWritten t ht
    · intro before c after hSplit
      -- the character is among the blanks, in the first token, or behind it
      rcases List.append_eq_append_iff.mp hSplit with ⟨more, rfl, hRest⟩ | ⟨more, hBlanks, hRest⟩
      · rcases List.append_eq_append_iff.mp hRest with ⟨later, rfl, hLater⟩ | ⟨later, hSpan, hLater⟩
        · rcases hCovered later c after hLater with hBlank | ⟨t, ht, before', span', hLies, hBounds⟩
          · exact .inl hBlank
          · refine .inr ⟨t, List.mem_cons_of_mem _ ht, before', span', hLies, ?_⟩
            simpa only [List.append_assoc] using hBounds
        · cases later with
          | nil =>
            have hNext : rest = [] ++ c :: after := hLater.symm
            rcases hCovered [] c after hNext with hBlank | ⟨t, ht, before', span', hLies, hBounds⟩
            · exact .inl hBlank
            · refine .inr ⟨t, List.mem_cons_of_mem _ ht, before', span', hLies, ?_⟩
              have hSame : span = more := by simpa using hSpan
              rw [hSame] at hBounds
              simpa only [List.append_assoc, List.append_nil] using hBounds
          | cons c' later =>
            refine .inr ⟨_, List.mem_cons_self, _, _, hHere, ?_, ?_⟩
            · simp only [List.length_append]
              omega
            · rw [hSpan]
              simp only [List.length_append, List.length_cons]
              omega
      · cases more with
        | nil =>
          obtain ⟨c', span', hSpan⟩ := List.exists_cons_of_ne_nil (written.ne_nil inner)
          have hSame : blanks = before := by simpa using hBlanks
          refine .inr ⟨_, List.mem_cons_self, _, _, hHere, ?_, ?_⟩
          · rw [hSame]
          · rw [hSame, hSpan]
            simp only [List.length_append, List.length_cons]
            omega
        | cons c' more =>
          have hHead : c = c' := List.head_eq_of_cons_eq hRest
          refine .inl (blank c ?_)
          rw [hBlanks, hHead]
          simp

/-- A token opens no quote that it does not close. -/
theorem Written.closed {token : Token} {span : List Char} (h : Written token span)
    {cs : List Char} (hRest : Closed cs) : Closed (span ++ cs) := by
  cases h with
  | leftBrace => exact .other (by decide) hRest
  | rightBrace => exact .other (by decide) hRest
  | comma => exact .other (by decide) hRest
  | equals => exact .other (by decide) hRest
  | text neat =>
    apply Closed.append _ hRest
    intro c hc hQuote
    exact neat.plain c hc (by rw [hQuote]; decide)
  | quoted between =>
    simp only [List.cons_append, List.append_assoc, List.nil_append]
    exact .quoted between hRest
  | finish => exact hRest

/-- Blanks are no quotes. -/
theorem Blank.ne_quote {cs : List Char} (h : Blank cs) : ∀ c ∈ cs, c ≠ '\'' := by
  rintro c hc rfl
  have hBlank := h '\'' hc
  revert hBlank
  decide

/-- Tokens cover only characters in which all quotes are closed. -/
theorem Covers.closed {offset : Nat} {cs : List Char} {tokens : List PlacedToken}
    (h : Covers offset cs tokens) : Closed cs := by
  induction h with
  | @finish _ blanks blank =>
    have hBlanks := Closed.append blank.ne_quote .nil
    rwa [List.append_nil] at hBlanks
  | token blank written _ _ ih => exact Closed.append blank.ne_quote (written.closed ih)

end Token

end Expression

end ObjectMarkup
