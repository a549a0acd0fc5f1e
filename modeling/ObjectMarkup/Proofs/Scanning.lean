import Mathlib.Data.List.DropRight
import ObjectMarkup.Expression.Token

/-!
# The tokens of a source

A scan of an expression ends with the token of the end, and no other token is that one. Between
runs the scanner skips blanks, so a run of text starts with a character that is none; it ends before
one of the five marks and loses the blanks at its end. Every unquoted text among the tokens is
therefore neat: not empty, without blanks around it and without marks (`Token.inner_of_scan`).
-/

set_option autoImplicit false

namespace ObjectMarkup

/-- Nothing in front changes nothing. -/
theorem Scan.prepend_nil {ω ε : Type} (s : Scan ω ε) : s.prepend [] = s := rfl

/-- What is put in front twice is put in front at once. -/
theorem Scan.prepend_prepend {ω ε : Type} (items items' : List ω) (s : Scan ω ε) :
    (s.prepend items').prepend items = s.prepend (items ++ items') := by
  simp [Scan.prepend]

/-- A complete scan with more in front is complete without it. -/
theorem Scan.complete_prepend_eq_ok {ω ε : Type} {items all : List ω} {s : Scan ω ε}
    (h : (s.prepend items).complete = .ok all) :
    ∃ later, s.complete = .ok later ∧ all = items ++ later := by
  obtain ⟨later, fault⟩ := s
  cases fault with
  | none =>
    cases h
    exact ⟨later, rfl, rfl⟩
  | some fault => cases h

/-! ### Blanks around a text -/

/-- Nothing is taken from the front. -/
theorem trimRight_isPrefix (cs : List Char) : trimRight cs <+: cs :=
  List.rdropWhile_prefix isBlank cs

/-- No blank at the start. -/
def StartsSolid (cs : List Char) : Prop :=
  ∀ c ∈ cs.head?, isBlank c = false

/-- Whether characters start with a blank can be decided. -/
instance (cs : List Char) : Decidable (StartsSolid cs) :=
  decidable_of_iff (cs.head?.all fun c => !isBlank c) (by simp [StartsSolid, Option.all_eq_true])

/-- No blank at the end. -/
def EndsSolid (cs : List Char) : Prop :=
  ∀ c ∈ cs.getLast?, isBlank c = false

/-- Trimmed from the left, characters start with no blank. -/
theorem startsSolid_trimLeft (cs : List Char) : StartsSolid (trimLeft cs) := by
  intro c hc
  have h := List.head?_dropWhile_not isBlank cs
  rw [trimLeft] at hc
  rw [Option.mem_def.mp hc] at h
  exact h

/-- What starts with no blank is not trimmed from the left. -/
theorem trimLeft_eq_self {cs : List Char} (h : StartsSolid cs) : trimLeft cs = cs := by
  cases cs with
  | nil => rfl
  | cons c rest =>
    have hc : isBlank c = false := h c rfl
    simp [trimLeft, hc]

/-- Trimmed from the right, characters end with no blank. -/
theorem endsSolid_trimRight (cs : List Char) : EndsSolid (trimRight cs) := by
  intro c hc
  have h := startsSolid_trimLeft cs.reverse
  apply h
  rw [trimRight, List.getLast?_reverse] at hc
  exact hc

/-- What ends with no blank is not trimmed from the right. -/
theorem trimRight_eq_self {cs : List Char} (h : EndsSolid cs) : trimRight cs = cs := by
  have hReverse : StartsSolid cs.reverse := by
    intro c hc
    rw [List.head?_reverse] at hc
    exact h c hc
  have hTrim := trimLeft_eq_self hReverse
  rw [trimLeft] at hTrim
  rw [trimRight, hTrim, List.reverse_reverse]

/-- Characters are not trimmed if there is no blank on both sides. -/
theorem trim_eq_self_iff {cs : List Char} : trim cs = cs ↔ StartsSolid cs ∧ EndsSolid cs := by
  constructor
  · intro h
    have hLeft : trimLeft cs <:+ cs := List.dropWhile_suffix isBlank
    have hRight : trim cs <+: trimLeft cs := trimRight_isPrefix (trimLeft cs)
    have hLength := hRight.length_le
    rw [h] at hLength
    have hSame : trimLeft cs = cs := hLeft.eq_of_length_le hLength
    constructor
    · rw [← hSame]
      exact startsSolid_trimLeft cs
    · rw [← h]
      exact endsSolid_trimRight (trimLeft cs)
  · intro h
    rw [trim, trimLeft_eq_self h.1, trimRight_eq_self h.2]

/-- A character that is no blank keeps what stands before it from being trimmed. -/
theorem trimRight_cons {c : Char} (hc : isBlank c = false) (cs : List Char) :
    trimRight (c :: cs) = c :: trimRight cs := by
  have h : ∀ xs : List Char, (xs ++ [c]).dropWhile isBlank = xs.dropWhile isBlank ++ [c] := by
    intro xs
    induction xs with
    | nil => simp [hc]
    | cons x xs ih =>
      by_cases hx : isBlank x
      · simp [hx, ih]
      · simp [hx]
  simp [trimRight, h]

/-- A space at the end is trimmed. -/
theorem trimRight_append_space {cs : List Char} (h : EndsSolid cs) :
    trimRight (cs ++ [' ']) = cs := by
  have hBlank : isBlank ' ' = true := by decide
  have hTrim := trimRight_eq_self h
  rw [trimRight] at hTrim
  simp [trimRight, hBlank, hTrim]

namespace Expression

/-! ### Neat texts -/

/-- The characters that end a run of text. -/
def marks : List Char := ['\x7b', '\x7d', ',', '=', '\'']

/-- Free of the characters that end a run of text. -/
def Plain (cs : List Char) : Prop :=
  ∀ c ∈ cs, c ∉ marks

/-- A text that an unquoted token can have: not empty, without blanks around it, without marks. -/
structure Neat (text : String) : Prop where
  nonempty : text ≠ ""
  trimmed : trimText text = text
  plain : Plain text.toList

/-- The characters of a run of text, with the blanks at its end. -/
structure IsRun (cs : List Char) : Prop where
  nonempty : cs ≠ []
  starts : StartsSolid cs
  plain : Plain cs

/-- A neat text starts with no blank. -/
theorem Neat.startsSolid {text : String} (h : Neat text) : StartsSolid text.toList := by
  have hTrim := congrArg String.toList h.trimmed
  simp only [trimText, String.toList_ofList] at hTrim
  exact (trim_eq_self_iff.mp hTrim).1

/-- A neat text ends with no blank. -/
theorem Neat.endsSolid {text : String} (h : Neat text) : EndsSolid text.toList := by
  have hTrim := congrArg String.toList h.trimmed
  simp only [trimText, String.toList_ofList] at hTrim
  exact (trim_eq_self_iff.mp hTrim).2

/-- A run that ends with no blank is neat. -/
theorem neat_ofList {cs : List Char} (hRun : IsRun cs) (hEnds : EndsSolid cs) :
    Neat (String.ofList cs) where
  nonempty := by
    intro h
    have hList := congrArg String.toList h
    simp only [String.toList_ofList] at hList
    exact hRun.nonempty hList
  trimmed := by
    have hTrim := trim_eq_self_iff.mpr ⟨hRun.starts, hEnds⟩
    rw [trimText, String.toList_ofList, hTrim]
  plain := by
    rw [String.toList_ofList]
    exact hRun.plain

/-- A run that is trimmed from the right is neat. -/
theorem IsRun.neat_trimRight {cs : List Char} (h : IsRun cs) :
    Neat (String.ofList (trimRight cs)) := by
  apply neat_ofList _ (endsSolid_trimRight cs)
  obtain ⟨c, rest, rfl⟩ := List.exists_cons_of_ne_nil h.nonempty
  have hSolid : isBlank c = false := h.starts c rfl
  have hCons := trimRight_cons hSolid rest
  refine ⟨by simp [hCons], ?_, ?_⟩
  · intro x hx
    rw [hCons] at hx
    exact h.starts x hx
  · intro x hx
    exact h.plain x ((trimRight_isPrefix (c :: rest)).subset hx)

namespace Token

/-- What ends a run is a mark with a token, or a quote. -/
theorem mem_marks_iff {c : Char} : c ∈ marks ↔ (ofMark c).isSome ∨ c = '\'' := by
  simp only [marks, ofMark, List.mem_cons, List.not_mem_nil, or_false]
  split_ifs <;> simp_all

/-- What ends no run is neither a mark with a token nor a quote. -/
theorem ofMark_of_not_mem {c : Char} (h : c ∉ marks) : ofMark c = none ∧ c ≠ '\'' := by
  rw [mem_marks_iff, not_or, Option.not_isSome_iff_eq_none] at h
  exact h

/-- The token of a run is its text, trimmed from the right. -/
theorem ofRun_eq (start : Nat) (taken : List Char) :
    ofRun start taken = ⟨.text (String.ofList (trimRight taken.reverse)), start⟩ := by
  simp [ofRun, trimRight]

/-- A token before the end: a mark, a quoted run, or a run of text, which is neat. -/
def IsInner : Token → Prop
  | .text content => Neat content
  | .finish => False
  | _ => True

/-- Marks are tokens inside of a source. -/
theorem isInner_ofMark {c : Char} {token : Token} (h : ofMark c = some token) :
    token.IsInner := by
  unfold ofMark at h
  split_ifs at h <;> cases h <;> trivial

/-- What a mode keeps of a run of text can become a token. -/
def Mode.Proper : Mode → Prop
  | .text _ taken => IsRun taken.reverse
  | _ => True

/-- All tokens before the end are inner ones. -/
def AllInner (tokens : List PlacedToken) : Prop :=
  ∀ t ∈ tokens, t.token.IsInner

/-- Tokens inside of a source may follow each other. -/
theorem AllInner.append {before after : List PlacedToken} (h : AllInner before)
    (h' : AllInner after) : AllInner (before ++ after) := by
  intro t ht
  rw [List.mem_append] at ht
  exact ht.elim (h t) (h' t)

/-- The token of a run stands inside of a source. -/
theorem allInner_ofRun {taken : List Char} (h : IsRun taken.reverse) (start : Nat) :
    AllInner [ofRun start taken] := by
  intro t ht
  rw [List.mem_singleton] at ht
  subst ht
  rw [ofRun_eq]
  exact h.neat_trimRight

/-- A step between runs gives tokens inside of a source, and leads into a proper mode. -/
theorem stepBetween_inner {before : List PlacedToken} (h : AllInner before) (offset : Nat)
    (c : Char) :
    AllInner (stepBetween before offset c).1 ∧ (stepBetween before offset c).2.Proper := by
  unfold stepBetween
  split
  · next token hMark =>
    refine ⟨h.append ?_, trivial⟩
    intro t ht
    rw [List.mem_singleton] at ht
    subst ht
    exact isInner_ofMark hMark
  · next hMark =>
    split_ifs with hQuote hBlank
    · exact ⟨h, trivial⟩
    · exact ⟨h, trivial⟩
    · refine ⟨h, by simp, ?_, ?_⟩
      · intro x hx
        cases hx
        simpa using hBlank
      · intro x hx
        simp only [List.reverse_cons, List.reverse_nil, List.nil_append,
          List.mem_singleton] at hx
        subst hx
        rw [mem_marks_iff]
        simp [hMark, hQuote]

/-- A step gives inner tokens only and keeps the run of its mode proper. -/
theorem step_inner {mode : Mode} (h : mode.Proper) (offset : Nat) (c : Char) :
    AllInner (step mode offset c).1 ∧ (step mode offset c).2.Proper := by
  have hNone : AllInner [] := by
    intro t ht
    cases ht
  cases mode with
  | between => exact stepBetween_inner hNone offset c
  | text start taken =>
    simp only [step]
    split_ifs with hEnd
    · exact stepBetween_inner (allInner_ofRun h start) offset c
    · refine ⟨hNone, by simp, ?_, ?_⟩
      · intro x hx
        have hFirst : (taken.reverse ++ [c]).head? = taken.reverse.head? :=
          List.head?_append_of_ne_nil _ h.nonempty
        rw [List.reverse_cons, hFirst] at hx
        exact h.starts x hx
      · intro x hx
        rw [List.reverse_cons, List.mem_append, List.mem_singleton] at hx
        rcases hx with hx | rfl
        · exact h.plain x hx
        · rw [mem_marks_iff]
          simpa using hEnd
  | quoted start taken =>
    simp only [step]
    split_ifs
    · refine ⟨?_, trivial⟩
      intro t ht
      rw [List.mem_singleton] at ht
      subst ht
      trivial
    · exact ⟨hNone, trivial⟩
    · exact ⟨hNone, trivial⟩
  | escaped start taken => exact ⟨hNone, trivial⟩

/-- A scan of one more character is a step and the scan of the others. -/
theorem run_cons (mode : Mode) (offset : Nat) (c : Char) (rest : List Char) :
    scanner.run mode offset (c :: rest) =
      (scanner.run (step mode offset c).2 (offset + c.utf8Size) rest).prepend
        (step mode offset c).1 := rfl

/-- A step that gives no tokens. -/
theorem run_silent {mode next : Mode} {offset : Nat} {c : Char}
    (h : step mode offset c = ([], next)) (rest : List Char) :
    scanner.run mode offset (c :: rest) = scanner.run next (offset + c.utf8Size) rest := by
  rw [run_cons, h, Scan.prepend_nil]

/-- A run of text ends before a mark, which is then read as if nothing stood before it. -/
theorem run_text_mark {c : Char} (hc : c ∈ marks) (start : Nat) (taken : List Char) (offset : Nat)
    (rest : List Char) :
    scanner.run (.text start taken) offset (c :: rest) =
      (scanner.run .between offset (c :: rest)).prepend [ofRun start taken] := by
  have hEnd : ((ofMark c).isSome || decide (c = '\'')) = true := by
    simpa using mem_marks_iff.mp hc
  have hStep : step (.text start taken) offset c =
      (ofRun start taken :: (step .between offset c).1, (step .between offset c).2) := by
    simp only [step, hEnd, ↓reduceIte, stepBetween]
    split
    · rfl
    · split_ifs <;> rfl
  rw [run_cons, hStep, run_cons, Scan.prepend_prepend]
  rfl

/-- By induction on the characters: every step adds inner tokens, and the end adds its own. -/
theorem inner_of_run {cs : List Char} :
    ∀ {mode : Mode} {offset : Nat} {tokens : List PlacedToken}, mode.Proper →
      (scanner.run mode offset cs).complete = .ok tokens →
        ∃ front last, tokens = front ++ [⟨.finish, last⟩] ∧ AllInner front := by
  induction cs with
  | nil =>
    intro mode offset tokens hMode hRun
    cases mode with
    | between =>
      cases hRun
      exact ⟨[], offset, rfl, by simp [AllInner]⟩
    | text start taken =>
      cases hRun
      exact ⟨[ofRun start taken], offset, rfl, allInner_ofRun hMode start⟩
    | quoted start taken => cases hRun
    | escaped start taken => cases hRun
  | cons c rest ih =>
    intro mode offset tokens hMode hRun
    obtain ⟨hTokens, hNext⟩ := step_inner hMode offset c
    rw [run_cons] at hRun
    obtain ⟨later, hLater, rfl⟩ := Scan.complete_prepend_eq_ok hRun
    obtain ⟨front, last, rfl, hFront⟩ := ih hNext hLater
    refine ⟨(step mode offset c).1 ++ front, last, ?_, hTokens.append hFront⟩
    rw [List.append_assoc]

/-- The tokens of a source are inner tokens and the end. -/
theorem inner_of_scan {source : String} {tokens : List PlacedToken}
    (h : scan source = .ok tokens) :
    ∃ front last, tokens = front ++ [⟨.finish, last⟩] ∧ AllInner front := by
  have hStart : Mode.between.Proper := trivial
  exact inner_of_run hStart h

end Token

end Expression

end ObjectMarkup
