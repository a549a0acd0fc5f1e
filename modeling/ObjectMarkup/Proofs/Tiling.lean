import ObjectMarkup.Proofs.TokenTiles

/-!
# Tokens tile their source

The tokens of a source tile it. There is one kind of source without tokens: one in which a quote opens a
run that no quote closes, and the fault is reported where that quote stands (`scan_tiles`).

The scanner is followed from one place between runs to the next. A quoted run and a run of text are
each passed by one lemma (`endsQuoted`, `run_text_plain`), so the induction is on the number of
characters left and not on the modes of the scanner.
-/

set_option autoImplicit false

namespace ObjectMarkup

namespace Expression

namespace Token

/-! ### The scanner -/

/-- What becomes of a quoted run: a quote closes it, or none does and the scan fails with the byte
where the run starts. -/
def EndsQuoted (start : Nat) (taken : List Char) (offset : Nat) (cs : List Char) : Prop :=
  (∃ body content rest, cs = body ++ '\'' :: rest ∧ Unescapes body content ∧
    scanner.run (.quoted start taken) offset cs =
      (scanner.run .between (offset + byteLength (body ++ ['\''])) rest).prepend
        [⟨.quoted (String.ofList (taken.reverse ++ content)), start⟩]) ∨
  Unclosed cs ∧ ∃ cause, scanner.run (.quoted start taken) offset cs = ⟨[], some ⟨cause, start⟩⟩

/-- Between quotes, the scanner takes what one character is written with. -/
theorem run_escapes {front : List Char} {c : Char} (h : Escapes front c) (start : Nat)
    (taken : List Char) (offset : Nat) (cs : List Char) :
    scanner.run (.quoted start taken) offset (front ++ cs) =
      scanner.run (.quoted start (c :: taken)) (offset + byteLength front) cs := by
  cases h with
  | plain notQuote notBackslash =>
    rw [List.singleton_append, run_cons]
    simp [step, notQuote, notBackslash, byteLength, Scan.prepend_nil]
  | escaped =>
    rw [List.cons_append, List.singleton_append, run_cons, run_cons]
    simp [step, byteLength, Scan.prepend_nil, Nat.add_assoc]

/-- One more character between quotes changes nothing of how the run ends. -/
theorem EndsQuoted.cons {start offset : Nat} {taken front cs : List Char} {c : Char}
    (hFirst : Escapes front c) (h : EndsQuoted start (c :: taken) (offset + byteLength front) cs) :
    EndsQuoted start taken offset (front ++ cs) := by
  have hRun := run_escapes hFirst start taken offset cs
  rcases h with ⟨body, content, rest, rfl, hBody, hRest⟩ | ⟨hUnclosed, cause, hRest⟩
  · refine .inl ⟨front ++ body, c :: content, rest, by simp, .cons hFirst hBody, ?_⟩
    rw [hRun, hRest, List.append_assoc, byteLength_append front, Nat.add_assoc]
    simp
  · refine .inr ⟨?_, cause, by rw [hRun, hRest]⟩
    intro body content rest hBody hSplit
    cases hBody with
    | nil => exact hFirst.ne_quote hSplit
    | cons first others =>
      rw [List.append_assoc] at hSplit
      obtain ⟨-, hRest⟩ := hFirst.unique first hSplit
      exact hUnclosed _ _ _ others hRest

/-- By recursion on the characters, a backslash and the one behind it together. -/
theorem endsQuoted (start : Nat) :
    ∀ (cs taken : List Char) (offset : Nat), EndsQuoted start taken offset cs
  | [], taken, offset => by
    refine .inr ⟨?_, .unterminatedQuote, rfl⟩
    intro body content rest _ hSplit
    simp at hSplit
  | c :: cs, taken, offset => by
    by_cases hQuote : c = '\''
    · rw [hQuote]
      exact .inl ⟨[], [], cs, rfl, .nil, by rw [List.append_nil]; rfl⟩
    by_cases hBackslash : c = '\\'
    · rw [hBackslash]
      cases cs with
      | nil =>
        refine .inr ⟨?_, .unterminatedEscape, rfl⟩
        intro body content rest hBody hSplit
        cases hBody with
        | nil => cases hSplit
        | cons first =>
          cases first with
          | plain _ notBackslash => exact notBackslash (List.head_eq_of_cons_eq hSplit).symm
          | escaped => cases List.tail_eq_of_cons_eq hSplit
      | cons d cs => exact EndsQuoted.cons (.escaped d) (endsQuoted start cs _ _)
    · exact EndsQuoted.cons (.plain hQuote hBackslash) (endsQuoted start cs _ _)

/-- A run of text goes on to the next mark, or to the end if there is none. -/
theorem run_text_plain (start : Nat) (cs : List Char) :
    ∀ taken offset, ∃ plain rest, cs = plain ++ rest ∧ Plain plain ∧
      (scanner.run (.text start taken) offset cs).complete =
        ((scanner.run .between (offset + byteLength plain) rest).prepend
          [ofRun start (plain.reverse ++ taken)]).complete := by
  induction cs with
  | nil =>
    intro taken offset
    exact ⟨[], [], rfl, by simp [Plain], rfl⟩
  | cons c cs ih =>
    intro taken offset
    by_cases hc : c ∈ marks
    · refine ⟨[], c :: cs, rfl, by simp [Plain], ?_⟩
      rw [run_text_mark hc]
      rfl
    · obtain ⟨plain, rest, rfl, hPlain, hRun⟩ := ih (c :: taken) (offset + c.utf8Size)
      have hMark := ofMark_of_not_mem hc
      have hStep : step (.text start taken) offset c = ([], .text start (c :: taken)) := by
        simp [step, hMark.1, hMark.2]
      refine ⟨c :: plain, rest, rfl, List.forall_mem_cons.mpr ⟨hc, hPlain⟩, ?_⟩
      rw [run_silent hStep, hRun, byteLength, Nat.add_assoc]
      simp

/-- What becomes of characters that start between runs: tokens that cover them, or a fault at a
quote that is left open. -/
def EndsBetween (offset : Nat) (cs : List Char) : Prop :=
  (∃ tokens, (scanner.run .between offset cs).complete = .ok tokens ∧ Covers offset cs tokens) ∨
  ∃ cause before, (scanner.run .between offset cs).complete =
    .error ⟨cause, offset + byteLength before⟩ ∧ LeavesOpen cs before

/-- Characters in front, that the scanner takes as tokens which cover them. -/
theorem EndsBetween.append {offset : Nat} {cs : List Char} (front : List Char)
    (items : List PlacedToken)
    (hRun : (scanner.run .between offset (front ++ cs)).complete =
      ((scanner.run .between (offset + byteLength front) cs).prepend items).complete)
    (hCovers : ∀ {tokens}, Covers (offset + byteLength front) cs tokens →
      Covers offset (front ++ cs) (items ++ tokens))
    (hClosed : ∀ {before}, Closed before → Closed (front ++ before))
    (h : EndsBetween (offset + byteLength front) cs) : EndsBetween offset (front ++ cs) := by
  rw [Scan.complete_prepend] at hRun
  rcases h with ⟨tokens, hTokens, hRest⟩ | ⟨cause, before, hFault, hBefore, body, rfl, hBody⟩
  · refine .inl ⟨items ++ tokens, ?_, hCovers hRest⟩
    rw [hRun, hTokens]
    rfl
  · refine .inr ⟨cause, front ++ before, ?_, hClosed hBefore, body, by simp, hBody⟩
    rw [hRun, hFault, byteLength_append, Nat.add_assoc]
    rfl

/-- A token without blanks in front of it. -/
theorem Covers.single {offset : Nat} {token : Token} {span rest : List Char}
    {tokens : List PlacedToken} (written : Written token span) (inner : token ≠ .finish)
    (others : Covers (offset + byteLength span) rest tokens) :
    Covers offset (span ++ rest) (⟨token, offset⟩ :: tokens) := by
  have hNone : Blank [] := by
    intro c hc
    cases hc
  exact .token hNone written inner others

/-- Between runs, a blank is passed. -/
theorem EndsBetween.blank {offset : Nat} {c : Char} {cs : List Char} (hMark : ofMark c = none)
    (hQuote : c ≠ '\'') (hBlank : isBlank c = true) (h : EndsBetween (offset + c.utf8Size) cs) :
    EndsBetween offset (c :: cs) := by
  refine EndsBetween.append [c] [] ?_ ?_ (.other hQuote) h
  · rw [List.singleton_append, run_cons]
    simp [step, stepBetween, hMark, hQuote, hBlank, byteLength]
  · intro tokens hRest
    exact hRest.append (List.forall_mem_singleton.mpr hBlank)

/-- Between runs, a mark is one token. -/
theorem EndsBetween.mark {offset : Nat} {c : Char} {token : Token} {cs : List Char}
    (hMark : ofMark c = some token) (h : EndsBetween (offset + c.utf8Size) cs) :
    EndsBetween offset (c :: cs) := by
  obtain ⟨hWritten, hInner, hQuote⟩ := written_ofMark hMark
  refine EndsBetween.append [c] [⟨token, offset⟩] ?_ ?_ (.other hQuote) h
  · rw [List.singleton_append, run_cons]
    simp [step, stepBetween, hMark, byteLength]
  · intro tokens hRest
    exact .single hWritten hInner hRest

/-- Between runs, a quoted run that is closed is one token. -/
theorem EndsBetween.quoted {offset : Nat} {body content cs : List Char}
    (hBody : Unescapes body content)
    (hRun : scanner.run (.quoted offset []) (offset + '\''.utf8Size) (body ++ '\'' :: cs) =
      (scanner.run .between (offset + '\''.utf8Size + byteLength (body ++ ['\''])) cs).prepend
        [⟨.quoted (String.ofList content), offset⟩])
    (h : EndsBetween (offset + byteLength ('\'' :: (body ++ ['\'']))) cs) :
    EndsBetween offset ('\'' :: (body ++ ['\'']) ++ cs) := by
  have hWritten : Written (.quoted (String.ofList content)) ('\'' :: (body ++ ['\''])) := by
    apply Written.quoted
    rw [String.toList_ofList]
    exact hBody
  refine EndsBetween.append _ [⟨.quoted (String.ofList content), offset⟩] ?_ ?_ hWritten.closed h
  · have hFirst : step .between offset '\'' = ([], .quoted offset []) := rfl
    simp only [List.cons_append, List.append_assoc, List.nil_append]
    rw [run_silent hFirst, hRun, byteLength, Nat.add_assoc]
  · intro tokens hRest
    exact .single hWritten (by simp) hRest

/-- A run of text, of which the blanks at its end belong to no token. -/
theorem EndsBetween.text {offset : Nat} {run cs : List Char} (hRun : IsRun run)
    (hTaken : (scanner.run .between offset (run ++ cs)).complete =
      ((scanner.run .between (offset + byteLength run) cs).prepend
        [ofRun offset run.reverse]).complete)
    (h : EndsBetween (offset + byteLength run) cs) : EndsBetween offset (run ++ cs) := by
  rw [ofRun_eq, List.reverse_reverse] at hTaken
  refine EndsBetween.append run _ hTaken ?_ ?_ h
  · intro tokens hRest
    obtain ⟨blanks, hBlanks, hBlank⟩ := exists_trimRight run
    have hWritten : Written (.text (String.ofList (trimRight run))) (trimRight run) := by
      have hText := Written.text hRun.neat_trimRight
      rwa [String.toList_ofList] at hText
    have hBehind : Covers (offset + byteLength (trimRight run)) (blanks ++ cs) tokens := by
      apply Covers.append hBlank
      rwa [Nat.add_assoc, ← byteLength_append, hBlanks]
    have hCovers := Covers.single hWritten (by simp) hBehind
    rwa [← List.append_assoc, hBlanks] at hCovers
  · intro before hBefore
    apply Closed.append _ hBefore
    intro c hc hQuote
    exact hRun.plain c hc (by rw [hQuote]; decide)

/-- By induction on the number of characters, from one place between runs to the next. -/
theorem endsBetween (offset : Nat) (cs : List Char) : EndsBetween offset cs := by
  induction hLength : cs.length using Nat.strong_induction_on generalizing offset cs with
  | _ length ih =>
    cases cs with
    | nil =>
      have hNone : Blank [] := by
        intro c hc
        cases hc
      exact .inl ⟨[⟨.finish, offset⟩], rfl, .finish hNone⟩
    | cons c cs =>
      rw [List.length_cons] at hLength
      have hNext := ih cs.length (by omega) (offset + c.utf8Size) cs rfl
      cases hMark : ofMark c with
      | some token => exact .mark hMark hNext
      | none =>
        by_cases hQuote : c = '\''
        · have hFirst : step .between offset '\'' = ([], .quoted offset []) := rfl
          rw [hQuote]
          rcases endsQuoted offset cs [] (offset + '\''.utf8Size) with
            ⟨body, content, rest, rfl, hBody, hRun⟩ | ⟨hUnclosed, cause, hRun⟩
          · have hShorter : rest.length < length := by
              rw [List.length_append, List.length_cons] at hLength
              omega
            have hRest := EndsBetween.quoted hBody hRun (ih rest.length hShorter _ rest rfl)
            simpa using hRest
          · refine .inr ⟨cause, [], ?_, .nil, cs, rfl, hUnclosed⟩
            rw [run_silent hFirst, hRun]
            rfl
        by_cases hBlank : isBlank c = true
        · exact .blank hMark hQuote hBlank hNext
        · have hFirst : step .between offset c = ([], .text offset [c]) := by
            simp [step, stepBetween, hMark, hQuote, hBlank]
          obtain ⟨plain, rest, rfl, hPlain, hRun⟩ :=
            run_text_plain offset cs [c] (offset + c.utf8Size)
          have hc : c ∉ marks := by
            rw [mem_marks_iff]
            simp [hMark, hQuote]
          have hText : IsRun (c :: plain) := by
            refine ⟨by simp, ?_, List.forall_mem_cons.mpr ⟨hc, hPlain⟩⟩
            intro x hx
            cases hx
            simpa using hBlank
          have hShorter : rest.length < length := by
            rw [List.length_append] at hLength
            omega
          refine EndsBetween.text hText ?_ (ih rest.length hShorter _ rest rfl)
          rw [List.cons_append, run_silent hFirst, hRun, byteLength, Nat.add_assoc]
          simp

/-- A source has tokens that cover it and closes all its quotes, or it leaves one open and has none.
-/
theorem scan_cases (source : String) :
    (∃ tokens, scan source = .ok tokens ∧ Covers 0 source.toList tokens) ∨
      ∃ cause before, scan source = .error ⟨cause, byteLength before⟩ ∧
        LeavesOpen source.toList before := by
  have h := endsBetween 0 source.toList
  simp only [EndsBetween, Nat.zero_add] at h
  exact h

/-- The tokens of a source cover its characters. -/
theorem covers_of_scan {source : String} {tokens : List PlacedToken}
    (h : scan source = .ok tokens) : Covers 0 source.toList tokens := by
  rcases scan_cases source with ⟨tokens', hScan, hCovers⟩ | ⟨cause, before, hScan, -⟩
  · rw [h] at hScan
    cases hScan
    exact hCovers
  · rw [h] at hScan
    cases hScan

/-- A source that leaves a quote open has a fault where that quote stands. -/
theorem scan_of_leavesOpen {source : String} {before : List Char}
    (h : LeavesOpen source.toList before) :
    ∃ cause, scan source = .error ⟨cause, byteLength before⟩ := by
  rcases scan_cases source with ⟨tokens, -, hCovers⟩ | ⟨cause, before', hScan, hBefore'⟩
  · exact absurd h hCovers.closed.not_leavesOpen
  · rw [h.unique hBefore']
    exact ⟨cause, hScan⟩

/-- The tokens of a source tile it. -/
theorem tiles_of_scan {source : String} {tokens : List PlacedToken}
    (h : scan source = .ok tokens) : Tiles source tokens := by
  have hCovers := covers_of_scan h
  obtain ⟨hWritten, hCovered⟩ := hCovers.tiles [] rfl
  have hEnds := hCovers.ends
  rw [byteLength_toList, Nat.zero_add] at hEnds
  exact ⟨hCovers.increasing, hEnds, hWritten, hCovers.disjoint [] rfl, hCovered⟩

/-- A source has no tokens exactly if a quote in it opens a run and none closes it. The fault is
reported in the column of that quote. Otherwise the tokens tile the source. -/
theorem scan_tiles (source : String) :
    ((∃ fault, scan source = .error fault) ↔ ∃ before, LeavesOpen source.toList before) ∧
    (∀ before, LeavesOpen source.toList before → ∃ fault, scan source = .error fault ∧
      (fault.inSource source).place = ⟨1, before.length + 1⟩) ∧
    ∀ tokens, scan source = .ok tokens → Tiles source tokens := by
  refine ⟨⟨?_, ?_⟩, ?_, fun tokens h => tiles_of_scan h⟩
  · rintro ⟨fault, hFault⟩
    rcases scan_cases source with ⟨tokens, hScan, -⟩ | ⟨cause, before, -, hBefore⟩
    · rw [hFault] at hScan
      cases hScan
    · exact ⟨before, hBefore⟩
  · rintro ⟨before, hBefore⟩
    obtain ⟨cause, hScan⟩ := scan_of_leavesOpen hBefore
    exact ⟨_, hScan⟩
  · intro before hBefore
    obtain ⟨cause, hScan⟩ := scan_of_leavesOpen hBefore
    obtain ⟨-, body, hSource, -⟩ := hBefore
    refine ⟨_, hScan, ?_⟩
    rw [Fault.inSource, Place.columnOfOffset_byteLength hSource]

/-- Blanks of several bytes are skipped and cut off, and an escaped quote closes nothing. -/
theorem accented_source_tiled :
    (∃ tokens, scan "\x7bé\u2003'\\''" = .ok tokens ∧ Tiles "\x7bé\u2003'\\''" tokens ∧
      tokens = [⟨.leftBrace, 0⟩, ⟨.text "é", 1⟩, ⟨.quoted "'", 6⟩, ⟨.finish, 10⟩]) ∧
    LeavesOpen "é'\\'".toList ['é'] ∧ ∃ fault, scan "é'\\'" = .error fault ∧
      (fault.inSource "é'\\'").place = ⟨1, 2⟩ := by
  have hOpen : LeavesOpen "é'\\'".toList ['é'] := by
    refine ⟨.other (by decide) .nil, ['\\', '\''], rfl, ?_⟩
    intro body content rest hBody hSplit
    cases hBody with
    | nil => cases hSplit
    | cons first others =>
      cases first with
      | plain _ notBackslash => exact notBackslash (List.head_eq_of_cons_eq hSplit).symm
      | escaped =>
        have hTail := List.tail_eq_of_cons_eq (List.tail_eq_of_cons_eq hSplit)
        simp at hTail
  refine ⟨⟨_, rfl, (scan_tiles _).2.2 _ rfl, rfl⟩, hOpen, ?_⟩
  exact (scan_tiles "é'\\'").2.1 ['é'] hOpen

end Token

end Expression

end ObjectMarkup
