import Mathlib.Data.Prod.Lex
import Mathlib.Order.Bounds.Basic
import ObjectMarkup.Text.Place

/-!
# Boundaries and places

A byte offset is a boundary of a source if the bytes in front of it are whole characters. Every
other offset stands for the last boundary in front of it, and its place is the place of that
boundary. So places are in the order of the boundaries, no two boundaries have one place, and a
place leads back to its boundary: past as many line feeds as there are lines before it, and then
past as many characters as there are columns (`Place.ofOffset_identifies`).
-/

set_option autoImplicit false

namespace ObjectMarkup

/-! ### Bytes of characters -/

/-- The bytes of characters that follow each other add up. -/
theorem byteLength_append (cs cs' : List Char) :
    byteLength (cs ++ cs') = byteLength cs + byteLength cs' := by
  induction cs with
  | nil => simp [byteLength]
  | cons c cs ih =>
    simp only [List.cons_append, byteLength, ih]
    omega

/-- Some characters take some bytes. -/
theorem byteLength_pos {cs : List Char} (h : cs ≠ []) : 0 < byteLength cs := by
  cases cs with
  | nil => exact absurd rfl h
  | cons c cs =>
    have hFirst := c.utf8Size_pos
    rw [byteLength]
    omega

/-- The characters of a string take its bytes. -/
theorem byteLength_toList (s : String) : byteLength s.toList = s.utf8ByteSize := by
  have h : ∀ cs : List Char, (String.ofList cs).utf8ByteSize = byteLength cs := by
    intro cs
    induction cs with
    | nil => rfl
    | cons c cs ih =>
      have hSplit : String.ofList (c :: cs) = String.singleton c ++ String.ofList cs := by
        apply String.toList_inj.mp
        simp
      rw [hSplit, String.utf8ByteSize_append, String.utf8ByteSize_singleton, ih, byteLength]
  rw [← h, String.ofList_toList]

/-- The bytes in front of `offset` are those of whole characters. -/
def IsBoundary (source : String) (offset : Nat) : Prop :=
  ∃ before after, source.toList = before ++ after ∧ byteLength before = offset

namespace Place

/-! ### The characters in front of an offset -/

/-- The leading characters are the first ones. -/
theorem leading_isPrefix (budget : Nat) (cs : List Char) : leading budget cs <+: cs := by
  induction cs generalizing budget with
  | nil => exact List.prefix_rfl
  | cons c cs ih =>
    rw [leading]
    split_ifs
    · exact List.cons_prefix_cons.mpr ⟨rfl, ih _⟩
    · exact List.nil_prefix

/-- The leading characters fit into the budget. -/
theorem byteLength_leading_le (budget : Nat) (cs : List Char) :
    byteLength (leading budget cs) ≤ budget := by
  induction cs generalizing budget with
  | nil => exact Nat.zero_le budget
  | cons c cs ih =>
    rw [leading]
    split_ifs with hFits
    · have hRest := ih (budget - c.utf8Size)
      rw [byteLength]
      omega
    · exact Nat.zero_le budget

/-- Characters that fit are in front of the offset. -/
theorem isPrefix_leading {before : List Char} {budget : Nat} (h : byteLength before ≤ budget)
    (after : List Char) : before <+: leading budget (before ++ after) := by
  induction before generalizing budget with
  | nil => exact List.nil_prefix
  | cons c before ih =>
    rw [byteLength] at h
    have hFits : c.utf8Size ≤ budget := by omega
    rw [List.cons_append, leading, if_pos hFits]
    exact List.cons_prefix_cons.mpr ⟨rfl, ih (by omega)⟩

/-- More bytes hold more leading characters. -/
theorem leading_isPrefix_leading {a b : Nat} (h : a ≤ b) (cs : List Char) :
    leading a cs <+: leading b cs := by
  obtain ⟨after, hSplit⟩ := leading_isPrefix a cs
  have hFits := Nat.le_trans (byteLength_leading_le a cs) h
  have hPrefix := isPrefix_leading hFits after
  rwa [hSplit] at hPrefix

/-- At a boundary, the characters in front of it are all that fit. -/
theorem leading_byteLength (before after : List Char) :
    leading (byteLength before) (before ++ after) = before := by
  obtain ⟨more, hMore⟩ := isPrefix_leading (Nat.le_refl (byteLength before)) after
  have hFits := byteLength_leading_le (byteLength before) (before ++ after)
  rw [← hMore, byteLength_append] at hFits
  have hNone : more = [] := by
    by_contra hSome
    have := byteLength_pos hSome
    omega
  rw [← hMore, hNone, List.append_nil]

/-- Behind some characters of the first line is the column after them. -/
theorem columnOfOffset_byteLength {source : String} {before after : List Char}
    (h : source.toList = before ++ after) :
    columnOfOffset source (byteLength before) = before.length + 1 := by
  rw [columnOfOffset, h, leading_byteLength]

/-! ### The boundary that an offset stands for -/

/-- The last boundary that is not behind the offset. -/
def StandsFor (source : String) (offset boundary : Nat) : Prop :=
  IsGreatest {b | IsBoundary source b ∧ b ≤ offset} boundary

/-- An offset stands for the boundary behind its leading characters. -/
theorem standsFor_leading (source : String) (offset : Nat) :
    StandsFor source offset (byteLength (leading offset source.toList)) := by
  constructor
  · obtain ⟨after, hAfter⟩ := leading_isPrefix offset source.toList
    exact ⟨⟨_, after, hAfter.symm, rfl⟩, byteLength_leading_le offset source.toList⟩
  · rintro b ⟨⟨before, after, hSource, rfl⟩, hLe⟩
    obtain ⟨more, hMore⟩ := isPrefix_leading hLe after
    rw [hSource, ← hMore, byteLength_append]
    omega

/-- Two offsets stand for one boundary exactly if the same characters are in front of them. -/
theorem exists_standsFor_iff {source : String} {a b : Nat} (h : a ≤ b) :
    (∃ boundary, StandsFor source a boundary ∧ StandsFor source b boundary) ↔
      leading a source.toList = leading b source.toList := by
  constructor
  · rintro ⟨boundary, ha, hb⟩
    have hSame : byteLength (leading a source.toList) = byteLength (leading b source.toList) := by
      rw [(standsFor_leading source a).unique ha, (standsFor_leading source b).unique hb]
    obtain ⟨more, hMore⟩ := leading_isPrefix_leading h source.toList
    rw [← hMore, byteLength_append] at hSame
    have hNone : more = [] := by
      by_contra hSome
      have := byteLength_pos hSome
      omega
    rw [← hMore, hNone, List.append_nil]
  · intro hSame
    refine ⟨_, standsFor_leading source a, ?_⟩
    rw [hSame]
    exact standsFor_leading source b

/-! ### The order of places -/

/-- A place in the order in which a text is read: by lines, and by columns in a line. -/
def rank (p : Place) : ℕ ×ₗ ℕ :=
  toLex (p.line, p.column)

/-- A character leads to a later place. -/
theorem rank_lt_rank_after (p : Place) (c : Char) : p.rank < (p.after c).rank := by
  rw [rank, rank, Prod.Lex.toLex_lt_toLex, after]
  split_ifs
  · left
    exact Nat.lt_succ_self p.line
  · right
    exact ⟨rfl, Nat.lt_succ_self p.column⟩

/-- Characters lead to no earlier place. -/
theorem rank_le_rank_foldl (p : Place) (cs : List Char) : p.rank ≤ (cs.foldl after p).rank := by
  induction cs generalizing p with
  | nil => exact le_rfl
  | cons c cs ih => exact (rank_lt_rank_after p c).le.trans (ih (p.after c))

/-- Some characters lead to a later place. -/
theorem rank_lt_rank_foldl (p : Place) {cs : List Char} (h : cs ≠ []) :
    p.rank < (cs.foldl after p).rank := by
  cases cs with
  | nil => exact absurd rfl h
  | cons c cs => exact (rank_lt_rank_after p c).trans_le (rank_le_rank_foldl (p.after c) cs)

/-- Behind a place on the same line, or on a later line. -/
theorem line_column_foldl (p : Place) (cs : List Char) :
    p.line < (cs.foldl after p).line ∨
      p.line = (cs.foldl after p).line ∧ p.column ≤ (cs.foldl after p).column := by
  have h := rank_le_rank_foldl p cs
  rwa [rank, rank, Prod.Lex.toLex_le_toLex] at h

/-- Columns are counted from one. -/
theorem one_le_column_foldl {p : Place} (h : 1 ≤ p.column) (cs : List Char) :
    1 ≤ (cs.foldl after p).column := by
  induction cs generalizing p with
  | nil => exact h
  | cons c cs ih =>
    apply ih
    rw [after]
    split_ifs
    · exact Nat.le_refl 1
    · exact Nat.le_add_left 1 p.column

/-! ### From a place back to its boundary -/

/-- The bytes up to where counting `lines` line feeds and then `columns` more characters leads.
There is no such byte if the text ends before. -/
def bytesTo : Nat → Nat → List Char → Option Nat
  | 0, 0, _ => some 0
  | 0, columns + 1, c :: rest => (bytesTo 0 columns rest).map (c.utf8Size + ·)
  | lines + 1, columns, c :: rest =>
    (bytesTo (if c = '\n' then lines else lines + 1) columns rest).map (c.utf8Size + ·)
  | _, _, [] => none

/-- The byte of a source that a place leads to. -/
def byte? (p : Place) (source : String) : Option Nat :=
  bytesTo (p.line - 1) (p.column - 1) source.toList

/-- By induction on the characters, from any place on: a line feed takes one line off those to be
counted, and what columns there were before it does not matter; any other character takes one column
off, if it is on the last line. -/
theorem bytesTo_foldl (p : Place) (hp : 1 ≤ p.column) (cs rest : List Char) :
    bytesTo ((cs.foldl after p).line - p.line)
      (if (cs.foldl after p).line = p.line then (cs.foldl after p).column - p.column
        else (cs.foldl after p).column - 1) (cs ++ rest) = some (byteLength cs) := by
  induction cs generalizing p with
  | nil => simp [bytesTo, byteLength]
  | cons c cs ih =>
    have hLater := line_column_foldl (p.after c) cs
    by_cases hc : c = '\n'
    · have hAfter : p.after c = ⟨p.line + 1, 1⟩ := if_pos hc
      have hRest := ih ⟨p.line + 1, 1⟩ (Nat.le_refl 1)
      rw [hAfter] at hLater
      rw [List.foldl_cons, hAfter]
      generalize cs.foldl after ⟨p.line + 1, 1⟩ = q at hLater hRest ⊢
      dsimp only at hLater hRest
      have hFirst : q.line - p.line = q.line - (p.line + 1) + 1 := by omega
      have hLine : q.line ≠ p.line := by omega
      rw [ite_self] at hRest
      rw [hFirst, if_neg hLine, List.cons_append, bytesTo, if_pos hc, hRest, byteLength]
      rfl
    · have hAfter : p.after c = ⟨p.line, p.column + 1⟩ := if_neg hc
      have hRest := ih ⟨p.line, p.column + 1⟩ (Nat.le_add_left 1 p.column)
      rw [hAfter] at hLater
      rw [List.foldl_cons, hAfter]
      generalize cs.foldl after ⟨p.line, p.column + 1⟩ = q at hLater hRest ⊢
      dsimp only at hLater hRest
      by_cases hLine : q.line = p.line
      · have hFirst : q.column - p.column = q.column - (p.column + 1) + 1 := by omega
        rw [if_pos hLine, hLine, Nat.sub_self] at hRest
        rw [if_pos hLine, hLine, Nat.sub_self, hFirst, List.cons_append, bytesTo, hRest, byteLength]
        rfl
      · obtain ⟨lines, hLines⟩ : ∃ lines, q.line - p.line = lines + 1 :=
          ⟨q.line - p.line - 1, by omega⟩
        rw [if_neg hLine, hLines] at hRest
        rw [if_neg hLine, hLines, List.cons_append, bytesTo, if_neg hc, hRest, byteLength]
        rfl

/-- The place of an offset leads back to the boundary behind its leading characters. -/
theorem byte?_ofOffset (source : String) (offset : Nat) :
    (ofOffset source offset).byte? source = some (byteLength (leading offset source.toList)) := by
  obtain ⟨rest, hRest⟩ := leading_isPrefix offset source.toList
  have h := bytesTo_foldl start (Nat.le_refl 1) (leading offset source.toList) rest
  rw [hRest] at h
  have hColumns : (if (ofOffset source offset).line = start.line
      then (ofOffset source offset).column - start.column
      else (ofOffset source offset).column - 1) = (ofOffset source offset).column - 1 := ite_self _
  rw [← ofOffset, hColumns] at h
  exact h

/-! ### Places identify boundaries -/

/-- Places are in the order of offsets, and are the same exactly for offsets that stand for one
boundary. Every place leads back to the boundary that its offset stands for. -/
theorem ofOffset_identifies (source : String) :
    (∀ a b, a ≤ b → (ofOffset source a).rank ≤ (ofOffset source b).rank ∧
      (ofOffset source a = ofOffset source b ↔
        ∃ boundary, StandsFor source a boundary ∧ StandsFor source b boundary)) ∧
    ∀ offset, 1 ≤ (ofOffset source offset).line ∧ 1 ≤ (ofOffset source offset).column ∧
      ∃ boundary, StandsFor source offset boundary ∧
        (ofOffset source offset).byte? source = some boundary := by
  constructor
  · intro a b hLe
    obtain ⟨more, hMore⟩ := leading_isPrefix_leading hLe source.toList
    have hFold : ofOffset source b = more.foldl after (ofOffset source a) := by
      rw [ofOffset, ← hMore, List.foldl_append]
      rfl
    refine ⟨?_, ?_⟩
    · rw [hFold]
      exact rank_le_rank_foldl _ more
    · rw [exists_standsFor_iff hLe]
      constructor
      · intro hSame
        by_contra hOther
        have hSome : more ≠ [] := by
          rintro rfl
          rw [List.append_nil] at hMore
          exact hOther hMore
        have hBehind := rank_lt_rank_foldl (ofOffset source a) hSome
        rw [← hFold, ← hSame] at hBehind
        exact lt_irrefl _ hBehind
      · intro hSame
        rw [ofOffset, ofOffset, hSame]
  · intro offset
    refine ⟨?_, one_le_column_foldl (Nat.le_refl 1) _, _, standsFor_leading source offset,
      byte?_ofOffset source offset⟩
    have hLater := line_column_foldl start (leading offset source.toList)
    have hStart : start.line = 1 := rfl
    rw [← ofOffset] at hLater
    omega

/-- Inside a character an offset has the place of the character, and behind the end that of the end.
-/
theorem accented_offsets_identified :
    (1 ≤ 2 ∧ StandsFor "aé\nb" 1 1 ∧ ofOffset "aé\nb" 1 = ofOffset "aé\nb" 2) ∧
      2 ≤ 99 ∧ (ofOffset "aé\nb" 2).rank ≤ (ofOffset "aé\nb" 99).rank ∧
      (ofOffset "aé\nb" 2 = ofOffset "aé\nb" 99 ↔
        ∃ boundary, StandsFor "aé\nb" 2 boundary ∧ StandsFor "aé\nb" 99 boundary) ∧
      ofOffset "aé\nb" 2 = ⟨1, 2⟩ ∧ StandsFor "aé\nb" 2 1 ∧
      ofOffset "aé\nb" 99 = ⟨2, 2⟩ ∧ StandsFor "aé\nb" 99 5 := by
  have hOne : StandsFor "aé\nb" 1 1 := standsFor_leading _ 1
  have hTwo : StandsFor "aé\nb" 2 1 := standsFor_leading _ 2
  have hInside : 1 ≤ 2 := by decide
  have hLe : 2 ≤ 99 := by decide
  obtain ⟨-, hSamePlace⟩ := (ofOffset_identifies "aé\nb").1 1 2 hInside
  obtain ⟨hOrder, hSame⟩ := (ofOffset_identifies "aé\nb").1 2 99 hLe
  exact ⟨⟨hInside, hOne, hSamePlace.2 ⟨1, hOne, hTwo⟩⟩, hLe, hOrder, hSame, by decide, hTwo,
    by decide, standsFor_leading _ 99⟩

end Place

end ObjectMarkup
