import Mathlib.Data.List.Basic
import ObjectMarkup.Proofs.Cursor
import ObjectMarkup.Proofs.Tiling

/-!
# Reading makes progress

A cursor puts tokens back, so the tokens that are not read yet are not a count that falls at every
step. It falls from the start of one expression to the start of the next, and over every argument;
the rest of a head takes the room of the brace in front of it, and the count of open braces is taken
back however an expression ends (`Cursor.document_bounded`).

All of this is kept by every call, whatever the calls inside it do as long as they keep it too, so
it is proved by induction on how deep calls go (`Cursor.allPreserve`), from any cursor that is
behind all starts so far (`Cursor.Past`). Places come along: every place that a fault can be
reported at is one of a token, or the end of a name.
-/

set_option autoImplicit false

namespace ObjectMarkup

namespace Expression

/-! ### What was written down -/

/-- How many tokens were left at the start that a note is about. -/
def Note.start? : Note → Option Nat
  | .opens left => some left
  | _ => none

/-- How many tokens were left at each start of an expression. -/
def starts (notes : List Note) : List Nat :=
  notes.filterMap Note.start?

/-- How many opening braces there are. -/
def braces (tokens : List PlacedToken) : Nat :=
  tokens.countP fun t => t.token = .leftBrace

/-- The rest of a head stands where `P` holds. -/
def HeadAt (P : Nat → Prop) (t : PlacedToken) : Prop :=
  ∀ content, t.token = .text content → ∀ u ∈ (splitHead content t.offset).2, P u.offset

namespace Cursor

/-- The notes and the tokens that are left agree: expressions started with fewer and fewer tokens
left, arguments took some, at most one token was put back for each brace that was read, and as many
braces are open as started and did not end. Every place is one where `P` holds; of the token that is
next this is not said of the end of its name. -/
structure Orderly (total : Nat) (P : Nat → Prop) (c : Cursor) : Prop where
  decreasing : (starts c.notes).Pairwise (· > ·)
  reached : ∀ n ∈ starts c.notes, c.left.length ≤ n
  progress : ∀ before after, .argument before after ∈ c.notes → after < before
  room : c.notes.count .inserts + braces c.left ≤ total
  balance : (starts c.notes).length = c.notes.count .closes + c.depth
  within : ∀ notes, notes <+: c.notes →
    (starts notes).length ≤ notes.count .closes + depthLimit
  last : P c.last
  places : ∀ t ∈ c.left, P t.offset
  heads : ∀ t ∈ c.left.tail, HeadAt P t

/-- Fewer tokens are left than at every start. -/
structure Past (total : Nat) (P : Nat → Prop) (c : Cursor) : Prop extends Orderly total P c where
  past : ∀ n ∈ starts c.notes, c.left.length < n

/-- Behind an opening brace: a token may be put back, and the end of a name may be a place. -/
structure Opened (total : Nat) (P : Nat → Prop) (c : Cursor) : Prop extends Past total P c where
  spare : c.notes.count .inserts + braces c.left < total
  first : ∀ t ∈ c.left, HeadAt P t

section Steps

variable {total : Nat} {P : Nat → Prop} {c : Cursor}

/-- A note that is no start leaves the starts. -/
theorem starts_note {n : Note} (h : n.start? = none) (notes : List Note) :
    starts (notes ++ [n]) = starts notes := by
  simp [starts, h]

/-- An expression that is opened starts there. -/
theorem starts_opens (notes : List Note) (left : Nat) :
    starts (notes ++ [.opens left]) = starts notes ++ [left] := by
  simp [starts, Note.start?]

/-- An orderly cursor stands at a place of the source. -/
theorem Orderly.offset (h : Orderly total P c) : P c.offset := by
  obtain ⟨last, tokens, level, notes⟩ := c
  cases tokens with
  | nil => exact h.last
  | cons t rest => exact h.places t List.mem_cons_self

/-- An orderly cursor is not deeper than the limit. -/
theorem Orderly.depth_le (h : Orderly total P c) : c.depth ≤ depthLimit := by
  have hWithin := h.within c.notes List.prefix_rfl
  have hBalance := h.balance
  omega

/-- A note that is no start, when there is room for it. -/
theorem Orderly.note (h : Orderly total P c) {n : Note} (hStart : n.start? = none) {level : Nat}
    (hLevel : (starts c.notes).length = (c.notes ++ [n]).count .closes + level)
    (hProgress : ∀ before after, n = .argument before after → after < before)
    (hRoom : (c.notes ++ [n]).count .inserts + braces c.left ≤ total) :
    Orderly total P { c with depth := level, notes := c.notes ++ [n] } := by
  have hStarts := starts_note hStart c.notes
  refine ⟨?_, ?_, ?_, hRoom, ?_, ?_, h.last, h.places, h.heads⟩
  · rw [hStarts]
    exact h.decreasing
  · rw [hStarts]
    exact h.reached
  · intro before after hNote
    rcases List.mem_append.mp hNote with hNote | hNote
    · exact h.progress before after hNote
    · exact hProgress before after (List.mem_singleton.mp hNote).symm
  · rw [hStarts]
    exact hLevel
  · intro notes hNotes
    rcases List.prefix_concat_iff.mp hNotes with rfl | hNotes
    · have hWithin := h.within c.notes List.prefix_rfl
      rw [hStarts, List.count_append]
      omega
    · exact h.within notes hNotes

/-- Behind a brace, one level deeper is orderly below the limit. -/
theorem Past.enter (h : Past total P c) (hDepth : c.depth ≠ depthLimit) :
    Orderly total P c.enter := by
  have hStarts : starts c.enter.notes = starts c.notes ++ [c.left.length] :=
    starts_opens c.notes c.left.length
  have hCloses : c.enter.notes.count .closes = c.notes.count .closes := by
    simp [Cursor.enter]
  have hLevel := h.depth_le
  have hBalance := h.balance
  refine ⟨?_, ?_, ?_, ?_, ?_, ?_, h.last, h.places, h.heads⟩
  · rw [hStarts, List.pairwise_append]
    refine ⟨h.decreasing, List.pairwise_singleton _ _, ?_⟩
    intro n hn m hm
    rw [List.mem_singleton.mp hm]
    exact h.past n hn
  · intro n hn
    rw [hStarts, List.mem_append, List.mem_singleton] at hn
    rcases hn with hn | rfl
    · exact h.reached n hn
    · exact Nat.le_refl _
  · intro before after hNote
    apply h.progress before after
    simpa [Cursor.enter] using hNote
  · simpa [Cursor.enter] using h.room
  · change (starts c.enter.notes).length = c.enter.notes.count .closes + (c.depth + 1)
    rw [hStarts, hCloses, List.length_append, hBalance, List.length_singleton]
    omega
  · intro notes hNotes
    rcases List.prefix_concat_iff.mp hNotes with rfl | hNotes
    · change (starts c.enter.notes).length ≤ c.enter.notes.count .closes + depthLimit
      rw [hStarts, hCloses, List.length_append, hBalance, List.length_singleton]
      omega
    · exact h.within notes hNotes

/-- One level further out is orderly. -/
theorem Orderly.leave (h : Orderly total P c) (hDepth : c.depth ≠ 0) :
    Orderly total P c.leave := by
  apply h.note rfl
  · rw [List.count_append, h.balance, List.count_singleton_self]
    omega
  · intro before after hNote
    cases hNote
  · simpa using h.room

/-- One token further is orderly. -/
theorem Orderly.advance (h : Orderly total P c) : Orderly total P c.advance := by
  obtain ⟨last, tokens, level, notes⟩ := c
  cases tokens with
  | nil => exact h
  | cons t rest =>
    have hRoom : notes.count .inserts + braces (t :: rest) ≤ total := h.room
    refine ⟨h.decreasing, ?_, h.progress, ?_, h.balance, h.within,
      h.places t List.mem_cons_self, ?_, ?_⟩
    · intro n hn
      exact Nat.le_of_succ_le (h.reached n hn)
    · rw [braces, List.countP_cons] at hRoom
      exact Nat.le_trans (Nat.add_le_add_left (Nat.le_add_right _ _) _) hRoom
    · intro u hu
      exact h.places u (List.mem_cons_of_mem t hu)
    · intro u hu
      exact h.heads u (List.mem_of_mem_tail hu)

/-- Reading a token leaves fewer than at any start. -/
theorem Orderly.past_advance (h : Orderly total P c) {t : PlacedToken} {rest : List PlacedToken}
    (hLeft : c.left = t :: rest) : Past total P c.advance := by
  refine ⟨h.advance, ?_⟩
  obtain ⟨last, tokens, level, notes⟩ := c
  obtain rfl : tokens = t :: rest := hLeft
  intro n hn
  exact h.reached n hn

/-- One token further is past the brace. -/
theorem Past.advance (h : Past total P c) : Past total P c.advance := by
  cases hLeft : c.left with
  | cons t rest => exact h.past_advance hLeft
  | nil =>
    have hSame : c.advance = c := by rw [Cursor.advance, hLeft]
    rwa [hSame]

/-- Reading an opening brace makes room for one token more. -/
theorem Orderly.opened (h : Orderly total P c) {place : Nat} {rest : List PlacedToken}
    (hLeft : c.left = ⟨.leftBrace, place⟩ :: rest) : Opened total P c.advance := by
  refine ⟨h.past_advance hLeft, ?_, ?_⟩
  · have hRoom := h.room
    rw [hLeft, braces, List.countP_cons_of_pos (by simp)] at hRoom
    rw [Cursor.advance, hLeft]
    dsimp only [braces]
    omega
  · rw [Cursor.advance, hLeft]
    intro t ht
    apply h.heads t
    rwa [hLeft]

/-- A name is read, and the rest of its head is put back. -/
theorem Opened.split (h : Opened total P c) {content : String} {place : Nat}
    {rest : List PlacedToken} (hLeft : c.left = ⟨.text content, place⟩ :: rest) :
    Past total P (c.advance.insert (splitHead content place).2) ∧
      (c.advance.insert (splitHead content place).2).left.length ≤ c.left.length := by
  have hRest := h.toPast.advance
  have hHead := h.first ⟨.text content, place⟩ (by rw [hLeft]; exact List.mem_cons_self) content rfl
  have hPast := h.past
  have hSpare := h.spare
  obtain ⟨last, tokens, level, notes⟩ := c
  obtain rfl : tokens = ⟨.text content, place⟩ :: rest := hLeft
  rcases splitHead_cases content place with hNone | ⟨rest', place', hPut⟩
  · rw [hNone]
    change Past total P ⟨place, rest, level, notes ++ []⟩ ∧ rest.length ≤ rest.length + 1
    rw [List.append_nil]
    exact ⟨hRest, Nat.le_succ _⟩
  · rw [hPut] at hHead ⊢
    have hOther : braces (⟨.text rest', place'⟩ :: rest) = braces rest :=
      List.countP_cons_of_neg (by simp)
    have hRoom : notes.count .inserts + braces rest < total := by
      rwa [braces, List.countP_cons_of_neg (by simp)] at hSpare
    have hBehind : Orderly total P ⟨place, ⟨.text rest', place'⟩ :: rest, level, notes⟩ := by
      refine ⟨hRest.decreasing, fun n hn => (hPast n hn).le, hRest.progress, ?_, hRest.balance,
        hRest.within, hRest.last, ?_, ?_⟩
      · rw [hOther]
        exact hRoom.le
      · intro t ht
        rcases List.mem_cons.mp ht with rfl | ht
        · exact hHead _ List.mem_cons_self
        · exact hRest.places t ht
      · intro t ht
        exact h.heads t ht
    have hNoted : Orderly total P
        ⟨place, ⟨.text rest', place'⟩ :: rest, level, notes ++ [.inserts]⟩ := by
      apply hBehind.note rfl
      · simpa using hBehind.balance
      · intro before after hNote
        cases hNote
      · -- The room is that of the opening brace, which is not among the tokens any more.
        rw [List.count_append, List.count_singleton_self]
        dsimp only
        omega
    refine ⟨⟨hNoted, ?_⟩, Nat.le_refl _⟩
    intro n hn
    have hOld : n ∈ starts (notes ++ [.inserts]) := hn
    rw [starts_note rfl] at hOld
    exact hPast n hOld

/-! ### What a call keeps -/

/-- A call ends with fewer than `bound` tokens left, or with a fault at a place where `P` holds. -/
def Keeps {α : Type} (total : Nat) (P : Nat → Prop) (bound : Nat) : Except Fault α × Cursor → Prop
  | (.error fault, c) => Orderly total P c ∧ P fault.offset
  | (.ok _, c) => Past total P c ∧ c.left.length < bound

/-- A call takes the count back, and keeps what holds in front of it. -/
structure Preserves {α : Type} (total : Nat) (P : Nat → Prop) (before : Prop) (level bound : Nat)
    (r : Except Fault α × Cursor) : Prop where
  level : r.2.depth = level
  keeps : before → Keeps total P bound r

/-- Where a cursor is orderly, a fault is reported at a place of the source. -/
theorem Preserves.fail {α : Type} {before : Prop} {bound : Nat} {cause : Cause}
    (h : before → Orderly total P c) :
    Preserves (α := α) total P before c.depth bound (c.fail cause) := by
  refine ⟨rfl, ?_⟩
  intro hBefore
  exact ⟨h hBefore, (h hBefore).offset⟩

/-- A fault ends the call around it. -/
theorem Preserves.rethrow {α β : Type} {before : Prop} {level bound bound' : Nat} {fault : Fault}
    (h : Preserves (α := α) total P before level bound (.error fault, c)) :
    Preserves (α := β) total P before level bound' (.error fault, c) :=
  ⟨h.level, h.keeps⟩

/-- One call and then another. -/
theorem Preserves.andThen {α β : Type} {before : Prop} {level bound bound' : Nat} {a : α}
    {r : Except Fault β × Cursor} (h : Preserves total P before level bound (.ok a, c))
    (hNext : Preserves total P (Past total P c ∧ c.left.length < bound) c.depth bound' r) :
    Preserves total P before level bound' r :=
  ⟨hNext.level.trans h.level, fun hBefore => hNext.keeps (h.keeps hBefore)⟩

/-- Reading one token. -/
theorem Past.step {α : Type} {bound : Nat} {a : α} (h : Past total P c)
    (hBound : c.left.length ≤ bound) {t : PlacedToken} {rest : List PlacedToken}
    (hLeft : c.left = t :: rest) :
    Keeps total P bound (.ok a, c.advance) := by
  refine ⟨h.advance, ?_⟩
  rw [hLeft] at hBound
  rw [Cursor.advance, hLeft]
  exact hBound

/-- Closing an expression takes the brace that ends it, or reports another token. -/
theorem preserves_close {e : Expression} {bound : Nat} :
    Preserves total P (Past total P c ∧ c.left.length ≤ bound) c.depth bound (c.close e) := by
  rw [close, expect]
  by_cases hBrace : c.next = .rightBrace
  · rw [if_pos hBrace]
    obtain ⟨place, rest, hLeft⟩ := starts_of_peek hBrace (by simp)
    refine ⟨?_, ?_⟩
    · simp only [Cursor.advance, hLeft]
    · rintro ⟨hPast, hBound⟩
      exact hPast.step hBound hLeft
  · rw [if_neg hBrace]
    exact Preserves.fail fun hBefore => hBefore.1.toOrderly

/-- Advancing changes no level. -/
theorem depth_advance (c : Cursor) : c.advance.depth = c.depth := by
  rw [Cursor.advance]
  split <;> rfl

/-- Advancing leaves no more tokens. -/
theorem length_advance_le (c : Cursor) : c.advance.left.length ≤ c.left.length := by
  obtain ⟨last, tokens, level, notes⟩ := c
  cases tokens with
  | nil => exact Nat.le_refl _
  | cons t rest => exact Nat.le_succ _

/-- More may be asked before, and more tokens may be left. -/
theorem Preserves.mono {α : Type} {before before' : Prop} {level bound bound' : Nat}
    {r : Except Fault α × Cursor} (h : Preserves total P before level bound r)
    (hBefore : before' → before) (hBound : before' → bound ≤ bound') :
    Preserves total P before' level bound' r := by
  refine ⟨h.level, ?_⟩
  intro hHolds
  have hKeeps := h.keeps (hBefore hHolds)
  obtain ⟨result, c⟩ := r
  cases result with
  | error fault => exact hKeeps
  | ok a => exact ⟨hKeeps.1, Nat.lt_of_lt_of_le hKeeps.2 (hBound hHolds)⟩

/-- An argument was read, and that is written down. -/
theorem Preserves.noted {α β : Type} {c' : Cursor} {a : α} {b : β}
    (h : Preserves total P (Past total P c) c.depth c.left.length (.ok a, c')) :
    Preserves total P (Past total P c) c.depth c.left.length
      (.ok b, c'.note (.argument c.left.length c'.left.length)) := by
  refine ⟨h.level, ?_⟩
  intro hPast
  obtain ⟨hAfter, hLess⟩ := h.keeps hPast
  refine ⟨⟨?_, ?_⟩, hLess⟩
  · apply hAfter.note rfl
    · simpa using hAfter.balance
    · intro before after hNote
      cases hNote
      exact hLess
    · simpa using hAfter.room
  · rw [Cursor.note, starts_note rfl]
    exact hAfter.past

/-- What holds inside of braces holds for the whole, one level further out. -/
theorem Preserves.leave {r : Except Fault Expression × Cursor} (hDepth : c.depth ≠ depthLimit)
    (h : Preserves total P (Orderly total P c.enter) c.enter.depth c.enter.left.length r) :
    Preserves total P (Past total P c) c.depth c.left.length (r.1, r.2.leave) := by
  obtain ⟨result, c'⟩ := r
  have hLevel : c'.depth = c.depth + 1 := h.level
  refine ⟨?_, ?_⟩
  · change c'.depth - 1 = c.depth
    rw [hLevel, Nat.add_sub_cancel]
  · intro hPast
    have hKeeps := h.keeps (hPast.enter hDepth)
    have hOpen : c'.depth ≠ 0 := by omega
    cases result with
    | error fault => exact ⟨hKeeps.1.leave hOpen, hKeeps.2⟩
    | ok e =>
      refine ⟨⟨hKeeps.1.leave hOpen, ?_⟩, hKeeps.2⟩
      rw [Cursor.leave, starts_note rfl]
      exact hKeeps.1.past

/-- Every result of a run is preserved; `extra` is how many tokens more than in front of it may be
left, and one. -/
def Preserving {α : Type} (total : Nat) (P : Nat → Prop) (before : Cursor → Prop) (extra : Nat)
    (run : Cursor → Option (Except Fault α × Cursor)) : Prop :=
  ∀ c r, run c = some r → Preserves total P (before c) c.depth (c.left.length + extra) r

section Calls

variable {calls : Nat}

/-- An expression preserves the order if one in braces does. -/
theorem preserving_expression (hBraced : Preserving total P (Orderly total P) 0 (braced calls)) :
    Preserving total P (Past total P) 0 (expression (calls + 1)) := by
  intro c r h
  rw [expression] at h
  split at h
  · cases h
    exact Preserves.fail Past.toOrderly
  · next hDepth =>
    obtain ⟨⟨result, c'⟩, hInside, hLeave⟩ := Option.bind_eq_some_iff.mp h
    cases hLeave
    exact (hBraced _ _ hInside).leave hDepth

/-- An expression in braces preserves the order if what stands behind the brace does. -/
theorem preserving_braced (hOpened : Preserving total P (Opened total P) 0 (opened calls)) :
    Preserving total P (Orderly total P) 0 (braced (calls + 1)) := by
  intro c r h
  rw [braced, expect] at h
  by_cases hBrace : c.next = .leftBrace
  · obtain ⟨place, rest, hLeft⟩ := starts_of_peek hBrace (by simp)
    rw [if_pos hBrace] at h
    have hInside := hOpened _ _ h
    rw [depth_advance] at hInside
    exact hInside.mono (fun hOrderly => hOrderly.opened hLeft) fun _ => length_advance_le c
  · rw [if_neg hBrace] at h
    cases h
    exact Preserves.fail id

/-- What stands behind a brace preserves the order if the arguments do. -/
theorem preserving_opened
    (hArguments : ∀ e, Preserving total P (Past total P) 0 (arguments calls e)) :
    Preserving total P (Opened total P) 0 (opened (calls + 1)) := by
  intro c r h
  rw [opened] at h
  rw [← depth_advance]
  split at h
  · next content hText =>
    obtain ⟨place, rest, hLeft⟩ := starts_of_peek hText (by simp)
    have hOffset : c.offset = place := by
      rw [Cursor.offset, hLeft]
      rfl
    have hSplit : Opened total P c → _ := fun hOpened => hOpened.split hLeft
    dsimp only at h
    rw [hOffset] at h
    generalize hInside : c.advance.insert (splitHead content place).2 = inside at h hSplit
    have hDepth : c.advance.depth = inside.depth := by rw [← hInside]; rfl
    split at h
    · cases h
      exact Preserves.fail fun hOpened => hOpened.advance.toOrderly
    rw [hDepth]
    split at h
    · cases h
      exact preserves_close.mono hSplit fun _ => Nat.le_refl _
    · obtain ⟨⟨result, c'⟩, hArgument, hRest⟩ := Option.bind_eq_some_iff.mp h
      have hFirst := (hArguments _ _ _ hArgument).mono (fun hOpened => (hSplit hOpened).1)
        fun hOpened => (hSplit hOpened).2
      cases result with
      | error fault =>
        cases hRest
        exact hFirst
      | ok e' =>
        cases hRest
        refine hFirst.andThen ?_
        exact preserves_close.mono (fun hEnd => ⟨hEnd.1, hEnd.2.le⟩) fun _ => Nat.le_refl _
  · cases h
    exact Preserves.fail fun hOpened => hOpened.advance.toOrderly

/-- Arguments preserve the order if one argument does, and what separates it from the next. -/
theorem preserving_arguments
    (hArgument : ∀ e, Preserving total P (Past total P) 0 (argument calls e))
    (hSeparator : ∀ e, Preserving total P (Past total P) 1 (separator calls e)) (e : Expression) :
    Preserving total P (Past total P) 0 (arguments (calls + 1) e) := by
  intro c r h
  rw [arguments] at h
  obtain ⟨⟨result, c'⟩, hFirst, hRest⟩ := Option.bind_eq_some_iff.mp h
  cases result with
  | error fault =>
    cases hRest
    exact hArgument _ _ _ hFirst
  | ok e' =>
    refine (hArgument _ _ _ hFirst).andThen ?_
    exact (hSeparator _ _ _ hRest).mono And.left And.right

/-- A separator preserves the order if the arguments behind it do. -/
theorem preserving_separator
    (hArguments : ∀ e, Preserving total P (Past total P) 0 (arguments calls e)) (e : Expression) :
    Preserving total P (Past total P) 1 (separator (calls + 1) e) := by
  intro c r h
  rw [separator] at h
  split at h
  · rw [← depth_advance]
    exact (hArguments _ _ _ h).mono Past.advance
      fun _ => (length_advance_le c).trans (Nat.le_succ _)
  · cases h
    exact ⟨rfl, fun hPast => ⟨hPast, Nat.lt_succ_self _⟩⟩
  · cases h
    exact Preserves.fail Past.toOrderly

/-- An argument preserves the order if its value does. -/
theorem preserving_argument (hValue : Preserving total P (Past total P) 0 (value calls))
    (e : Expression) : Preserving total P (Past total P) 0 (argument (calls + 1) e) := by
  intro c r h
  rw [argument] at h
  split at h
  · split at h
    · cases h
      exact Preserves.fail Past.toOrderly
    · obtain ⟨⟨result, c'⟩, hInside, hRest⟩ := Option.bind_eq_some_iff.mp h
      have hFirst := (hValue _ _ hInside).mono
        (fun hPast : Past total P c => hPast.advance.advance)
        fun _ => (length_advance_le _).trans (length_advance_le c)
      rw [depth_advance, depth_advance] at hFirst
      cases result with
      | error fault =>
        cases hRest
        exact hFirst.rethrow
      | ok a =>
        cases hRest
        exact hFirst.noted
  · split at h
    · obtain ⟨⟨result, c'⟩, hInside, hRest⟩ := Option.bind_eq_some_iff.mp h
      have hFirst := hValue _ _ hInside
      cases result with
      | error fault =>
        cases hRest
        exact hFirst.rethrow
      | ok a =>
        cases hRest
        exact hFirst.noted
    · cases h
      exact Preserves.fail Past.toOrderly

/-- Reading a token that is a value. -/
theorem Preserves.token {a : Argument} {token : Token} (hNext : c.next = token)
    (hInner : token ≠ .finish) :
    Preserves total P (Past total P c) c.depth c.left.length (.ok a, c.advance) := by
  obtain ⟨place, rest, hLeft⟩ := starts_of_peek hNext hInner
  exact ⟨depth_advance c, fun hPast => hPast.step (Nat.le_refl _) hLeft⟩

/-- A value preserves the order if an expression does. -/
theorem preserving_value
    (hExpression : Preserving total P (Past total P) 0 (expression calls)) :
    Preserving total P (Past total P) 0 (value (calls + 1)) := by
  intro c r h
  rw [value] at h
  split at h
  · obtain ⟨⟨result, c'⟩, hInside, hRest⟩ := Option.bind_eq_some_iff.mp h
    cases hRest
    have hFirst := hExpression _ _ hInside
    cases result with
    | error fault => exact hFirst.rethrow
    | ok e => exact ⟨hFirst.level, hFirst.keeps⟩
  · next hText =>
    cases h
    exact Preserves.token hText (by simp)
  · next hQuoted =>
    cases h
    exact Preserves.token hQuoted (by simp)
  · cases h
    exact Preserves.fail Past.toOrderly

end Calls

/-- All calls that go no deeper than `calls` keep what holds in front of them. -/
structure AllPreserve (total : Nat) (P : Nat → Prop) (calls : Nat) : Prop where
  expression : Preserving total P (Past total P) 0 (expression calls)
  braced : Preserving total P (Orderly total P) 0 (braced calls)
  opened : Preserving total P (Opened total P) 0 (opened calls)
  arguments : ∀ e, Preserving total P (Past total P) 0 (arguments calls e)
  separator : ∀ e, Preserving total P (Past total P) 1 (separator calls e)
  argument : ∀ e, Preserving total P (Past total P) 0 (argument calls e)
  value : Preserving total P (Past total P) 0 (value calls)

/-- All procedures preserve the order, however many calls they may make. -/
theorem allPreserve (calls : Nat) : AllPreserve total P calls := by
  induction calls with
  | zero =>
    constructor <;>
      simp [Preserving, expression, braced, opened, arguments, separator, argument, value]
  | succ calls ih =>
    exact ⟨preserving_expression ih.braced, preserving_braced ih.opened,
      preserving_opened ih.arguments, preserving_arguments ih.argument ih.separator,
      preserving_separator ih.arguments, preserving_argument ih.value,
      preserving_value ih.expression⟩

/-- The whole parse preserves the order. -/
theorem preserves_document {calls : Nat} {r : Except Fault Expression × Cursor}
    (h : document calls c = some r) :
    Preserves total P (Past total P c) c.depth c.left.length r := by
  obtain ⟨⟨result, c'⟩, hExpression, hEnd⟩ := Option.bind_eq_some_iff.mp h
  have hFirst : Preserves total P (Past total P c) c.depth c.left.length (result, c') :=
    (allPreserve calls).expression _ _ hExpression
  cases result with
  | error fault =>
    cases hEnd
    exact hFirst
  | ok e =>
    dsimp only at hEnd
    split at hEnd
    · cases hEnd
      exact hFirst
    · cases hEnd
      exact hFirst.andThen (Preserves.fail fun hBefore => hBefore.1.toOrderly)

end Steps

/-- At the start the cursor is orderly, with nothing read. -/
theorem past_start {P : Nat → Prop} {tokens : List PlacedToken} (hStart : P 0)
    (hPlaces : ∀ t ∈ tokens, P t.offset) (hHeads : ∀ t ∈ tokens, HeadAt P t) :
    Past (braces tokens) P (start tokens) where
  decreasing := List.Pairwise.nil
  reached n hn := by cases hn
  progress before after hNote := by cases hNote
  room := by simp [start]
  balance := rfl
  within notes hNotes := by
    rw [List.prefix_nil.mp hNotes]
    exact Nat.zero_le _
  last := hStart
  places := hPlaces
  heads t ht := hHeads t (List.mem_of_mem_tail ht)
  past n hn := by cases hn

/-! ### Where faults are -/

/-- Tokens of a source stand at boundaries, and so does the end of a name at the front of one. -/
theorem isBoundary_of_scan {source : String} {tokens : List PlacedToken}
    (h : Token.scan source = .ok tokens) :
    ∀ t ∈ tokens, IsBoundary source t.offset ∧ HeadAt (IsBoundary source) t := by
  intro t ht
  obtain ⟨before, span, hWritten, hOffset, after, hInside⟩ := (Token.tiles_of_scan h).written t ht
  refine ⟨⟨before, span ++ after, hInside, hOffset⟩, ?_⟩
  intro content hText u hu
  rw [hText] at hWritten
  cases hWritten
  unfold splitHead at hu
  dsimp only at hu
  split at hu
  · cases hu
  · rw [List.mem_singleton.mp hu]
    refine ⟨before ++ content.toList.takeWhile fun c => !isBlank c,
      (content.toList.dropWhile fun c => !isBlank c) ++ after, ?_, ?_⟩
    · rw [hInside, List.append_assoc, ← List.append_assoc (List.takeWhile _ _),
        List.takeWhile_append_dropWhile]
    · rw [byteLength_append, hOffset]

/-- The place of a fault in a source is a boundary of the source. -/
theorem isBoundary_of_parse {source : String} {tokens : List PlacedToken} {fault : Fault}
    (hScan : Token.scan source = .ok tokens) (hParse : parseTokens tokens = .error fault) :
    IsBoundary source fault.offset := by
  obtain ⟨calls, c, hDocument⟩ := document_eq tokens
  have hTokens := isBoundary_of_scan hScan
  have hZero : IsBoundary source 0 := ⟨[], source.toList, rfl, rfl⟩
  have hStart := past_start hZero (fun t ht => (hTokens t ht).1) fun t ht => (hTokens t ht).2
  have hKeeps := (preserves_document (hDocument 0)).keeps hStart
  rw [hParse] at hKeeps
  exact hKeeps.2

/-- Whatever the tokens are, reading them ends. Each expression starts with fewer tokens left than
the one before, each argument takes some, no more tokens are put back than there are opening braces,
and no more than `depthLimit` expressions are open at any time. However an expression ends, the
count is taken back. The place of a fault in a source is a boundary of the source. -/
theorem document_bounded (tokens : List PlacedToken) :
    (∃ calls c, (∀ more, document (calls + more) (start tokens) = some (parseTokens tokens, c)) ∧
      (starts c.notes).Pairwise (· > ·) ∧
      (∀ before after, .argument before after ∈ c.notes → after < before) ∧
      c.notes.count .inserts ≤ braces tokens ∧
      ∀ notes, notes <+: c.notes → (starts notes).length ≤ notes.count .closes + depthLimit) ∧
    (∀ calls c result c', expression calls c = some (result, c') → c'.depth = c.depth) ∧
    ∀ source fault, Token.scan source = .ok tokens → parseTokens tokens = .error fault →
      IsBoundary source fault.offset := by
  obtain ⟨calls, c, hDocument⟩ := document_eq tokens
  refine ⟨⟨calls, c, hDocument, ?_⟩, ?_, ?_⟩
  · have hStart : Past (braces tokens) (fun _ => True) (start tokens) := by
      apply past_start trivial
      · intro t _
        trivial
      · intro t _ content _ u _
        trivial
    have hEnd : Orderly (braces tokens) (fun _ => True) c := by
      have hKeeps := (preserves_document (hDocument 0)).keeps hStart
      cases hParse : parseTokens tokens with
      | error fault =>
        rw [hParse] at hKeeps
        exact hKeeps.1
      | ok e =>
        rw [hParse] at hKeeps
        exact hKeeps.1.toOrderly
    exact ⟨hEnd.decreasing, hEnd.progress, (Nat.le_add_right _ _).trans hEnd.room, hEnd.within⟩
  · intro calls c result c' h
    have hCall : Preserves 0 (fun _ => True) (Past 0 (fun _ => True) c) c.depth c.left.length
        (result, c') := (allPreserve calls).expression _ _ h
    exact hCall.level
  · intro source fault hScan hParse
    exact isBoundary_of_parse hScan hParse

/-- The rest of a head is put back, and the brace behind it is reported where it stands. -/
theorem misplaced_brace_bounded :
    ∃ tokens fault c, Token.scan "\x7bé a\x7b" = .ok tokens ∧ parseTokens tokens = .error fault ∧
      fault = ⟨.expectedSeparator .leftBrace, 5⟩ ∧ IsBoundary "\x7bé a\x7b" fault.offset ∧
      expression 100 (start tokens) = some (.error fault, c) ∧ c.depth = 0 := by
  let tokens : List PlacedToken :=
    [⟨.leftBrace, 0⟩, ⟨.text "é a", 1⟩, ⟨.leftBrace, 5⟩, ⟨.finish, 6⟩]
  obtain ⟨-, hLevel, hPlace⟩ := document_bounded tokens
  have hBraced : parseBraced depthLimit 0 tokens = .error ⟨.expectedSeparator .leftBrace, 5⟩ := by
    with_unfolding_all rfl
  have hParse : parseTokens tokens = .error ⟨.expectedSeparator .leftBrace, 5⟩ := by
    rw [parseTokens, hBraced]
  have hRun : Gives 0 (expression 100 (start tokens)) (parseBraced depthLimit 0 tokens) :=
    gives_expression (Nat.zero_add depthLimit) (by decide)
  rw [hBraced] at hRun
  obtain ⟨c, hRun⟩ := hRun
  exact ⟨tokens, _, c, rfl, hParse, rfl, hPlace _ _ rfl hParse, hRun, hLevel _ _ _ _ hRun⟩

end Cursor

end Expression

end ObjectMarkup
