import ObjectMarkup.Proofs.Declared

/-!
# The order of writes

An element is written when it is used, and a text when it is used or later, if it had to wait. So a
text is never written before an element that was used earlier (`Timely`): each deed keeps that, and
each drain. Of a part of what is due, in which elements come first and then a text at most, what was
written at all was written in this order (`Timely.found_eq`).
-/

set_option autoImplicit false

namespace ObjectMarkup

open Operation

variable {H : Host}

/-! ### Lists in two parts -/

/-- A list is what has a property and then the rest, if nothing else stands before what has it. -/
theorem eq_filter_append_filter_iff {α : Type} (p : α → Bool) (l : List α) :
    l = l.filter p ++ l.filter (fun a => !p a) ↔
      l.Pairwise fun a b => p b = true → p a = true := by
  induction l with
  | nil => simp
  | cons first rest ih =>
    rw [List.pairwise_cons, ← ih]
    by_cases hFirst : p first = true
    · rw [List.filter_cons_of_pos hFirst, List.filter_cons_of_neg (by simp [hFirst]),
        List.cons_append, List.cons.injEq]
      exact and_congr_left fun _ => by simp [hFirst]
    · rw [List.filter_cons_of_neg hFirst, List.filter_cons_of_pos (by simp [hFirst])]
      constructor
      · intro hParts
        cases hSome : rest.filter p with
        | nil =>
          refine ⟨fun b hMem hHas => absurd hHas (List.filter_eq_nil_iff.1 hSome b hMem), ?_⟩
          rw [hSome, List.nil_append, List.cons.injEq] at hParts
          exact hParts.2
        | cons other others =>
          rw [hSome, List.cons_append, List.cons.injEq] at hParts
          have hOther : other ∈ rest.filter p := hSome ▸ List.mem_cons_self
          rw [hParts.1] at hFirst
          exact absurd (List.mem_filter.1 hOther).2 hFirst
      · rintro ⟨hNone, hParts⟩
        have hNil : rest.filter p = [] :=
          List.filter_eq_nil_iff.2 fun b hMem hHas => hFirst (hNone b hMem hHas)
        rw [hNil, List.nil_append] at hParts ⊢
        rw [← hParts]

/-- Where no two members have the same mark, the marks of a part find the part. -/
theorem filter_marked_of_sublist {α β : Type} [DecidableEq β] {mark : α → β} {part whole : List α}
    (hPart : part.Sublist whole) (hMarks : (whole.map mark).Nodup) :
    (whole.filter fun a => decide (mark a ∈ part.map mark)) = part := by
  induction hPart with
  | slnil => rfl
  | @cons part whole a hRest ih =>
    rw [List.map_cons, List.nodup_cons] at hMarks
    have hOther : mark a ∉ part.map mark := fun hMem => hMarks.1 ((hRest.map mark).subset hMem)
    rw [List.filter_cons_of_neg (by simpa using hOther)]
    exact ih hMarks.2
  | @cons_cons part whole a hRest ih =>
    rw [List.map_cons, List.nodup_cons] at hMarks
    rw [List.filter_cons_of_pos (by simp)]
    refine congrArg (a :: ·) ((List.filter_congr fun b hMem => ?_).trans (ih hMarks.2))
    have hOther : mark b ≠ mark a := fun hSame =>
      hMarks.1 (hSame ▸ List.mem_map.2 ⟨b, hMem, rfl⟩)
    simp [hOther]

/-- Where nothing occurs twice, two members have one order. -/
theorem not_sublist_swap {α : Type} {l : List α} (hDistinct : l.Nodup) {a b : α}
    (h : [a, b].Sublist l) : ¬ [b, a].Sublist l := by
  intro hSwapped
  induction l with
  | nil => cases h
  | cons first rest ih =>
    obtain ⟨hFirst, hRest⟩ := List.nodup_cons.1 hDistinct
    rcases List.sublist_cons_iff.1 h with hLater | ⟨_, hSame, hLast⟩
    · rcases List.sublist_cons_iff.1 hSwapped with hLater' | ⟨_, hSame, -⟩
      · exact ih hRest hLater hLater'
      · cases hSame
        exact hFirst (hLater.subset (by simp))
    · cases hSame
      rcases List.sublist_cons_iff.1 hSwapped with hLater' | ⟨_, hSame, -⟩
      · exact hFirst (hLater'.subset (by simp))
      · cases hSame
        exact hFirst (hLast.subset (by simp))

/-- A list with at most one member is the only permutation of itself. -/
theorem eq_of_perm_of_length_le_one {α : Type} {l l' : List α} (hPerm : l.Perm l')
    (hLength : l'.length ≤ 1) : l = l' := by
  cases l' with
  | nil => exact hPerm.eq_nil
  | cons first rest =>
    have hRest : rest = [] := List.eq_nil_of_length_eq_zero (by simpa using hLength)
    rw [hRest] at hPerm ⊢
    exact List.perm_singleton.1 hPerm

/-! ### Writes in the order of uses -/

/-- Whether a value comes from an element. -/
def Origin.isElement : Origin → Bool
  | .element _ => true
  | .occurrence _ => false

/-- What the writes of a journal settle, the latest first. -/
def Entry.written (journal : List Entry) : List Due := (writes journal).map Write.due

/-- Elements are written when they are used, and a text that was written was written after the
elements that are used before it. -/
structure Timely (uses : List Use) (a : Assembly H) : Prop where
  elements : ((Entry.written a.journal).filter fun d => d.origin.isElement) =
    ((duesFrom 0 uses).filter fun d => d.origin.isElement).reverse
  texts : (duesFrom 0 uses).Pairwise fun e d =>
    e.origin.isElement = true → d.origin.isElement = false → d ∈ Entry.written a.journal →
      [d, e].Sublist (Entry.written a.journal)

/-- What was written was due. -/
theorem Accounted.mem_dues {uses : List Use} {held : List Binding} {a : Assembly H}
    (h : Accounted uses held a) {d : Due} (hMem : d ∈ Entry.written a.journal) :
    d ∈ duesFrom 0 uses :=
  h.balanced.mem_iff.1 (List.mem_append_left _ ((sublist_due_writes a.journal).subset hMem))

/-- When nothing waits, a text was written if its last evaluation gave a value. -/
theorem Accounted.written_text_iff {uses : List Use} {a : Assembly H} (h : Accounted uses [] a)
    (hWaiting : a.waiting = []) {n : Nat} {object : ObjectId} {property : String}
    (hMem : ⟨.occurrence n, object, property⟩ ∈ duesFrom 0 uses) :
    ⟨.occurrence n, object, property⟩ ∈ Entry.written a.journal ↔
      ∃ v, latestOutcome n a.journal = some (.value v) := by
  obtain ⟨content, -, hText⟩ := getElem?_of_mem_duesFrom hMem rfl
  rw [Nat.sub_zero] at hText
  rcases h.settled_text hWaiting hText with
    ⟨w, v, hOnce, hObject, hProperty, hValue⟩ | ⟨hNone, hNothing⟩
  · obtain ⟨hWrite, hOf⟩ := List.mem_filter.1 (hOnce ▸ List.mem_singleton_self w)
    refine iff_of_true (List.mem_map.2 ⟨w, hWrite, ?_⟩) ⟨v, hValue⟩
    have hOrigin : w.origin = .occurrence n := beq_iff_eq.1 hOf
    rw [Write.due, hOrigin, hObject, hProperty]
  · refine iff_of_false (fun hWritten => ?_) (by simp [hNothing])
    obtain ⟨w, hWrite, hDue⟩ := List.mem_map.1 hWritten
    have hOf : w ∈ Entry.writesOf n a.journal :=
      List.mem_filter.2 ⟨hWrite, by rw [hDue]; exact beq_self_eq_true _⟩
    rw [hNone] at hOf
    cases hOf

namespace Timely

variable {uses : List Use} {a a' : Assembly H}

/-- Nothing is due and nothing written at the start. -/
theorem start (scope : NameScope) : Timely [] (Assembly.start scope : Assembly H) :=
  ⟨rfl, .nil⟩

/-- What writes nothing changes nothing. -/
theorem unwritten (h : Timely uses a)
    (hWritten : Entry.written a'.journal = Entry.written a.journal) : Timely uses a' := by
  refine ⟨?_, ?_⟩
  · rw [hWritten]
    exact h.elements
  · rw [hWritten]
    exact h.texts

/-- An element that was used was written. -/
theorem mem_written (h : Timely uses a) {e : Due} (hMem : e ∈ duesFrom 0 uses)
    (hElement : e.origin.isElement = true) : e ∈ Entry.written a.journal := by
  have hUsed : e ∈ (duesFrom 0 uses).filter fun d => d.origin.isElement :=
    List.mem_filter.2 ⟨hMem, hElement⟩
  rw [← List.mem_reverse, ← h.elements] at hUsed
  exact (List.mem_filter.1 hUsed).1

/-- A text that is used is not written yet. -/
theorem asked (h : Timely uses a) (hAccounted : Accounted uses [] a) (object : ObjectId)
    (name text : String) : Timely (uses ++ [⟨object, name, .text text⟩]) a := by
  have hDues : duesFrom 0 (uses ++ [⟨object, name, .text text⟩]) =
      duesFrom 0 uses ++ [⟨.occurrence (Use.texts uses).length, object, name⟩] := by
    rw [duesFrom_append, Nat.zero_add]
    rfl
  refine ⟨?_, ?_⟩
  · rw [hDues, List.filter_append, h.elements]
    exact congrArg List.reverse (List.append_nil _).symm
  · rw [hDues, List.pairwise_append]
    refine ⟨h.texts, List.pairwise_singleton .., fun e _ d hLast _ _ hMem => ?_⟩
    rw [List.mem_singleton.1 hLast] at hMem
    -- The number of the new text is that of no text so far, so nothing was written under it.
    obtain ⟨content, -, hText⟩ := getElem?_of_mem_duesFrom (hAccounted.mem_dues hMem) rfl
    obtain ⟨hBound, -⟩ := List.getElem?_eq_some_iff.1 hText
    omega

variable [Hooks H] {vocabulary : Vocabulary H}

/-- A text may be written at any time: all elements so far were written. -/
theorem reran (h : Timely uses a) {complete : Bool} {b : Binding}
    (hReran : Assemble.Reran vocabulary complete b a a') : Timely uses a' := by
  cases hReran with
  | value v w a' evaluated assigned =>
    obtain ⟨⟨extent, hJournal⟩, -⟩ := assigned.rest
    have hDue : w.due = b.due := by
      rw [Write.due, assigned.origin_eq, assigned.object_eq, assigned.property_eq]
      rfl
    have hWritten : Entry.written a'.journal = b.due :: Entry.written a.journal := by
      rw [hJournal, ← hDue]
      rfl
    refine ⟨?_, ?_⟩
    · rw [hWritten, List.filter_cons_of_neg (by simp [Binding.due, Origin.isElement])]
      exact h.elements
    · rw [hWritten]
      refine h.texts.imp_of_mem fun {e d} hUsed _ hBefore hElement hText hMem => ?_
      rcases List.mem_cons.1 hMem with rfl | hMem
      · exact (List.singleton_sublist.2 (h.mem_written hUsed hElement)).cons_cons b.due
      · exact (hBefore hElement hText hMem).cons b.due
  | nothing evaluated => exact h.unwritten rfl
  | deferred required evaluated => exact h.unwritten rfl

/-- An element is written when it is used. -/
theorem placed (h : Timely uses a) {child object : ObjectId} {name : String} {value : Value}
    {w : Write} (hAssigned : a.Assigns vocabulary (.element child) object name value w a') :
    Timely (uses ++ [⟨object, name, .element child⟩]) a' := by
  obtain ⟨⟨extent, hJournal⟩, -⟩ := hAssigned.rest
  have hDues : duesFrom 0 (uses ++ [⟨object, name, .element child⟩]) =
      duesFrom 0 uses ++ [⟨.element child, object, name⟩] := by
    rw [duesFrom_append]
    rfl
  have hWritten : Entry.written a'.journal =
      ⟨.element child, object, name⟩ :: Entry.written a.journal := by
    rw [← hAssigned.origin_eq, ← hAssigned.object_eq, ← hAssigned.property_eq, hJournal]
    rfl
  refine ⟨?_, ?_⟩
  · rw [hWritten, hDues, List.filter_append, List.reverse_append, List.filter_cons_of_pos rfl,
      h.elements]
    rfl
  · rw [hWritten, hDues, List.pairwise_append]
    refine ⟨h.texts.imp fun {e d} hBefore hElement hText hMem => ?_, List.pairwise_singleton ..,
      fun e _ d hLast _ hText => ?_⟩
    · rcases List.mem_cons.1 hMem with rfl | hMem
      · cases hText
      · exact (hBefore hElement hText hMem).cons _
    · rw [List.mem_singleton.1 hLast] at hText
      cases hText

/-- A drain writes texts only, after everything before. -/
theorem drained (h : Timely uses a) {complete : Bool} {n : Nat}
    (hDrain : Assemble.drain vocabulary complete a = .ok n a') : Timely uses a' :=
  Assemble.drain_induction (P := fun _ a => Timely uses a)
    (fun _ _ _ _ hTimely hReran => hTimely.reran hReran) (h.unwritten rfl) hDrain

/-- Every deed writes what it uses in time. -/
theorem does (h : Timely uses a) (hAccounted : Accounted uses [] a) {d : Deed H}
    (hDoes : Does vocabulary a d a') : Timely (uses ++ Deed.uses [d]) a' := by
  cases hDoes with
  | make type fresh known constructible =>
    rw [Deed.uses_make, Deed.uses_nil, List.append_nil]
    exact h.unwritten rfl
  | text object name text dataContext a' evaluated =>
    have hAsked : Timely (uses ++ [⟨object, name, .text text⟩])
        { a with occurrences := a.occurrences + 1 } :=
      (h.asked hAccounted object name text).unwritten rfl
    exact hAsked.reran evaluated
  | close type object id value stands =>
    rw [Deed.uses_close, Deed.uses_nil, List.append_nil]
    exact h.unwritten rfl
  | place child object name value w a' ended assigned => exact h.placed assigned
  | declare id value complete names n a' registered hDrain =>
    rw [Deed.uses_declare, Deed.uses_nil, List.append_nil]
    have hNamed : Timely uses { a with names } := h.unwritten rfl
    exact hNamed.drained hDrain

/-- The deeds of a run are timely for their uses. -/
theorem doesAll {scope : NameScope} {ds : List (Deed H)}
    (h : DoesAll vocabulary (.start scope) ds a) : Timely (Deed.uses ds) a := by
  refine (DoesAll.invariant (P := fun done a =>
    Accounted (Deed.uses done) [] a ∧ Timely (Deed.uses done) a) ?_
    ⟨.start scope, .start scope⟩ h).2
  rintro done a d a' ⟨hAccounted, hTimely⟩ hDoes
  rw [Deed.uses_append]
  exact ⟨hAccounted.does hDoes, hTimely.does hAccounted hDoes⟩

end Timely

/-- Where no element is used twice, nothing is due twice. -/
theorem nodup_origins_duesFrom {uses : List Use} (hDistinct : (Use.children uses).Nodup) (n : Nat) :
    ((duesFrom n uses).map Due.origin).Nodup := by
  rw [List.nodup_iff_count_le_one]
  intro origin
  rw [List.count_eq_countP, List.countP_map]
  cases origin with
  | occurrence m => exact countP_isOf_le_one m n uses
  | element child =>
    refine Nat.le_trans (Nat.le_of_eq (countP_duesFrom_element child n uses)) ?_
    exact List.nodup_iff_count_le_one.1 hDistinct child

/-- What the writes with the origins of a part of what is due settle, the latest first. -/
def Assembly.found (a : Assembly H) (part : List Due) : List Due :=
  (Entry.written a.journal).filter fun d => decide (d.origin ∈ part.map Due.origin)

/-- In a part of what is due, elements come first, and then a text at most. -/
structure Due.TextLast (part : List Due) : Prop where
  split : part = (part.filter fun d => d.origin.isElement) ++
    part.filter fun d => !d.origin.isElement
  single : (part.filter fun d => !d.origin.isElement).length ≤ 1

/-- The elements of a part were written in order. -/
theorem Timely.found_elements {uses : List Use} {a : Assembly H} {part : List Due}
    (h : Timely uses a) (hDistinct : (Use.children uses).Nodup)
    (hPart : part.Sublist (duesFrom 0 uses)) :
    (a.found part).filter (fun d => d.origin.isElement) =
      (part.filter fun d => d.origin.isElement).reverse := by
  have hMarked := filter_marked_of_sublist hPart (nodup_origins_duesFrom hDistinct 0)
  rw [Assembly.found, List.filter_comm, h.elements, List.filter_reverse, List.filter_comm, hMarked]

section Parts

variable {uses : List Use} {a : Assembly H} {part : List Due} (hAccounted : Accounted uses [] a)
  (hDistinct : (Use.children uses).Nodup) (hPart : part.Sublist (duesFrom 0 uses))

include hAccounted hDistinct

/-- Nothing that was due is written twice. -/
theorem Accounted.nodup_written : (Entry.written a.journal).Nodup := by
  have hDues := (nodup_origins_duesFrom hDistinct 0).of_map
  exact ((hAccounted.balanced.nodup_iff.2 hDues).sublist (List.sublist_append_left ..)).sublist
    (sublist_due_writes a.journal)

include hPart

/-- As no origin has two dues, what was written of a part is found by its origins. -/
theorem Accounted.mem_found_iff {d : Due} :
    d ∈ a.found part ↔ d ∈ part ∧ d ∈ Entry.written a.journal := by
  rw [Assembly.found, List.mem_filter, and_comm]
  refine and_congr_left fun hWritten => ?_
  have hMarked := filter_marked_of_sublist hPart (nodup_origins_duesFrom hDistinct 0)
  refine Iff.trans ?_ (iff_of_eq (congrArg (d ∈ ·) hMarked))
  rw [List.mem_filter]
  exact (and_iff_right (hAccounted.mem_dues hWritten)).symm

variable (hTextLast : Due.TextLast part)

include hTextLast

/-- The text of a part was written if it is found. -/
theorem Accounted.found_texts : (a.found part).reverse.filter (fun d => !d.origin.isElement) =
    (part.filter fun d => !d.origin.isElement).filter
      fun d => decide (d ∈ Entry.written a.journal) := by
  have hDues : (duesFrom 0 uses).Nodup := (nodup_origins_duesFrom hDistinct 0).of_map
  have hWritten := hAccounted.nodup_written hDistinct
  refine eq_of_perm_of_length_le_one ((List.perm_ext_iff_of_nodup ?_ ?_).2 fun d => ?_)
    (Nat.le_trans (List.length_filter_le ..) hTextLast.single)
  · exact (List.nodup_reverse.2 (hWritten.filter _)).filter _
  · exact ((hPart.nodup hDues).filter _).filter _
  · rw [List.mem_filter, List.mem_reverse, hAccounted.mem_found_iff hDistinct hPart,
      List.mem_filter, List.mem_filter, decide_eq_true_iff, and_right_comm]

namespace Timely

variable (h : Timely uses a)

include h

/-- No element of a part was written after a text, if all elements of the part come first. -/
theorem pairwise_found : (a.found part).reverse.Pairwise fun d e =>
    e.origin.isElement = true → d.origin.isElement = true := by
  rw [List.pairwise_reverse, List.pairwise_iff_forall_sublist]
  intro e d hBoth hElement
  by_contra hText
  have hFound {x : Due} (hMem : x ∈ [e, d]) : x ∈ part ∧ x ∈ Entry.written a.journal :=
    (hAccounted.mem_found_iff hDistinct hPart).1 (hBoth.subset hMem)
  obtain ⟨hFirst, -⟩ := hFound (x := e) (by simp)
  obtain ⟨hLast, hWritten⟩ := hFound (x := d) (by simp)
  have hUsed : [e, d].Sublist part := by
    rw [hTextLast.split]
    exact (List.singleton_sublist.2 (List.mem_filter.2 ⟨hFirst, hElement⟩)).append
      (List.singleton_sublist.2 (List.mem_filter.2 ⟨hLast, by simpa using hText⟩))
  -- Being used later, the text was written later; but here it is found earlier.
  have hLater := List.pairwise_iff_forall_sublist.1 h.texts (hUsed.trans hPart) hElement
    (Bool.eq_false_iff.2 hText) hWritten
  exact not_sublist_swap (hAccounted.nodup_written hDistinct) hLater
    (hBoth.trans List.filter_sublist)

/-- Of a part of what is due, in which elements come first and then a text at most, what was written
was written in this order. -/
theorem found_eq :
    (a.found part).reverse = part.filter fun d => decide (d ∈ Entry.written a.journal) := by
  have hElements : (part.filter fun d => d.origin.isElement).filter
      (fun d => decide (d ∈ Entry.written a.journal)) =
        part.filter fun d => d.origin.isElement := by
    refine List.filter_eq_self.2 fun d hMem => decide_eq_true ?_
    obtain ⟨hInPart, hElement⟩ := List.mem_filter.1 hMem
    exact h.mem_written (hPart.subset hInPart) hElement
  calc (a.found part).reverse
    _ = ((a.found part).reverse.filter fun d => d.origin.isElement) ++
          (a.found part).reverse.filter fun d => !d.origin.isElement :=
        (eq_filter_append_filter_iff ..).2
          (pairwise_found hAccounted hDistinct hPart hTextLast h)
    _ = (part.filter fun d => d.origin.isElement) ++
          (part.filter fun d => !d.origin.isElement).filter
            fun d => decide (d ∈ Entry.written a.journal) := by
        rw [hAccounted.found_texts hDistinct hPart hTextLast, List.filter_reverse,
          h.found_elements hDistinct hPart, List.reverse_reverse]
    _ = part.filter fun d => decide (d ∈ Entry.written a.journal) := by
        conv_rhs => rw [hTextLast.split, List.filter_append, hElements]

end Timely

end Parts

end ObjectMarkup
