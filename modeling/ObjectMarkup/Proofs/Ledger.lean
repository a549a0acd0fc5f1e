import Mathlib.Data.List.Perm.Basic
import Mathlib.Tactic.ByContra
import ObjectMarkup.Proofs.AssemblySteps

/-!
# The ledger of a construction

Whatever markup gives for a property is due once: it has to be written there, or evaluated to
nothing. The journal tells what was settled in either way, and the queue what is not yet. The
invariant (`Accounted`) is that what was settled and what waits is, up to the order, what the uses so
far made due; while the queue is drained, what the drain holds counts as waiting. As the texts among
the uses are numbered, no two of them are mixed up, and none is settled twice.
-/

set_option autoImplicit false

namespace ObjectMarkup

variable {H : Host}

/-! ### What is due, and what is settled -/

/-- Something that is to go into a property. -/
structure Due where
  origin : Origin
  object : ObjectId
  property : String
deriving DecidableEq

/-- What uses make due, if `n` texts came before them. -/
def duesFrom : Nat → List Use → List Due
  | _, [] => []
  | n, ⟨object, property, .text _⟩ :: rest => ⟨.occurrence n, object, property⟩ :: duesFrom (n + 1) rest
  | n, ⟨object, property, .element child⟩ :: rest =>
    ⟨.element child, object, property⟩ :: duesFrom n rest

/-- What a binding still has to settle. -/
def Binding.due (b : Binding) : Due := ⟨.occurrence b.occurrence, b.target, b.property⟩

/-- What a write settles. -/
def Write.due (w : Write) : Due := ⟨w.origin, w.object, w.property⟩

namespace Entry

/-- What an entry of the journal settles: a write does, and an evaluation to nothing. -/
def settles? : Entry → Option Due
  | .wrote w _ => some w.due
  | .evaluated n target .nothing => some ⟨.occurrence n, target.object, target.property⟩
  | _ => none

/-- The write that an entry is about. -/
def write? : Entry → Option Write
  | .wrote w _ => some w
  | _ => none

/-- What the text with a number was evaluated to, if that is what an entry tells. -/
def outcomeOf? (n : Nat) : Entry → Option Outcome
  | .evaluated m _ outcome => if m = n then some outcome else none
  | _ => none

/-- Whether an entry is the write of a text. -/
def isAssignment : Entry → Bool
  | .wrote ⟨.occurrence _, _, _, _, _⟩ _ => true
  | _ => false

/-- Whether an entry is an evaluation to nothing. -/
def isSkip : Entry → Bool
  | .evaluated _ _ .nothing => true
  | _ => false

end Entry

/-- The latest outcome of the text with a number, in a journal that starts with its latest entry. -/
def latestOutcome (n : Nat) (journal : List Entry) : Option Outcome :=
  journal.findSome? (Entry.outcomeOf? n)

/-- Whether something is due for the text with a number. -/
def Due.isOf (n : Nat) (d : Due) : Bool := d.origin == .occurrence n

/-- The second of two lists of uses numbers its texts from where the first stopped. -/
theorem duesFrom_append (n : Nat) (uses later : List Use) :
    duesFrom n (uses ++ later) = duesFrom n uses ++ duesFrom (n + (Use.texts uses).length) later := by
  induction uses generalizing n with
  | nil => rfl
  | cons u rest ih =>
    obtain ⟨object, property, content | child⟩ := u
    · simp only [List.cons_append, duesFrom, ih, Use.texts_text, List.length_cons]
      rw [Nat.add_assoc, Nat.add_comm 1]
    · simp only [List.cons_append, duesFrom, ih, Use.texts_element]

/-- Nothing is due for a number that no text has. -/
theorem countP_isOf_of_not_lt {n k : Nat} {uses : List Use}
    (h : ¬ (k ≤ n ∧ n < k + (Use.texts uses).length)) : (duesFrom k uses).countP (Due.isOf n) = 0 := by
  induction uses generalizing k with
  | nil => rfl
  | cons u rest ih =>
    obtain ⟨object, property, content | child⟩ := u
    · rw [Use.texts_text, List.length_cons] at h
      have hk : ¬ k = n := by omega
      rw [duesFrom, List.countP_cons_of_neg (by simpa [Due.isOf] using hk)]
      exact ih (by omega)
    · rw [duesFrom, List.countP_cons_of_neg (by simp [Due.isOf])]
      exact ih h

/-- A text is due once. -/
theorem countP_isOf_of_lt {n k : Nat} {uses : List Use} (hk : k ≤ n)
    (hn : n < k + (Use.texts uses).length) : (duesFrom k uses).countP (Due.isOf n) = 1 := by
  induction uses generalizing k with
  | nil =>
    rw [Use.texts_nil, List.length_nil] at hn
    omega
  | cons u rest ih =>
    obtain ⟨object, property, content | child⟩ := u
    · rw [Use.texts_text, List.length_cons] at hn
      by_cases hFirst : k = n
      · rw [duesFrom, List.countP_cons_of_pos (by simpa [Due.isOf] using hFirst),
          countP_isOf_of_not_lt (by omega)]
      · rw [duesFrom, List.countP_cons_of_neg (by simpa [Due.isOf] using hFirst)]
        exact ih (by omega) (by omega)
    · rw [duesFrom, List.countP_cons_of_neg (by simp [Due.isOf])]
      exact ih hk hn

/-- At most one due is for the occurrence of a given number. -/
theorem countP_isOf_le_one (n k : Nat) (uses : List Use) :
    (duesFrom k uses).countP (Due.isOf n) ≤ 1 := by
  by_cases h : k ≤ n ∧ n < k + (Use.texts uses).length
  · exact Nat.le_of_eq (countP_isOf_of_lt h.1 h.2)
  · rw [countP_isOf_of_not_lt h]
    omega

/-- What is due for a text is due where the text was used. -/
theorem getElem?_of_mem_duesFrom {n k : Nat} {uses : List Use} {d : Due} (h : d ∈ duesFrom k uses)
    (hOf : d.origin = .occurrence n) :
    ∃ content, k ≤ n ∧ (Use.texts uses)[n - k]? = some ⟨d.object, d.property, content⟩ := by
  induction uses generalizing k with
  | nil => cases h
  | cons u rest ih =>
    obtain ⟨object, property, content | child⟩ := u
    · rw [duesFrom, List.mem_cons] at h
      rcases h with rfl | h
      · cases hOf
        exact ⟨content, Nat.le_refl _, by simp⟩
      · obtain ⟨text, hk, hText⟩ := ih h
        have hNext : n - k = (n - (k + 1)) + 1 := by omega
        refine ⟨text, by omega, ?_⟩
        rw [hNext, Use.texts_text, List.getElem?_cons_succ]
        exact hText
    · rw [duesFrom, List.mem_cons] at h
      rcases h with rfl | h
      · cases hOf
      · exact ih h

/-! ### The invariant -/

/-- What was settled and what waits is what the uses made due, where `held` waits as well; and what
was settled was settled by the last evaluation. -/
structure Accounted (uses : List Use) (held : List Binding) (a : Assembly H) : Prop where
  numbered : a.occurrences = (Use.texts uses).length
  balanced : (a.journal.filterMap Entry.settles? ++ (held ++ a.waiting).map Binding.due).Perm
    (duesFrom 0 uses)
  /-- A binding waits with the text of its use. -/
  bound : ∀ b ∈ held ++ a.waiting,
    (Use.texts uses)[b.occurrence]? = some ⟨b.target, b.property, b.expression⟩
  written : ∀ w extent n, .wrote w extent ∈ a.journal → w.origin = .occurrence n →
    ∃ v, latestOutcome n a.journal = some (.value v)
  skipped : ∀ n target, .evaluated n target .nothing ∈ a.journal →
    latestOutcome n a.journal = some .nothing

/-- An entry that is no outcome of an occurrence leaves its latest outcome. -/
theorem latestOutcome_cons_of_none {n : Nat} {entry : Entry} {journal : List Entry}
    (h : entry.outcomeOf? n = none) : latestOutcome n (entry :: journal) = latestOutcome n journal := by
  rw [latestOutcome, List.findSome?_cons_of_isNone (by simp [h]), latestOutcome]

/-- The latest outcome of the occurrence evaluated last is that evaluation's. -/
theorem latestOutcome_evaluated (n : Nat) (target : Target) (outcome : Outcome)
    (journal : List Entry) :
    latestOutcome n (.evaluated n target outcome :: journal) = some outcome := by
  simp [latestOutcome, Entry.outcomeOf?]

/-- The evaluation of one occurrence leaves the latest outcome of every other. -/
theorem latestOutcome_evaluated_of_ne {m n : Nat} (h : m ≠ n) (target : Target) (outcome : Outcome)
    (journal : List Entry) :
    latestOutcome n (.evaluated m target outcome :: journal) = latestOutcome n journal :=
  latestOutcome_cons_of_none (if_neg h)

namespace Accounted

/-- Nothing was made due and nothing was settled. -/
theorem start (scope : NameScope) : Accounted [] [] (Assembly.start scope : Assembly H) where
  numbered := rfl
  balanced := .refl _
  bound b h := by cases h
  written w extent n h := by cases h
  skipped n target h := by cases h

/-- Declaring names settles nothing. -/
theorem named {uses : List Use} {held : List Binding} {a : Assembly H} (h : Accounted uses held a)
    (names : NameTable) : Accounted uses held { a with names } :=
  ⟨h.numbered, h.balanced, h.bound, h.written, h.skipped⟩

/-- A binding that waits was not settled before. -/
theorem not_settled {uses : List Use} {b : Binding} {held : List Binding} {a : Assembly H}
    (h : Accounted uses (b :: held) a) {entry : Entry} {d : Due} (hEntry : entry ∈ a.journal)
    (hSettles : entry.settles? = some d) : d.origin ≠ .occurrence b.occurrence := by
  intro hOrigin
  have hOnce := countP_isOf_le_one b.occurrence 0 uses
  rw [← h.balanced.countP_eq, List.countP_append, List.cons_append, List.map_cons,
    List.countP_cons_of_pos (by simp [Due.isOf, Binding.due])] at hOnce
  have hSettled : 0 < (a.journal.filterMap Entry.settles?).countP (Due.isOf b.occurrence) := by
    rw [List.countP_pos_iff]
    exact ⟨d, List.mem_filterMap.2 ⟨entry, hEntry, hSettles⟩, by simp [Due.isOf, hOrigin]⟩
  omega

/-- Entries that settle nothing and tell no outcome change nothing of the account. -/
theorem record {uses : List Use} {a : Assembly H} (h : Accounted uses [] a) {entry : Entry}
    (hSettles : entry.settles? = none) (hOutcome : ∀ n, entry.outcomeOf? n = none) :
    Accounted uses [] (a.record entry) where
  numbered := h.numbered
  balanced := by
    rw [Assembly.record, List.filterMap_cons_none hSettles]
    exact h.balanced
  bound := h.bound
  written w extent n hMem hOrigin := by
    rcases List.mem_cons.1 hMem with rfl | hMem
    · cases hSettles
    · obtain ⟨v, hLatest⟩ := h.written w extent n hMem hOrigin
      exact ⟨v, (latestOutcome_cons_of_none (hOutcome n)).trans hLatest⟩
  skipped n target hMem := by
    rcases List.mem_cons.1 hMem with rfl | hMem
    · cases hSettles
    · exact (latestOutcome_cons_of_none (hOutcome n)).trans (h.skipped n target hMem)

/-- When a binding is evaluated again, the writes of other texts stay what they were. -/
theorem written_evaluated {uses : List Use} {b : Binding} {held : List Binding} {a : Assembly H}
    (h : Accounted uses (b :: held) a) {target : Target} {outcome : Outcome} {w : Write}
    {extent n : Nat}
    (hMem : .wrote w extent ∈ Entry.evaluated b.occurrence target outcome :: a.journal)
    (hOrigin : w.origin = .occurrence n) :
    ∃ v, latestOutcome n (.evaluated b.occurrence target outcome :: a.journal) = some (.value v) := by
  rcases List.mem_cons.1 hMem with hSame | hMem
  · cases hSame
  · have hOther : b.occurrence ≠ n := by
      rintro rfl
      exact h.not_settled hMem rfl hOrigin
    obtain ⟨v, hLatest⟩ := h.written w extent n hMem hOrigin
    exact ⟨v, (latestOutcome_evaluated_of_ne hOther ..).trans hLatest⟩

/-- While the occurrence of a held binding is evaluated, an evaluation that came to nothing is the
latest of its occurrence. -/
theorem skipped_evaluated {uses : List Use} {b : Binding} {held : List Binding} {a : Assembly H}
    (h : Accounted uses (b :: held) a) {target target' : Target} {outcome : Outcome} {n : Nat}
    (hMem : .evaluated n target' .nothing ∈ Entry.evaluated b.occurrence target outcome :: a.journal) :
    latestOutcome n (.evaluated b.occurrence target outcome :: a.journal) = some .nothing := by
  rcases List.mem_cons.1 hMem with hSame | hMem
  · cases hSame
    exact latestOutcome_evaluated ..
  · have hOther : b.occurrence ≠ n := by
      rintro rfl
      exact h.not_settled hMem rfl rfl
    exact (latestOutcome_evaluated_of_ne hOther ..).trans (h.skipped n target' hMem)

variable [Hooks H] {vocabulary : Vocabulary H}

/-- A binding that is evaluated again is settled or waits again. -/
theorem reran {uses : List Use} {b : Binding} {held : List Binding} {a a' : Assembly H}
    {complete : Bool} (h : Accounted uses (b :: held) a)
    (hReran : Assemble.Reran vocabulary complete b a a') : Accounted uses held a' := by
  have hBalanced := h.balanced
  rw [List.cons_append, List.map_cons] at hBalanced
  have hBound : ∀ b' ∈ held ++ a.waiting,
      (Use.texts uses)[b'.occurrence]? = some ⟨b'.target, b'.property, b'.expression⟩ :=
    fun b' hMem => h.bound b' (List.mem_cons_of_mem b hMem)
  cases hReran with
  | value v w a' hEvaluated hAssigned =>
    obtain ⟨⟨extent, hJournal⟩, -, hWaiting, hOccurrences⟩ := hAssigned.rest
    have hDue : w.due = b.due := by
      rw [Write.due, hAssigned.origin_eq, hAssigned.object_eq, hAssigned.property_eq]
      rfl
    refine ⟨hOccurrences.trans h.numbered, ?_, ?_, ?_, ?_⟩
    · rw [hJournal, hWaiting]
      show (w.due :: a.journal.filterMap Entry.settles? ++ _).Perm _
      rw [hDue]
      exact List.perm_middle.symm.trans hBalanced
    · rw [hWaiting]
      exact hBound
    · intro w' extent' n hMem hOrigin
      rw [hJournal] at hMem ⊢
      rw [latestOutcome_cons_of_none rfl]
      rcases List.mem_cons.1 hMem with hSame | hMem
      · obtain ⟨rfl, -⟩ := Entry.wrote.inj hSame
        rw [hAssigned.origin_eq, Origin.occurrence.injEq] at hOrigin
        subst hOrigin
        exact ⟨v, latestOutcome_evaluated ..⟩
      · exact h.written_evaluated hMem hOrigin
    · intro n target hMem
      rw [hJournal] at hMem ⊢
      rw [latestOutcome_cons_of_none rfl]
      rcases List.mem_cons.1 hMem with hSame | hMem
      · cases hSame
      · exact h.skipped_evaluated hMem
  | nothing hEvaluated =>
    exact ⟨h.numbered, List.perm_middle.symm.trans hBalanced, hBound,
      fun w extent n hMem hOrigin => h.written_evaluated hMem hOrigin,
      fun n target hMem => h.skipped_evaluated hMem⟩
  | deferred required hEvaluated =>
    refine ⟨h.numbered, ?_, ?_, ?_, ?_⟩
    · show (a.journal.filterMap Entry.settles? ++
        (held ++ (a.waiting ++ [{ b with required }])).map Binding.due).Perm _
      refine .trans (List.Perm.append_left _ ?_) hBalanced
      rw [← List.append_assoc, List.map_append]
      exact List.perm_append_singleton ..
    · intro b' hMem
      have hMem : b' ∈ (held ++ a.waiting) ++ [{ b with required }] := by
        rw [List.append_assoc]
        exact hMem
      rcases List.mem_append.1 hMem with hMem | hMem
      · exact hBound b' hMem
      · rw [List.mem_singleton] at hMem
        subst hMem
        exact h.bound b (List.mem_cons_self ..)
    · exact fun w extent n hMem hOrigin => h.written_evaluated hMem hOrigin
    · exact fun n target hMem => h.skipped_evaluated hMem

omit [Hooks H] in
/-- Bindings that are taken out of the queue are held. -/
theorem taken {uses : List Use} {a : Assembly H} (h : Accounted uses [] a) (p : Binding → Bool) :
    Accounted uses (a.waiting.filter p) { a with waiting := a.waiting.filter fun b => !p b } := by
  have hParted := List.filter_append_perm p a.waiting
  refine ⟨h.numbered, ?_, ?_, h.written, h.skipped⟩
  · exact ((hParted.map Binding.due).append_left _).trans h.balanced
  · intro b hMem
    exact h.bound b (hParted.mem_iff.1 hMem)

/-- A drain only moves what is due from the waiting bindings to the settled ones. -/
theorem drained {uses : List Use} {a a' : Assembly H} {complete : Bool} {n : Nat}
    (h : Accounted uses [] a) (hDrain : Assemble.drain vocabulary complete a = .ok n a') :
    Accounted uses [] a' :=
  Assemble.drain_induction (P := Accounted uses) (fun _ _ _ _ h hReran => h.reran hReran)
    (h.taken _) hDrain

/-- A text that is applied is due from then on, and settled or waiting. -/
theorem applied {uses : List Use} {object : ObjectId} {name text : String}
    {dataContext : Option Value} {a a' : Assembly H} (h : Accounted uses [] a)
    (hReran : Assemble.Reran vocabulary false ⟨a.occurrences, text, object, name, dataContext, .empty⟩
      { a with occurrences := a.occurrences + 1 } a') :
    Accounted (uses ++ [⟨object, name, .text text⟩]) [] a' := by
  refine reran (b := ⟨a.occurrences, text, object, name, dataContext, .empty⟩) ?_ hReran
  refine ⟨?_, ?_, ?_, h.written, h.skipped⟩
  · rw [Use.texts_append, List.length_append, ← h.numbered]
    rfl
  · rw [duesFrom_append, Nat.zero_add, ← h.numbered]
    refine .trans ?_ (h.balanced.append_right _)
    rw [List.append_assoc]
    exact (List.perm_append_singleton ..).symm.append_left _
  · intro b hMem
    rw [Use.texts_append]
    rcases List.mem_cons.1 hMem with rfl | hMem
    · rw [List.getElem?_append_right (Nat.le_of_eq h.numbered.symm), h.numbered, Nat.sub_self]
      rfl
    · have hBound := h.bound b hMem
      rw [List.getElem?_append_left (List.getElem?_eq_some_iff.1 hBound).1]
      exact hBound

/-- An element that is placed is due and settled at once. -/
theorem placed {uses : List Use} {child object : ObjectId} {name : String} {value : Value}
    {w : Write} {a a' : Assembly H} (h : Accounted uses [] a)
    (hAssigned : a.Assigns vocabulary (.element child) object name value w a') :
    Accounted (uses ++ [⟨object, name, .element child⟩]) [] a' := by
  obtain ⟨⟨extent, hJournal⟩, -, hWaiting, hOccurrences⟩ := hAssigned.rest
  have hDue : w.due = ⟨.element child, object, name⟩ := by
    rw [Write.due, hAssigned.origin_eq, hAssigned.object_eq, hAssigned.property_eq]
  refine ⟨?_, ?_, ?_, ?_, ?_⟩
  · rw [hOccurrences, h.numbered, Use.texts_append]
    simp
  · rw [hJournal, hWaiting, duesFrom_append]
    show (w.due :: a.journal.filterMap Entry.settles? ++ _).Perm (_ ++ [_])
    rw [hDue]
    exact (h.balanced.cons _).trans (List.perm_append_singleton ..).symm
  · intro b hMem
    rw [hWaiting] at hMem
    rw [Use.texts_append, Use.texts_element, Use.texts_nil, List.append_nil]
    exact h.bound b hMem
  · intro w' extent' n hMem hOrigin
    rw [hJournal] at hMem ⊢
    rw [latestOutcome_cons_of_none rfl]
    rcases List.mem_cons.1 hMem with hSame | hMem
    · obtain ⟨rfl, -⟩ := Entry.wrote.inj hSame
      rw [hAssigned.origin_eq] at hOrigin
      cases hOrigin
    · exact h.written w' extent' n hMem hOrigin
  · intro n target hMem
    rw [hJournal] at hMem ⊢
    rw [latestOutcome_cons_of_none rfl]
    rcases List.mem_cons.1 hMem with hSame | hMem
    · cases hSame
    · exact h.skipped n target hMem

/-- Every deed keeps the account, with what it uses. -/
theorem does {uses : List Use} {a a' : Assembly H} {d : Deed H} (h : Accounted uses [] a)
    (hDoes : Does vocabulary a d a') : Accounted (uses ++ Deed.uses [d]) [] a' := by
  have unused {a' : Assembly H} {d : Deed H} (hUses : Deed.uses [d] = [])
      (h' : Accounted uses [] a') : Accounted (uses ++ Deed.uses [d]) [] a' := by
    rw [hUses, List.append_nil]
    exact h'
  cases hDoes with
  | make type fresh known constructible =>
    refine unused rfl (record (a := { a with graph := a.graph.insert type fresh }) ?_ rfl fun _ => rfl)
    exact ⟨h.numbered, h.balanced, h.bound, h.written, h.skipped⟩
  | text object name text dataContext a' evaluated => exact h.applied evaluated
  | close type object id value stands => exact unused rfl (h.record rfl fun _ => rfl)
  | place child object name value w a' ended assigned => exact h.placed assigned
  | declare id value complete names n a' registered hDrained =>
    exact unused rfl ((h.named names).drained hDrained)

/-- After any deeds, what they used is accounted for. -/
theorem doesAll {scope : NameScope} {a : Assembly H} {ds : List (Deed H)}
    (h : DoesAll vocabulary (.start scope) ds a) : Accounted (Deed.uses ds) [] a := by
  refine DoesAll.invariant (P := fun done a => Accounted (Deed.uses done) [] a)
    (fun done a d a' hDone hDoes => ?_) (start scope) h
  rw [Deed.uses_append]
  exact hDone.does hDoes

end Accounted

/-! ### What the account says -/

/-- Whether something is due for a text. -/
def Due.isText (d : Due) : Bool :=
  match d.origin with
  | .occurrence _ => true
  | .element _ => false

/-- As many dues are for texts as the uses hold texts. -/
theorem countP_isText_duesFrom (n : Nat) (uses : List Use) :
    (duesFrom n uses).countP Due.isText = (Use.texts uses).length := by
  induction uses generalizing n with
  | nil => rfl
  | cons u rest ih =>
    obtain ⟨object, property, content | child⟩ := u
    · rw [duesFrom, List.countP_cons_of_pos rfl, ih, Use.texts_text, List.length_cons]
    · rw [duesFrom, List.countP_cons_of_neg (by simp [Due.isText]), ih, Use.texts_element]

/-- The texts that a journal settles are its assignments and its skips. -/
theorem countP_isText_settled (journal : List Entry) :
    (journal.filterMap Entry.settles?).countP Due.isText =
      journal.countP Entry.isAssignment + journal.countP Entry.isSkip := by
  induction journal with
  | nil => rfl
  | cons entry rest ih =>
    cases entry with
    | opened object => exact ih
    | evaluated n target outcome =>
      cases outcome with
      | value v => exact ih
      | nothing =>
        show (_ :: rest.filterMap Entry.settles?).countP Due.isText = _
        rw [List.countP_cons_of_pos rfl, ih,
          List.countP_cons_of_neg (by simp [Entry.isAssignment]), List.countP_cons_of_pos rfl]
        omega
      | deferred required => exact ih
    | wrote w extent =>
      obtain ⟨origin, object, property, key, value⟩ := w
      cases origin with
      | occurrence n =>
        show (_ :: rest.filterMap Entry.settles?).countP Due.isText = _
        rw [List.countP_cons_of_pos rfl, ih,
          List.countP_cons_of_pos rfl, List.countP_cons_of_neg (by simp [Entry.isSkip])]
        omega
      | element child => exact ih
    | closed object id value => exact ih

/-- The writes that a journal tells. -/
def Entry.writes (journal : List Entry) : List Write := journal.filterMap Entry.write?

/-- The writes of the text with a number. -/
def Entry.writesOf (n : Nat) (journal : List Entry) : List Write :=
  (writes journal).filter fun w => w.due.isOf n

/-- The writes of a journal are those its entries record, at whatever extent. -/
theorem Entry.mem_writes_iff {journal : List Entry} {w : Write} :
    w ∈ writes journal ↔ ∃ extent, .wrote w extent ∈ journal := by
  rw [writes, List.mem_filterMap]
  constructor
  · rintro ⟨entry, hEntry, hWrite⟩
    cases entry with
    | wrote w' extent =>
      cases hWrite
      exact ⟨extent, hEntry⟩
    | _ => cases hWrite
  · rintro ⟨extent, hEntry⟩
    exact ⟨.wrote w extent, hEntry, rfl⟩

/-- Each write settles something of its own. -/
theorem sublist_due_writes (journal : List Entry) :
    ((Entry.writes journal).map Write.due).Sublist (journal.filterMap Entry.settles?) := by
  induction journal with
  | nil => exact .slnil
  | cons entry rest ih =>
    cases entry with
    | opened object => exact ih
    | evaluated n target outcome =>
      cases outcome with
      | value v => exact ih
      | nothing => exact ih.cons _
      | deferred required => exact ih
    | wrote w extent => exact ih.cons_cons _
    | closed object id value => exact ih

namespace Accounted

variable {uses : List Use} {a : Assembly H}

/-- Every text that was applied was assigned, came to nothing, or waits. -/
theorem balance (h : Accounted uses [] a) :
    a.occurrences = a.journal.countP Entry.isAssignment + a.journal.countP Entry.isSkip +
      a.waiting.length := by
  have hWaiting : (a.waiting.map Binding.due).countP Due.isText = a.waiting.length := by
    rw [← List.length_map (f := Binding.due), List.countP_eq_length]
    intro d hMem
    obtain ⟨b, -, rfl⟩ := List.mem_map.1 hMem
    rfl
  rw [h.numbered, ← countP_isText_duesFrom 0, ← h.balanced.countP_eq, List.countP_append,
    List.nil_append, hWaiting, countP_isText_settled]

/-- There are no more writes of a kind than dues of that kind. -/
theorem length_filter_writes_le (h : Accounted uses [] a) (kind : Due → Bool) :
    ((Entry.writes a.journal).filter fun w => kind w.due).length ≤ (duesFrom 0 uses).countP kind := by
  have hSettled := List.Sublist.countP_le (p := kind) (sublist_due_writes a.journal)
  rw [List.countP_map, List.countP_eq_length_filter] at hSettled
  refine Nat.le_trans hSettled ?_
  rw [← h.balanced.countP_eq, List.countP_append]
  exact Nat.le_add_right ..

/-- When nothing waits, all that is due was written or came to nothing. -/
theorem settled (h : Accounted uses [] a) (hWaiting : a.waiting = []) {d : Due}
    (hDue : d ∈ duesFrom 0 uses) :
    (∃ w ∈ Entry.writes a.journal, w.due = d) ∨
      ∃ n target, .evaluated n target .nothing ∈ a.journal ∧
        d = ⟨.occurrence n, target.object, target.property⟩ := by
  have hMem := h.balanced.mem_iff.2 hDue
  rw [hWaiting, List.append_nil, List.map_nil, List.append_nil, List.mem_filterMap] at hMem
  obtain ⟨entry, hEntry, hSettles⟩ := hMem
  cases entry with
  | opened object => cases hSettles
  | evaluated n target outcome =>
    cases outcome with
    | value v => cases hSettles
    | nothing =>
      cases hSettles
      exact .inr ⟨n, target, hEntry, rfl⟩
    | deferred required => cases hSettles
  | wrote w extent =>
    cases hSettles
    exact .inl ⟨w, List.mem_filterMap.2 ⟨_, hEntry, rfl⟩, rfl⟩
  | closed object id value => cases hSettles

/-- A list of at most one member that has a given member is that member alone. -/
theorem eq_singleton_of_mem {α : Type} {l : List α} {x : α} (hMem : x ∈ l) (hLength : l.length ≤ 1) :
    l = [x] := by
  cases l with
  | nil => cases hMem
  | cons first rest =>
    have hRest : rest = [] := List.eq_nil_of_length_eq_zero (by simpa using hLength)
    subst hRest
    rw [List.mem_singleton.1 hMem]

/-- When nothing waits, a text was written once, where it was used, or came to nothing. -/
theorem settled_text (h : Accounted uses [] a) (hWaiting : a.waiting = []) {n : Nat} {u : TextUse}
    (hText : (Use.texts uses)[n]? = some u) :
    (∃ w v, Entry.writesOf n a.journal = [w] ∧ w.object = u.object ∧ w.property = u.property ∧
        latestOutcome n a.journal = some (.value v)) ∨
      (Entry.writesOf n a.journal = [] ∧ latestOutcome n a.journal = some .nothing) := by
  have hLt : n < (Use.texts uses).length := (List.getElem?_eq_some_iff.1 hText).1
  have hOnce := countP_isOf_of_lt (Nat.zero_le n) (by rwa [Nat.zero_add])
  obtain ⟨d, hDue, hOf⟩ := List.countP_pos_iff.1 (by rw [hOnce]; exact Nat.one_pos)
  have hOrigin : d.origin = .occurrence n := beq_iff_eq.1 hOf
  obtain ⟨content, -, hUse⟩ := getElem?_of_mem_duesFrom hDue hOrigin
  rw [Nat.sub_zero, hText, Option.some.injEq] at hUse
  subst hUse
  have outcome_of_write {w : Write} (hMem : w ∈ Entry.writesOf n a.journal) :
      ∃ v, latestOutcome n a.journal = some (.value v) := by
    obtain ⟨hMem, hOf⟩ := List.mem_filter.1 hMem
    obtain ⟨extent, hEntry⟩ := Entry.mem_writes_iff.1 hMem
    exact h.written w extent n hEntry (beq_iff_eq.1 hOf)
  rcases h.settled hWaiting hDue with ⟨w, hWrite, hSame⟩ | ⟨m, target, hSkip, hSame⟩
  · have hMem : w ∈ Entry.writesOf n a.journal :=
      List.mem_filter.2 ⟨hWrite, by rw [hSame]; exact hOf⟩
    have hLength := h.length_filter_writes_le (Due.isOf n)
    rw [hOnce] at hLength
    obtain ⟨v, hValue⟩ := outcome_of_write hMem
    have hOnly : Entry.writesOf n a.journal = [w] := eq_singleton_of_mem hMem hLength
    refine .inl ⟨w, v, hOnly, ?_, ?_, hValue⟩
    · rw [← hSame]
      rfl
    · rw [← hSame]
      rfl
  · have hNumber : m = n := by
      rw [hSame, Origin.occurrence.injEq] at hOrigin
      exact hOrigin
    subst hNumber
    have hNothing := h.skipped m target hSkip
    refine .inr ⟨?_, hNothing⟩
    refine List.eq_nil_iff_forall_not_mem.2 fun w hMem => ?_
    obtain ⟨v, hValue⟩ := outcome_of_write hMem
    rw [hNothing] at hValue
    cases hValue

/-- No write is of a text that was not used. -/
theorem writesOf_eq_nil (h : Accounted uses [] a) {n : Nat} (hNone : (Use.texts uses)[n]? = none) :
    Entry.writesOf n a.journal = [] := by
  have hLength := h.length_filter_writes_le (Due.isOf n)
  rw [countP_isOf_of_not_lt (by rw [List.getElem?_eq_none_iff] at hNone; omega)] at hLength
  exact List.eq_nil_of_length_eq_zero (Nat.le_zero.1 hLength)

end Accounted

end ObjectMarkup
