import ObjectMarkup.Proofs.StepObligations
import ObjectMarkup.Proofs.WaitingPlaces

/-!
# Histories of texts

The journal has a file for each text: the evaluations of the text, and the write of its value
(`Entry.fileOf`). The file of a text is its history (`History.IsOf`): it was evaluated, again and again as
long as it had to wait, each time when all was declared that it waited for; and when it had a value, that
was written. What is pending are the bindings and the text in hand (`Filed`).
-/

set_option autoImplicit false

namespace ObjectMarkup

open Operation

variable {H : Host}

/-! ### Files and histories -/

namespace Entry

/-- Whether an entry is about the text with a number: an evaluation of it, or the write of its value. -/
def isOf (n : Nat) : Entry → Bool
  | .evaluated m _ _ => m == n
  | .wrote w _ => w.origin == .occurrence n
  | _ => false

/-- What a journal tells about the text with a number. -/
def fileOf (n : Nat) (journal : List Entry) : List Entry := journal.filter (isOf n)

variable {n : Nat} {entry : Entry}

/-- An entry about the text is the latest in its file. -/
theorem fileOf_cons_of_isOf (h : entry.isOf n = true) (journal : List Entry) :
    fileOf n (entry :: journal) = entry :: fileOf n journal :=
  List.filter_cons_of_pos h

/-- An entry about something else is not in the file. -/
theorem fileOf_cons (h : entry.isOf n = false) (journal : List Entry) :
    fileOf n (entry :: journal) = fileOf n journal :=
  List.filter_cons_of_neg (by simp [h])

/-- The evaluation of another text is about something else. -/
theorem isOf_evaluated {m : Nat} (h : m ≠ n) (target : Target) (outcome : Outcome) :
    (evaluated m target outcome).isOf n = false := by
  simpa [isOf] using h

/-- The write of another text is about something else. -/
theorem isOf_wrote {m : Nat} {w : Write} (hOrigin : w.origin = .occurrence m) (h : m ≠ n)
    (extent : Nat) : (wrote w extent).isOf n = false := by
  simpa [isOf, hOrigin] using h

end Entry

/-- The target of a text that is evaluated for a data context. -/
def TextUse.target (u : TextUse) (dataContext : Option Value) : Target :=
  ⟨u.object, u.property, dataContext, true⟩

/-- The text of a binding. -/
def Binding.use (b : Binding) : TextUse := ⟨b.target, b.property, b.expression⟩

/-- A binding that waits: what it came to last. -/
def Binding.pending (b : Binding) : Binding × Outcome := (b, .deferred b.required)

/-- What was done about a text: its evaluations, the latest one first, and what was written then, with
the number of objects. -/
structure History (H : Host) where
  visits : List (Visit H)
  written : Option (Write × Nat)

namespace History

/-- What a journal tells of it. -/
def entries (h : History H) (n : Nat) (target : Target) : List Entry :=
  h.written.toList.map (fun w => .wrote w.1 w.2) ++ h.visits.map fun v => .evaluated n target v.outcome

/-- What the text came to last. -/
def outcome? (h : History H) : Option Outcome := h.visits.head?.map Visit.outcome

/-- Nothing is left to be done: a value was written, or the text came to nothing. -/
def IsSettled (h : History H) : Prop := h.written.isSome = true ∨ h.outcome? = some .nothing

/-- The history of the text `u`, which has the number `n`. Its names are still there, and what was
written is a value that the text came to. -/
structure IsOf [Hooks H] (vocabulary : Vocabulary H) (scope : NameScope) (h : History H) (n : Nat)
    (u : TextUse) (dataContext : Option Value) (names : NameTable) (journal : List Entry) : Prop where
  visits : Visits vocabulary scope (u.target dataContext) u.content h.visits
  file : Entry.fileOf n journal = h.entries n (u.target dataContext)
  names : ∀ v ∈ h.visits, v.names.Grows names
  written : ∀ w ∈ h.written, w.1.object = u.object ∧ w.1.property = u.property ∧
    ∃ v, h.outcome? = some (.value v)

variable [Hooks H] {vocabulary : Vocabulary H} {scope : NameScope} {h : History H} {n : Nat}
  {u : TextUse} {dataContext : Option Value} {names names' : NameTable} {journal journal' : List Entry}

/-- What is not about a text leaves its history. -/
theorem IsOf.same (hOf : h.IsOf vocabulary scope n u dataContext names journal)
    (hFile : Entry.fileOf n journal' = Entry.fileOf n journal) :
    h.IsOf vocabulary scope n u dataContext names journal' :=
  ⟨hOf.visits, hFile.trans hOf.file, hOf.names, hOf.written⟩

/-- Names that are declared leave it, too. -/
theorem IsOf.named (hOf : h.IsOf vocabulary scope n u dataContext names journal)
    (hNames : names.Grows names') : h.IsOf vocabulary scope n u dataContext names' journal where
  visits := hOf.visits
  file := hOf.file
  names v hMem id value hFound := hNames id value (hOf.names v hMem id value hFound)
  written := hOf.written

/-- The text is evaluated for the first time. -/
theorem isOf_first {graph : ObjectGraph H} {outcome : Outcome}
    (hRun : evaluate vocabulary ⟨scope, graph, names⟩ (u.target dataContext) u.content = .ok outcome)
    (hFile : Entry.fileOf n journal = []) :
    (⟨[⟨graph, names, outcome⟩], none⟩ : History H).IsOf vocabulary scope n u dataContext names
      (.evaluated n (u.target dataContext) outcome :: journal) where
  visits := .first ⟨graph, names, outcome⟩ hRun
  file := by
    rw [Entry.fileOf_cons_of_isOf (by simp [Entry.isOf]), hFile]
    rfl
  names v hMem := by
    rw [List.mem_singleton.1 hMem]
    exact fun _ _ hFound => hFound
  written _ hMem := absurd hMem (Option.not_mem_none _)

/-- A text that waits is evaluated again when all is declared that it waits for. -/
theorem IsOf.again (hOf : h.IsOf vocabulary scope n u dataContext names journal)
    (hWritten : h.written = none) {required : Identifiers}
    (hWaits : h.outcome? = some (.deferred required)) (hReady : names.containsAll required = true)
    {graph : ObjectGraph H} {outcome : Outcome}
    (hRun : evaluate vocabulary ⟨scope, graph, names⟩ (u.target dataContext) u.content = .ok outcome) :
    (⟨⟨graph, names, outcome⟩ :: h.visits, none⟩ : History H).IsOf vocabulary scope n u dataContext names
      (.evaluated n (u.target dataContext) outcome :: journal) := by
  obtain ⟨visits, written⟩ := h
  cases hWritten
  obtain ⟨w, hHead, hOutcome⟩ := Option.map_eq_some_iff.1 hWaits
  obtain ⟨earlier, rfl⟩ := List.head?_eq_some_iff.1 hHead
  refine ⟨?_, ?_, ?_, fun _ hMem => absurd hMem (Option.not_mem_none _)⟩
  · exact .again ⟨graph, names, outcome⟩ w earlier required hRun hOutcome hReady
      (hOf.names w (List.mem_cons_self ..)) hOf.visits
  · rw [Entry.fileOf_cons_of_isOf (by simp [Entry.isOf]), hOf.file]
    rfl
  · exact List.forall_mem_cons.2 ⟨fun _ _ hFound => hFound, hOf.names⟩

/-- The value of a text is written. -/
theorem IsOf.write (hOf : h.IsOf vocabulary scope n u dataContext names journal)
    (hWritten : h.written = none) {value : Value} (hValue : h.outcome? = some (.value value)) {w : Write}
    (hOrigin : w.origin = .occurrence n) (hObject : w.object = u.object)
    (hProperty : w.property = u.property) (extent : Nat) :
    (⟨h.visits, some (w, extent)⟩ : History H).IsOf vocabulary scope n u dataContext names
      (.wrote w extent :: journal) where
  visits := hOf.visits
  file := by
    rw [Entry.fileOf_cons_of_isOf (by simp [Entry.isOf, hOrigin]), hOf.file, entries, hWritten]
    rfl
  names := hOf.names
  written w' hMem := by
    cases hMem
    exact ⟨hObject, hProperty, value, hValue⟩

end History

/-! ### Files in a run -/

/-- The texts so far, with their data contexts, are told by the journal. Some of them are pending, with
what they came to; the others are settled. -/
structure Filed [Hooks H] (vocabulary : Vocabulary H) (scope : NameScope)
    (texts : List (TextUse × Option Value)) (pending : List (Binding × Outcome)) (names : NameTable)
    (occurrences : Nat) (journal : List Entry) : Prop where
  numbered : texts.length = occurrences
  unread : ∀ n, texts.length ≤ n → Entry.fileOf n journal = []
  distinct : (pending.map fun x => x.1.occurrence).Nodup
  unsettled : ∀ x ∈ pending, texts[x.1.occurrence]? = some (x.1.use, x.1.dataContext) ∧
    ∃ h : History H,
      h.IsOf vocabulary scope x.1.occurrence x.1.use x.1.dataContext names journal ∧
        h.written = none ∧ h.outcome? = some x.2
  settled : ∀ n u dataContext, texts[n]? = some (u, dataContext) →
    (∀ x ∈ pending, x.1.occurrence ≠ n) →
      ∃ h : History H, h.IsOf vocabulary scope n u dataContext names journal ∧ h.IsSettled

namespace Filed

variable [Hooks H] {vocabulary : Vocabulary H} {scope : NameScope}
  {texts : List (TextUse × Option Value)} {pending : List (Binding × Outcome)}
  {names names' : NameTable} {occurrences : Nat} {journal journal' : List Entry} {b : Binding}
  {outcome : Outcome}

/-- Before anything is made, there are no files. -/
theorem start (vocabulary : Vocabulary H) (scope : NameScope) :
    Filed vocabulary scope [] [] .empty 0 [] where
  numbered := rfl
  unread _ _ := rfl
  distinct := .nil
  unsettled _ hMem := absurd hMem List.not_mem_nil
  settled _ _ _ hText := absurd hText (by simp)

/-- The order of what is pending does not matter. -/
theorem sorted (h : Filed vocabulary scope texts pending names occurrences journal)
    {pending' : List (Binding × Outcome)} (hPerm : pending'.Perm pending) :
    Filed vocabulary scope texts pending' names occurrences journal where
  numbered := h.numbered
  unread := h.unread
  distinct := (hPerm.map _).nodup_iff.2 h.distinct
  unsettled x hMem := h.unsettled x (hPerm.mem_iff.1 hMem)
  settled n u dataContext hText hNone :=
    h.settled n u dataContext hText fun x hMem => hNone x (hPerm.mem_iff.2 hMem)

/-- What is not about any text leaves all files. -/
theorem same (h : Filed vocabulary scope texts pending names occurrences journal)
    (hNames : names.Grows names')
    (hFiles : ∀ n, Entry.fileOf n journal' = Entry.fileOf n journal) :
    Filed vocabulary scope texts pending names' occurrences journal' where
  numbered := h.numbered
  unread n hLe := (hFiles n).trans (h.unread n hLe)
  distinct := h.distinct
  unsettled x hMem := by
    obtain ⟨hText, history, hOf, hRest⟩ := h.unsettled x hMem
    exact ⟨hText, history, (hOf.named hNames).same (hFiles _), hRest⟩
  settled n u dataContext hText hNone := by
    obtain ⟨history, hOf, hSettled⟩ := h.settled n u dataContext hText hNone
    exact ⟨history, (hOf.named hNames).same (hFiles n), hSettled⟩

/-- An entry that is about no text leaves the files. -/
theorem record (h : Filed vocabulary scope texts pending names occurrences journal) {entry : Entry}
    (hOther : ∀ n, entry.isOf n = false) :
    Filed vocabulary scope texts pending names occurrences (entry :: journal) :=
  h.same (fun _ _ hFound => hFound) fun n => Entry.fileOf_cons (hOther n) journal

/-- A text is given and evaluated. -/
theorem read (h : Filed vocabulary scope texts pending names occurrences journal)
    (hNumber : b.occurrence = occurrences) {graph : ObjectGraph H}
    (hRun : evaluate vocabulary ⟨scope, graph, names⟩ b.reading.1 b.expression = .ok outcome) :
    Filed vocabulary scope (texts ++ [(b.use, b.dataContext)]) ((b, outcome) :: pending) names
      (occurrences + 1) (.evaluated b.occurrence b.reading.1 outcome :: journal) := by
  have hNew : b.occurrence = texts.length := hNumber.trans h.numbered.symm
  have hOld {n : Nat} (hLess : n < texts.length) :
      Entry.fileOf n (.evaluated b.occurrence b.reading.1 outcome :: journal) = Entry.fileOf n journal :=
    Entry.fileOf_cons (Entry.isOf_evaluated (by omega) ..) journal
  have hBefore (x : Binding × Outcome) (hMem : x ∈ pending) : x.1.occurrence < texts.length :=
    (List.getElem?_eq_some_iff.1 (h.unsettled x hMem).1).1
  refine ⟨?_, fun n hLe => ?_, ?_, ?_, fun n u dataContext hText hNone => ?_⟩
  · rw [List.length_append, h.numbered]
    rfl
  · rw [List.length_append, List.length_singleton] at hLe
    rw [Entry.fileOf_cons (Entry.isOf_evaluated (by omega) ..)]
    exact h.unread n (by omega)
  · refine List.nodup_cons.2 ⟨fun hMem => ?_, h.distinct⟩
    obtain ⟨x, hMem, hSame⟩ := List.mem_map.1 hMem
    have hLess := hBefore x hMem
    rw [show x.1.occurrence = texts.length from hSame.trans hNew] at hLess
    exact Nat.lt_irrefl _ hLess
  · refine List.forall_mem_cons.2 ⟨⟨?_, ?_⟩, fun x hMem => ?_⟩
    · rw [hNew]
      exact List.getElem?_concat_length
    · exact ⟨_, History.isOf_first hRun (h.unread _ (Nat.le_of_eq hNew.symm)), rfl, rfl⟩
    · obtain ⟨hText, history, hOf, hRest⟩ := h.unsettled x hMem
      have hLess := hBefore x hMem
      rw [List.getElem?_append_left hLess]
      exact ⟨hText, history, hOf.same (hOld hLess), hRest⟩
  · obtain ⟨hOther, hNone⟩ := List.forall_mem_cons.1 hNone
    have hLess : n < texts.length := by
      have hLength := (List.getElem?_eq_some_iff.1 hText).1
      rw [List.length_append, List.length_singleton] at hLength
      rw [hNew] at hOther
      omega
    rw [List.getElem?_append_left hLess] at hText
    obtain ⟨history, hOf, hSettled⟩ := h.settled n u dataContext hText hNone
    exact ⟨history, hOf.same (hOld hLess), hSettled⟩

/-- What is about one text that is pending leaves the files of all others. -/
theorem others (h : Filed vocabulary scope texts ((b, outcome) :: pending) names occurrences journal)
    (hFiles : ∀ n, n ≠ b.occurrence → Entry.fileOf n journal' = Entry.fileOf n journal) :
    (∀ n, texts.length ≤ n → Entry.fileOf n journal' = []) ∧
      (∀ x ∈ pending, texts[x.1.occurrence]? = some (x.1.use, x.1.dataContext) ∧
        ∃ history : History H,
          history.IsOf vocabulary scope x.1.occurrence x.1.use x.1.dataContext names journal' ∧
            history.written = none ∧ history.outcome? = some x.2) ∧
      ∀ n u dataContext, texts[n]? = some (u, dataContext) → b.occurrence ≠ n →
        (∀ x ∈ pending, x.1.occurrence ≠ n) →
          ∃ history : History H,
            history.IsOf vocabulary scope n u dataContext names journal' ∧ history.IsSettled := by
  obtain ⟨⟨hText, -⟩, hPending⟩ := List.forall_mem_cons.1 h.unsettled
  have hLess : b.occurrence < texts.length := (List.getElem?_eq_some_iff.1 hText).1
  refine ⟨fun n hLe => ?_, fun x hMem => ?_, fun n u dataContext hText hOther hNone => ?_⟩
  · rw [hFiles n (by omega)]
    exact h.unread n hLe
  · obtain ⟨hText, history, hOf, hRest⟩ := hPending x hMem
    have hOther : x.1.occurrence ≠ b.occurrence := fun hSame =>
      (List.nodup_cons.1 h.distinct).1 (List.mem_map.2 ⟨x, hMem, hSame⟩)
    exact ⟨hText, history, hOf.same (hFiles _ hOther), hRest⟩
  · obtain ⟨history, hOf, hSettled⟩ := h.settled n u dataContext hText
      (List.forall_mem_cons.2 ⟨hOther, hNone⟩)
    exact ⟨history, hOf.same (hFiles n (Ne.symm hOther)), hSettled⟩

/-- The text may be pending after that, with another outcome. -/
theorem turn (h : Filed vocabulary scope texts ((b, outcome) :: pending) names occurrences journal)
    {outcome' : Outcome}
    (hFiles : ∀ n, n ≠ b.occurrence → Entry.fileOf n journal' = Entry.fileOf n journal)
    (hHistory : ∃ history : History H,
      history.IsOf vocabulary scope b.occurrence b.use b.dataContext names journal' ∧
        history.written = none ∧ history.outcome? = some outcome') :
    Filed vocabulary scope texts ((b, outcome') :: pending) names occurrences journal' := by
  obtain ⟨hUnread, hPending, hSettled⟩ := h.others hFiles
  have hText := (h.unsettled _ (List.mem_cons_self ..)).1
  refine ⟨h.numbered, hUnread, h.distinct, List.forall_mem_cons.2 ⟨⟨hText, hHistory⟩, hPending⟩, ?_⟩
  intro n u dataContext hText hNone
  obtain ⟨hOther, hNone⟩ := List.forall_mem_cons.1 hNone
  exact hSettled n u dataContext hText hOther hNone

/-- Or it is settled. -/
theorem settle (h : Filed vocabulary scope texts ((b, outcome) :: pending) names occurrences journal)
    (hFiles : ∀ n, n ≠ b.occurrence → Entry.fileOf n journal' = Entry.fileOf n journal)
    (hHistory : ∃ history : History H,
      history.IsOf vocabulary scope b.occurrence b.use b.dataContext names journal' ∧
        history.IsSettled) :
    Filed vocabulary scope texts pending names occurrences journal' := by
  obtain ⟨hUnread, hPending, hSettled⟩ := h.others hFiles
  have hText := (h.unsettled _ (List.mem_cons_self ..)).1
  refine ⟨h.numbered, hUnread, (List.nodup_cons.1 h.distinct).2, hPending, ?_⟩
  intro n u dataContext hOwn hNone
  by_cases hSame : b.occurrence = n
  · subst hSame
    cases hText.symm.trans hOwn
    exact hHistory
  · exact hSettled n u dataContext hOwn hSame hNone

/-- A binding that is ready is evaluated again. -/
theorem reread (h : Filed vocabulary scope texts (b.pending :: pending) names occurrences journal)
    (hReady : b.isReady names = true) {graph : ObjectGraph H}
    (hRun : evaluate vocabulary ⟨scope, graph, names⟩ b.reading.1 b.expression = .ok outcome) :
    Filed vocabulary scope texts ((b, outcome) :: pending) names occurrences
      (.evaluated b.occurrence b.reading.1 outcome :: journal) := by
  refine turn h (fun n hOther => ?_) ?_
  · exact Entry.fileOf_cons (Entry.isOf_evaluated (Ne.symm hOther) ..) journal
  · obtain ⟨-, history, hOf, hWritten, hWaits⟩ := h.unsettled _ (List.mem_cons_self ..)
    exact ⟨_, hOf.again hWritten hWaits hReady hRun, rfl, rfl⟩

/-- A text that has to wait does so as a binding. -/
theorem waits {required : Identifiers}
    (h : Filed vocabulary scope texts ((b, .deferred required) :: pending) names occurrences journal) :
    Filed vocabulary scope texts (Binding.pending { b with required } :: pending) names occurrences
      journal where
  numbered := h.numbered
  unread := h.unread
  distinct := h.distinct
  unsettled := List.forall_mem_cons.2 (List.forall_mem_cons.1 h.unsettled)
  settled n u dataContext hText hNone :=
    h.settled n u dataContext hText (List.forall_mem_cons.2 (List.forall_mem_cons.1 hNone))

/-- A text that came to nothing is settled. -/
theorem skip (h : Filed vocabulary scope texts ((b, .nothing) :: pending) names occurrences journal) :
    Filed vocabulary scope texts pending names occurrences journal := by
  refine h.settle (fun _ _ => rfl) ?_
  obtain ⟨-, history, hOf, -, hNothing⟩ := h.unsettled _ (List.mem_cons_self ..)
  exact ⟨history, hOf, .inr hNothing⟩

/-- A text whose value was written is settled. -/
theorem write {value : Value}
    (h : Filed vocabulary scope texts ((b, .value value) :: pending) names occurrences journal)
    {w : Write} (hOrigin : w.origin = .occurrence b.occurrence) (hObject : w.object = b.target)
    (hProperty : w.property = b.property) (extent : Nat) :
    Filed vocabulary scope texts pending names occurrences (.wrote w extent :: journal) := by
  refine h.settle (fun n hOther => ?_) ?_
  · exact Entry.fileOf_cons (Entry.isOf_wrote hOrigin (Ne.symm hOther) extent) journal
  · obtain ⟨-, history, hOf, hWritten, hValue⟩ := h.unsettled _ (List.mem_cons_self ..)
    exact ⟨_, hOf.write hWritten hValue hOrigin hObject hProperty extent, .inl rfl⟩

end Filed

end ObjectMarkup
