import ObjectMarkup.Proofs.CoarseObligations

/-!
# Where values go

A value goes into the innermost open element, or to where a binding waits to put it. Both are objects
that were made for elements, and their types are still there. `Placed` is what an invariant of runs
needs for that, with a lemma for each kind of step.
-/

set_option autoImplicit false

namespace ObjectMarkup

variable {H : Host}

/-- Elements that are open and bindings are about objects that were made for elements. What is open
has the type that it was opened with. -/
structure Placed (m : Moment H) : Prop where
  opened : ∀ e ∈ m.path, .opened e.object ∈ m.journal
  typed : ∀ e ∈ m.path, m.graph.type? e.object = some e.type
  targets : ∀ b ∈ m.bindings, .opened b.target ∈ m.journal
  known : ∀ b ∈ m.bindings, ∃ type, m.graph.type? b.target = some type

namespace Placed

variable {m : Moment H}

/-- Nothing is open and nothing bound at the start. -/
theorem start : Placed (.start : Moment H) where
  opened _ hMem := absurd hMem List.not_mem_nil
  typed _ hMem := absurd hMem List.not_mem_nil
  targets _ hMem := absurd hMem List.not_mem_nil
  known _ hMem := absurd hMem List.not_mem_nil

/-- What a value may go into was made for an element. -/
theorem of_admits (h : Placed m) {object : ObjectId} (hAdmits : m.Admits object) :
    .opened object ∈ m.journal ∧ ∃ type, m.graph.type? object = some type := by
  rcases hAdmits with ⟨b, hMem, rfl⟩ | ⟨e, hTop, rfl⟩
  · exact ⟨h.targets b hMem, h.known b hMem⟩
  · have hMem := List.mem_of_mem_head? hTop
    exact ⟨h.opened e hMem, e.type, h.typed e hMem⟩

/-- Objects keep their types, and the journal gets longer. -/
theorem grows (h : Placed m) {graph : ObjectGraph H} {names : NameTable} {journal : List Entry}
    (hGraph : m.graph.Grows graph) (hJournal : m.journal ⊆ journal) :
    Placed { m with graph, names, journal } where
  opened e hMem := hJournal (h.opened e hMem)
  typed e hMem := hGraph _ _ (h.typed e hMem)
  targets b hMem := hJournal (h.targets b hMem)
  known b hMem := by
    obtain ⟨type, hType⟩ := h.known b hMem
    exact ⟨type, hGraph _ _ hType⟩

/-- Another entry in the journal changes nothing of that. -/
theorem record (h : Placed m) (entry : Entry) : Placed { m with journal := entry :: m.journal } :=
  h.grows (.refl m.graph) (List.subset_cons_self ..)

/-- With fewer bindings the rest is as it was. -/
theorem fewer (h : Placed m) {bindings : List Binding} (hFewer : bindings ⊆ m.bindings) :
    Placed { m with bindings } :=
  ⟨h.opened, h.typed, fun b hMem => h.targets b (hFewer hMem),
    fun b hMem => h.known b (hFewer hMem)⟩

/-- An element whose object was just made is open with its type. -/
theorem made (h : Placed m) (type : ElementType H) (fresh : Instance H) :
    Placed { m with
      path := ⟨type, m.graph.nextId⟩ :: m.path
      graph := m.graph.insert type fresh
      journal := .opened m.graph.nextId :: m.journal } := by
  have hOld : Placed { m with
      graph := m.graph.insert type fresh, journal := .opened m.graph.nextId :: m.journal } :=
    h.grows (.insert m.graph type fresh) (List.subset_cons_self ..)
  have hType : (m.graph.insert type fresh).type? m.graph.nextId = some type := by
    rw [ObjectGraph.type?, ObjectGraph.slot?_insert_nextId]
    rfl
  exact ⟨List.forall_mem_cons.2 ⟨List.mem_cons_self .., hOld.opened⟩,
    List.forall_mem_cons.2 ⟨hType, hOld.typed⟩, hOld.targets, hOld.known⟩

/-- A text is bound to the innermost open element. -/
theorem bound (h : Placed m) {e : Enclosing H} {path : List (Enclosing H)} {b : Binding}
    (hPath : m.path = e :: path) (hTarget : b.target = e.object) (occurrences : Nat) :
    Placed { m with bindings := b :: m.bindings, occurrences } := by
  have hMem : e ∈ m.path := by
    rw [hPath]
    exact List.mem_cons_self ..
  refine ⟨h.opened, h.typed, List.forall_mem_cons.2 ⟨?_, h.targets⟩,
    List.forall_mem_cons.2 ⟨⟨e.type, ?_⟩, h.known⟩⟩
  · rw [hTarget]
    exact h.opened e hMem
  · rw [hTarget]
    exact h.typed e hMem

/-- A binding that waits again has the target it had. -/
theorem again (h : Placed m) {b : Binding} (hMem : b ∈ m.bindings) (required : Identifiers) :
    Placed { m with bindings := { b with required } :: m.bindings } :=
  ⟨h.opened, h.typed, List.forall_mem_cons.2 ⟨h.targets b hMem, h.targets⟩,
    List.forall_mem_cons.2 ⟨h.known b hMem, h.known⟩⟩

/-- An element that is closed is no longer open. -/
theorem closed (h : Placed m) {e : Enclosing H} {path : List (Enclosing H)}
    (hPath : m.path = e :: path) (entry : Entry) :
    Placed { m with path, journal := entry :: m.journal } := by
  have hFewer : path ⊆ m.path := by
    rw [hPath]
    exact List.subset_cons_self ..
  have hOld := h.record entry
  exact ⟨fun e hMem => hOld.opened e (hFewer hMem), fun e hMem => hOld.typed e (hFewer hMem),
    hOld.targets, hOld.known⟩

/-- The value of the root changes nothing of that. -/
theorem rooted (h : Placed m) (root : Option Value) : Placed { m with root } :=
  ⟨h.opened, h.typed, h.targets, h.known⟩

end Placed

end ObjectMarkup
