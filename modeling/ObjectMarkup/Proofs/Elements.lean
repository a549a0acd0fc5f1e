import ObjectMarkup.Proofs.Ledger
import ObjectMarkup.Proofs.Trace

/-!
# Elements in the journal

The journal tells when an element is opened and when it is closed, with what it stands for then. An
object is made for each element when its tag is complete, at a place of its own in the graph, and
each object that is made is closed once. So in the journal of a document that compiles, each element
of the tree stands for one value. The name table holds what was declared, and nothing else.
-/

set_option autoImplicit false

namespace ObjectMarkup

variable {H : Host}

/-- The object that an element made, if an entry tells so. -/
def Entry.opened? : Entry → Option ObjectId
  | .opened object => some object
  | _ => none

/-- The object that was closed and what it stands for, if an entry tells so. -/
def Entry.closed? : Entry → Option (ObjectId × Value)
  | .closed object _ value => some (object, value)
  | _ => none

/-- The object that was closed, its identifier and what it stands for, if an entry tells so. -/
def Entry.closing? : Entry → Option (ObjectId × Option String × Value)
  | .closed object id value => some (object, id, value)
  | _ => none

/-- What the journal tells of an element that is over. -/
def Closing.told (c : Closing H) : ObjectId × Option String × Value :=
  (c.object, c.identifier, c.value)

/-- What deeds did to elements, as an assembly tells it. -/
structure Elements (ds : List (Deed H)) (a : Assembly H) : Prop where
  opened : (Deed.objects ds).map Prod.snd = (a.journal.filterMap Entry.opened?).reverse
  types : ∀ x ∈ Deed.objects ds, a.graph.type? x.2 = some x.1
  distinct : ((Deed.objects ds).map Prod.snd).Nodup
  closed : (Deed.closed ds).map Closing.told = (a.journal.filterMap Entry.closing?).reverse
  /-- What an element stands for is its object, if its type is no factory. -/
  stands : ∀ c ∈ Deed.closed ds, c.type.isFactory = false → c.value = .object c.object
  names : a.names.entries = (Deed.declared ds).reverse

namespace Elements

/-- What tells nothing of elements and keeps the types of objects changes nothing. -/
theorem unchanged {ds : List (Deed H)} {d : Deed H} {a a' : Assembly H} (h : Elements ds a)
    (hMade : Deed.objects [d] = []) (hClosed : Deed.closed [d] = [])
    (hGraph : a.graph.Grows a'.graph)
    (hOpenings : a'.journal.filterMap Entry.opened? = a.journal.filterMap Entry.opened?)
    (hClosings : a'.journal.filterMap Entry.closing? = a.journal.filterMap Entry.closing?)
    (hNames : a'.names.entries = (Deed.declared [d]).reverse ++ a.names.entries) :
    Elements (ds ++ [d]) a' := by
  have hObjects : Deed.objects (ds ++ [d]) = Deed.objects ds := by
    rw [Deed.objects_append, hMade, List.append_nil]
  have hOver : Deed.closed (ds ++ [d]) = Deed.closed ds := by
    rw [Deed.closed_append, hClosed, List.append_nil]
  refine ⟨?_, ?_, ?_, ?_, ?_, ?_⟩
  · rw [hObjects, hOpenings]
    exact h.opened
  · rw [hObjects]
    exact fun x hMem => hGraph x.2 x.1 (h.types x hMem)
  · rw [hObjects]
    exact h.distinct
  · rw [hOver, hClosings]
    exact h.closed
  · rw [hOver]
    exact h.stands
  · rw [hNames, h.names, Deed.declared_append, List.reverse_append]

/-- An object that is made has a place that none had before. -/
theorem made {ds : List (Deed H)} {a : Assembly H} (h : Elements ds a) (type : ElementType H)
    (fresh : Instance H) :
    Elements (ds ++ [.make type a.graph.nextId])
      (Assembly.record { a with graph := a.graph.insert type fresh } (.opened a.graph.nextId)) where
  opened := by
    rw [Deed.objects_append, List.map_append, h.opened]
    exact (List.reverse_cons ..).symm
  types x hMem := by
    rw [Deed.objects_append] at hMem
    rcases List.mem_append.1 hMem with hMem | hMem
    · exact ObjectGraph.Grows.insert a.graph type fresh x.2 x.1 (h.types x hMem)
    · cases List.mem_singleton.1 hMem
      show ((a.graph.insert type fresh).slot? a.graph.nextId).map Slot.type = some type
      rw [ObjectGraph.slot?_insert_nextId]
      rfl
  distinct := by
    have hFresh : a.graph.nextId ∉ (Deed.objects ds).map Prod.snd := by
      intro hMem
      obtain ⟨x, hMem, hSame⟩ := List.mem_map.1 hMem
      have hNone := (a.graph.slot?_eq_none_iff a.graph.nextId).2 (Nat.le_refl _)
      have hType := h.types x hMem
      rw [hSame, ObjectGraph.type?, hNone] at hType
      cases hType
    rw [Deed.objects_append, List.map_append]
    refine List.nodup_append.2 ⟨h.distinct, List.pairwise_singleton .., ?_⟩
    rintro object hOld _ hNew rfl
    rw [List.mem_singleton.1 hNew] at hOld
    exact hFresh hOld
  closed := by
    rw [Deed.closed_append, Deed.closed_make, Deed.closed_nil, List.append_nil]
    exact h.closed
  stands := by
    rw [Deed.closed_append, Deed.closed_make, Deed.closed_nil, List.append_nil]
    exact h.stands
  names := by
    rw [Deed.declared_append, Deed.declared_make, Deed.declared_nil, List.append_nil]
    exact h.names

/-- An element that is closed stands for what its type says. -/
theorem finished {ds : List (Deed H)} {a : Assembly H} (h : Elements ds a) {type : ElementType H}
    {object : ObjectId} {value : Value} (id : Option String)
    (hStands : type.StandsFor a.graph object value) :
    Elements (ds ++ [.close ⟨type, object, id, value⟩]) (a.record (.closed object id value)) where
  opened := by
    rw [Deed.objects_append, Deed.objects_close, Deed.objects_nil, List.append_nil]
    exact h.opened
  types := by
    rw [Deed.objects_append, Deed.objects_close, Deed.objects_nil, List.append_nil]
    exact h.types
  distinct := by
    rw [Deed.objects_append, Deed.objects_close, Deed.objects_nil, List.append_nil]
    exact h.distinct
  closed := by
    rw [Deed.closed_append, List.map_append, h.closed]
    exact (List.reverse_cons ..).symm
  stands c hMem := by
    rw [Deed.closed_append] at hMem
    rcases List.mem_append.1 hMem with hMem | hMem
    · exact h.stands c hMem
    · cases List.mem_singleton.1 hMem
      intro hFactory
      unfold ElementType.StandsFor at hStands
      rw [hFactory] at hStands
      exact hStands
  names := by
    rw [Deed.declared_append, Deed.declared_close, Deed.declared_nil, List.append_nil]
    exact h.names

/-- No deeds did nothing. -/
theorem start (scope : NameScope) : Elements [] (Assembly.start scope : Assembly H) where
  opened := rfl
  types _ hMem := absurd hMem List.not_mem_nil
  distinct := List.nodup_nil
  closed := rfl
  stands _ hMem := absurd hMem List.not_mem_nil
  names := rfl

/-- What deeds closed stands in the journal. -/
theorem mem_journal {ds : List (Deed H)} {a : Assembly H} (h : Elements ds a) {c : Closing H}
    (hMem : c ∈ Deed.closed ds) : .closed c.object c.identifier c.value ∈ a.journal := by
  have hTold : c.told ∈ (a.journal.filterMap Entry.closing?).reverse := by
    rw [← h.closed]
    exact List.mem_map.2 ⟨c, hMem, rfl⟩
  obtain ⟨entry, hEntry, hSame⟩ := List.mem_filterMap.1 (List.mem_reverse.1 hTold)
  cases entry with
  | closed object id value =>
    cases hSame
    exact hEntry
  | _ => cases hSame

/-- What elements stand for is what was told when they were closed. -/
theorem closed_eq {ds : List (Deed H)} {a : Assembly H} (h : Elements ds a) :
    a.journal.filterMap Entry.closed? =
      ((Deed.closed ds).map fun c => (c.object, c.value)).reverse := by
  have hTold : Entry.closed? = fun entry => (Entry.closing? entry).map fun x => (x.1, x.2.2) := by
    funext entry
    cases entry <;> rfl
  have hClosed := congrArg (List.map fun x => (x.1, x.2.2)) h.closed
  rw [List.map_reverse, List.map_filterMap, ← hTold, List.map_map] at hClosed
  rw [← List.reverse_reverse (a.journal.filterMap Entry.closed?), ← hClosed]
  rfl

end Elements

variable [Hooks H] {vocabulary : Vocabulary H}

namespace Assemble

/-! ### Runs -/

section Entries

variable {α : Type} {f : Entry → Option α}
  (hEvaluated : ∀ n target outcome, f (.evaluated n target outcome) = none)
  (hWrote : ∀ w extent, f (.wrote w extent) = none)

include hEvaluated hWrote

/-- An evaluation tells nothing of another kind than evaluations and writes. -/
theorem Reran.filterMap_journal {complete : Bool} {b : Binding} {a a' : Assembly H}
    (h : Reran vocabulary complete b a a') : a'.journal.filterMap f = a.journal.filterMap f := by
  cases h with
  | value v w a' evaluated assigned =>
    obtain ⟨⟨extent, hJournal⟩, -⟩ := assigned.rest
    rw [hJournal, List.filterMap_cons_none (hWrote w extent)]
    exact List.filterMap_cons_none (hEvaluated ..)
  | nothing evaluated => exact List.filterMap_cons_none (hEvaluated ..)
  | deferred required evaluated => exact List.filterMap_cons_none (hEvaluated ..)

/-- A drain adds no entries that a filter keeps, if the filter drops evaluations and writes. -/
theorem filterMap_journal_of_drain {complete : Bool} {a a' : Assembly H} {n : Nat}
    (h : drain vocabulary complete a = .ok n a') :
    a'.journal.filterMap f = a.journal.filterMap f :=
  drain_induction (P := fun _ a₁ => a₁.journal.filterMap f = a.journal.filterMap f)
    (fun _ _ _ _ hSame hReran => (hReran.filterMap_journal hEvaluated hWrote).trans hSame) rfl h

end Entries

end Assemble

namespace Elements

/-- Every deed does to elements what it says. -/
theorem does {ds : List (Deed H)} {a a' : Assembly H} {d : Deed H} (h : Elements ds a)
    (hDoes : Does vocabulary a d a') : Elements (ds ++ [d]) a' := by
  have hGrows := hDoes.grows
  cases hDoes with
  | make type fresh known constructible => exact h.made type fresh
  | text object name text dataContext a' evaluated =>
    exact h.unchanged rfl rfl hGrows.graph (evaluated.filterMap_journal (fun _ _ _ => rfl) fun _ _ => rfl)
      (evaluated.filterMap_journal (fun _ _ _ => rfl) fun _ _ => rfl)
      (congrArg NameTable.entries evaluated.names_eq)
  | close type object id value stands => exact h.finished id stands
  | place child object name value w a' ended assigned =>
    obtain ⟨⟨extent, hJournal⟩, hNames, -⟩ := assigned.rest
    refine h.unchanged rfl rfl hGrows.graph ?_ ?_ (congrArg NameTable.entries hNames)
    · rw [hJournal]
      rfl
    · rw [hJournal]
      rfl
  | declare id value complete names n a' registered drained =>
    refine h.unchanged rfl rfl hGrows.graph
      (Assemble.filterMap_journal_of_drain (a := { a with names }) (fun _ _ _ => rfl)
        (fun _ _ => rfl) drained)
      (Assemble.filterMap_journal_of_drain (a := { a with names }) (fun _ _ _ => rfl)
        (fun _ _ => rfl) drained) ?_
    rw [Assemble.names_of_drain drained]
    exact NameTable.entries_of_register registered

/-- The deeds of a run are told by its assembly. -/
theorem doesAll {scope : NameScope} {a : Assembly H} {ds : List (Deed H)}
    (h : DoesAll vocabulary (.start scope) ds a) : Elements ds a :=
  DoesAll.invariant (P := fun done a => Elements done a)
    (fun _ _ _ _ hDone hDoes => hDone.does hDoes) (start scope) h

/-- A drain does nothing to elements. -/
theorem drained {ds : List (Deed H)} {a a' : Assembly H} {complete : Bool} {n : Nat}
    (h : Elements ds a) (hDrain : Assemble.drain vocabulary complete a = .ok n a') :
    Elements ds a' := by
  have hOpened := Assemble.filterMap_journal_of_drain (f := Entry.opened?) (fun _ _ _ => rfl)
    (fun _ _ => rfl) hDrain
  have hClosed := Assemble.filterMap_journal_of_drain (f := Entry.closing?) (fun _ _ _ => rfl)
    (fun _ _ => rfl) hDrain
  refine ⟨?_, ?_, h.distinct, ?_, h.stands, ?_⟩
  · rw [hOpened]
    exact h.opened
  · exact fun x hMem => (Assemble.grows_of_drain hDrain).graph x.2 x.1 (h.types x hMem)
  · rw [hClosed]
    exact h.closed
  · rw [Assemble.names_of_drain hDrain]
    exact h.names

end Elements

end ObjectMarkup
