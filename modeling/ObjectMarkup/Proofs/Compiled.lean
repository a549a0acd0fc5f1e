import ObjectMarkup.Proofs.Elements
import ObjectMarkup.Proofs.Run

/-!
# Documents that compile

The events of a document whose root is over are those of a tree, and the deeds of the tree were done
to an empty assembly in the scope that its root declares (`Built`). If the document compiles, one
more drain gives what it is, with nothing left to wait (`Constructed`). So the journal of the
document accounts for all that the tree uses, and tells what each of its elements stands for.
-/

set_option autoImplicit false

namespace ObjectMarkup

open Operation

variable {H : Host}

namespace Document

/-- The objects that elements made, in the order of their start tags. -/
def opened (d : Document H) : List ObjectId := d.journal.filterMap Entry.opened?

/-- What elements stand for, by their objects, in the order of their end tags. -/
def closed (d : Document H) : List (ObjectId × Value) := d.journal.filterMap Entry.closed?

/-- What the element that made an object stands for. -/
def product? (d : Document H) (object : ObjectId) : Option Value := d.closed.lookup object

/-- The tree of a document: its events are those of the stream, and its objects are those that the
elements made, in order and with their types. -/
structure Tells (items : List (Except Markup.Fault Markup.Event)) (t : ObjectTree H)
    (d : Document H) : Prop where
  events : items = t.events.map .ok
  objects : t.objects.map Prod.snd = d.opened
  types : ∀ x ∈ t.objects, d.graph.type? x.2 = some x.1

end Document

/-- The scope of a document whose root has these attributes. -/
def Compiler.rootScope (c : Compiler H) (attributes : List (String × String)) : NameScope :=
  (NameScope.ofDefaults c.settings.defaults).declareAll attributes

variable [Hooks H]

/-- How the assembly `a` came about that a document leaves when its root is over. -/
structure Built (c : Compiler H) (t : ObjectTree H) (ds : List (Deed H)) (a : Assembly H) :
    Prop where
  uses : Deed.uses ds = t.uses
  objects : Deed.objects ds = t.objects
  closed : ((Deed.closed ds).map Closing.ending).Perm
    (t.heads.map fun e => e.ending (c.rootScope t.head.attributes))
  declared : Deed.declared ds = (Deed.closed ds).filterMap Closing.named?
  boundaries : Deed.boundaries ds = t.boundaries
  done : DoesAll c.vocabulary (.start (c.rootScope t.head.attributes)) ds a

/-- How the assembly `a'` of a document that compiled came about. -/
structure Constructed (c : Compiler H) (items : List (Except Markup.Fault Markup.Event))
    (t : ObjectTree H) (ds : List (Deed H)) (a a' : Assembly H) : Prop extends Built c t ds a where
  events : items = t.events.map .ok
  drained : ∃ n, Assemble.drain c.vocabulary true a = .ok n a'
  waiting : a'.waiting = []

/-- Settling successfully is a drain after which nothing waits. -/
theorem Assemble.of_settle {vocabulary : Vocabulary H} {a a' : Assembly H}
    (h : settle vocabulary a = .ok () a') :
    a'.waiting = [] ∧ ∃ n, drain vocabulary true a = .ok n a' := by
  obtain ⟨n, a₁, hDrain, hRest⟩ := bind_eq_ok.1 h
  obtain ⟨_, _, hGet, hRest⟩ := bind_eq_ok.1 hRest
  cases hGet
  split at hRest
  · next hEmpty =>
    cases hRest
    exact ⟨List.isEmpty_iff.1 hEmpty, n, hDrain⟩
  · cases hRest

variable {c : Compiler H} {items : List (Except Markup.Fault Markup.Event)}
  {dataContext : Option Value}

/-- A traced state in which the tree is complete was built from it. -/
theorem built_of_traced {events : List Markup.Event} {t : ObjectTree H} {ds : List (Deed H)}
    {s : Construction H}
    (h : Traced c.vocabulary c.settings.defaults events ⟨some t, [], none⟩ ds s) :
    events = t.events ∧ Built c t ds s.assembly := by
  refine ⟨?_, ?_, ?_, ?_, h.declared, ?_, h.done⟩
  · rw [← h.told]
    simp [Outline.events]
  · rw [h.uses]
    simp [Outline.uses]
  · rw [h.objects, t.objects_eq]
    simp [Outline.heads]
  · have hClosed := h.closed
    simp only [Outline.heads, List.map_nil, List.append_nil, Option.toList_some,
      List.flatMap_singleton, List.reverse_nil, List.flatMap_nil] at hClosed
    exact hClosed
  · rw [h.boundaries]
    simp [Outline.boundaries]

/-- A document that compiles was constructed, and it has the value of its root. -/
theorem exists_constructed {s : Construction H} {root : Value}
    (h : c.construct items dataContext (.ofDefaults c.settings.defaults) = .ok root s) :
    ∃ t ds a, Constructed c items t ds a s.assembly ∧
      ∃ id, ⟨t.head.type, t.head.object, id, root⟩ ∈ Deed.closed ds := by
  obtain ⟨events, s₁, rfl, hFeed, hFinish⟩ := Compiler.of_construct h
  obtain ⟨o, ds, hTraced⟩ := traced_of_feedEvents hFeed
  obtain ⟨t, a', rfl, hState, hSettle, rfl⟩ := hTraced.finish hFinish
  obtain ⟨hWaiting, hDrain⟩ := Assemble.of_settle hSettle
  obtain ⟨rfl, hBuilt⟩ := built_of_traced hTraced
  have hRoot : s₁.root = some root := by rw [hState]
  exact ⟨t, ds, s₁.assembly, ⟨hBuilt, rfl, hDrain, hWaiting⟩, hTraced.value t root rfl hRoot⟩

/-- A construction that succeeds has built a tree and then settled. -/
theorem constructed_of_construct {s : Construction H} {root : Value}
    (h : c.construct items dataContext (.ofDefaults c.settings.defaults) = .ok root s) :
    ∃ t ds a, Constructed c items t ds a s.assembly := by
  obtain ⟨t, ds, a, hBuilt, -⟩ := exists_constructed h
  exact ⟨t, ds, a, hBuilt⟩

namespace Constructed

variable {t : ObjectTree H} {ds : List (Deed H)} {a a' : Assembly H}

/-- The journal accounts for what the tree uses. -/
theorem accounted (h : Constructed c items t ds a a') : Accounted t.uses [] a' := by
  obtain ⟨n, hDrain⟩ := h.drained
  rw [← h.uses]
  exact (Accounted.doesAll h.done).drained hDrain

/-- The deeds of a constructed document are told by its assembly. -/
theorem elements (h : Constructed c items t ds a a') : Elements ds a' := by
  obtain ⟨n, hDrain⟩ := h.drained
  exact (Elements.doesAll h.done).drained hDrain

/-- A constructed document tells its tree. -/
theorem tells (h : Constructed c items t ds a a') (root : Value) :
    Document.Tells items t ⟨a'.graph, root, a'.names, a'.journal.reverse⟩ where
  events := h.events
  objects := by
    rw [← h.objects, h.elements.opened, Document.opened, List.filterMap_reverse]
  types := by
    rw [← h.objects]
    exact h.elements.types

end Constructed

/-- Where keys are distinct, looking up a key finds what stands with it. -/
theorem lookup_of_mem {α β : Type} [BEq α] [LawfulBEq α] {entries : List (α × β)}
    (hKeys : (entries.map Prod.fst).Nodup) {key : α} {value : β} (hMem : (key, value) ∈ entries) :
    entries.lookup key = some value := by
  induction entries with
  | nil => cases hMem
  | cons entry rest ih =>
    rw [List.map_cons, List.nodup_cons] at hKeys
    rcases List.mem_cons.1 hMem with rfl | hMem
    · rw [List.lookup_cons, beq_self_eq_true]
    · have hOther : key ≠ entry.1 := by
        rintro rfl
        exact hKeys.1 (List.mem_map.2 ⟨_, hMem, rfl⟩)
      rw [List.lookup_cons, beq_false_of_ne hOther]
      exact ih hKeys.2 hMem

namespace Built

variable {t : ObjectTree H} {ds : List (Deed H)} {a : Assembly H}

/-- The objects that were closed are those of the tree. -/
theorem closed_objects (h : Built c t ds a) :
    ((Deed.closed ds).map Closing.object).Perm (t.objects.map Prod.snd) := by
  have hObjects := h.closed.map fun x => x.2.1
  rw [t.objects_eq]
  simpa [Function.comp_def, Closing.ending, ElementHead.ending, ElementHead.made] using hObjects

/-- Each element of the tree was closed, with the identifier that its attributes tell. -/
theorem exists_closing (h : Built c t ds a) {e : ElementHead H} (hMem : e ∈ t.heads) :
    ∃ v, ⟨e.type, e.object, (c.rootScope t.head.attributes).identifierOf e.attributes, v⟩ ∈
      Deed.closed ds := by
  obtain ⟨closing, hClosed, hEnding⟩ := List.mem_map.1 (h.closed.mem_iff.2 (List.mem_map.2 ⟨e, hMem, rfl⟩))
  obtain ⟨type, object, identifier, v⟩ := closing
  cases hEnding
  exact ⟨v, hClosed⟩

/-- Each element that was closed is one of the tree. -/
theorem exists_head (h : Built c t ds a) {closing : Closing H} (hMem : closing ∈ Deed.closed ds) :
    ∃ e ∈ t.heads, e.type = closing.type ∧ e.object = closing.object ∧
      (c.rootScope t.head.attributes).identifierOf e.attributes = closing.identifier := by
  obtain ⟨e, hHead, hEnding⟩ := List.mem_map.1 (h.closed.mem_iff.1 (List.mem_map.2 ⟨closing, hMem, rfl⟩))
  obtain ⟨hType, hRest⟩ := Prod.mk.inj hEnding
  obtain ⟨hObject, hIdentifier⟩ := Prod.mk.inj hRest
  exact ⟨e, hHead, hType, hObject, hIdentifier⟩

end Built

namespace Constructed

variable {t : ObjectTree H} {ds : List (Deed H)} {a a' : Assembly H}

/-- Elements are closed once. -/
theorem distinct_closed (h : Constructed c items t ds a a') :
    ((a'.journal.filterMap Entry.closed?).map Prod.fst).Nodup := by
  have hDistinct := h.elements.distinct
  rw [h.objects, ← h.closed_objects.nodup_iff] at hDistinct
  rw [h.elements.closed_eq, List.map_reverse, (List.reverse_perm _).nodup_iff, List.map_map]
  exact hDistinct

/-- What an element was closed with is the product of its object in the document. -/
theorem product?_of_mem (h : Constructed c items t ds a a') (root : Value) {object : ObjectId}
    {id : Option String} {value : Value} (hMem : .closed object id value ∈ a'.journal) :
    (Document.mk a'.graph root a'.names a'.journal.reverse).product? object = some value := by
  refine lookup_of_mem ?_ ?_
  · rw [Document.closed, List.filterMap_reverse, List.map_reverse, (List.reverse_perm _).nodup_iff]
    exact h.distinct_closed
  · rw [Document.closed, List.filterMap_reverse, List.mem_reverse, List.mem_filterMap]
    exact ⟨_, hMem, rfl⟩

/-- An element stands for what it stood for when it was closed. -/
theorem product?_of_closed (h : Constructed c items t ds a a') (root : Value) {closing : Closing H}
    (hMem : closing ∈ Deed.closed ds) :
    (Document.mk a'.graph root a'.names a'.journal.reverse).product? closing.object =
      some closing.value :=
  h.product?_of_mem root (h.elements.mem_journal hMem)

/-- Each element stands for a value, which is its object if its type is no factory. -/
theorem exists_product (h : Constructed c items t ds a a') (root : Value)
    {x : ElementType H × ObjectId} (hMem : x ∈ t.objects) :
    ∃ value, (Document.mk a'.graph root a'.names a'.journal.reverse).product? x.2 = some value ∧
      (x.1.isFactory = false → value = .object x.2) := by
  rw [t.objects_eq] at hMem
  obtain ⟨e, hHead, rfl⟩ := List.mem_map.1 hMem
  obtain ⟨v, hClosed⟩ := h.exists_closing hHead
  exact ⟨v, h.product?_of_closed root hClosed, h.elements.stands _ hClosed⟩

end Constructed

end ObjectMarkup
