import ObjectMarkup.Graph.Identifiers
import ObjectMarkup.Vocabulary.Basic

/-!
# Object graphs and name tables

A graph owns every object that a compilation makes, in the order in which they are made. The handle
of an object is its place, so a graph that only grows never changes what a handle means. Objects
refer to each other by handles.

A name table holds the values that were declared under identifiers. A name is declared once.
-/

set_option autoImplicit false

namespace ObjectMarkup

/-- An object and the type it was made as. -/
structure Slot (H : Host) where
  type : ElementType H
  object : Instance H

/-- The objects of a compilation, in the order in which they were made. -/
structure ObjectGraph (H : Host) where
  slots : Array (Slot H)

namespace ObjectGraph

variable {H : Host}

/-- A graph without objects. -/
def empty : ObjectGraph H := ⟨#[]⟩

/-- The number of objects, which are never removed. -/
def size (g : ObjectGraph H) : Nat := g.slots.size

/-- The handle of the next object to be made. -/
def nextId (g : ObjectGraph H) : ObjectId := ⟨g.size⟩

/-- A graph with one more object; its handle is `nextId`. -/
def insert (g : ObjectGraph H) (type : ElementType H) (object : Instance H) : ObjectGraph H :=
  ⟨g.slots.push ⟨type, object⟩⟩

/-- The slot of an object, if the graph has that object. -/
def slot? (g : ObjectGraph H) (id : ObjectId) : Option (Slot H) := g.slots[id.index]?

/-- The type that an object was made as. -/
def type? (g : ObjectGraph H) (id : ObjectId) : Option (ElementType H) := (g.slot? id).map Slot.type

/-- The instance in the slot of an object. -/
def object? (g : ObjectGraph H) (id : ObjectId) : Option (Instance H) :=
  (g.slot? id).map Slot.object

/-- A graph with another object in a place; its type stays. -/
def replace (g : ObjectGraph H) (id : ObjectId) (object : Instance H) : ObjectGraph H :=
  ⟨g.slots.modify id.index fun slot => { slot with object }⟩

/-- The value of a property of an object, if both exist and the property can be read. -/
def property? (g : ObjectGraph H) (id : ObjectId) (name : String) : Option Value :=
  match g.slot? id with
  | none => none
  | some slot =>
    match slot.type.property? name with
    | none => none
    | some property => property.get slot.object

/-- The objects of a graph, in the order in which they were made. -/
def ids (g : ObjectGraph H) : List ObjectId := (List.range g.size).map ObjectId.mk

/-- The types of the objects as a list in square brackets. -/
def summary (g : ObjectGraph H) : String :=
  "[" ++ ", ".intercalate (g.slots.toList.map fun slot => slot.type.key.summary) ++ "]"

/-! ### What changes of a graph change -/

/-- An insertion adds one object. -/
theorem size_insert (g : ObjectGraph H) (type : ElementType H) (object : Instance H) :
    (g.insert type object).size = g.size + 1 := by
  simp [size, insert]

/-- The object that is inserted gets the next index. -/
theorem slot?_insert_nextId (g : ObjectGraph H) (type : ElementType H) (object : Instance H) :
    (g.insert type object).slot? g.nextId = some ⟨type, object⟩ := by
  simp [slot?, insert, nextId, size]

/-- Objects keep their places when another is made. -/
theorem slot?_insert_of_lt (g : ObjectGraph H) (type : ElementType H) (object : Instance H)
    {id : ObjectId} (h : id.index < g.size) : (g.insert type object).slot? id = g.slot? id := by
  simp only [slot?, insert, size] at *
  rw [Array.getElem?_push_lt h]
  simp [h]

/-- The objects a graph lacks are those with an index past its size. -/
theorem slot?_eq_none_iff (g : ObjectGraph H) (id : ObjectId) :
    g.slot? id = none ↔ g.size ≤ id.index := by
  simp [slot?, size]

/-- Replacing an object leaves all others. -/
theorem slot?_replace_of_ne (g : ObjectGraph H) {id other : ObjectId} (object : Instance H)
    (h : other ≠ id) : (g.replace id object).slot? other = g.slot? other := by
  have : id.index ≠ other.index := fun e => h (by cases id; cases other; simp_all)
  simp [slot?, replace, Array.getElem?_modify, this]

/-- A replacement keeps the type of the object, and does nothing for one that is not there. -/
theorem slot?_replace_self (g : ObjectGraph H) (id : ObjectId) (object : Instance H) :
    (g.replace id object).slot? id = (g.slot? id).map fun slot => { slot with object } := by
  simp [slot?, replace, Array.getElem?_modify]

/-- Replacing an object leaves the types of all. -/
theorem type?_replace (g : ObjectGraph H) (id other : ObjectId) (object : Instance H) :
    (g.replace id object).type? other = g.type? other := by
  by_cases h : other = id
  · subst h
    simp [type?, slot?_replace_self, Function.comp_def]
  · simp [type?, slot?_replace_of_ne g object h]

end ObjectGraph

/-- The values declared under identifiers. -/
structure NameTable where
  entries : List (String × Value)
  distinct : (entries.map Prod.fst).Nodup

namespace NameTable

/-- A table without names. -/
def empty : NameTable := ⟨[], List.nodup_nil⟩

/-- The value that an identifier was declared with. -/
def get? (t : NameTable) (id : String) : Option Value := t.entries.lookup id

/-- Whether an identifier is declared. -/
def contains (t : NameTable) (id : String) : Bool := (t.get? id).isSome

/-- Whether all identifiers of a set are declared. -/
def containsAll (t : NameTable) (ids : Identifiers) : Bool := ids.toList.all t.contains

/-- The number of declared identifiers. -/
def size (t : NameTable) : Nat := t.entries.length

/-- The identifiers that a table contains are those of its entries. -/
theorem contains_iff (t : NameTable) (id : String) :
    t.contains id = true ↔ id ∈ t.entries.map Prod.fst := by
  rw [contains, get?]
  generalize t.entries = entries
  induction entries with
  | nil => simp
  | cons entry rest ih =>
    rw [List.lookup_cons, List.map_cons, List.mem_cons, ← ih]
    by_cases h : id = entry.1
    · simp [h]
    · rw [beq_false_of_ne h]
      simp [h]

/-- A table with one more name, which must be new. -/
def register (t : NameTable) (id : String) (value : Value) : Except Failure NameTable :=
  if h : t.contains id then .error (.duplicateIdentifier id)
  else .ok ⟨(id, value) :: t.entries, by
    rw [List.map_cons, List.nodup_cons]
    exact ⟨fun hm => h ((t.contains_iff id).2 hm), t.distinct⟩⟩

/-- The only identifiers that cannot be registered are those that are declared. -/
theorem register_eq_error_iff (t : NameTable) (id : String) (value : Value) (failure : Failure) :
    t.register id value = .error failure ↔
      t.contains id = true ∧ failure = .duplicateIdentifier id := by
  unfold register
  split
  · next h =>
    rw [Except.error.injEq]
    exact ⟨fun e => ⟨h, e.symm⟩, fun e => e.2.symm⟩
  · next h =>
    constructor
    · intro e
      cases e
    · intro e
      exact absurd e.1 h

/-- A new name means its value, and all others keep theirs. -/
theorem get?_of_register {t t' : NameTable} {id : String} {value : Value}
    (h : t.register id value = .ok t') (other : String) :
    t'.get? other = if other = id then some value else t.get? other := by
  unfold register at h
  split at h
  · exact absurd h (by simp)
  · rw [Except.ok.injEq] at h
    subst h
    rw [get?, List.lookup_cons]
    by_cases e : other = id
    · simp [e]
    · rw [beq_false_of_ne e]
      simp [e, get?]

end NameTable

end ObjectMarkup
