import Mathlib.Tactic.ByContra
import ObjectMarkup.Construction.Waiting
import ObjectMarkup.Proofs.Operation

/-!
# What operations on an assembly do

A run that succeeds tells which state it left: there is one lemma for each operation, from the
evaluation of a text (`evaluate_eq_ok`) to the drain of the queue (`drain_eq_ok`). A drain takes its
bindings out of the queue before it evaluates them again, so what holds during a drain speaks of the
bindings it still holds, and `rerunAll_induction` carries it through.

Nothing that an assembly has made is ever taken back (`Assembly.Grows`): objects keep their types,
names keep their values, and the journal only gets longer.
-/

set_option autoImplicit false

namespace ObjectMarkup

open Operation

variable {H : Host}

/-! ### Growth -/

/-- Every object of `g` is in `g'`, with the same type. -/
def ObjectGraph.Grows (g g' : ObjectGraph H) : Prop :=
  ∀ id type, g.type? id = some type → g'.type? id = some type

/-- Every object of `g` is in `g'`, as it was. -/
def ObjectGraph.Extends (g g' : ObjectGraph H) : Prop :=
  ∀ id slot, g.slot? id = some slot → g'.slot? id = some slot

namespace ObjectGraph.Extends

/-- A graph holds what it holds. -/
theorem refl (g : ObjectGraph H) : g.Extends g := fun _ _ h => h

/-- What is kept twice is kept. -/
theorem trans {g₁ g₂ g₃ : ObjectGraph H} (h : g₁.Extends g₂) (h' : g₂.Extends g₃) :
    g₁.Extends g₃ :=
  fun id slot e => h' id slot (h id slot e)

/-- An object that is added leaves those that there are. -/
theorem insert (g : ObjectGraph H) (type : ElementType H) (object : Instance H) :
    g.Extends (g.insert type object) := by
  intro id slot h
  have hlt : id.index < g.size := by
    by_contra hge
    have hNone := (g.slot?_eq_none_iff id).2 (by omega)
    rw [hNone] at h
    cases h
  rw [g.slot?_insert_of_lt type object hlt]
  exact h

/-- Where all objects are kept, their types are. -/
theorem grows {g g' : ObjectGraph H} (h : g.Extends g') : g.Grows g' := by
  intro id type hType
  obtain ⟨slot, hSlot, hSame⟩ := Option.map_eq_some_iff.1 hType
  rw [type?, h id slot hSlot, Option.map_some, hSame]

/-- An instance that is kept is found. -/
theorem object? {g g' : ObjectGraph H} (h : g.Extends g') {id : ObjectId} {object : Instance H}
    (hObject : g.object? id = some object) : g'.object? id = some object := by
  obtain ⟨slot, hSlot, hSame⟩ := Option.map_eq_some_iff.1 hObject
  rw [ObjectGraph.object?, h id slot hSlot, Option.map_some, hSame]

end ObjectGraph.Extends

namespace ObjectGraph.Grows

/-- A graph has the objects that it has. -/
theorem refl (g : ObjectGraph H) : g.Grows g := fun _ _ h => h

/-- Objects that stay twice stay. -/
theorem trans {g₁ g₂ g₃ : ObjectGraph H} (h : g₁.Grows g₂) (h' : g₂.Grows g₃) : g₁.Grows g₃ :=
  fun id type e => h' id type (h id type e)

/-- An object that is added leaves the types of those that there are. -/
theorem insert (g : ObjectGraph H) (type : ElementType H) (object : Instance H) :
    g.Grows (g.insert type object) :=
  (Extends.insert g type object).grows

/-- An instance that is exchanged leaves the types. -/
theorem replace (g : ObjectGraph H) (id : ObjectId) (object : Instance H) :
    g.Grows (g.replace id object) := by
  intro other type h
  rw [type?_replace]
  exact h

end ObjectGraph.Grows

/-- An object in a graph that was added to is an old one or the one that was added. -/
theorem ObjectGraph.of_slot?_insert {g : ObjectGraph H} {type : ElementType H} {object : Instance H}
    {id : ObjectId} {slot : Slot H} (h : (g.insert type object).slot? id = some slot) :
    g.slot? id = some slot ∨ slot = ⟨type, object⟩ := by
  by_cases hOld : id.index < g.size
  · rw [g.slot?_insert_of_lt type object hOld] at h
    exact .inl h
  · by_cases hLast : id = g.nextId
    · rw [hLast, slot?_insert_nextId] at h
      cases h
      exact .inr rfl
    · have hIndex : id.index ≠ g.size := fun hSame => hLast (by cases id; cases hSame; rfl)
      have hNone : (g.insert type object).slot? id = none := by
        rw [slot?_eq_none_iff, size_insert]
        omega
      rw [hNone] at h
      cases h

/-- A type in a graph with one more object is one of before, or that of the object. -/
theorem ObjectGraph.of_type?_insert {g : ObjectGraph H} {type t : ElementType H}
    {object : Instance H} {id : ObjectId} (h : (g.insert type object).type? id = some t) :
    g.type? id = some t ∨ t = type := by
  obtain ⟨slot, hSlot, rfl⟩ := Option.map_eq_some_iff.1 h
  rcases of_slot?_insert hSlot with hOld | rfl
  · exact .inl (Option.map_eq_some_iff.2 ⟨slot, hOld, rfl⟩)
  · exact .inr rfl

/-- A converter adds objects to the graph and changes none. -/
theorem ConverterRun.extends_perform (vocabulary : Vocabulary H) (run : ConverterRun H)
    (g : ObjectGraph H) : g.Extends (run.perform vocabulary g).2 := by
  induction run generalizing g with
  | done result =>
    exact .refl g
  | create key object next ih =>
    rw [perform]
    cases vocabulary.describe key with
    | none => exact ih _ g g
    | some type => exact (ObjectGraph.Extends.insert g type object).trans (ih _ _ _)

/-- What converters make of a graph is what conversions make of it, also those that fail. -/
theorem ends_convert_of_perform [Hooks H] {vocabulary : Vocabulary H} {R : ObjectGraph H → Prop}
    {g : ObjectGraph H} (hSame : R g)
    (hPerform : ∀ run : ConverterRun H, R (run.perform vocabulary g).2) (target : ValueType)
    (value : Value) :
    Ends (convert vocabulary target value) g (fun _ g' => R g') fun _ g' => R g' := by
  by_cases hAccepts : Conversion.accepts g target value = true
  · unfold Ends convert
    rw [if_pos hAccepts]
    exact hSame
  cases hText : Conversion.ofValueText target value with
  | some result =>
    unfold Ends convert
    rw [if_neg hAccepts, hText]
    cases result <;> exact hSame
  | none =>
    cases hChoice : Conversion.choice vocabulary g target value with
    | none =>
      unfold Ends convert
      rw [if_neg hAccepts, hText, hChoice]
      exact hSame
    | some c =>
      have hMade := hPerform (Hooks.convert c.converter value target g)
      unfold Ends convert Conversion.convertBy
      rw [if_neg hAccepts, hText, hChoice]
      simp only
      cases hRun : (Hooks.convert c.converter value target g).perform vocabulary g with
      | mk result g' =>
        rw [hRun] at hMade
        cases result <;> exact hMade

/-- So a conversion adds objects to the graph and changes none, also if it fails. -/
theorem ends_convert [Hooks H] (vocabulary : Vocabulary H) (target : ValueType) (value : Value)
    (g : ObjectGraph H) :
    Ends (convert vocabulary target value) g (fun _ g' => g.Extends g') fun _ g' => g.Extends g' :=
  ends_convert_of_perform (.refl g) (fun run => run.extends_perform vocabulary g) target value

/-- Every name of `t` is in `t'`, with the same value. -/
def NameTable.Grows (t t' : NameTable) : Prop :=
  ∀ id value, t.get? id = some value → t'.get? id = some value

/-- A name that is declared leaves those that there are. -/
theorem NameTable.grows_of_register {t t' : NameTable} {id : String} {value : Value}
    (h : t.register id value = .ok t') : t.Grows t' := by
  intro other v e
  rw [get?_of_register h]
  by_cases hId : other = id
  · subst hId
    have hNew : t.contains other = false := by
      by_contra hOld
      have := (t.register_eq_error_iff other value (.duplicateIdentifier other)).2
        ⟨by simpa using hOld, rfl⟩
      rw [h] at this
      cases this
    rw [contains, e] at hNew
    cases hNew
  · rw [if_neg hId]
    exact e

/-- A name that is declared is the latest entry. -/
theorem NameTable.entries_of_register {t t' : NameTable} {id : String} {value : Value}
    (h : t.register id value = .ok t') : t'.entries = (id, value) :: t.entries := by
  unfold register at h
  split at h
  · cases h
  · cases h
    rfl

/-- What `a` has made is in `a'` as well. -/
structure Assembly.Grows (a a' : Assembly H) : Prop where
  scope : a'.scope = a.scope
  graph : a.graph.Grows a'.graph
  names : a.names.Grows a'.names
  journal : a.journal <:+ a'.journal

namespace Assembly.Grows

/-- An assembly holds what it holds. -/
theorem refl (a : Assembly H) : a.Grows a :=
  ⟨rfl, .refl _, fun _ _ h => h, List.suffix_refl _⟩

/-- What an assembly keeps twice it keeps. -/
theorem trans {a₁ a₂ a₃ : Assembly H} (h : a₁.Grows a₂) (h' : a₂.Grows a₃) : a₁.Grows a₃ where
  scope := h'.scope.trans h.scope
  graph := h.graph.trans h'.graph
  names id value e := h'.names id value (h.names id value e)
  journal := h.journal.trans h'.journal

/-- An entry of the journal is all that is added. -/
theorem record (a : Assembly H) (entry : Entry) : a.Grows (a.record entry) :=
  ⟨rfl, .refl _, fun _ _ h => h, List.suffix_cons ..⟩

end Assembly.Grows

namespace Assemble

/-! ### Single operations -/

/-- The type of an object is looked up, and nothing changes. -/
theorem typeOf_eq_ok {id : ObjectId} {a a' : Assembly H} {type : ElementType H} :
    typeOf id a = .ok type a' ↔ a.graph.type? id = some type ∧ a = a' := by
  unfold typeOf
  cases a.graph.type? id <;> simp

/-- The property of a type is looked up, and nothing changes. -/
theorem propertyOf_eq_ok {type : ElementType H} {name : String} {a a' : Assembly H}
    {property : Property H} :
    propertyOf type name a = .ok property a' ↔ type.property? name = some property ∧ a = a' := by
  unfold propertyOf
  cases type.property? name <;> simp

/-- The type of an object is found, or the object is unknown. -/
theorem ends_typeOf {id : ObjectId} {a : Assembly H} {E : Failure → Assembly H → Prop}
    (hUnknown : a.graph.type? id = none → E (.structural (.unknownObject id)) a) :
    Ends (typeOf id) a (fun type a' => a' = a ∧ a.graph.type? id = some type) E := by
  unfold Ends typeOf
  cases hType : a.graph.type? id with
  | some type => exact ⟨rfl, rfl⟩
  | none => exact hUnknown hType

/-- The property of a type is found, or the type has none of this name. -/
theorem ends_propertyOf {type : ElementType H} {name : String} {a : Assembly H}
    {E : Failure → Assembly H → Prop}
    (hUnknown : type.property? name = none → E (.propertyNotFound type.key.name name) a) :
    Ends (propertyOf type name) a (fun property a' => a' = a ∧ type.property? name = some property)
      E := by
  unfold propertyOf
  cases hProperty : type.property? name with
  | some property => exact ⟨rfl, rfl⟩
  | none => exact hUnknown hProperty

/-- What happens to the graph leaves the rest of the assembly. -/
theorem onGraph_eq_ok {α : Type} {act : Operation (ObjectGraph H) α} {a a' : Assembly H} {x : α} :
    onGraph act a = .ok x a' ↔ ∃ g, act a.graph = .ok x g ∧ a' = { a with graph := g } :=
  within_eq_ok

variable [Hooks H] {vocabulary : Vocabulary H}

/-- An evaluation gives its outcome and records it. -/
theorem evaluate_eq_ok {n : Nat} {target : Target} {text : String} {a a' : Assembly H}
    {outcome : Outcome} :
    evaluate vocabulary n target text a = .ok outcome a' ↔
      ObjectMarkup.evaluate vocabulary a.surroundings target text = .ok outcome ∧
        a' = a.record (.evaluated n target outcome) := by
  unfold evaluate
  cases ObjectMarkup.evaluate vocabulary a.surroundings target text with
  | error failure => simp
  | ok o =>
    constructor
    · intro h
      cases h
      exact ⟨rfl, rfl⟩
    · rintro ⟨h, rfl⟩
      cases h
      rfl

/-- An evaluation that fails leaves the assembly. -/
theorem evaluate_eq_error {n : Nat} {target : Target} {text : String} {a a' : Assembly H}
    {failure : Failure} :
    evaluate vocabulary n target text a = .error failure a' ↔
      ObjectMarkup.evaluate vocabulary a.surroundings target text = .error failure ∧ a = a' := by
  unfold evaluate
  cases ObjectMarkup.evaluate vocabulary a.surroundings target text <;> simp

omit [Hooks H] in
/-- A write puts what the accessor gives in the place of the object, and records it. -/
theorem write_eq_ok {owner : String} {w : Write} {act : Instance H → Option (Instance H)}
    {a a' : Assembly H} :
    write owner w act a = .ok () a' ↔ ∃ object, (a.graph.object? w.object).bind act = some object ∧
      a' = Assembly.record { a with graph := a.graph.replace w.object object }
        (.wrote w a.graph.size) := by
  unfold write
  cases (a.graph.object? w.object).bind act with
  | none => simp
  | some object =>
    constructor
    · intro h
      cases h
      exact ⟨object, rfl, rfl⟩
    · rintro ⟨_, hObject, rfl⟩
      cases hObject
      rfl

end Assemble

/-- What a way of storing makes of a value in the graph `g`: what a write puts into the property, under
a key only if it is a map, with the graph that the conversions leave. -/
def Store.Stores [Hooks H] (vocabulary : Vocabulary H) (store : Store H) (value : Value)
    (g : ObjectGraph H) (w : Write) (g' : ObjectGraph H) : Prop :=
  match store with
  | .scalar target _ => w.key = none ∧ convert vocabulary target value g = .ok w.value g'
  | .collection target _ => w.key = none ∧ convert vocabulary target value g = .ok w.value g'
  | .list _ => w.key = none ∧ w.value = value ∧ g' = g
  | .map keyTarget target _ => ∃ key k g₁, w.key = some k ∧
      convert vocabulary keyTarget (.string key) g = .ok k g₁ ∧
      convert vocabulary target value g₁ = .ok w.value g'

/-- Conversions before a write only add objects. -/
theorem Store.Stores.extends [Hooks H] {vocabulary : Vocabulary H} {store : Store H} {value : Value}
    {g g' : ObjectGraph H} {w : Write} (h : store.Stores vocabulary value g w g') :
    g.Extends g' := by
  cases store with
  | scalar target set => exact (ends_convert ..).of_ok h.2
  | collection target push => exact (ends_convert ..).of_ok h.2
  | list push =>
    obtain ⟨-, -, rfl⟩ := h
    exact .refl _
  | map keyTarget target insert =>
    obtain ⟨key, k, g₁, -, hKey, hValue⟩ := h
    exact ((ends_convert ..).of_ok hKey).trans ((ends_convert ..).of_ok hValue)

/-- A write puts what became of a value into the property of an object of `g`. -/
def Write.Stored [Hooks H] (vocabulary : Vocabulary H) (w : Write) (value : Value)
    (g g' : ObjectGraph H) : Prop :=
  ∃ type property, g.type? w.object = some type ∧ type.property? w.property = some property ∧
    property.store.Stores vocabulary value g w g'

/-- Conversions before a write to a property only add objects. -/
theorem Write.Stored.extends [Hooks H] {vocabulary : Vocabulary H} {w : Write} {value : Value}
    {g g' : ObjectGraph H} (h : w.Stored vocabulary value g g') : g.Extends g' := by
  obtain ⟨type, property, -, -, hStores⟩ := h
  exact hStores.extends

/-- What an accessor makes of an instance. Only maps need a key. -/
def Store.put (store : Store H) (key : Option Value) (value : Value) (object : Instance H) :
    Option (Instance H) :=
  match store with
  | .scalar _ set => set object value
  | .collection _ push => push object value
  | .list push => push object value
  | .map _ _ insert => key.bind fun key => insert object key value

/-- What a write makes of the object that it goes into; nothing if the accessor does not take it. -/
def ObjectGraph.put? (g : ObjectGraph H) (w : Write) : Option (Instance H) :=
  (g.slot? w.object).bind fun slot =>
    (slot.type.property? w.property).bind fun property =>
      property.store.put w.key w.value slot.object

/-- It is the accessor of the property that decides about a write. -/
theorem ObjectGraph.put?_eq {g : ObjectGraph H} {w : Write} {type : ElementType H}
    {property : Property H} (hType : g.type? w.object = some type)
    (hProperty : type.property? w.property = some property) :
    g.put? w = (g.object? w.object).bind (property.store.put w.key w.value) := by
  obtain ⟨slot, hSlot, rfl⟩ := Option.map_eq_some_iff.1 hType
  rw [put?, object?, hSlot, Option.bind_some, hProperty]
  rfl

/-- A value that went into a property: where it came from, and what was written in the end. -/
structure Assembly.Assigns [Hooks H] (vocabulary : Vocabulary H) (a : Assembly H) (origin : Origin)
    (object : ObjectId) (name : String) (value : Value) (w : Write) (a' : Assembly H) : Prop where
  origin_eq : w.origin = origin
  object_eq : w.object = object
  property_eq : w.property = name
  stored : ∃ g o, w.Stored vocabulary value a.graph g ∧ g.put? w = some o ∧
    a' = Assembly.record { a with graph := g.replace w.object o } (.wrote w g.size)

namespace Assemble

variable [Hooks H] {vocabulary : Vocabulary H}

/-- An assignment that succeeds stores what became of the value, and writes it once. -/
theorem assigns_of_assign {origin : Origin} {object : ObjectId} {name : String} {value : Value}
    {key : Option String} {a a' : Assembly H}
    (h : assign vocabulary origin object name value key a = .ok () a') :
    ∃ w, a.Assigns vocabulary origin object name value w a' := by
  unfold assign at h
  obtain ⟨type, _, hType, h⟩ := bind_eq_ok.1 h
  obtain ⟨hTyped, rfl⟩ := typeOf_eq_ok.1 hType
  obtain ⟨property, _, hProperty, h⟩ := bind_eq_ok.1 h
  obtain ⟨hNamed, rfl⟩ := propertyOf_eq_ok.1 hProperty
  have done {w : Write} {g : ObjectGraph H} {act : Instance H → Option (Instance H)}
      (hw : w.origin = origin ∧ w.object = object ∧ w.property = name)
      (hStores : property.store.Stores vocabulary value a.graph w g)
      (hAct : property.store.put w.key w.value = act)
      (hWrite : write type.key.name w act { a with graph := g } = .ok () a') :
      ∃ w, a.Assigns vocabulary origin object name value w a' := by
    obtain ⟨o, hPut, hWrite⟩ := write_eq_ok.1 hWrite
    obtain ⟨hOrigin, rfl, rfl⟩ := hw
    have hLater := hStores.extends.grows w.object type hTyped
    refine ⟨w, hOrigin, rfl, rfl, g, o, ⟨type, property, hTyped, hNamed, hStores⟩, ?_, hWrite⟩
    rw [ObjectGraph.put?_eq hLater hNamed, hAct]
    exact hPut
  cases hStore : property.store with
  | scalar target set =>
    rw [hStore] at h
    obtain ⟨v, _, hConvert, h⟩ := bind_eq_ok.1 h
    obtain ⟨g, hConverted, rfl⟩ := onGraph_eq_ok.1 hConvert
    refine done ⟨rfl, rfl, rfl⟩ ?_ ?_ h
    · rw [hStore]
      exact ⟨rfl, hConverted⟩
    · rw [hStore]
      rfl
  | collection target push =>
    rw [hStore] at h
    obtain ⟨v, _, hConvert, h⟩ := bind_eq_ok.1 h
    obtain ⟨g, hConverted, rfl⟩ := onGraph_eq_ok.1 hConvert
    refine done ⟨rfl, rfl, rfl⟩ ?_ ?_ h
    · rw [hStore]
      exact ⟨rfl, hConverted⟩
    · rw [hStore]
      rfl
  | list push =>
    rw [hStore] at h
    refine done (g := a.graph) ⟨rfl, rfl, rfl⟩ ?_ ?_ h
    · rw [hStore]
      exact ⟨rfl, rfl, rfl⟩
    · rw [hStore]
      rfl
  | map keyTarget target insert =>
    rw [hStore] at h
    cases key with
    | none => cases h
    | some key =>
      obtain ⟨k, _, hKey, h⟩ := bind_eq_ok.1 h
      obtain ⟨g₁, hKeyed, rfl⟩ := onGraph_eq_ok.1 hKey
      obtain ⟨v, _, hConvert, h⟩ := bind_eq_ok.1 h
      obtain ⟨g, hConverted, rfl⟩ := onGraph_eq_ok.1 hConvert
      refine done ⟨rfl, rfl, rfl⟩ ?_ ?_ h
      · rw [hStore]
        exact ⟨key, k, g₁, rfl, hKeyed, hConverted⟩
      · rw [hStore]
        rfl

end Assemble

/-- An assignment makes one entry in the journal, and leaves the names and the queue. -/
theorem Assembly.Assigns.rest [Hooks H] {vocabulary : Vocabulary H} {a a' : Assembly H}
    {origin : Origin} {object : ObjectId} {name : String} {value : Value} {w : Write}
    (h : a.Assigns vocabulary origin object name value w a') :
    (∃ extent, a'.journal = .wrote w extent :: a.journal) ∧ a'.names = a.names ∧
      a'.waiting = a.waiting ∧ a'.occurrences = a.occurrences := by
  obtain ⟨g, o, -, -, rfl⟩ := h.stored
  exact ⟨⟨g.size, rfl⟩, rfl, rfl, rfl⟩

/-- An assignment takes back nothing. -/
theorem Assembly.Assigns.grows [Hooks H] {vocabulary : Vocabulary H} {a a' : Assembly H}
    {origin : Origin} {object : ObjectId} {name : String} {value : Value} {w : Write}
    (h : a.Assigns vocabulary origin object name value w a') : a.Grows a' := by
  obtain ⟨g, o, hStored, -, rfl⟩ := h.stored
  have hGrows := hStored.extends.grows.trans (.replace g w.object o)
  exact ⟨rfl, hGrows, fun _ _ e => e, List.suffix_cons ..⟩

namespace Assemble

variable [Hooks H] {vocabulary : Vocabulary H}

/-! ### Bindings -/

/-- What evaluating a binding again did: it put a value into the property of the binding, or left
the property alone, or the binding waits again. -/
inductive Reran (vocabulary : Vocabulary H) (complete : Bool) (b : Binding) (a : Assembly H) :
    Assembly H → Prop where
  | value (v : Value) (w : Write) (a' : Assembly H)
      (evaluated : ObjectMarkup.evaluate vocabulary a.surroundings
        ⟨b.target, b.property, b.dataContext, true⟩ b.expression = .ok (.value v))
      (assigned : (a.record (.evaluated b.occurrence ⟨b.target, b.property, b.dataContext, true⟩
        (.value v))).Assigns vocabulary (.occurrence b.occurrence) b.target b.property v w a') :
      Reran vocabulary complete b a a'
  | nothing
      (evaluated : ObjectMarkup.evaluate vocabulary a.surroundings
        ⟨b.target, b.property, b.dataContext, true⟩ b.expression = .ok .nothing) :
      Reran vocabulary complete b a
        (a.record (.evaluated b.occurrence ⟨b.target, b.property, b.dataContext, true⟩ .nothing))
  | deferred (required : Identifiers)
      (evaluated : ObjectMarkup.evaluate vocabulary a.surroundings
        ⟨b.target, b.property, b.dataContext, true⟩ b.expression = .ok (.deferred required)) :
      Reran vocabulary complete b a
        ((a.record (.evaluated b.occurrence ⟨b.target, b.property, b.dataContext, true⟩
          (.deferred required))).enqueue { b with required })

/-- Evaluating a binding again does about it what is to be done. -/
theorem reran_of_rerun {complete : Bool} {b : Binding} {a a' : Assembly H}
    (h : rerun vocabulary complete b a = .ok () a') : Reran vocabulary complete b a a' := by
  unfold rerun at h
  obtain ⟨outcome, _, hEvaluate, h⟩ := bind_eq_ok.1 h
  obtain ⟨hOutcome, rfl⟩ := evaluate_eq_ok.1 hEvaluate
  cases outcome with
  | value v =>
    obtain ⟨w, hAssigns⟩ := assigns_of_assign h
    exact .value v w a' hOutcome hAssigns
  | nothing =>
    cases h
    exact .nothing hOutcome
  | deferred required =>
    obtain ⟨s, _, hGet, h⟩ := bind_eq_ok.1 h
    cases hGet
    split at h
    · cases h
    · cases h
      exact .deferred required hOutcome

/-- Evaluating a binding again takes back nothing. -/
theorem Reran.grows {complete : Bool} {b : Binding} {a a' : Assembly H}
    (h : Reran vocabulary complete b a a') : a.Grows a' := by
  cases h with
  | value v w a' _ assigned => exact (Assembly.Grows.record a _).trans assigned.grows
  | nothing _ => exact .record a _
  | deferred required _ => exact ⟨rfl, .refl _, fun _ _ e => e, List.suffix_cons ..⟩

/-- Evaluating a binding again declares nothing. -/
theorem Reran.names_eq {complete : Bool} {b : Binding} {a a' : Assembly H}
    (h : Reran vocabulary complete b a a') : a'.names = a.names := by
  cases h with
  | value v w a' _ assigned => exact assigned.rest.2.1
  | nothing _ => rfl
  | deferred required _ => rfl

/-- What holds of the bindings held and the assembly, and survives that the first of them is
evaluated again, holds when none is held any more. -/
theorem rerunAll_induction {complete : Bool} {P : List Binding → Assembly H → Prop}
    (step : ∀ b rest a a', P (b :: rest) a → Reran vocabulary complete b a a' → P rest a')
    {held : List Binding} {a a' : Assembly H} (h : P held a)
    (hRun : rerunAll vocabulary complete held a = .ok () a') : P [] a' := by
  induction held generalizing a with
  | nil =>
    cases hRun
    exact h
  | cons b rest ih =>
    unfold rerunAll at hRun
    obtain ⟨_, a₁, hFirst, hRest⟩ := bind_eq_ok.1 hRun
    exact ih (step b rest a a₁ h (reran_of_rerun hFirst)) hRest

omit [Hooks H] in
/-- The bindings that are ready are taken from the queue, and the others keep their order. -/
theorem takeReady_run (a : Assembly H) :
    takeReady a = .ok (a.waiting.filter (·.isReady a.names))
      { a with waiting := a.waiting.filter fun b => !b.isReady a.names } := by
  unfold takeReady
  rw [List.partition_eq_filter_filter]
  rfl

/-- A drain evaluates the bindings again that are ready when it starts; the others stay. -/
theorem drain_eq_ok {complete : Bool} {a a' : Assembly H} {n : Nat} :
    drain vocabulary complete a = .ok n a' ↔
      n = (a.waiting.filter (·.isReady a.names)).length ∧
        rerunAll vocabulary complete (a.waiting.filter (·.isReady a.names))
          { a with waiting := a.waiting.filter fun b => !b.isReady a.names } = .ok () a' := by
  unfold drain
  constructor
  · intro h
    obtain ⟨ready, _, hReady, h⟩ := bind_eq_ok.1 h
    rw [takeReady_run] at hReady
    cases hReady
    obtain ⟨_, _, hRun, h⟩ := bind_eq_ok.1 h
    cases h
    exact ⟨rfl, hRun⟩
  · rintro ⟨rfl, h⟩
    exact bind_eq_ok.2 ⟨_, _, takeReady_run a, bind_eq_ok.2 ⟨_, _, h, rfl⟩⟩

/-- `rerunAll_induction` for a drain: it starts with the bindings that are ready held. -/
theorem drain_induction {complete : Bool} {P : List Binding → Assembly H → Prop}
    (step : ∀ b rest a a', P (b :: rest) a → Reran vocabulary complete b a a' → P rest a')
    {a a' : Assembly H} {n : Nat}
    (h : P (a.waiting.filter (·.isReady a.names))
      { a with waiting := a.waiting.filter fun b => !b.isReady a.names })
    (hDrain : drain vocabulary complete a = .ok n a') : P [] a' :=
  rerunAll_induction step h (drain_eq_ok.1 hDrain).2

/-- A drain takes back nothing. -/
theorem grows_of_drain {complete : Bool} {a a' : Assembly H} {n : Nat}
    (h : drain vocabulary complete a = .ok n a') : a.Grows a' :=
  drain_induction (P := fun _ a₁ => a.Grows a₁)
    (fun _ _ _ _ hGrows hStep => hGrows.trans hStep.grows)
    ⟨rfl, .refl _, fun _ _ e => e, List.suffix_refl _⟩ h

/-- So a drain declares nothing. -/
theorem names_of_drain {complete : Bool} {a a' : Assembly H} {n : Nat}
    (h : drain vocabulary complete a = .ok n a') : a'.names = a.names :=
  drain_induction (P := fun _ a₁ => a₁.names = a.names)
    (fun _ _ _ _ hSame hStep => hStep.names_eq.trans hSame) rfl h

end Assemble

end ObjectMarkup
