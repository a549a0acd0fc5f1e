import ObjectMarkup.Proofs.Assembling

/-!
# Assignments

An assignment looks up the property, converts the key and the value for it (`Store.prepare`) and then calls
the accessor of the property on the object, once (`Assemble.assign_eq`). Conversions only put objects into
the graph, behind those that there were. So an assignment that fails leaves all that there was, and one that
succeeds changes one object (`Assemble.assign_local`).
-/

set_option autoImplicit false

namespace ObjectMarkup

open Operation

variable {H : Host}

/-! ### Graphs with more objects -/

/-- `g'` is `g` with objects behind it that were made as types of the vocabulary. -/
def ObjectGraph.Appends (vocabulary : Vocabulary H) (g g' : ObjectGraph H) : Prop :=
  ∃ added : Array (Slot H), g'.slots = g.slots ++ added ∧
    ∀ slot ∈ added, ∃ key, vocabulary.describe key = some slot.type

namespace ObjectGraph.Appends

variable {vocabulary : Vocabulary H} {g g₁ g₂ : ObjectGraph H}

/-- A graph appends to itself. -/
theorem refl (g : ObjectGraph H) : g.Appends vocabulary g := by
  refine ⟨#[], ?_, ?_⟩
  · rw [Array.append_empty]
  · intro slot hMem
    exact absurd hMem (Array.not_mem_empty slot)

/-- What is appended to a graph that was itself appended to is appended to the first. -/
theorem trans (h : g.Appends vocabulary g₁) (h' : g₁.Appends vocabulary g₂) :
    g.Appends vocabulary g₂ := by
  obtain ⟨added, hSlots, hTypes⟩ := h
  obtain ⟨added', hSlots', hTypes'⟩ := h'
  refine ⟨added ++ added', ?_, ?_⟩
  · rw [hSlots', hSlots, Array.append_assoc]
  · intro slot hMem
    rcases Array.mem_append.1 hMem with hFirst | hSecond
    · exact hTypes slot hFirst
    · exact hTypes' slot hSecond

/-- An object of a registered type that is inserted stands behind all the older ones. -/
theorem insert (g : ObjectGraph H) {key : TypeName} {type : ElementType H}
    (hDescribe : vocabulary.describe key = some type) (object : Instance H) :
    g.Appends vocabulary (g.insert type object) := by
  refine ⟨#[⟨type, object⟩], Array.push_eq_append, ?_⟩
  intro slot hMem
  rw [Array.mem_singleton.1 hMem]
  exact ⟨key, hDescribe⟩

/-- The objects that there were stay as they were. -/
theorem slot?_eq (h : g.Appends vocabulary g₁) {id : ObjectId} (hOld : id.index < g.size) :
    g₁.slot? id = g.slot? id := by
  obtain ⟨added, hSlots, -⟩ := h
  rw [slot?, slot?, hSlots, Array.getElem?_append_left hOld]

/-- Appending never makes a graph smaller. -/
theorem size_le (h : g.Appends vocabulary g₁) : g.size ≤ g₁.size := by
  obtain ⟨added, hSlots, -⟩ := h
  rw [size, size, hSlots, Array.size_append]
  exact Nat.le_add_right ..

end ObjectGraph.Appends

/-- An object with a slot has an index below the size of the graph. -/
theorem ObjectGraph.lt_of_slot? {g : ObjectGraph H} {id : ObjectId} {slot : Slot H}
    (h : g.slot? id = some slot) : id.index < g.size := by
  apply Nat.lt_of_not_le
  intro hLe
  rw [(g.slot?_eq_none_iff id).2 hLe] at h
  cases h

/-- A converter that creates objects only appends to the graph, whatever it answers. -/
theorem ConverterRun.appends_perform (vocabulary : Vocabulary H) (run : ConverterRun H)
    (g : ObjectGraph H) : g.Appends vocabulary (run.perform vocabulary g).2 := by
  induction run generalizing g with
  | done result => exact .refl g
  | create key object next ih =>
    rw [perform]
    cases hDescribe : vocabulary.describe key with
    | none => exact ih _ g g
    | some type => exact (ObjectGraph.Appends.insert g hDescribe object).trans (ih _ _ _)

variable [Hooks H]

/-! ### Preparing values -/

/-- What a way of storing is given, converted: the key, which only maps need, and the value. -/
def Store.prepare (vocabulary : Vocabulary H) (owner name : String) (store : Store H) (value : Value)
    (key : Option String) : Operation (ObjectGraph H) (Option Value × Value) :=
  match store with
  | .scalar target _ => do
    let v ← convert vocabulary target value
    pure (none, v)
  | .collection target _ => do
    let v ← convert vocabulary target value
    pure (none, v)
  | .list _ => pure (none, value)
  | .map keyTarget target _ =>
    match key with
    | none => throw (.missingKey owner name)
    | some key => do
      let k ← convert vocabulary keyTarget (.string key)
      let v ← convert vocabulary target value
      pure (some k, v)

variable {vocabulary : Vocabulary H}

/-- A conversion only appends to the graph, whether it succeeds or fails. -/
theorem appends_convert (target : ValueType) (value : Value) (g : ObjectGraph H) :
    Ends (convert vocabulary target value) g (fun _ g' => g.Appends vocabulary g')
      fun _ g' => g.Appends vocabulary g' :=
  ends_convert_of_perform (.refl g) (fun run => run.appends_perform vocabulary g) target value

variable (vocabulary) in
/-- Preparing values only puts objects behind those that there were, also if it fails. -/
theorem Store.appends_prepare (owner name : String) (store : Store H) (value : Value)
    (key : Option String) (g : ObjectGraph H) :
    Ends (store.prepare vocabulary owner name value key) g (fun _ g' => g.Appends vocabulary g')
      fun _ g' => g.Appends vocabulary g' := by
  have hConvert (target : ValueType) (v : Value) (g₁ : ObjectGraph H)
      (hMore : g.Appends vocabulary g₁) :
      Ends (convert vocabulary target v) g₁ (fun _ g' => g.Appends vocabulary g')
        fun _ g' => g.Appends vocabulary g' :=
    (appends_convert target v g₁).mono (fun _ _ h => hMore.trans h) fun _ _ h => hMore.trans h
  cases store with
  | scalar target set => exact (hConvert target value g (.refl g)).bind fun _ _ h => .of_pure h
  | collection target push => exact (hConvert target value g (.refl g)).bind fun _ _ h => .of_pure h
  | list push => exact .of_pure (.refl g)
  | map keyTarget target insert =>
    cases key with
    | none => exact .refl g
    | some key =>
      refine (hConvert keyTarget (.string key) g (.refl g)).bind fun k g₁ hKeyed => ?_
      exact (hConvert target value g₁ hKeyed).bind fun _ _ h => .of_pure h

namespace Assemble

omit [Hooks H] in
/-- Two acts on the graph, lifted one after the other, are the lift of their sequence. -/
theorem onGraph_bind {α β : Type} (act : Operation (ObjectGraph H) α)
    (f : α → Operation (ObjectGraph H) β) :
    onGraph (act >>= f) = (onGraph act >>= fun x => onGraph (f x) : Assemble H β) := by
  funext a
  show within _ _ (EStateM.bind act f) a = EStateM.bind (within _ _ act) (fun x => within _ _ (f x)) a
  cases hFirst : act a.graph with
  | error failure g => simp only [within, EStateM.bind, hFirst]
  | ok x g => simp only [within, EStateM.bind, hFirst]

omit [Hooks H] in
/-- The act that does nothing to the graph does nothing to the assembly. -/
theorem onGraph_pure {α : Type} (x : α) : onGraph (pure x) = (pure x : Assemble H α) := rfl

/-- An assignment prepares the key and the value for a property, and calls the accessor of the property. -/
theorem assign_eq (origin : Origin) (object : ObjectId) (name : String) (value : Value)
    (key : Option String) :
    assign vocabulary origin object name value key = (do
      let type ← typeOf object
      let property ← propertyOf type name
      let prepared ← onGraph (property.store.prepare vocabulary type.key.name name value key)
      write type.key.name ⟨origin, object, name, prepared.1, prepared.2⟩
        (property.store.put prepared.1 prepared.2)) := by
  unfold assign
  congr 1
  funext type
  congr 1
  funext property
  cases property.store with
  | list push => rfl
  | scalar target set | collection target push =>
    simp only [Store.prepare, onGraph_bind, onGraph_pure, bind_assoc, pure_bind]
    rfl
  | map keyTarget target insert =>
    cases key with
    | none => rfl
    | some key =>
      simp only [Store.prepare, onGraph_bind, onGraph_pure, bind_assoc, pure_bind]
      rfl

end Assemble

/-! ### What assignments do -/

/-- An assignment spared what there was: the names, the queue and the journal are the same, and every object
is as it was; at most, objects were put behind them. -/
structure Assembly.Spares (vocabulary : Vocabulary H) (a a' : Assembly H) : Prop where
  rest : a' = { a with graph := a'.graph }
  appended : a.graph.Appends vocabulary a'.graph
  kept : ∀ id : ObjectId, id.index < a.graph.size → a'.graph.slot? id = a.graph.slot? id

/-- An assignment wrote a value: the accessor of the property turned the object `old` into `new`, given the
key and the value as they were converted. No other object that there was is changed. -/
structure Assembly.Writes (vocabulary : Vocabulary H) (a : Assembly H) (value : Value)
    (key : Option String) (w : Write) (type : ElementType H) (property : Property H)
    (old new : Instance H) (a' : Assembly H) : Prop where
  found : a.graph.slot? w.object = some ⟨type, old⟩
  named : type.property? w.property = some property
  called : property.store.put w.key w.value old = some new
  wrote : ∃ g, property.store.prepare vocabulary type.key.name w.property value key a.graph =
      .ok (w.key, w.value) g ∧ a.graph.Appends vocabulary g ∧
    a' = Assembly.record { a with graph := g.replace w.object new } (.wrote w g.size)
  changed : a'.graph.slot? w.object = some ⟨type, new⟩
  kept : ∀ id : ObjectId, id.index < a.graph.size → id ≠ w.object →
    a'.graph.slot? id = a.graph.slot? id

omit [Hooks H] in
/-- An assembly whose graph was only appended to is spared. -/
theorem Assembly.Spares.of_appends {a : Assembly H} {g : ObjectGraph H}
    (h : a.graph.Appends vocabulary g) : a.Spares vocabulary { a with graph := g } where
  rest := rfl
  appended := h
  kept _ hOld := h.slot?_eq hOld

/-- A prepared value whose accessor accepts it makes a write of the assembly, with the graph the
preparation left. -/
theorem Assembly.Writes.of_prepared {a : Assembly H} {value : Value} {key : Option String} {w : Write}
    {type : ElementType H} {property : Property H} {old new : Instance H} {g : ObjectGraph H}
    (hFound : a.graph.slot? w.object = some ⟨type, old⟩)
    (hNamed : type.property? w.property = some property)
    (hPrepared : property.store.prepare vocabulary type.key.name w.property value key a.graph =
      .ok (w.key, w.value) g)
    (hAppends : a.graph.Appends vocabulary g)
    (hCalled : property.store.put w.key w.value old = some new) :
    a.Writes vocabulary value key w type property old new
      (Assembly.record { a with graph := g.replace w.object new } (.wrote w g.size)) where
  found := hFound
  named := hNamed
  called := hCalled
  wrote := ⟨g, hPrepared, hAppends, rfl⟩
  changed := by
    show (g.replace w.object new).slot? w.object = _
    rw [ObjectGraph.slot?_replace_self, hAppends.slot?_eq (ObjectGraph.lt_of_slot? hFound), hFound]
    rfl
  kept id hOld hOther := by
    show (g.replace w.object new).slot? id = _
    rw [ObjectGraph.slot?_replace_of_ne g new hOther, hAppends.slot?_eq hOld]

namespace Assemble

/-- Preparing values puts objects into the graph, and nothing else, also if it fails. -/
theorem ends_prepare (owner name : String) (store : Store H) (value : Value) (key : Option String)
    (a : Assembly H) :
    Ends (onGraph (store.prepare vocabulary owner name value key)) a
      (fun prepared a' => ∃ g, store.prepare vocabulary owner name value key a.graph =
        .ok prepared g ∧ a.graph.Appends vocabulary g ∧ a' = { a with graph := g })
      (fun _ a' => a.Spares vocabulary a') := by
  have hPrepare := (store.appends_prepare vocabulary owner name value key a.graph).with_run
  refine .within (hPrepare.mono ?_ ?_)
  · rintro prepared g ⟨hPrepared, hAppends⟩
    exact ⟨g, hPrepared, hAppends, rfl⟩
  · intro failure g hAppends
    exact .of_appends hAppends

/-- What is prepared for a property of an object is written to it, or nothing is. -/
theorem ends_write {a : Assembly H} {g : ObjectGraph H} {value : Value} {key : Option String}
    {w : Write} {type : ElementType H} {property : Property H} {old : Instance H}
    (hFound : a.graph.slot? w.object = some ⟨type, old⟩)
    (hNamed : type.property? w.property = some property)
    (hPrepared : property.store.prepare vocabulary type.key.name w.property value key a.graph =
      .ok (w.key, w.value) g)
    (hAppends : a.graph.Appends vocabulary g) :
    Ends (write type.key.name w (property.store.put w.key w.value)) { a with graph := g }
      (fun _ a' => ∃ new, a.Writes vocabulary value key w type property old new a')
      (fun _ a' => a.Spares vocabulary a') := by
  have hObject : g.object? w.object = some old := by
    rw [ObjectGraph.object?, hAppends.slot?_eq (ObjectGraph.lt_of_slot? hFound), hFound]
    rfl
  unfold Ends write
  simp only [hObject, Option.bind_some]
  cases hCalled : property.store.put w.key w.value old with
  | none => exact .of_appends hAppends
  | some new => exact ⟨new, .of_prepared hFound hNamed hPrepared hAppends hCalled⟩

end Assemble

/-- Assignments are atomic and local, whatever they assign and however it is converted. One that fails spares
all that there was. One that succeeds calls the accessor of the property once, on the object that it is
about, and changes no other object. -/
theorem Assemble.assign_local (origin : Origin) (object : ObjectId) (name : String) (value : Value)
    (key : Option String) (a : Assembly H) :
    Ends (assign vocabulary origin object name value key) a
      (fun _ a' => ∃ w type property old new,
        (w.origin = origin ∧ w.object = object ∧ w.property = name) ∧
          a.Writes vocabulary value key w type property old new a')
      (fun _ a' => a.Spares vocabulary a') := by
  have hSame : a.Spares vocabulary a := .of_appends (.refl a.graph)
  rw [assign_eq]
  refine (ends_typeOf fun _ => hSame).bind ?_
  rintro type _ ⟨rfl, hType⟩
  obtain ⟨⟨_, old⟩, hFound, rfl⟩ := Option.map_eq_some_iff.1 hType
  refine (ends_propertyOf fun _ => hSame).bind ?_
  rintro property _ ⟨rfl, hNamed⟩
  refine (ends_prepare _ name property.store value key _).bind ?_
  rintro ⟨k, v⟩ _ ⟨g, hPrepared, hAppends, rfl⟩
  let w : Write := ⟨origin, object, name, k, v⟩
  have hWrite := ends_write (w := w) hFound hNamed hPrepared hAppends
  refine hWrite.mono ?_ fun _ _ hSpared => hSpared
  rintro _ a' ⟨new, hWrites⟩
  exact ⟨w, _, property, old, new, ⟨rfl, rfl, rfl⟩, hWrites⟩

end ObjectMarkup
