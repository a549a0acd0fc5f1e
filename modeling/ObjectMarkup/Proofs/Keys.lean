import Mathlib.Order.Defs.Unbundled
import ObjectMarkup.Proofs.Assignment
import ObjectMarkup.Proofs.Growth

/-!
# Keys of open elements

Metadata gives an element its key. The key stays with the open element and is used when the element is
over: a map takes what the element stands for under it. Texts come without a key. So whatever the texts of a
document do, in attributes, in content or after they had to wait, no map takes anything of it
(`Assembly.TakesTexts`), and it leaves the keys of the open elements (`Construction.TakesTexts`). The key of
an element is the last one that its own attributes tell (`Construct.ends_applyAttributes`).
-/

set_option autoImplicit false

namespace ObjectMarkup

open Operation

variable {H : Host}

/-! ### Operations that keep a relation -/

namespace Operation

variable {σ α β : Type}

/-- However an operation ends, `R` leads from where it starts to where it ends. -/
structure Leads (R : σ → σ → Prop) (act : Operation σ α) : Prop where
  ends : ∀ s, Ends act s (fun _ s' => R s s') fun _ s' => R s s'

namespace Leads

variable {R : σ → σ → Prop} [IsPreorder σ R]

/-- Giving a value leads nowhere. -/
theorem of_pure (a : α) : Leads R (pure a : Operation σ α) := ⟨fun s => refl_of R s⟩

/-- Failing leads nowhere. -/
theorem of_throw (failure : Failure) : Leads R (throw failure : Operation σ α) :=
  ⟨fun s => refl_of R s⟩

/-- Looking at the state leads nowhere. -/
theorem of_get : Leads R (get : Operation σ σ) := ⟨fun s => refl_of R s⟩

/-- Two steps lead where both may lead. -/
theorem bind {x : Operation σ β} {f : β → Operation σ α} (hx : Leads R x)
    (hf : ∀ b, Leads R (f b)) : Leads R (x >>= f) := by
  refine ⟨fun s => (hx.ends s).bind fun b t hFirst => ?_⟩
  exact ((hf b).ends t).mono (fun _ _ h => trans_of R hFirst h) fun _ _ h => trans_of R hFirst h

end Leads

end Operation

/-! ### Assemblies that take texts -/

/-- Whether values are stored under keys. -/
def Store.isMap : Store H → Bool
  | .map _ _ _ => true
  | _ => false

namespace ObjectGraph

/-- The property of a name that the type of an object declares. -/
def accessor? (g : ObjectGraph H) (object : ObjectId) (name : String) : Option (Property H) :=
  (g.type? object).bind fun type => type.property? name

/-- An accessor that is found is found when the graph has grown. -/
theorem Grows.accessor? {g g' : ObjectGraph H} (h : g.Grows g') {object : ObjectId} {name : String}
    {property : Property H} (hFound : g.accessor? object name = some property) :
    g'.accessor? object name = some property := by
  obtain ⟨type, hType, hProperty⟩ := Option.bind_eq_some_iff.1 hFound
  exact Option.bind_eq_some_iff.2 ⟨type, h object type hType, hProperty⟩

end ObjectGraph

/-- What a text leaves in a journal: its evaluations, and a write into a property that is no map. -/
inductive Entry.IsTextual (g : ObjectGraph H) : Entry → Prop where
  | evaluated (n : Nat) (target : Target) (outcome : Outcome) :
      IsTextual g (.evaluated n target outcome)
  | wrote (w : Write) (extent n : Nat) (property : Property H) (origin : w.origin = .occurrence n)
      (found : g.accessor? w.object w.property = some property)
      (plain : property.store.isMap = false) : IsTextual g (.wrote w extent)

/-- What an entry tells of a text it tells when the graph has grown. -/
theorem Entry.IsTextual.grows {g g' : ObjectGraph H} {entry : Entry} (h : entry.IsTextual g)
    (hGrows : g.Grows g') : entry.IsTextual g' := by
  cases h with
  | evaluated n target outcome => exact .evaluated n target outcome
  | wrote w extent n property origin found plain =>
    exact .wrote w extent n property origin (hGrows.accessor? found) plain

namespace Assembly

/-- All that was done since `a` was done for texts. -/
structure TakesTexts (a a' : Assembly H) : Prop where
  scope : a'.scope = a.scope
  graph : a.graph.Grows a'.graph
  journal : ∃ new, a'.journal = new ++ a.journal ∧ ∀ entry ∈ new, entry.IsTextual a'.graph

namespace TakesTexts

/-- An assembly whose graph grew and whose journal is the same takes texts at most. -/
theorem of_same {a a' : Assembly H} (hScope : a'.scope = a.scope) (hGraph : a.graph.Grows a'.graph)
    (hJournal : a'.journal = a.journal) : a.TakesTexts a' :=
  ⟨hScope, hGraph, [], hJournal, fun _ hMem => absurd hMem List.not_mem_nil⟩

/-- An assembly to which objects were added takes texts at most. -/
theorem of_enlarges {a a' : Assembly H} (h : a.Enlarges a') : a.TakesTexts a' := by
  obtain ⟨g, hExtends, rfl⟩ := h
  exact of_same rfl hExtends.grows rfl

/-- Nothing happens. -/
theorem refl (a : Assembly H) : a.TakesTexts a := of_same rfl (.refl a.graph) rfl

/-- Texts may be taken twice. -/
theorem trans {a₁ a₂ a₃ : Assembly H} (h : a₁.TakesTexts a₂) (h' : a₂.TakesTexts a₃) :
    a₁.TakesTexts a₃ := by
  obtain ⟨new, hJournal, hNew⟩ := h.journal
  obtain ⟨later, hJournal', hLater⟩ := h'.journal
  refine ⟨h'.scope.trans h.scope, h.graph.trans h'.graph, later ++ new, ?_, fun entry hMem => ?_⟩
  · rw [hJournal', hJournal, List.append_assoc]
  · rcases List.mem_append.1 hMem with hMem | hMem
    · exact hLater entry hMem
    · exact (hNew entry hMem).grows h'.graph

/-- Assemblies that take texts are in an order. -/
instance : IsPreorder (Assembly H) TakesTexts where
  refl := refl
  trans _ _ _ := trans

end TakesTexts

end Assembly

variable [Hooks H] {vocabulary : Vocabulary H}

namespace Assemble

/-- An assignment that succeeds writes once what is prepared for the property, with its key. -/
theorem prepared_of_assign {origin : Origin} {object : ObjectId} {name : String} {value : Value}
    {key : Option String} {a a' : Assembly H}
    (h : assign vocabulary origin object name value key a = .ok () a') :
    ∃ w owner property g, (w.origin = origin ∧ w.object = object ∧ w.property = name) ∧
      a.graph.accessor? object name = some property ∧
      property.store.prepare vocabulary owner name value key a.graph = .ok (w.key, w.value) g ∧
      g.Grows a'.graph ∧ a'.journal = .wrote w g.size :: a.journal := by
  rw [assign_eq] at h
  obtain ⟨type, _, hType, h⟩ := bind_eq_ok.1 h
  obtain ⟨hTyped, rfl⟩ := typeOf_eq_ok.1 hType
  obtain ⟨property, _, hProperty, h⟩ := bind_eq_ok.1 h
  obtain ⟨hNamed, rfl⟩ := propertyOf_eq_ok.1 hProperty
  obtain ⟨⟨k, v⟩, _, hPrepare, h⟩ := bind_eq_ok.1 h
  obtain ⟨g, hPrepared, rfl⟩ := onGraph_eq_ok.1 hPrepare
  obtain ⟨o, -, rfl⟩ := write_eq_ok.1 h
  exact ⟨⟨origin, object, name, k, v⟩, type.key.name, property, g, ⟨rfl, rfl, rfl⟩,
    Option.bind_eq_some_iff.2 ⟨type, hTyped, hNamed⟩, hPrepared, .replace g object o, rfl⟩

/-- An assignment that fails writes nothing. -/
theorem takesTexts_of_failed {origin : Origin} {object : ObjectId} {name : String} {value : Value}
    {key : Option String} {a a' : Assembly H} {failure : Failure}
    (h : assign vocabulary origin object name value key a = .error failure a') :
    a.TakesTexts a' := by
  cases balks_of_assign h with
  | refused _ _ enlarged refusal => exact .of_enlarges enlarged
  | unknown absent => exact .refl a
  | mismatched owner w g aimed stored fails => exact .of_enlarges ⟨g, stored.extends, rfl⟩

/-- An assignment that fails is not in the journal. -/
theorem journal_of_failed {origin : Origin} {object : ObjectId} {name : String} {value : Value}
    {key : Option String} {a a' : Assembly H} {failure : Failure}
    (h : assign vocabulary origin object name value key a = .error failure a') :
    a'.journal = a.journal := by
  cases balks_of_assign h with
  | refused _ _ enlarged refusal =>
    obtain ⟨g, -, rfl⟩ := enlarged
    rfl
  | unknown absent => rfl
  | mismatched owner w g aimed stored fails => rfl

/-- What goes into a map goes in under a key: the key is converted, and then the value. -/
theorem converted_of_prepare {owner name : String} {keyType valueType : ValueType}
    {insert : Instance H → Value → Value → Option (Instance H)} {value v : Value} {key : Option String}
    {k : Option Value} {g g' : ObjectGraph H}
    (h : (Store.map keyType valueType insert).prepare vocabulary owner name value key g =
      .ok (k, v) g') :
    ∃ text k' g₁, key = some text ∧ convert vocabulary keyType (.string text) g = .ok k' g₁ ∧
      k = some k' ∧ convert vocabulary valueType value g₁ = .ok v g' := by
  cases key with
  | none => cases h
  | some text =>
    obtain ⟨k', g₁, hKey, h⟩ := bind_eq_ok.1 h
    obtain ⟨v', g₂, hValue, h⟩ := bind_eq_ok.1 h
    cases h
    exact ⟨text, k', g₁, rfl, hKey, rfl, hValue⟩

/-- Without a key nothing goes into a map. -/
theorem isMap_of_prepare {owner name : String} {store : Store H} {value : Value} {g g' : ObjectGraph H}
    {prepared : Option Value × Value}
    (h : store.prepare vocabulary owner name value none g = .ok prepared g') : store.isMap = false := by
  cases store with
  | map keyTarget target insert => cases h
  | scalar | collection | list => rfl

/-- An assignment of a text takes a text at most. -/
theorem leads_assign (n : Nat) (object : ObjectId) (name : String) (value : Value) :
    Leads Assembly.TakesTexts (assign vocabulary (.occurrence n) object name value none) := by
  refine ⟨fun a => .of_runs (fun _ a' hRun => ?_) fun failure a' hRun => takesTexts_of_failed hRun⟩
  have hGrows : a.Grows a' := ((adds_assign ..).ends a).of_ok hRun
  obtain ⟨w, owner, property, g, ⟨hOrigin, rfl, rfl⟩, hFound, hPrepared, -, hJournal⟩ :=
    prepared_of_assign hRun
  refine ⟨hGrows.scope, hGrows.graph, [.wrote w g.size], hJournal, fun entry hMem => ?_⟩
  rw [List.mem_singleton.1 hMem]
  exact .wrote w g.size n property hOrigin (hGrows.graph.accessor? hFound) (isMap_of_prepare hPrepared)

omit [Hooks H] in
/-- Looking up a type takes no text. -/
theorem leads_typeOf (object : ObjectId) :
    Leads Assembly.TakesTexts (typeOf object : Assemble H (ElementType H)) := by
  refine ⟨fun a => ?_⟩
  unfold Ends typeOf
  cases a.graph.type? object <;> exact .refl a

omit [Hooks H] in
/-- Looking up a property takes no text. -/
theorem leads_propertyOf (type : ElementType H) (name : String) :
    Leads Assembly.TakesTexts (propertyOf type name) := by
  unfold propertyOf
  cases type.property? name with
  | some property => exact .of_pure property
  | none => exact .of_throw _

/-- An evaluation of a text takes that text. -/
theorem leads_evaluate (n : Nat) (target : Target) (text : String) :
    Leads Assembly.TakesTexts (evaluate vocabulary n target text) := by
  refine ⟨fun a => ?_⟩
  unfold Ends evaluate
  cases ObjectMarkup.evaluate vocabulary a.surroundings target text with
  | error failure => exact .refl a
  | ok outcome =>
    refine ⟨rfl, .refl a.graph, [.evaluated n target outcome], rfl, fun entry hMem => ?_⟩
    rw [List.mem_singleton.1 hMem]
    exact .evaluated n target outcome

/-- A binding that is evaluated again takes a text at most. -/
theorem leads_rerun (complete : Bool) (b : Binding) :
    Leads Assembly.TakesTexts (rerun vocabulary complete b) := by
  refine (leads_evaluate ..).bind fun outcome => ?_
  cases outcome with
  | value v => exact leads_assign ..
  | nothing => exact .of_pure _
  | deferred required =>
    refine ⟨fun a => .bind_get ?_⟩
    split
    · exact .refl a
    · exact .of_same rfl (.refl a.graph) rfl

/-- Bindings that are evaluated again take texts at most. -/
theorem leads_rerunAll (complete : Bool) (held : List Binding) :
    Leads Assembly.TakesTexts (rerunAll vocabulary complete held) := by
  induction held with
  | nil => exact .of_pure _
  | cons b rest ih => exact (leads_rerun complete b).bind fun _ => ih

/-- Drains take texts at most. -/
theorem leads_drain (complete : Bool) : Leads Assembly.TakesTexts (drain vocabulary complete) := by
  refine .bind ⟨fun a => ?_⟩ fun ready => (leads_rerunAll complete ready).bind fun _ => .of_pure _
  unfold Ends
  rw [takeReady_run]
  exact .of_same rfl (.refl a.graph) rfl

/-- The last drain takes texts at most. -/
theorem leads_settle : Leads Assembly.TakesTexts (settle vocabulary) := by
  refine (leads_drain true).bind fun _ => Leads.of_get.bind fun a => ?_
  split
  · exact .of_pure _
  · exact .of_throw _

end Assemble

/-! ### Constructions that take texts -/

/-- An open element with its key. -/
structure Frame (H : Host) where
  type : ElementType H
  object : ObjectId
  key : Option String

/-- What an open element is, and under which key it goes into a map. -/
def OpenElement.frame (e : OpenElement H) : Frame H := ⟨e.type, e.object, e.key⟩

namespace Construction

/-- The open elements with their keys, from the inside out. -/
def frames (s : Construction H) : List (Frame H) := s.stack.map OpenElement.frame

/-- All that was done since `s` was done for texts, and the open elements have their keys. -/
structure TakesTexts (s s' : Construction H) : Prop where
  assembly : s.assembly.TakesTexts s'.assembly
  frames : s'.frames = s.frames

namespace TakesTexts

omit [Hooks H]

/-- A construction with the same assembly and the same frames takes texts at most. -/
theorem of_same {s s' : Construction H} (hAssembly : s'.assembly = s.assembly)
    (hFrames : s'.frames = s.frames) : s.TakesTexts s' := by
  refine ⟨?_, hFrames⟩
  rw [hAssembly]
  exact .refl s.assembly

/-- Nothing happens. -/
theorem refl (s : Construction H) : s.TakesTexts s := of_same rfl rfl

/-- Texts may be taken twice. -/
theorem trans {s₁ s₂ s₃ : Construction H} (h : s₁.TakesTexts s₂) (h' : s₂.TakesTexts s₃) :
    s₁.TakesTexts s₃ :=
  ⟨h.assembly.trans h'.assembly, h'.frames.trans h.frames⟩

/-- Constructions that take texts are in an order. -/
instance : IsPreorder (Construction H) TakesTexts where
  refl := refl
  trans _ _ _ := trans

end TakesTexts

end Construction

namespace Construct

variable {setting : Setting H}

omit [Hooks H] in
/-- What takes texts at most in an assembly does so in the construction. -/
theorem leads_onAssembly {α : Type} {act : Assemble H α} (h : Leads Assembly.TakesTexts act) :
    Leads Construction.TakesTexts (onAssembly act) := by
  refine ⟨fun s => .within ((h.ends s.assembly).mono ?_ ?_)⟩
  · exact fun _ _ hTakes => ⟨hTakes, rfl⟩
  · exact fun _ _ hTakes => ⟨hTakes, rfl⟩

/-- A text that is given for a property goes into no map, whether it waits or not. -/
theorem leads_applyText (object : ObjectId) (name text : String) :
    Leads Construction.TakesTexts (applyText setting object name text) := by
  have hNumber : Leads Assembly.TakesTexts (Assemble.newOccurrence : Assemble H Nat) :=
    ⟨fun a => .of_same rfl (.refl a.graph) rfl⟩
  refine (leads_onAssembly (Assemble.leads_typeOf object)).bind fun type =>
    (leads_onAssembly (Assemble.leads_propertyOf type name)).bind fun _ =>
      Leads.of_get.bind fun s => (leads_onAssembly hNumber).bind fun n =>
        (leads_onAssembly (Assemble.leads_evaluate ..)).bind fun outcome => ?_
  cases outcome with
  | value v => exact leads_onAssembly (Assemble.leads_assign ..)
  | nothing => exact .of_pure _
  | deferred required =>
    exact leads_onAssembly ⟨fun a => .of_same rfl (.refl a.graph) rfl⟩

omit [Hooks H] in
/-- A text that is kept is not taken yet. -/
theorem leads_keepText (text : String) :
    Leads Construction.TakesTexts (keepText text : Construct H Unit) := by
  refine ⟨fun s => .bind_get ?_⟩
  split
  · exact .refl s
  · next e outer hStack =>
    split
    · exact .refl s
    · exact .of_same rfl (by simp [Construction.frames, hStack, OpenElement.frame])

/-- What waited for an identifier is evaluated when it is declared, and goes into no map. -/
theorem leads_declareIdentifier (e : OpenElement H) (value : Value) :
    Leads Construction.TakesTexts (declareIdentifier setting e value) := by
  unfold declareIdentifier
  cases e.identifier with
  | none => exact .of_pure _
  | some id =>
    refine ⟨fun s => .bind_get ?_⟩
    have hRegister : Ends (Operation.ofExcept (s.assembly.names.register id value)) s
        (fun _ s' => s' = s) (fun _ s' => s.TakesTexts s') :=
      .of_ofExcept (fun _ _ => rfl) fun _ _ => .refl s
    refine hRegister.bind fun names s₁ hSame => .bind_set ?_
    subst hSame
    have hDrain : Leads Construction.TakesTexts
        (onAssembly (Assemble.drain setting.vocabulary s₁.stack.isEmpty)) :=
      leads_onAssembly (Assemble.leads_drain s₁.stack.isEmpty)
    have hNamed : s₁.TakesTexts { s₁ with assembly := { s₁.assembly with names } } :=
      ⟨.of_same rfl (.refl _) rfl, rfl⟩
    refine ((hDrain.bind fun _ => .of_pure ()).ends _).mono ?_ ?_
    · exact fun _ _ h => hNamed.trans h
    · exact fun _ _ h => hNamed.trans h

/-! ### The key that attributes tell -/

omit [Hooks H] in
/-- An attribute whose qualifier means metadata is the metadata that its name says. -/
theorem isMetadata_of_space {scope : NameScope} {name qualifier role : String}
    (hUndeclared : Name.declaredQualifier name = none)
    (hSplit : Name.splitQualifier name = (some qualifier, role))
    (hSpace : scope.spaceOf qualifier = .ok metadataSpace) (wanted : String) :
    scope.isMetadata wanted name = (role == wanted) := by
  simp [NameScope.isMetadata, hUndeclared, hSplit, hSpace, Except.toOption]

/-- An attribute is the key of its element, if it is that metadata, and else leaves it. -/
theorem ends_applyAttribute {name : String}
    (hUndeclared : Name.declaredQualifier name = none) (value : String) {s : Construction H}
    {f : Frame H} {outer : List (Frame H)} (hFrames : s.frames = f :: outer) :
    Ends (applyAttribute setting name value) s
      (fun _ s' => s.assembly.TakesTexts s'.assembly ∧
        s'.frames = { f with key :=
          (if s.assembly.scope.isMetadata keyAttribute name then some value else none).or f.key } ::
            outer)
      fun _ s' => s.assembly.TakesTexts s'.assembly := by
  obtain ⟨a, stack, tag, root⟩ := s
  cases stack with
  | nil => cases hFrames
  | cons e rest =>
    obtain ⟨rfl, rfl⟩ := List.cons.inj hFrames
    unfold applyAttribute
    rcases hSplit : Name.splitQualifier name with ⟨_ | qualifier, role⟩
    · have hNone : a.scope.isMetadata keyAttribute name = false := by
        simp [NameScope.isMetadata, hSplit]
      refine ((leads_applyText e.object name value).ends _).mono (fun _ s' hTakes => ?_)
        fun _ _ hTakes => hTakes.assembly
      refine ⟨hTakes.assembly, hTakes.frames.trans ?_⟩
      rw [hNone]
      rfl
    · have hSpace : Ends (Operation.ofExcept (a.scope.spaceOf qualifier))
          (⟨a, e :: rest, tag, root⟩ : Construction H)
          (fun space s' => s' = ⟨a, e :: rest, tag, root⟩ ∧ a.scope.spaceOf qualifier = .ok space)
          (fun _ s' => a.TakesTexts s'.assembly) :=
        .of_ofExcept (fun _ hFound => ⟨rfl, hFound⟩) fun _ _ => .refl a
      refine .bind_get (hSpace.bind ?_)
      rintro space _ ⟨rfl, hFound⟩
      split
      · exact .refl a
      · next hMetadata =>
        rw [not_not.1 hMetadata] at hFound
        rw [isMetadata_of_space hUndeclared hSplit hFound]
        split
        · next hKey =>
          refine ⟨.refl a, ?_⟩
          rw [hKey, beq_self_eq_true]
          rfl
        · next hOther =>
          rw [beq_false_of_ne hOther]
          split
          · exact ⟨.refl a, rfl⟩
          · split
            · exact .refl a
            · exact ⟨.refl a, rfl⟩

/-- The attributes of an element tell its key, the last one of them that does. Their texts go into no map. -/
theorem ends_applyAttributes {attributes : List (String × String)}
    (hUndeclared : ∀ a ∈ attributes, Name.declaredQualifier a.1 = none) {s : Construction H}
    {f : Frame H} {outer : List (Frame H)} (hFrames : s.frames = f :: outer) :
    Ends (applyAttributes setting attributes) s
      (fun _ s' => s.assembly.TakesTexts s'.assembly ∧
        s'.frames = { f with key := (s.assembly.scope.keyOf attributes).or f.key } :: outer)
      fun _ s' => s.assembly.TakesTexts s'.assembly := by
  induction attributes generalizing s f with
  | nil => exact ⟨.refl s.assembly, hFrames⟩
  | cons first rest ih =>
    obtain ⟨hFirst, hRest⟩ := List.forall_mem_cons.1 hUndeclared
    refine (ends_applyAttribute hFirst first.2 hFrames).bind ?_
    rintro _ s₁ ⟨hTakes, hFrames₁⟩
    refine (ih hRest hFrames₁).mono ?_ fun _ _ hTakes' => hTakes.trans hTakes'
    rintro _ s' ⟨hTakes', hFrames'⟩
    refine ⟨hTakes.trans hTakes', hFrames'.trans ?_⟩
    rw [hTakes.scope, NameScope.keyOf, NameScope.keyOf, NameScope.metadataOf_cons, Option.or_assoc]

end Construct

end ObjectMarkup
