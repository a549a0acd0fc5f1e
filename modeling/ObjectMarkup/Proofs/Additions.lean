import ObjectMarkup.Proofs.RunInvariants

/-!
# Operations only add

Each operation of the machine only adds to the assembly (`Adds`): it makes objects behind those that
there are, declares names beside those that are declared, and leaves the scope. This holds wherever
the operation starts and however it ends. The one exception is the start tag of the root, whose
namespace declarations make the scope; no other tag declares any, so the scope is final once that tag
is complete (`Construction.Grows`).
-/

set_option autoImplicit false

namespace ObjectMarkup

open Operation

variable {H : Host}

namespace ObjectGraph

/-- The types of the objects, in the order in which they were made. -/
def types (g : ObjectGraph H) : List (ElementType H) := g.slots.toList.map Slot.type

/-- The types are told by the numbers of the objects. -/
theorem getElem?_types (g : ObjectGraph H) (n : Nat) : g.types[n]? = g.type? ⟨n⟩ := by
  simp [types, type?, slot?]

/-- A graph that has the objects of another has them in front. -/
theorem Grows.types_prefix {g g' : ObjectGraph H} (h : g.Grows g') : g.types <+: g'.types := by
  rw [List.prefix_iff_getElem?]
  intro n hn
  rw [getElem?_types]
  refine h ⟨n⟩ g.types[n] ?_
  rw [← getElem?_types]
  exact List.getElem?_eq_getElem hn

/-- Where the types are the first ones, there are not fewer objects. -/
theorem size_le_of_types_prefix {g g' : ObjectGraph H} (h : g.types <+: g'.types) :
    g.size ≤ g'.size := by
  have hLength := h.length_le
  rwa [types, types, List.length_map, List.length_map, Array.length_toList,
    Array.length_toList] at hLength

end ObjectGraph

/-! ### Operations that add -/

/-- An operation only adds to an assembly, whether it succeeds or fails. -/
structure Adds {σ α : Type} (view : σ → Assembly H) (act : Operation σ α) : Prop where
  ends : ∀ s, Ends act s (fun _ s' => (view s).Grows (view s')) fun _ s' => (view s).Grows (view s')

namespace Adds

variable {σ α β : Type} {view : σ → Assembly H}

/-- Giving a value adds nothing. -/
theorem of_pure (a : α) : Adds view (pure a : Operation σ α) := ⟨fun s => .refl (view s)⟩

/-- Failing adds nothing. -/
theorem of_throw (failure : Failure) : Adds view (throw failure : Operation σ α) :=
  ⟨fun s => .refl (view s)⟩

/-- Looking at the state adds nothing. -/
theorem of_get : Adds view (get : Operation σ σ) := ⟨fun s => .refl (view s)⟩

/-- A result that is there already adds nothing. -/
theorem of_ofExcept (result : Except Failure α) :
    Adds view (Operation.ofExcept result : Operation σ α) :=
  ⟨fun s => .of_ofExcept (fun _ _ => .refl (view s)) fun _ _ => .refl (view s)⟩

/-- Two steps only add if both do. -/
theorem bind {x : Operation σ β} {f : β → Operation σ α} (hx : Adds view x)
    (hf : ∀ b, Adds view (f b)) : Adds view (x >>= f) := by
  refine ⟨fun s => (hx.ends s).bind fun b t hGrows => ?_⟩
  exact ((hf b).ends t).mono (fun _ _ h => hGrows.trans h) fun _ _ h => hGrows.trans h

/-- A check before the rest of an operation. -/
theorem guard {c : Prop} [Decidable c] {x : Operation σ PUnit} {f : PUnit → Operation σ α}
    (hx : Adds view x) (hf : ∀ u, Adds view (f u)) : Adds view (if c then x >>= f else f ⟨⟩) := by
  split
  · exact hx.bind hf
  · exact hf ⟨⟩

end Adds

/-- Nothing but the number of the next occurrence and the queue may have changed. -/
theorem Assembly.Grows.of_same {a a' : Assembly H} (hScope : a'.scope = a.scope)
    (hGraph : a'.graph = a.graph) (hNames : a'.names = a.names) (hJournal : a'.journal = a.journal) :
    a.Grows a' where
  scope := hScope
  graph := by
    rw [hGraph]
    exact .refl a.graph
  names := by
    rw [hNames]
    exact fun _ _ e => e
  journal := hJournal ▸ List.suffix_refl a.journal

namespace Assemble

variable [Hooks H] {vocabulary : Vocabulary H}

omit [Hooks H] in
/-- Looking up a type adds nothing. -/
theorem adds_typeOf (object : ObjectId) :
    Adds id (typeOf object : Assemble H (ElementType H)) := by
  refine ⟨fun a => ?_⟩
  unfold Ends typeOf
  cases a.graph.type? object <;> exact .refl a

omit [Hooks H] in
/-- Looking up a property adds nothing. -/
theorem adds_propertyOf (type : ElementType H) (name : String) : Adds id (propertyOf type name) := by
  unfold propertyOf
  cases type.property? name with
  | some property => exact .of_pure property
  | none => exact .of_throw _

omit [Hooks H] in
/-- The number of an occurrence is taken from nothing else. -/
theorem adds_newOccurrence : Adds id (newOccurrence : Assemble H Nat) :=
  ⟨fun _ => .of_same rfl rfl rfl rfl⟩

omit [Hooks H] in
/-- A binding that waits is no addition yet. -/
theorem adds_enqueue (b : Binding) : Adds id (modify fun a => a.enqueue b : Assemble H PUnit) :=
  ⟨fun _ => .of_same rfl rfl rfl rfl⟩

/-- A converter makes objects behind those that there are, also when it fails. -/
theorem adds_convert (target : ValueType) (value : Value) :
    Adds id (onGraph (convert vocabulary target value)) := by
  refine ⟨fun a => .within ((ObjectMarkup.ends_convert vocabulary target value a.graph).mono ?_ ?_)⟩
  · exact fun _ _ hExtends => ⟨rfl, hExtends.grows, fun _ _ e => e, List.suffix_refl _⟩
  · exact fun _ _ hExtends => ⟨rfl, hExtends.grows, fun _ _ e => e, List.suffix_refl _⟩

/-- Evaluations only add what they record. -/
theorem adds_evaluate (n : Nat) (target : Target) (text : String) :
    Adds id (evaluate vocabulary n target text) := by
  refine ⟨fun a => ?_⟩
  unfold Ends evaluate
  cases ObjectMarkup.evaluate vocabulary a.surroundings target text with
  | ok outcome => exact .record a _
  | error failure => exact .refl a

omit [Hooks H] in
/-- Writes exchange an instance and add what they record. -/
theorem adds_write (owner : String) (w : Write) (act : Instance H → Option (Instance H)) :
    Adds id (write owner w act) := by
  refine ⟨fun a => ?_⟩
  unfold Ends write
  cases (a.graph.object? w.object).bind act with
  | some object => exact ⟨rfl, .replace a.graph w.object object, fun _ _ e => e, List.suffix_cons ..⟩
  | none => exact .refl a

/-- Assignments only add. -/
theorem adds_assign (origin : Origin) (object : ObjectId) (name : String) (value : Value)
    (key : Option String) : Adds id (assign vocabulary origin object name value key) := by
  refine (adds_typeOf object).bind fun type => (adds_propertyOf type name).bind fun property => ?_
  cases property.store with
  | scalar target set => exact (adds_convert target value).bind fun _ => adds_write ..
  | collection target push => exact (adds_convert target value).bind fun _ => adds_write ..
  | list push => exact adds_write ..
  | map keyTarget target insert =>
    cases key with
    | none => exact .of_throw _
    | some key =>
      exact (adds_convert keyTarget _).bind fun _ => (adds_convert target value).bind fun _ =>
        adds_write ..

/-- A binding that is evaluated again only adds. -/
theorem adds_rerun (complete : Bool) (b : Binding) : Adds id (rerun vocabulary complete b) := by
  refine (adds_evaluate ..).bind fun outcome => ?_
  cases outcome with
  | value v => exact adds_assign ..
  | nothing => exact .of_pure _
  | deferred required =>
    refine ⟨fun a => .bind_get ?_⟩
    split
    · exact .refl a
    · exact .of_same rfl rfl rfl rfl

/-- Bindings that are evaluated again only add. -/
theorem adds_rerunAll (complete : Bool) (held : List Binding) :
    Adds id (rerunAll vocabulary complete held) := by
  induction held with
  | nil => exact .of_pure _
  | cons b rest ih => exact (adds_rerun complete b).bind fun _ => ih

/-- Drains only add. -/
theorem adds_drain (complete : Bool) : Adds id (drain vocabulary complete) := by
  refine .bind ⟨fun a => ?_⟩ fun ready => (adds_rerunAll complete ready).bind fun _ => .of_pure _
  unfold Ends
  rw [takeReady_run]
  exact .of_same rfl rfl rfl rfl

/-- The last drain only adds. -/
theorem adds_settle : Adds id (settle vocabulary) := by
  refine (adds_drain true).bind fun _ => Adds.of_get.bind fun a => ?_
  split
  · exact .of_pure _
  · exact .of_throw _

end Assemble

namespace Construct

variable [Hooks H] {setting : Setting H}

omit [Hooks H] in
/-- What only adds to an assembly only adds to the construction. -/
theorem adds_onAssembly {α : Type} {act : Assemble H α} (h : Adds id act) :
    Adds Construction.assembly (onAssembly act) :=
  ⟨fun s => .within (h.ends s.assembly)⟩

omit [Hooks H] in
/-- What the innermost element is told adds nothing. -/
theorem adds_modifyTop (f : OpenElement H → OpenElement H) :
    Adds Construction.assembly (modifyTop f) := by
  refine ⟨fun s => ?_⟩
  unfold Ends modifyTop
  cases s.stack with
  | nil => exact .refl s.assembly
  | cons e outer => exact .refl s.assembly

omit [Hooks H] in
/-- Resolving the name of a tag adds nothing. -/
theorem adds_resolveType (name : String) :
    Adds Construction.assembly (resolveType setting name) := by
  unfold resolveType
  cases (ElementType.box? name : Option (ElementType H)) with
  | some type => exact .of_pure type
  | none => exact Adds.of_get.bind fun s => .of_ofExcept _

/-- Texts that are applied only add. -/
theorem adds_applyText (object : ObjectId) (name text : String) :
    Adds Construction.assembly (applyText setting object name text) := by
  refine (adds_onAssembly (Assemble.adds_typeOf object)).bind fun type =>
    (adds_onAssembly (Assemble.adds_propertyOf type name)).bind fun _ =>
      Adds.of_get.bind fun s => (adds_onAssembly Assemble.adds_newOccurrence).bind fun n =>
        (adds_onAssembly (Assemble.adds_evaluate ..)).bind fun outcome => ?_
  cases outcome with
  | value v => exact adds_onAssembly (Assemble.adds_assign ..)
  | nothing => exact .of_pure _
  | deferred required => exact adds_onAssembly (Assemble.adds_enqueue _)

omit [Hooks H] in
/-- Looking at the innermost element adds nothing. -/
theorem adds_top : Adds Construction.assembly (top : Construct H (OpenElement H)) := by
  refine Adds.of_get.bind fun s => ?_
  split
  · exact .of_throw _
  · exact .of_pure _

/-- Attributes only add. -/
theorem adds_applyAttribute (name value : String) :
    Adds Construction.assembly (applyAttribute setting name value) := by
  unfold applyAttribute
  rcases Name.splitQualifier name with ⟨_ | qualifier, rest⟩
  · exact adds_top.bind fun e => adds_applyText ..
  · refine Adds.of_get.bind fun s => (Adds.of_ofExcept _).bind fun space => ?_
    split
    · exact .of_throw _
    · split
      · exact adds_modifyTop _
      · split
        · exact adds_modifyTop _
        · split
          · exact .of_throw _
          · exact .of_pure _

/-- Lists of attributes only add. -/
theorem adds_applyAttributes (attributes : List (String × String)) :
    Adds Construction.assembly (applyAttributes setting attributes) := by
  induction attributes with
  | nil => exact .of_pure _
  | cons first rest ih => exact (adds_applyAttribute first.1 first.2).bind fun _ => ih

/-- An element that opens makes one object, and what its attributes make. -/
theorem adds_openObject (name : String) (attributes : List (String × String)) :
    Adds Construction.assembly (openObject setting name attributes) := by
  refine (adds_resolveType name).bind fun type => ?_
  cases type.fresh with
  | none => exact .of_throw _
  | some object =>
    refine ⟨fun s => .bind_get (.bind_set ?_)⟩
    have hMade : s.assembly.Grows (Assembly.record
        { s.assembly with graph := s.assembly.graph.insert type object }
        (.opened s.assembly.graph.nextId)) :=
      ⟨rfl, .insert s.assembly.graph type object, fun _ _ e => e, List.suffix_cons ..⟩
    refine ((adds_applyAttributes attributes).ends _).mono ?_ ?_
    · exact fun _ _ h => hMade.trans h
    · exact fun _ _ h => hMade.trans h

omit [Hooks H] in
/-- A property that is opened adds nothing. -/
theorem adds_openProperty (tag owner name : String) (attributes : List (String × String)) :
    Adds Construction.assembly (openProperty setting tag owner name attributes) := by
  refine .guard (.of_throw _) fun _ => (adds_resolveType owner).bind fun ownerType => ?_
  refine ⟨fun s => .bind_get ?_⟩
  split
  · exact .refl s.assembly
  · split
    · exact .refl s.assembly
    · split
      · exact .refl s.assembly
      · split
        · exact .refl s.assembly
        · split
          · exact .refl s.assembly
          · exact .refl s.assembly

omit [Hooks H] in
/-- A text that is kept adds nothing yet. -/
theorem adds_keepText (text : String) :
    Adds Construction.assembly (keepText text : Construct H Unit) := by
  refine ⟨fun s => .bind_get ?_⟩
  split
  · exact .refl s.assembly
  · split
    · exact .refl s.assembly
    · exact .refl s.assembly

omit [Hooks H] in
/-- Finding what an element stands for adds nothing. -/
theorem adds_valueOf (e : OpenElement H) : Adds Construction.assembly (valueOf e) := by
  refine ⟨fun s => ?_⟩
  unfold Ends valueOf
  by_cases hFactory : e.type.isFactory = true
  · simp only [hFactory, if_true]
    cases s.assembly.waitingOn? e.object with
    | some b => exact .refl s.assembly
    | none => cases (s.assembly.graph.object? e.object).bind e.type.produce <;> exact .refl s.assembly
  · simp only [hFactory]
    exact .refl s.assembly

/-- Handing over what an element stands for only adds. -/
theorem adds_handOver (e : OpenElement H) (value : Value) :
    Adds Construction.assembly (handOver setting e value) := by
  refine ⟨fun s => .bind_get ?_⟩
  split
  · exact .refl s.assembly
  · exact (adds_onAssembly (Assemble.adds_assign ..)).ends s

/-- A name that is declared is new, so the others keep their values. -/
theorem adds_declareIdentifier (e : OpenElement H) (value : Value) :
    Adds Construction.assembly (declareIdentifier setting e value) := by
  unfold declareIdentifier
  cases e.identifier with
  | none => exact .of_pure _
  | some id =>
    refine ⟨fun s => .bind_get ?_⟩
    have hRegister : Ends (Operation.ofExcept (s.assembly.names.register id value)) s
        (fun names s' => s' = s ∧ s.assembly.names.register id value = .ok names)
        (fun _ s' => s.assembly.Grows s'.assembly) :=
      .of_ofExcept (fun names hOk => ⟨rfl, hOk⟩) fun _ _ => .refl s.assembly
    refine hRegister.bind fun names s₁ ⟨hSame, hNew⟩ => .bind_set ?_
    subst hSame
    have hNamed : s₁.assembly.Grows { s₁.assembly with names } :=
      ⟨rfl, .refl _, NameTable.grows_of_register hNew, List.suffix_refl _⟩
    refine Ends.bind (R := fun _ s' => s₁.assembly.Grows s'.assembly) ?_ fun _ _ h => h
    exact ((adds_onAssembly (Assemble.adds_drain _)).ends _).mono (fun _ _ h => hNamed.trans h)
      fun _ _ h => hNamed.trans h

/-- Closing an element only adds. -/
theorem adds_closeElement : Adds Construction.assembly (closeElement setting) := by
  refine ⟨fun s => .bind_get ?_⟩
  cases s.stack with
  | nil => exact .refl s.assembly
  | cons e outer =>
    have hClose : Adds Construction.assembly (do
        let value ← valueOf e
        onAssembly (modify fun a => a.record (.closed e.object e.identifier value))
        handOver setting e value
        declareIdentifier setting e value) := by
      refine (adds_valueOf e).bind fun value => ?_
      refine .bind (adds_onAssembly ⟨fun a => .record a _⟩) fun _ => ?_
      exact (adds_handOver e value).bind fun _ => adds_declareIdentifier e value
    exact .bind_set (hClose.ends { s with stack := outer })

/-- End tags only add. -/
theorem adds_endTag : Adds Construction.assembly (endTag setting) := by
  refine ⟨fun s => .bind_get ?_⟩
  cases s.stack with
  | nil => exact .refl s.assembly
  | cons e outer =>
    have hLast : Adds Construction.assembly
        (if e.property.isSome then pure () else closeElement setting) := by
      split
      · exact .of_pure _
      · exact adds_closeElement
    refine .bind_set ?_
    cases e.text with
    | none => exact hLast.ends { s with stack := { e with property := none, text := none } :: outer }
    | some text =>
      exact ((adds_applyText e.object e.receiver text).bind fun _ => hLast).ends
        { s with stack := { e with property := none, text := none } :: outer }

end Construct

/-! ### Constructions -/

namespace Construction

/-- What `s` has made is in `s'` as well. Its objects are the first ones there, with the types that
they were made as; its names have the values they had; and if the start tag of the root is complete,
names of types, extensions and qualifiers mean the same. -/
structure Grows (s s' : Construction H) : Prop where
  objects : s.assembly.graph.types <+: s'.assembly.graph.types
  names : s.assembly.names.Grows s'.assembly.names
  journal : s.assembly.journal <:+ s'.assembly.journal
  scope : s.Started → s'.assembly.scope = s.assembly.scope

namespace Grows

/-- Where the assembly only grows and its scope stays, the construction grows. -/
theorem of_assembly {s s' : Construction H} (h : s.assembly.Grows s'.assembly) : s.Grows s' :=
  ⟨h.graph.types_prefix, h.names, h.journal, fun _ => h.scope⟩

/-- A construction holds what it holds. -/
theorem refl (s : Construction H) : s.Grows s := .of_assembly (.refl s.assembly)

/-- What a construction keeps twice it keeps, if it has not started anew. -/
theorem trans {s₁ s₂ s₃ : Construction H} (h : s₁.Grows s₂) (h' : s₂.Grows s₃)
    (hStarted : s₁.Started → s₂.Started) : s₁.Grows s₃ where
  objects := h.objects.trans h'.objects
  names id value e := h'.names id value (h.names id value e)
  journal := h.journal.trans h'.journal
  scope hFirst := (h'.scope (hStarted hFirst)).trans (h.scope hFirst)

/-- Where the scope does not change, it does not matter whether the root has started. -/
theorem trans_assembly {s₁ s₂ s₃ : Construction H} (h : s₁.Grows s₂)
    (h' : s₂.assembly.Grows s₃.assembly) : s₁.Grows s₃ where
  objects := h.objects.trans h'.graph.types_prefix
  names id value e := h'.names id value (h.names id value e)
  journal := h.journal.trans h'.journal
  scope hFirst := h'.scope.trans (h.scope hFirst)

end Grows

end Construction

namespace Construct

variable [Hooks H] {setting : Setting H}

/-- Only the start tag of the root changes the scope. -/
theorem grows_openTag (t : StartTag) (s : Construction H) :
    Ends (openTag setting t) s (fun _ => s.Grows) (fun _ => s.Grows) := by
  refine .bind_get (.guard (fun _ => .refl s) fun hFirst => ?_)
  have hDeclared : Ends (declareNamespaces s.stack.isEmpty t.name t.attributes) s
      (fun _ s' => s.Grows s') (fun _ s' => s.Grows s') := by
    refine (Course.ends_declareNamespaces ..).mono ?_ ?_
    · rintro others _ ⟨-, rfl⟩
      refine ⟨List.prefix_refl _, fun _ _ e => e, List.suffix_refl _, fun hStarted => if_neg ?_⟩
      intro hRoot
      rcases hStarted with hOpen | hOver
      · exact hOpen (List.isEmpty_iff.1 hRoot)
      · exact hFirst (by rw [hRoot, hOver]; rfl)
    · rintro failure s' ⟨-, -, hSame⟩
      rw [hSame]
      exact .refl s
  refine hDeclared.bind fun others s₁ hGrows => ?_
  have hRest {act : Construct H Unit} (hAdds : Adds Construction.assembly act) :
      Ends act s₁ (fun _ => s.Grows) (fun _ => s.Grows) :=
    (hAdds.ends s₁).mono (fun _ _ h => hGrows.trans_assembly h) fun _ _ h => hGrows.trans_assembly h
  split
  · exact hRest (adds_openProperty ..)
  · exact hRest (adds_openObject ..)

/-- A start tag that is completed takes back nothing, however that ends. -/
theorem grows_completeTag (s : Construction H) :
    Ends (completeTag setting) s (fun _ => s.Grows) (fun _ => s.Grows) := by
  refine .bind_get ?_
  split
  · exact .refl s
  · next t _ =>
    refine .bind_set ((grows_openTag t { s with tag := none }).mono ?_ ?_)
    · exact fun _ _ h => ⟨h.objects, h.names, h.journal, h.scope⟩
    · exact fun _ _ h => ⟨h.objects, h.names, h.journal, h.scope⟩

/-- What comes after a start tag that is complete leaves the scope. -/
theorem grows_afterTag {α : Type} {act : Construct H α} (hAdds : Adds Construction.assembly act)
    (s : Construction H) :
    Ends (do completeTag setting; act) s (fun _ => s.Grows) (fun _ => s.Grows) := by
  refine (grows_completeTag s).bind fun _ s₁ hGrows => ?_
  exact (hAdds.ends s₁).mono (fun _ _ h => hGrows.trans_assembly h)
    fun _ _ h => hGrows.trans_assembly h

/-- An event only adds to what there is, also one that fails. -/
theorem grows_feed (event : Markup.Event) (s : Construction H) :
    Ends (feed setting event) s (fun _ => s.Grows) (fun _ => s.Grows) := by
  cases event with
  | «attribute» name value =>
    refine .bind_get ?_
    split
    · exact .refl s
    · exact .of_assembly (.refl s.assembly)
  | start name =>
    have hBegin : Adds Construction.assembly
        (modify fun s => { s with tag := some ⟨name, []⟩ } : Construct H PUnit) :=
      ⟨fun s₁ => .refl s₁.assembly⟩
    exact grows_afterTag hBegin s
  | text text => exact grows_afterTag (adds_keepText text) s
  | finish => exact grows_afterTag adds_endTag s

/-- The end of a document takes back nothing, however it ends. -/
theorem grows_finish (s : Construction H) :
    Ends (finish setting) s (fun _ => s.Grows) (fun _ => s.Grows) := by
  refine grows_afterTag (Adds.of_get.bind fun s₁ => ?_) s
  split
  · exact .of_throw _
  · split
    · exact .of_throw _
    · exact (adds_onAssembly Assemble.adds_settle).bind fun _ => .of_pure _

end Construct

end ObjectMarkup
