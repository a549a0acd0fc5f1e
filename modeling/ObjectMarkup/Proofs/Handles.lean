import ObjectMarkup.Proofs.Typing

/-!
# Handles and the code of a host

A handle is good as long as there is an object in its place. The code of a host is genuine if it
makes no handles up (`Vocabulary.Genuine`): an instance holds only what it was given, what is read
from it or made of it is held by it, and converters and extensions give handles of the graph that
they see or leave. Then evaluations and conversions give only good handles as well
(`validIn_of_evaluate`, `ends_convert_sound`), and the instances in the graph go on to hold none but
good ones (`ObjectGraph.Sound`).

Which handles the data of a host holds, only the host can tell: `holds` stands for that throughout.
-/

set_option autoImplicit false

namespace ObjectMarkup

open Operation

variable {H : Host}

/-! ### Good handles -/

/-- If the value is a handle, there is an object in its place. -/
def Value.ValidIn (v : Value) (g : ObjectGraph H) : Prop :=
  ∀ id, v = .object id → id.index < g.size

namespace Value

/-- A valid handle is valid when there are more objects. -/
theorem ValidIn.mono {v : Value} {g g' : ObjectGraph H} (h : v.ValidIn g) (hSize : g.size ≤ g'.size) :
    v.ValidIn g' :=
  fun id hSame => Nat.lt_of_lt_of_le (h id hSame) hSize

/-- The handle of an object with a type is valid. -/
theorem validIn_of_type? {g : ObjectGraph H} {id : ObjectId} {type : ElementType H}
    (h : g.type? id = some type) : (Value.object id).ValidIn g := by
  rintro _ ⟨⟩
  by_contra hOut
  rw [ObjectGraph.type?, (g.slot?_eq_none_iff id).2 (Nat.le_of_not_lt hOut)] at h
  cases h

end Value

/-- The arguments that are handles have objects in their places. -/
structure ArgumentValues.ValidIn (arguments : ArgumentValues) (g : ObjectGraph H) : Prop where
  positional : ∀ v ∈ arguments.positional, v.ValidIn g
  named : ∀ x ∈ arguments.named, x.2.ValidIn g

/-! ### Instances -/

/-- An instance holds a handle: a box holds its content, and of the data of a host `holds` tells. -/
def Instance.Holds (holds : H.Data → ObjectId → Prop) : Instance H → ObjectId → Prop
  | .box content, id => content = some (.object id)
  | .host data, id => holds data id

variable (holds : H.Data → ObjectId → Prop)

/-- The code of a type makes no handles up. A fresh instance holds none, one that is given values holds
those besides what it held before, and what is read from an instance or made of it is what it holds. -/
structure ElementType.Genuine (type : ElementType H) : Prop where
  fresh : ∀ o id, type.fresh = some o → ¬o.Holds holds id
  put : ∀ property ∈ type.properties, ∀ key value o o' id, property.store.put key value o = some o' →
    o'.Holds holds id → o.Holds holds id ∨ value = .object id ∨ key = some (.object id)
  get : ∀ property ∈ type.properties, ∀ o id, property.get o = some (.object id) → o.Holds holds id
  produce : ∀ o id, type.produce o = some (.object id) → o.Holds holds id

/-- A declaration makes no handles up, where `held` tells what an instance of the class holds. -/
def Declaration.Genuine {α : Type} (held : α → ObjectId → Prop) : Declaration H α → Prop
  | .constructor fresh => ∀ id, ¬held fresh id
  | .scalar _ _ set => Keeps set
  | .readable _ _ get set => (∀ a id, get a = .object id → held a id) ∧ Keeps set
  | .collection _ _ push => Keeps push
  | .list _ push => Keeps push
  | .map _ _ _ insert => ∀ a key v id, held (insert a key v) id →
      held a id ∨ v = .object id ∨ key = .object id
  | .product produce => ∀ a id, produce a = .object id → held a id
  | _ => True
where
  Keeps (act : α → Value → α) : Prop := ∀ a v id, held (act a v) id → held a id ∨ v = .object id

namespace ElementType

variable {holds} {α : Type} {v : View H α} {held : α → ObjectId → Prop}

/-- An accessor on an instance keeps what its class keeps. -/
theorem holds_of_lift (hView : ∀ o a id, v.unwrap o = some a → (held a id ↔ o.Holds holds id))
    {act : α → Value → α} (hAct : Declaration.Genuine.Keeps held act) {value : Value}
    {o o' : Instance H} {id : ObjectId} (hLift : Declaration.lift v act o value = some o')
    (hHolds : o'.Holds holds id) : o.Holds holds id ∨ value = .object id := by
  obtain ⟨a, hUnwrap, rfl⟩ := Option.map_eq_some_iff.1 hLift
  rw [← hView _ _ id (v.unwrap_wrap _)] at hHolds
  exact (hAct a value id hHolds).imp_left (hView o a id hUnwrap).1

/-- A type is genuine if all that is declared about it is. -/
theorem genuine_assemble (hView : ∀ o a id, v.unwrap o = some a → (held a id ↔ o.Holds holds id))
    (key : TypeName) {ds : List (Declaration H α)} (h : ∀ d ∈ ds, d.Genuine held) :
    (assemble v key ds).Genuine holds where
  fresh o id hFresh hHolds := by
    obtain ⟨a, hLast, rfl⟩ := Option.map_eq_some_iff.1 hFresh
    obtain ⟨d, hMem, hDeclares⟩ := List.mem_filterMap.1 (List.mem_of_getLast? hLast)
    rw [← hView _ _ id (v.unwrap_wrap _)] at hHolds
    have hGenuine := h d hMem
    cases d <;> cases hDeclares
    exact hGenuine id hHolds
  put property hMem key value o o' id hPut hHolds := by
    obtain ⟨d, hMem, hDeclares⟩ := List.mem_filterMap.1 hMem
    have hGenuine := h d hMem
    cases d <;> cases hDeclares
    · exact (holds_of_lift hView hGenuine hPut hHolds).imp_right .inl
    · exact (holds_of_lift hView hGenuine.2 hPut hHolds).imp_right .inl
    · exact (holds_of_lift hView hGenuine hPut hHolds).imp_right .inl
    · exact (holds_of_lift hView hGenuine hPut hHolds).imp_right .inl
    · cases key with
      | none => cases hPut
      | some key =>
        obtain ⟨a, hUnwrap, rfl⟩ := Option.map_eq_some_iff.1 hPut
        rw [← hView _ _ id (v.unwrap_wrap _)] at hHolds
        refine (hGenuine a key value id hHolds).imp (hView o a id hUnwrap).1 (Or.imp_right ?_)
        rintro rfl
        rfl
  get property hMem o id hGet := by
    obtain ⟨d, hMem, hDeclares⟩ := List.mem_filterMap.1 hMem
    have hGenuine := h d hMem
    cases d with
    | readable name type get set =>
      cases hDeclares
      obtain ⟨a, hUnwrap, hRead⟩ := Option.map_eq_some_iff.1 hGet
      exact (hView o a id hUnwrap).1 (hGenuine.1 a id hRead)
    | _ => cases hDeclares <;> cases hGet
  produce o id hProduce := by
    obtain ⟨product, hProduct, hApply⟩ := Option.bind_eq_some_iff.1 hProduce
    obtain ⟨produce, hLast, rfl⟩ := Option.map_eq_some_iff.1 hProduct
    obtain ⟨d, hMem, hDeclares⟩ := List.mem_filterMap.1 (List.mem_of_getLast? hLast)
    obtain ⟨a, hUnwrap, hRead⟩ := Option.map_eq_some_iff.1 hApply
    have hGenuine := h d hMem
    cases d <;> cases hDeclares
    exact (hView o a id hUnwrap).1 (hGenuine a id hRead)

/-- A box holds what was put into it, and stands for that or for its empty value. -/
theorem genuine_boxed (short : String) (type : ValueType) {empty : Value}
    (hEmpty : empty.object? = none) : (boxed short type empty : ElementType H).Genuine holds := by
  have hView (o : Instance H) (content : Option Value) (id : ObjectId)
      (hUnwrap : View.box.unwrap o = some content) :
      content = some (.object id) ↔ o.Holds holds id := by
    cases o with
    | box content' =>
      cases hUnwrap
      rfl
    | host data => cases hUnwrap
  refine genuine_assemble hView _ ?_
  simp only [List.forall_mem_cons]
  refine ⟨nofun, ⟨?_, ?_⟩, trivial, ?_, fun _ hMem => absurd hMem List.not_mem_nil⟩
  · rintro (_ | content) id hGet
    · cases hGet
    · exact congrArg some hGet
  · rintro content v id ⟨⟩
    exact .inr rfl
  · rintro (_ | content) id hProduce
    · cases hEmpty.symm.trans (congrArg Value.object? hProduce)
    · exact congrArg some hProduce

/-- Boxes keep what they are given, and nothing else. -/
theorem genuine_of_mem_boxes {type : ElementType H} (h : type ∈ boxes) : type.Genuine holds := by
  simp only [boxes, List.mem_cons, List.not_mem_nil, or_false] at h
  rcases h with rfl | rfl | rfl | rfl | rfl | rfl | rfl <;> exact genuine_boxed _ _ rfl

/-- The types of the extensions of the library keep nothing. -/
theorem genuine_builtInExtension (name : String) (extension : Extension H) :
    (builtInExtension name extension).Genuine holds where
  fresh _ _ hFresh := by cases hFresh
  put _ hMem := by cases hMem
  get _ hMem := by cases hMem
  produce _ _ hProduce := by cases hProduce

end ElementType

/-! ### Graphs -/

/-- The objects are of types that markup can name, and hold only good handles. -/
structure ObjectGraph.Sound (vocabulary : Vocabulary H) (g : ObjectGraph H) : Prop where
  known : g.Known vocabulary
  held : ∀ other slot, g.slot? other = some slot → ∀ id, slot.object.Holds holds id → id.index < g.size

namespace ObjectGraph.Sound

variable {holds} {vocabulary : Vocabulary H} {g : ObjectGraph H}

/-- The empty graph is sound. -/
theorem empty : (ObjectGraph.empty : ObjectGraph H).Sound holds vocabulary where
  known id type hType := by cases hType
  held other slot hSlot := by cases hSlot

/-- An object that refers to no later ones leaves the graph sound. -/
theorem insert (h : g.Sound holds vocabulary) {type : ElementType H} (hKnows : vocabulary.Knows type)
    {object : Instance H} (hObject : ∀ id, object.Holds holds id → id.index ≤ g.size) :
    (g.insert type object).Sound holds vocabulary where
  known := h.known.insert hKnows object
  held other slot hSlot id hHolds := by
    rw [size_insert]
    apply Nat.lt_succ_of_le
    rcases of_slot?_insert hSlot with hOld | rfl
    · exact Nat.le_of_lt (h.held other slot hOld id hHolds)
    · exact hObject id hHolds

/-- An instance that refers to objects of the graph leaves it sound. -/
theorem replace (h : g.Sound holds vocabulary) (id : ObjectId) {object : Instance H}
    (hObject : ∀ id, object.Holds holds id → id.index < g.size) :
    (g.replace id object).Sound holds vocabulary where
  known := h.known.replace id object
  held other slot hSlot held hHolds := by
    have hSize : (g.replace id object).size = g.size := by simp [size, ObjectGraph.replace]
    rw [hSize]
    by_cases hSame : other = id
    · subst hSame
      rw [slot?_replace_self] at hSlot
      obtain ⟨old, -, rfl⟩ := Option.map_eq_some_iff.1 hSlot
      exact hObject held hHolds
    · rw [slot?_replace_of_ne g object hSame] at hSlot
      exact h.held other slot hSlot held hHolds

end ObjectGraph.Sound

/-! ### Extensions and converters -/

/-- What an extension sees is good: the graph, the object that the value is for, the data context and
what is declared. -/
structure Site.Sound (vocabulary : Vocabulary H) (site : Site H) : Prop where
  graph : site.graph.Sound holds vocabulary
  target : (Value.object site.target).ValidIn site.graph
  dataContext : ∀ v ∈ site.dataContext, v.ValidIn site.graph
  names : ∀ x ∈ site.names.entries, x.2.ValidIn site.graph

/-- From good arguments an extension makes only good values of what it sees. -/
def Extension.Genuine [Hooks H] (vocabulary : Vocabulary H) (e : Extension H) : Prop :=
  ∀ arguments provide site v, e.create arguments = .ok provide → site.Sound holds vocabulary →
    arguments.ValidIn site.graph → provide site = .ok (.value v) → v.ValidIn site.graph

/-- A conversion makes objects that hold only good handles, and gives a value that is good in the
graph that it leaves. -/
def ConverterRun.Genuine (vocabulary : Vocabulary H) : ConverterRun H → ObjectGraph H → Prop
  | .done result, g => ∀ v, result = .ok v → v.ValidIn g
  | .create key object next, g =>
    (∀ id, object.Holds holds id → id.index < g.size) ∧
      match vocabulary.describe key with
      | none => ∀ reason, (next (.error reason) g).Genuine vocabulary g
      | some type => (next (.ok (.object g.nextId)) (g.insert type object)).Genuine vocabulary
          (g.insert type object)

/-- What a host registers makes no handles up. Of extensions and converters it is asked only where
what they are given is good. -/
structure Vocabulary.Genuine [Hooks H] (vocabulary : Vocabulary H) : Prop where
  types : ∀ type ∈ vocabulary.types, type.Genuine holds
  extensions : ∀ type ∈ vocabulary.types, ∀ name e, type.extension = some (name, .host e) →
    (Extension.host e).Genuine holds vocabulary
  converters : ∀ (g : ObjectGraph H) (target : ValueType) (value : Value) (c : Conversion.Choice H),
    c.owner ∈ vocabulary.types → Conversion.choice vocabulary g target value = some c →
      g.Sound holds vocabulary → value.ValidIn g →
        (Hooks.convert c.converter value target g).Genuine holds vocabulary g

variable {holds} {vocabulary : Vocabulary H}

/-- The types that come with the library make no handles up. -/
theorem ElementType.genuine_of_mem_builtIn {type : ElementType H}
    (h : type ∈ (Vocabulary.builtIn : Vocabulary H).types) : type.Genuine holds := by
  rcases List.mem_append.1 h with hBox | hExtension
  · exact genuine_of_mem_boxes hBox
  · simp only [builtInExtensions, List.mem_cons, List.not_mem_nil, or_false] at hExtension
    rcases hExtension with rfl | rfl | rfl <;> exact genuine_builtInExtension _ _

variable [Hooks H]

namespace Vocabulary.Genuine

variable {g : ObjectGraph H}

/-- A type that markup can name is genuine if the vocabulary is. -/
theorem of_knows (h : vocabulary.Genuine holds) {type : ElementType H}
    (hKnows : vocabulary.Knows type) : type.Genuine holds :=
  hKnows.elim ElementType.genuine_of_mem_boxes (h.types type)

/-- What is read from a graph is good. -/
theorem validIn_of_property? (h : vocabulary.Genuine holds) (hSound : g.Sound holds vocabulary)
    {object : ObjectId} {name : String} {v : Value} (hRead : g.property? object name = some v) :
    v.ValidIn g := by
  unfold ObjectGraph.property? at hRead
  split at hRead
  · cases hRead
  · next slot hSlot =>
    split at hRead
    · cases hRead
    · next property hProperty =>
      rintro id rfl
      have hType : g.type? object = some slot.type := by
        rw [ObjectGraph.type?, hSlot]
        rfl
      have hGenuine := h.of_knows (hSound.known object slot.type hType)
      have hMem := List.mem_of_find?_eq_some hProperty
      exact hSound.held object slot hSlot id (hGenuine.get property hMem slot.object id hRead)

end Vocabulary.Genuine

namespace Extension

/-- The extension for references gives values with valid handles. -/
theorem genuine_reference : (reference : Extension H).Genuine holds vocabulary := by
  intro arguments provide site v hCreate hSound _ hProvide
  obtain ⟨name, -, rfl⟩ := except_map_eq_ok_iff.1 hCreate
  unfold declaredValue at hProvide
  split at hProvide
  · next value hValue =>
    cases hProvide
    obtain ⟨before, after, hEntries, -⟩ := List.lookup_eq_some_iff.1 hValue
    refine hSound.names (name, v) ?_
    rw [hEntries]
    exact List.mem_append_right before (List.mem_cons_self ..)
  · unfold Site.defer at hProvide
    split at hProvide <;> cases hProvide

/-- The extension for nothing gives no handle. -/
theorem genuine_null : (null : Extension H).Genuine holds vocabulary := by
  intro arguments provide site v hCreate _ _ hProvide
  cases hCreate
  cases hProvide
  nofun

/-- A path leads from good values to good ones. -/
theorem validIn_of_follow (hGenuine : vocabulary.Genuine holds) {g : ObjectGraph H}
    (hSound : g.Sound holds vocabulary) {path : List String} {value v : Value}
    (hValue : value.ValidIn g) (h : follow g path value = some v) : v.ValidIn g := by
  induction path generalizing value with
  | nil =>
    cases h
    exact hValue
  | cons name rest ih =>
    unfold follow at h
    split at h
    · cases h
    · split at h
      · cases h
      · next next hRead => exact ih (hGenuine.validIn_of_property? hSound hRead) h

/-- The extension for data contexts gives what the context is. -/
theorem genuine_dataContext (hGenuine : vocabulary.Genuine holds) :
    (dataContext : Extension H).Genuine holds vocabulary := by
  intro arguments provide site v hCreate hSound _ hProvide
  obtain ⟨path, -, rfl⟩ := except_map_eq_ok_iff.1 hCreate
  have hValue : dataContextValue path site = .value v := Except.ok.inj hProvide
  unfold dataContextValue at hValue
  split at hValue
  · cases hValue
  · next context hContext =>
    split at hValue
    · next reached hFollow =>
      cases hValue
      exact validIn_of_follow hGenuine hSound.graph (hSound.dataContext context hContext) hFollow
    · cases hValue

/-- The extensions of a vocabulary are genuine, those that come with the library included. -/
theorem genuine_of_mem (hGenuine : vocabulary.Genuine holds) {type : ElementType H}
    (hType : type ∈ vocabulary.types) {name : String} {e : Extension H}
    (hExtension : type.extension = some (name, e)) : e.Genuine holds vocabulary := by
  cases e with
  | reference => exact genuine_reference
  | null => exact genuine_null
  | dataContext => exact genuine_dataContext hGenuine
  | host e => exact hGenuine.extensions type hType name e hExtension

end Extension

/-! ### Evaluations -/

/-- Where everything is good that an evaluation sees, its value is good. -/
theorem validIn_of_evaluate (hGenuine : vocabulary.Genuine holds) {around : Surroundings H}
    {target : Target} {text : String} {v : Value}
    (hSite : ∀ source, (Evaluation.siteOf around target source).Sound holds vocabulary)
    (h : evaluate vocabulary around target text = .ok (.value v)) : v.ValidIn around.graph := by
  have rules (source : String) : Evaluation.Rules vocabulary (Evaluation.siteOf around target source)
      (fun r => ∀ v, r = .ok (.value v) → v.ValidIn around.graph) (fun _ => True) := by
    refine ⟨fun _ _ => nofun, ?_, trivial, fun _ _ _ _ => trivial, ?_⟩
    · rintro content _ ⟨⟩
      nofun
    · intro type hType key e hExtension name positional named hPositional hNamed v hApply
      unfold Evaluation.applyExtension Site.defer at hApply
      simp only at hApply
      split at hApply
      · split at hApply
        · cases hApply
        · next provide hCreate =>
          have hArguments : ArgumentValues.ValidIn ⟨positional.values, named.values⟩ around.graph := by
            refine ⟨fun a hMem => ?_, fun x hMem => ?_⟩
            · rcases hPositional.values a hMem with hNull | hValue
              · intro id hSame
                cases hNull.symm.trans hSame
              · exact hValue a rfl
            · rcases hNamed.values x hMem with hNull | hValue
              · intro id hSame
                cases hNull.symm.trans hSame
              · exact hValue x.2 rfl
          exact Extension.genuine_of_mem hGenuine hType hExtension _ _ _ v hCreate (hSite source)
            hArguments hApply
      · split at hApply <;> cases hApply
  unfold evaluate at h
  split at h
  · cases h
    nofun
  · next source _ =>
    split at h
    · cases h
    · next e _ => exact Evaluation.run_induction (rules source) e v h

/-! ### Conversions -/

omit [Hooks H] in
/-- What a converter leaves is sound. -/
theorem ConverterRun.Genuine.perform {run : ConverterRun H} {g : ObjectGraph H}
    (hRun : run.Genuine holds vocabulary g) (h : g.Sound holds vocabulary) :
    (run.perform vocabulary g).2.Sound holds vocabulary ∧
      ∀ v, (run.perform vocabulary g).1 = .ok v → v.ValidIn (run.perform vocabulary g).2 := by
  induction run generalizing g with
  | done result => exact ⟨h, hRun⟩
  | create key object next ih =>
    rw [ConverterRun.Genuine] at hRun
    obtain ⟨hObject, hNext⟩ := hRun
    rw [ConverterRun.perform]
    cases hDescribe : vocabulary.describe key with
    | none =>
      rw [hDescribe] at hNext
      exact ih _ g (hNext _) h
    | some type =>
      rw [hDescribe] at hNext
      have hKnows : vocabulary.Knows type := .inr (Vocabulary.mem_of_describe hDescribe)
      exact ih _ _ hNext (h.insert hKnows fun id hHolds => Nat.le_of_lt (hObject id hHolds))

omit [Hooks H] in
/-- No text is turned into a handle without a converter. -/
theorem Conversion.validIn_of_ofText {g : ObjectGraph H} {target : ValueType} {text : String}
    {v : Value} (h : ofText target text = some (.ok v)) : v.ValidIn g := by
  rintro id rfl
  -- In no graph at all does a type that reads texts take a handle.
  have hAccepts := accepts_of_ofText (.empty : ObjectGraph H) h
  cases target with
  | any => cases h
  | object key => cases h
  | _ => cases hAccepts

/-- What is good stays so when it is converted. -/
theorem ends_convert_sound (hGenuine : vocabulary.Genuine holds) {g : ObjectGraph H} {value : Value}
    (h : g.Sound holds vocabulary) (hValue : value.ValidIn g) (target : ValueType) :
    Ends (convert vocabulary target value) g (fun v g' => g'.Sound holds vocabulary ∧ v.ValidIn g')
      (fun _ _ => True) := by
  refine .of_runs (fun v g' hRun => ?_) fun _ _ _ => trivial
  unfold convert at hRun
  split at hRun
  · cases hRun
    exact ⟨h, hValue⟩
  · split at hRun
    · next hText =>
      cases hRun
      unfold Conversion.ofValueText at hText
      split at hText
      · exact ⟨h, Conversion.validIn_of_ofText hText⟩
      · cases hText
    · cases hRun
    · split at hRun
      · next c hChoice =>
        have hMem := Conversion.mem_types_of_choice h.known hChoice
        obtain ⟨hLeft, hGiven⟩ :=
          (hGenuine.converters g target value c hMem hChoice h hValue).perform h
        unfold Conversion.convertBy at hRun
        split at hRun
        · next hPerform =>
          cases hRun
          rw [hPerform] at hLeft hGiven
          exact ⟨hLeft, hGiven v rfl⟩
        · cases hRun
      · cases hRun

/-! ### Writes -/

/-- What a write puts into a property is good, as is the key it comes under. -/
structure Write.ValidIn (w : Write) (g : ObjectGraph H) : Prop where
  key : ∀ k ∈ w.key, k.ValidIn g
  value : w.value.ValidIn g

omit [Hooks H] in
/-- A write of valid handles is one when there are more objects. -/
theorem Write.ValidIn.mono {w : Write} {g g' : ObjectGraph H} (h : w.ValidIn g)
    (hSize : g.size ≤ g'.size) : w.ValidIn g' :=
  ⟨fun k hKey => (h.key k hKey).mono hSize, h.value.mono hSize⟩

/-- Conversions before a write leave the graph sound and write valid handles. -/
theorem Store.Stores.sound (hGenuine : vocabulary.Genuine holds) {store : Store H} {value : Value}
    {g g' : ObjectGraph H} {w : Write} (hSound : g.Sound holds vocabulary) (hValue : value.ValidIn g)
    (h : store.Stores vocabulary value g w g') :
    g'.Sound holds vocabulary ∧ w.ValidIn g' := by
  have hPlain {target : ValueType} (hKey : w.key = none)
      (hConvert : convert vocabulary target value g = .ok w.value g') :
      g'.Sound holds vocabulary ∧ w.ValidIn g' := by
    obtain ⟨hSound', hValue'⟩ := (ends_convert_sound hGenuine hSound hValue target).of_ok hConvert
    refine ⟨hSound', fun k hSome => ?_, hValue'⟩
    cases hKey.symm.trans hSome
  cases store with
  | scalar target set => exact hPlain h.1 h.2
  | collection target push => exact hPlain h.1 h.2
  | list push =>
    obtain ⟨hKey, hSame, rfl⟩ := h
    refine ⟨hSound, fun k hSome => ?_, ?_⟩
    · cases hKey.symm.trans hSome
    · rw [hSame]
      exact hValue
  | map keyTarget target insert =>
    obtain ⟨text, key, g₁, hKey, hConvertKey, hConvert⟩ := h
    have hText : (Value.string text).ValidIn g := nofun
    obtain ⟨hSound₁, hKey₁⟩ := (ends_convert_sound hGenuine hSound hText keyTarget).of_ok hConvertKey
    have hFirst := ((ends_convert ..).of_ok hConvertKey).grows.size_le
    have hSecond := ((ends_convert ..).of_ok hConvert).grows.size_le
    obtain ⟨hSound', hValue'⟩ :=
      (ends_convert_sound hGenuine hSound₁ (hValue.mono hFirst) target).of_ok hConvert
    refine ⟨hSound', fun k hSome => ?_, hValue'⟩
    cases hKey.symm.trans hSome
    exact hKey₁.mono hSecond

/-- A write of a good value leaves a sound graph, and an object that holds only good handles. -/
theorem Write.Stored.sound (hGenuine : vocabulary.Genuine holds) {w : Write} {value : Value}
    {g g' : ObjectGraph H} {o : Instance H} (hSound : g.Sound holds vocabulary)
    (hValue : value.ValidIn g) (h : w.Stored vocabulary value g g') (hPut : g'.put? w = some o) :
    (g'.replace w.object o).Sound holds vocabulary ∧ w.ValidIn g' := by
  obtain ⟨type, property, hType, hProperty, hStores⟩ := h
  obtain ⟨hSound', hValid⟩ := hStores.sound hGenuine hSound hValue
  refine ⟨hSound'.replace w.object fun id hHolds => ?_, hValid⟩
  have hLater := hStores.extends.grows w.object type hType
  rw [ObjectGraph.put?_eq hLater hProperty] at hPut
  obtain ⟨object, hObject, hPut⟩ := Option.bind_eq_some_iff.1 hPut
  obtain ⟨slot, hSlot, rfl⟩ := Option.map_eq_some_iff.1 hObject
  have hMem := List.mem_of_find?_eq_some hProperty
  have hKept := (hGenuine.of_knows (hSound'.known w.object type hLater)).put property hMem w.key w.value
    slot.object o id hPut hHolds
  rcases hKept with hOld | hNew | hKey
  · exact hSound'.held w.object slot hSlot id hOld
  · exact hValid.value id hNew
  · exact hValid.key _ hKey id rfl

end ObjectMarkup
