import Mathlib.Tactic.SplitIfs
import ObjectMarkup.Proofs.Assembling
import ObjectMarkup.Proofs.Scope

/-!
# What never changes

Names keep their values and objects keep their types. So a text that is a literal or a reference goes
on to mean what it means once its identifier is declared (`NameTable.Grows.meaning?`), and without
converters, a conversion that succeeds gives the same in every graph that has more objects
(`convert_stable`).
-/

set_option autoImplicit false

namespace ObjectMarkup

open Operation

variable {H : Host}

/-! ### What texts mean -/

/-- The identifier of a reference. -/
def Expression.reference? : Expression → Option String
  | ⟨name, [.text id], []⟩ => if name = "Ref" then some id else none
  | _ => none

/-- An expression that is a reference has the one form of them. -/
theorem Expression.reference?_eq_some {e : Expression} {id : String} (h : e.reference? = some id) :
    e = ⟨"Ref", [.text id], []⟩ := by
  unfold reference? at h
  split at h
  · split at h
    · next hName =>
      cases h
      rw [hName]
    · cases h
  · cases h

/-- The identifier of the reference that a text is. -/
def ValueText.reference? (content : String) : Option String :=
  match classify content with
  | .literal _ => none
  | .expression source => (Expression.parse source).toOption.bind Expression.reference?

/-- What a text means, if it is a literal or a reference to one of the names. -/
def NameTable.meaning? (names : NameTable) (content : String) : Option Value :=
  match ValueText.classify content with
  | .literal text => some (.string text)
  | .expression source =>
    match Expression.parse source with
    | .error _ => none
    | .ok e => e.reference?.bind names.get?

/-- If a text is an expression, then it is a reference. -/
def ValueText.Refers (content : String) : Prop :=
  ∀ source, classify content = .expression source →
    ∃ id, Expression.parse source = .ok ⟨"Ref", [.text id], []⟩

/-- `ValueText.Refers` as a check. -/
def ValueText.refers (content : String) : Bool :=
  match classify content with
  | .literal _ => true
  | .expression source => ((Expression.parse source).toOption.bind Expression.reference?).isSome

/-- Whether all references of a text are to identifiers can be computed. -/
theorem ValueText.refers_iff (content : String) : refers content = true ↔ Refers content := by
  unfold refers Refers
  cases hText : classify content with
  | literal text =>
    constructor
    · intro _ source hSource
      cases hSource
    · intro _
      rfl
  | expression source =>
    constructor
    · intro hSome other hOther
      cases hOther
      obtain ⟨id, hFound⟩ := Option.isSome_iff_exists.1 hSome
      obtain ⟨e, hParse, hReference⟩ := Option.bind_eq_some_iff.1 hFound
      refine ⟨id, ?_⟩
      rw [← Expression.reference?_eq_some hReference]
      cases hResult : Expression.parse source with
      | error fault =>
        rw [hResult] at hParse
        cases hParse
      | ok e' =>
        rw [hResult] at hParse
        cases hParse
        rfl
    · intro hRefers
      obtain ⟨id, hParse⟩ := hRefers source rfl
      simp only [hParse]
      rfl

/-- Whether all references of a text are to identifiers can be decided. -/
instance (content : String) : Decidable (ValueText.Refers content) :=
  decidable_of_iff _ (ValueText.refers_iff content)

/-- A text that is parsed to a reference is one. -/
theorem ValueText.reference?_of_parse {content source id : String}
    (hText : classify content = .expression source)
    (hParse : Expression.parse source = .ok ⟨"Ref", [.text id], []⟩) : reference? content = some id := by
  rw [reference?, hText]
  simp only [hParse]
  rfl

/-- A reference means what is declared under its identifier. -/
theorem NameTable.meaning?_of_reference? (names : NameTable) {content id : String}
    (h : ValueText.reference? content = some id) : names.meaning? content = names.get? id := by
  unfold ValueText.reference? at h
  unfold meaning?
  split at h
  · cases h
  · next source hText =>
    obtain ⟨e, hParse, hReference⟩ := Option.bind_eq_some_iff.1 h
    cases hResult : Expression.parse source with
    | error fault =>
      rw [hResult] at hParse
      cases hParse
    | ok e' =>
      rw [hResult] at hParse
      cases hParse
      simp only [hReference, Option.bind_some]

/-- `Ref` means the reference of the library. -/
def NameScope.KnowsReference (scope : NameScope) (vocabulary : Vocabulary H) : Prop :=
  ∃ type name, scope.findExtension vocabulary "Ref" = .ok type ∧
    type.extension = some (name, .reference)

/-- `Ref` means no extension but the reference of the library. -/
def NameScope.TakesReference (scope : NameScope) (vocabulary : Vocabulary H) : Prop :=
  ∀ type, scope.findExtension vocabulary "Ref" = .ok type →
    ∃ name, type.extension = some (name, .reference)

/-- If a vocabulary has no other `Ref` than that of the library, then no scope takes it for another. -/
theorem NameScope.takesReference {vocabulary : Vocabulary H}
    (h : ∀ type ∈ vocabulary.types, ∀ e, type.extension = some ("Ref", e) → e = .reference)
    (scope : NameScope) : scope.TakesReference vocabulary := by
  intro type hFind
  have hSearch : scope.search "Ref" = .ok (scope.unqualifiedSpaces, "Ref") := rfl
  rw [findExtension, hSearch] at hFind
  obtain ⟨hMem, hName⟩ := of_firstMatch hFind
  obtain ⟨⟨name, e⟩, hExtension, rfl⟩ := Option.map_eq_some_iff.1 (beq_iff_eq.1 hName)
  exact ⟨"Ref", by rw [hExtension, h type hMem e hExtension]⟩

/-- A scope that knows the reference of the library takes it. -/
theorem NameScope.KnowsReference.takes {scope : NameScope} {vocabulary : Vocabulary H}
    (h : scope.KnowsReference vocabulary) : scope.TakesReference vocabulary := by
  obtain ⟨type, name, hFind, hExtension⟩ := h
  intro other hOther
  rw [hFind] at hOther
  cases hOther
  exact ⟨name, hExtension⟩

/-- A text goes on to mean what it means. -/
theorem NameTable.Grows.meaning? {t t' : NameTable} (h : t.Grows t') {content : String} {v : Value}
    (hMeans : t.meaning? content = some v) : t'.meaning? content = some v := by
  unfold NameTable.meaning? at hMeans ⊢
  split at hMeans
  · exact hMeans
  · split at hMeans
    · cases hMeans
    · obtain ⟨id, hId, hDeclared⟩ := Option.bind_eq_some_iff.1 hMeans
      rw [hId]
      exact h id v hDeclared

section Evaluating

variable [Hooks H] {vocabulary : Vocabulary H}

/-- A reference looks up its identifier, which must not be empty. -/
theorem Evaluation.run_reference {scope : NameScope} {type : ElementType H} {name : String}
    (hFind : scope.findExtension vocabulary "Ref" = .ok type)
    (hExtension : type.extension = some (name, .reference)) (site : Site H) (id : String) :
    run vocabulary scope site ⟨"Ref", [.text id], []⟩ =
      if id.isEmpty then
        .error (.invalidExtension "Ref" (Extension.referenceName.unexpected (.string id)))
      else Extension.declaredValue id site := by
  have hEmpty : (Identifiers.empty.union Identifiers.empty).isEmpty = true := rfl
  have hName : Extension.referenceName ⟨[.string id], []⟩ =
      if id.isEmpty then .error (Extension.referenceName.unexpected (.string id)) else .ok id := rfl
  rw [run, hFind]
  simp only [hExtension, runPositional, runArgument, runNamed, applyExtension, Gathered.cons,
    Gathered.empty, hEmpty, if_true, Extension.create, id_eq, hName]
  cases id.isEmpty <;> rfl

/-- A reference is evaluated to the value that its identifier has. -/
theorem Evaluation.of_run_reference {scope : NameScope} {site : Site H} {id : String}
    {outcome : Outcome} (hReference : scope.TakesReference vocabulary)
    (h : run vocabulary scope site ⟨"Ref", [.text id], []⟩ = .ok outcome) :
    Extension.declaredValue id site = .ok outcome := by
  cases hFind : scope.findExtension vocabulary "Ref" with
  | error failure =>
    rw [run, hFind] at h
    cases h
  | ok type =>
    obtain ⟨name, hExtension⟩ := hReference type hFind
    rw [run_reference hFind hExtension] at h
    split at h
    · cases h
    · exact h

/-- A literal or a reference comes to what it means, and a reference waits if that is nothing. -/
theorem meaning_of_evaluate {around : Surroundings H} {target : Target} {content : String}
    {outcome : Outcome} (hReference : around.scope.TakesReference vocabulary)
    (hRefers : ValueText.Refers content)
    (h : evaluate vocabulary around target content = .ok outcome) :
    (∃ v, outcome = .value v ∧ around.names.meaning? content = some v) ∨
      ∃ id, outcome = .deferred (.ofList [id]) ∧ ValueText.reference? content = some id ∧
        around.names.contains id = false := by
  unfold evaluate at h
  unfold NameTable.meaning?
  cases hText : ValueText.classify content with
  | literal text =>
    rw [hText] at h
    cases h
    exact .inl ⟨.string text, rfl, rfl⟩
  | expression source =>
    obtain ⟨id, hParse⟩ := hRefers source hText
    simp only [hText, hParse] at h ⊢
    have hDeclared := Evaluation.of_run_reference hReference h
    unfold Extension.declaredValue at hDeclared
    split at hDeclared
    · next v hFound =>
      cases hDeclared
      exact .inl ⟨v, rfl, hFound⟩
    · next hNone =>
      have hNew : around.names.contains id = false := by
        rw [NameTable.contains, show around.names.get? id = none from hNone]
        rfl
      unfold Site.defer at hDeclared
      split at hDeclared
      · cases hDeclared
        exact .inr ⟨id, rfl, ValueText.reference?_of_parse hText hParse, hNew⟩
      · cases hDeclared

end Evaluating

/-! ### Conversions -/

/-- No object can be converted by its type. -/
def ObjectGraph.Unconverted (g : ObjectGraph H) : Prop :=
  ∀ id type, g.type? id = some type → type.converter = none

/-- An instance that is exchanged brings no converter. -/
theorem ObjectGraph.Unconverted.replace {g : ObjectGraph H} (h : g.Unconverted) (id : ObjectId)
    (object : Instance H) : (g.replace id object).Unconverted := by
  intro other type hType
  rw [type?_replace] at hType
  exact h other type hType

/-- An object of a type without a converter brings none. -/
theorem ObjectGraph.Unconverted.insert {g : ObjectGraph H} (h : g.Unconverted)
    {type : ElementType H} (hNew : type.converter = none) (object : Instance H) :
    (g.insert type object).Unconverted := by
  intro id t hType
  rcases of_type?_insert hType with hOld | rfl
  · exact h id t hOld
  · exact hNew

/-- A type that is described is one of the vocabulary. -/
theorem Vocabulary.mem_of_describe {vocabulary : Vocabulary H} {key : TypeName}
    {type : ElementType H} (h : vocabulary.describe key = some type) : type ∈ vocabulary.types :=
  (List.mem_filter.mp (List.mem_of_find?_eq_some h)).1

/-- A type is described under its key. -/
theorem Vocabulary.key_of_describe {vocabulary : Vocabulary H} {key : TypeName}
    {type : ElementType H} (h : vocabulary.describe key = some type) : type.key = key := by
  obtain ⟨space, name⟩ := key
  have hSpace : type.key.space = space := by
    simpa using (List.mem_filter.mp (List.mem_of_find?_eq_some h)).2
  have hName : type.key.name = name := by
    simpa using List.find?_some h
  rw [← hSpace, ← hName]

namespace Conversion

/-- A handle is accepted where the type of its object may stand. -/
theorem accepts_object (g : ObjectGraph H) (key : TypeName) (id : ObjectId) :
    accepts g (.object key) (.object id) = (g.type? id).any fun type => type.isAssignableTo key := by
  cases hType : g.type? id <;> simp [accepts, hType]

/-- A type goes on to take the values that it takes. -/
theorem accepts_of_grows {g g' : ObjectGraph H} (hGrows : g.Grows g') {target : ValueType}
    {value : Value} (h : accepts g target value = true) : accepts g' target value = true := by
  cases value with
  | object id =>
    cases target with
    | object key =>
      rw [accepts_object, Option.any_eq_true] at h ⊢
      obtain ⟨type, hType, hAssignable⟩ := h
      exact ⟨type, hGrows id type hType, hAssignable⟩
    | _ => exact h
  | _ => cases target <;> exact h

/-- Whether a type takes a text does not depend on the graph. -/
theorem accepts_string (g g' : ObjectGraph H) (target : ValueType) (text : String) :
    accepts g target (.string text) = accepts g' target (.string text) := by
  cases target <;> rfl

variable [Hooks H] {vocabulary : Vocabulary H}

/-- A converter is used that the type of an object has, or the type that is asked for. -/
theorem of_choice {g : ObjectGraph H} {target : ValueType} {value : Value} {c : Choice H}
    (h : choice vocabulary g target value = some c) :
    c.owner.converter = some c.converter ∧
      ((∃ id, value = .object id ∧ g.type? id = some c.owner ∧
          Hooks.convertsTo c.converter target = true) ∨
        ∃ key, target = .object key ∧ vocabulary.describe key = some c.owner ∧
          Hooks.convertsFrom c.converter (sourceType g value) = true) := by
  unfold choice at h
  rcases Option.or_eq_some_iff.mp h with hSource | ⟨-, hTarget⟩
  · unfold sourceChoice at hSource
    split at hSource
    · next id =>
      split at hSource
      · cases hSource
      · next owner hType =>
        split at hSource
        · cases hSource
        · next converter hConverter =>
          split_ifs at hSource with hConverts
          cases hSource
          exact ⟨hConverter, .inl ⟨id, rfl, hType, hConverts⟩⟩
    · cases hSource
  · unfold targetChoice at hTarget
    split at hTarget
    · next key =>
      split at hTarget
      · cases hTarget
      · next owner hDescribe =>
        split at hTarget
        · cases hTarget
        · next converter hConverter =>
          split_ifs at hTarget with hConverts
          cases hTarget
          exact ⟨hConverter, .inr ⟨key, rfl, hDescribe, hConverts⟩⟩
    · cases hTarget

/-- Without converters, none is chosen. -/
theorem choice_eq_none (hTypes : ∀ type ∈ vocabulary.types, type.converter = none)
    {g : ObjectGraph H} (hGraph : g.Unconverted) (target : ValueType) (value : Value) :
    choice vocabulary g target value = none := by
  cases hChoice : choice vocabulary g target value with
  | none => rfl
  | some c =>
    obtain ⟨hConverter, ⟨id, -, hType, -⟩ | ⟨key, -, hDescribe, -⟩⟩ := of_choice hChoice
    · rw [hGraph id c.owner hType] at hConverter
      cases hConverter
    · rw [hTypes c.owner (Vocabulary.mem_of_describe hDescribe)] at hConverter
      cases hConverter

end Conversion

section Converting

variable [Hooks H] {vocabulary : Vocabulary H}

/-- Without converters, a conversion that succeeds leaves the graph, and gives the same in every graph
that has more objects. -/
theorem convert_stable (hTypes : ∀ type ∈ vocabulary.types, type.converter = none)
    {g g₁ : ObjectGraph H} (hGraph : g.Unconverted) {target : ValueType} {value v : Value}
    (h : convert vocabulary target value g = .ok v g₁) :
    g₁ = g ∧ ∀ g', g.Grows g' → convert vocabulary target value g' = .ok v g' := by
  unfold convert at h
  split at h
  · next hAccepts =>
    cases h
    refine ⟨rfl, fun g' hGrows => ?_⟩
    rw [convert, if_pos (Conversion.accepts_of_grows hGrows hAccepts)]
  · next hAccepts =>
    split at h
    · next hText =>
      cases h
      refine ⟨rfl, fun g' _ => ?_⟩
      cases value with
      | string text =>
        rw [Conversion.accepts_string g g'] at hAccepts
        rw [convert, if_neg hAccepts, hText]
      | _ => cases hText
    · cases h
    · rw [Conversion.choice_eq_none hTypes hGraph] at h
      cases h

/-- Without converters, nothing is made for a write. -/
theorem Store.Stores.graph_eq (hTypes : ∀ type ∈ vocabulary.types, type.converter = none)
    {g g' : ObjectGraph H} (hGraph : g.Unconverted) {store : Store H} {value : Value} {w : Write}
    (h : store.Stores vocabulary value g w g') : g' = g := by
  cases store with
  | scalar target set => exact (convert_stable hTypes hGraph h.2).1
  | collection target push => exact (convert_stable hTypes hGraph h.2).1
  | list push => exact h.2.2
  | map keyTarget target insert =>
    obtain ⟨key, k, g₁, -, hKey, hValue⟩ := h
    obtain ⟨rfl, -⟩ := convert_stable hTypes hGraph hKey
    exact (convert_stable hTypes hGraph hValue).1

end Converting

end ObjectMarkup
