import ObjectMarkup.Proofs.Assembling
import ObjectMarkup.Proofs.Honesty
import ObjectMarkup.Proofs.Recursion

/-!
# Failures of the machine

Most failures can come up anywhere. Three cannot: those of the guards against events that no document
has, those of extensions of the host, and the one of waiting after the end of the document. Whatever
holds of all failures but the guards' (`Vocabulary.Admits`) holds of every failure of the machine, or
else the machine was fed an attribute outside of a tag or an end with nothing open
(`Construct.of_feed_error`).

So an honest vocabulary never waits after the end of the document: there is one place where the
machine itself gives that failure, and what waits there waits for an identifier that is not declared.

Most failures only refuse to go on (`Failure.IsRefusal`). An assignment that fails changes no object
that there was before it, and refuses, or finds that there is no such object or that the object is
not what its type says (`Assemble.balks_of_assign`).
-/

set_option autoImplicit false

namespace ObjectMarkup

open Operation

variable {H : Host} [Hooks H] {vocabulary : Vocabulary H}

/-- Any failure but three: the report of references that were never declared, the complaint that an
object is not in the graph, and the complaint of an accessor that an object is not of its type. -/
def Failure.IsRefusal : Failure → Prop
  | .unresolvedReferences _ => False
  | .structural (.unknownObject _) => False
  | .instanceMismatch _ _ => False
  | _ => True

/-- A failure of any other kind is a refusal. -/
theorem Failure.isRefusal_of_kind {failure : Failure} (hReport : failure.kind ≠ .unresolvedReference)
    (hStructure : failure.kind ≠ .structural) (hInstance : failure.kind ≠ .instantiation) :
    failure.IsRefusal := by
  unfold IsRefusal
  split
  · exact hReport rfl
  · exact hStructure rfl
  · exact hInstance rfl
  · trivial

/-- That a name has no type is a refusal. -/
theorem Failure.isRefusal_of_typeResolution {failure : Failure}
    (h : failure.kind = .typeResolution) : failure.IsRefusal := by
  apply isRefusal_of_kind
  · rw [h]
    nofun
  · rw [h]
    nofun
  · rw [h]
    nofun

/-- A faulty expression is refused. -/
theorem Failure.IsExpressionFault.isRefusal {failure : Failure} (h : failure.IsExpressionFault) :
    failure.IsRefusal := by
  unfold IsRefusal
  split
  · exact h.elim nofun nofun
  · exact h.elim nofun nofun
  · exact h.elim nofun nofun
  · trivial

/-- Whether a fault is one of a guard, against an event that no document has at its place. -/
def StructureFault.isGuard : StructureFault → Bool
  | .strayAttribute _ => true
  | .noOpenElement => true
  | .propertyTagOutside _ => true
  | .strayEnd => true
  | _ => false

/-- A failure that can come up anywhere: no guard gives it, and nothing waits after the end of the
document. -/
def Failure.IsOrdinary : Failure → Prop
  | .structural fault => fault.isGuard = false
  | .deferredAfterEnd _ => False
  | _ => True

/-- A failure that neither the structure nor an extension gives is ordinary. -/
theorem Failure.isOrdinary_of_kind {failure : Failure} (hStructure : failure.kind ≠ .structural)
    (hExtension : failure.kind ≠ .extension) : failure.IsOrdinary := by
  unfold IsOrdinary
  split
  · exact absurd rfl hStructure
  · exact hExtension rfl
  · trivial

/-- That a name has no type is an ordinary failure. -/
theorem Failure.isOrdinary_of_typeResolution {failure : Failure}
    (h : failure.kind = .typeResolution) : failure.IsOrdinary := by
  apply isOrdinary_of_kind
  · rw [h]
    nofun
  · rw [h]
    nofun

/-- What holds of the failures of a machine with this vocabulary, but perhaps not of its guards'. -/
structure Vocabulary.Admits (vocabulary : Vocabulary H) (P : Failure → Prop) : Prop where
  ordinary : ∀ failure, failure.IsOrdinary → P failure
  evaluated : ∀ around target text failure, target.canDefer = true →
    evaluate vocabulary around target text = .error failure → P failure
  /-- A text that waits for identifiers which are declared. -/
  waited : ∀ around target text required, target.canDefer = true →
    evaluate vocabulary around target text = .ok (.deferred required) →
      around.names.containsAll required = true → P (.deferredAfterEnd text)

/-! ### Assembling -/

omit [Hooks H] in
/-- A text that does not spell a value of the type fails as a conversion. -/
theorem kind_of_ofValueText {target : ValueType} {value : Value} {failure : Failure}
    (h : Conversion.ofValueText target value = some (.error failure)) :
    failure.kind = .conversion := by
  unfold Conversion.ofValueText at h
  cases value with
  | string text =>
    simp only at h
    unfold Conversion.ofText at h
    split at h
    · split at h
      · cases h
      · cases h
        rfl
    · obtain ⟨r, -, hError⟩ := Option.map_eq_some_iff.1 h
      cases r with
      | ok v => cases hError
      | error reason =>
        cases hError
        rfl
  | _ => cases h

/-- Conversions fail as conversions. -/
theorem kind_of_convert {target : ValueType} {value : Value} {g g' : ObjectGraph H}
    {failure : Failure} (h : convert vocabulary target value g = .error failure g') :
    failure.kind = .conversion := by
  unfold convert at h
  split at h
  · cases h
  · split at h
    · cases h
    · next hText =>
      cases h
      exact kind_of_ofValueText hText
    · split at h
      · unfold Conversion.convertBy at h
        split at h
        · cases h
        · cases h
          rfl
      · cases h
        rfl

/-- `a'` is `a` with more objects in the graph, perhaps. -/
def Assembly.Enlarges (a a' : Assembly H) : Prop :=
  ∃ g, a.graph.Extends g ∧ a' = { a with graph := g }

omit [Hooks H] in
/-- Nothing has to be added. -/
theorem Assembly.Enlarges.refl (a : Assembly H) : a.Enlarges a :=
  ⟨a.graph, .refl _, rfl⟩

/-- How an assignment of a value to an object fails: by a refusal, because there is no such object,
or because the object does not take what became of the value. -/
inductive Assembly.Balks (vocabulary : Vocabulary H) (a : Assembly H) (object : ObjectId)
    (value : Value) : Failure → Assembly H → Prop where
  | refused (failure : Failure) (a' : Assembly H) (enlarged : a.Enlarges a')
      (refusal : failure.IsRefusal) : a.Balks vocabulary object value failure a'
  | unknown (absent : a.graph.type? object = none) :
      a.Balks vocabulary object value (.structural (.unknownObject object)) a
  | mismatched (owner : String) (w : Write) (g : ObjectGraph H) (aimed : w.object = object)
      (stored : w.Stored vocabulary value a.graph g) (fails : g.put? w = none) :
      a.Balks vocabulary object value (.instanceMismatch owner object) { a with graph := g }

namespace Assemble

/-- A conversion enlarges the graph, and fails by a refusal. -/
theorem ends_convert (object : ObjectId) (value : Value) (target : ValueType) (v : Value)
    {a a₁ : Assembly H} (h : a.Enlarges a₁) :
    Ends (onGraph (convert vocabulary target v)) a₁
      (fun converted a' => ∃ g, convert vocabulary target v a₁.graph = .ok converted g ∧
        a' = { a₁ with graph := g })
      (a.Balks vocabulary object value) := by
  obtain ⟨g, hExtends, rfl⟩ := h
  refine .within (.of_runs (fun v g' hRun => ⟨g', hRun, rfl⟩) fun failure g' hRun => ?_)
  have hKind := kind_of_convert hRun
  have hMore := (ObjectMarkup.ends_convert vocabulary target v g).of_error hRun
  refine .refused failure _ ⟨g', hExtends.trans hMore, rfl⟩ (Failure.isRefusal_of_kind ?_ ?_ ?_)
  · rw [hKind]
    nofun
  · rw [hKind]
    nofun
  · rw [hKind]
    nofun

/-- An assignment that fails leaves the objects that there were, and nothing else is new. -/
theorem balks_of_assign {origin : Origin} {object : ObjectId} {name : String} {value : Value}
    {key : Option String} {a a' : Assembly H} {failure : Failure}
    (h : assign vocabulary origin object name value key a = .error failure a') :
    a.Balks vocabulary object value failure a' := by
  suffices hEnds : Ends (assign vocabulary origin object name value key) a (fun _ _ => True)
      (a.Balks vocabulary object value) from hEnds.of_error h
  refine (ends_typeOf .unknown).bind fun type a₁ ⟨hSame, hType⟩ => ?_
  subst hSame
  refine (ends_propertyOf fun _ => .refused _ _ (.refl a₁) trivial).bind
    fun property a₂ ⟨hSame, hProperty⟩ => ?_
  subst hSame
  have hWrite {w : Write} {g : ObjectGraph H} {act : Instance H → Option (Instance H)}
      (hObject : w.object = object) (hName : w.property = name)
      (hStores : property.store.Stores vocabulary value a₂.graph w g)
      (hAct : property.store.put w.key w.value = act) :
      Ends (write type.key.name w act) { a₂ with graph := g } (fun _ _ => True)
        (a₂.Balks vocabulary object value) := by
    subst hObject
    subst hName
    have hPut := ObjectGraph.put?_eq (hStores.extends.grows w.object type hType) hProperty
    rw [hAct] at hPut
    unfold Ends write
    cases hFails : (g.object? w.object).bind act with
    | some o => trivial
    | none => exact .mismatched _ w g rfl ⟨type, property, hType, hProperty, hStores⟩ (hPut.trans hFails)
  cases hStore : property.store with
  | scalar target set =>
    refine (ends_convert object value target value (.refl a₂)).bind ?_
    rintro v _ ⟨g, hConverted, rfl⟩
    refine hWrite rfl rfl ?_ ?_
    · rw [hStore]
      exact ⟨rfl, hConverted⟩
    · rw [hStore]
      rfl
  | collection target push =>
    refine (ends_convert object value target value (.refl a₂)).bind ?_
    rintro v _ ⟨g, hConverted, rfl⟩
    refine hWrite rfl rfl ?_ ?_
    · rw [hStore]
      exact ⟨rfl, hConverted⟩
    · rw [hStore]
      rfl
  | list push =>
    refine hWrite (g := a₂.graph) rfl rfl ?_ ?_
    · rw [hStore]
      exact ⟨rfl, rfl, rfl⟩
    · rw [hStore]
      rfl
  | map keyTarget target insert =>
    cases key with
    | none => exact .refused _ _ (.refl a₂) trivial
    | some key =>
      refine (ends_convert object value keyTarget (.string key) (.refl a₂)).bind ?_
      rintro k _ ⟨g₁, hKeyed, rfl⟩
      have hMore := (ObjectMarkup.ends_convert vocabulary keyTarget (.string key) a₂.graph).of_ok hKeyed
      refine (ends_convert object value target value ⟨g₁, hMore, rfl⟩).bind ?_
      rintro v _ ⟨g, hConverted, rfl⟩
      refine hWrite rfl rfl ?_ ?_
      · rw [hStore]
        exact ⟨key, k, g₁, rfl, hKeyed, hConverted⟩
      · rw [hStore]
        rfl

section Admits

variable {P : Failure → Prop} (h : vocabulary.Admits P)

include h

/-- An object without a type is an ordinary failure. -/
theorem fails_typeOf (id : ObjectId) :
    FailsWith P (typeOf id : Assemble H (ElementType H)) := by
  intro a failure a' hRun
  unfold typeOf at hRun
  split at hRun
  · cases hRun
  · cases hRun
    exact h.ordinary _ rfl

/-- A property that the type does not have is an ordinary failure. -/
theorem fails_propertyOf (type : ElementType H) (name : String) :
    FailsWith P (propertyOf type name) := by
  unfold propertyOf
  split
  · exact .of_pure _
  · exact .of_throw (h.ordinary _ trivial)

/-- Conversions fail in admitted ways. -/
theorem fails_convert (target : ValueType) (value : Value) :
    FailsWith P (onGraph (convert vocabulary target value)) := by
  refine .within fun g failure g' hRun => h.ordinary _ (Failure.isOrdinary_of_kind ?_ ?_)
  · rw [kind_of_convert hRun]
    nofun
  · rw [kind_of_convert hRun]
    nofun

/-- Writes fail in admitted ways. -/
theorem fails_write (owner : String) (w : Write) (act : Instance H → Option (Instance H)) :
    FailsWith P (write owner w act) := by
  intro a failure a' hRun
  unfold write at hRun
  split at hRun
  · cases hRun
  · cases hRun
    exact h.ordinary _ trivial

/-- Assignments fail in admitted ways. -/
theorem fails_assign (origin : Origin) (object : ObjectId) (name : String) (value : Value)
    (key : Option String) : FailsWith P (assign vocabulary origin object name value key) := by
  refine .bind (fails_typeOf h _) fun type => .bind (fails_propertyOf h _ _) fun property => ?_
  cases property.store with
  | scalar target set => exact .bind (fails_convert h _ _) fun _ => fails_write h _ _ _
  | collection target push => exact .bind (fails_convert h _ _) fun _ => fails_write h _ _ _
  | list push => exact fails_write h _ _ _
  | map keyTarget target insert =>
    cases key with
    | none => exact .of_throw (h.ordinary _ trivial)
    | some key =>
      exact .bind (fails_convert h _ _) fun _ => .bind (fails_convert h _ _) fun _ =>
        fails_write h _ _ _

/-- Evaluations that may wait fail in admitted ways. -/
theorem fails_evaluate (n : Nat) {target : Target} (hDefer : target.canDefer = true)
    (text : String) : FailsWith P (evaluate vocabulary n target text) := by
  intro a failure a' hRun
  unfold evaluate at hRun
  split at hRun
  · cases hRun
  · next hError =>
    cases hRun
    exact h.evaluated _ _ _ _ hDefer hError

/-- This is the one place where the machine itself says that something waits after the end of the
document. -/
theorem fails_rerun (complete : Bool) (b : Binding) :
    FailsWith P (rerun vocabulary complete b) := by
  intro a failure a' hRun
  rcases bind_eq_error.1 hRun with hEvaluate | ⟨outcome, a₁, hEvaluate, hRest⟩
  · exact fails_evaluate h _ rfl _ a failure a' hEvaluate
  · obtain ⟨hOutcome, rfl⟩ := evaluate_eq_ok.1 hEvaluate
    cases outcome with
    | value v => exact fails_assign h _ _ _ _ _ _ failure a' hRest
    | nothing => cases hRest
    | deferred required =>
      rcases bind_eq_error.1 hRest with hGet | ⟨s, _, hGet, hLast⟩
      · cases hGet
      · cases hGet
        split at hLast
        · next hWaits =>
          cases hLast
          rw [Bool.and_eq_true] at hWaits
          exact h.waited _ _ _ _ rfl hOutcome hWaits.2
        · cases hLast

/-- Bindings that are evaluated again fail in admitted ways. -/
theorem fails_rerunAll (complete : Bool) (bs : List Binding) :
    FailsWith P (rerunAll vocabulary complete bs) := by
  induction bs with
  | nil => exact .of_pure _
  | cons b rest ih => exact .bind (fails_rerun h complete b) fun _ => ih

/-- Drains fail in admitted ways. -/
theorem fails_drain (complete : Bool) : FailsWith P (drain vocabulary complete) := by
  refine .bind ?_ fun ready => .bind (fails_rerunAll h complete ready) fun _ => .of_pure _
  rintro a failure a' ⟨⟩

/-- The last drain fails in admitted ways. -/
theorem fails_settle : FailsWith P (settle vocabulary) := by
  refine .bind (fails_drain h true) fun _ => .bind .of_get fun a => ?_
  split
  · exact .of_pure _
  · exact .of_throw (h.ordinary _ trivial)

end Admits

end Assemble

/-! ### Interpreting -/

namespace Interpret

variable {setting : Setting H} {P : Failure → Prop} (h : setting.vocabulary.Admits P)

include h

/-- A fault that is no guard may be reported. -/
theorem fails_refuse {α : Type} {fault : StructureFault} (hFault : fault.isGuard = false) :
    FailsWith P (refuse fault : Assemble H α) :=
  .of_throw (h.ordinary _ hFault)

/-- The name of a tag is resolved, or fails in an admitted way. -/
theorem fails_typeNamed (name : String) : FailsWith P (typeNamed setting name) := by
  unfold typeNamed
  cases (ElementType.box? name : Option (ElementType H)) with
  | some box => exact .of_pure _
  | none =>
    refine .bind .of_get fun a => .of_ofExcept fun failure hFind => ?_
    exact h.ordinary _ (Failure.isOrdinary_of_typeResolution (NameScope.kind_of_findType hFind))

/-- Declarations below the root fail in an admitted way. -/
theorem fails_forbidDeclarations (tag : String) (attributes : List (String × String)) :
    FailsWith P (forbidDeclarations tag attributes : Assemble H Unit) := by
  induction attributes with
  | nil => exact .of_pure _
  | cons first rest ih =>
    unfold forbidDeclarations
    split
    · exact fails_refuse h rfl
    · exact ih

omit h [Hooks H] in
/-- Declarations of the root do not fail. -/
theorem fails_declareNamespaces (attributes : List (String × String)) :
    FailsWith P (declareNamespaces attributes : Assemble H _) := by
  induction attributes with
  | nil => exact .of_pure _
  | cons first rest ih =>
    unfold declareNamespaces
    split
    · exact .bind ih fun _ => .of_pure _
    · exact .bind (.of_modify _) fun _ => ih

/-- Objects of elements are made, or that fails in an admitted way. -/
theorem fails_make (tag : String) : FailsWith P (make setting tag) := by
  refine .bind (fails_typeNamed h _) fun type => ?_
  split
  · exact .of_throw (h.ordinary _ trivial)
  · exact .bind .of_get fun a => .bind (.of_set _) fun _ => .of_pure _

/-- What an element stands for is found, or that fails in an admitted way. -/
theorem fails_product (e : Enclosing H) : FailsWith P (product e) := by
  intro a failure a' hRun
  unfold product at hRun
  split at hRun
  · split at hRun
    · cases hRun
      exact h.ordinary _ trivial
    · split at hRun
      · cases hRun
      · cases hRun
        exact h.ordinary _ trivial
  · cases hRun

/-- Property tags are refused in admitted ways. -/
theorem fails_checkPropertyTag (p : ContentPlace H) (text : Option String)
    (tag owner name : String) (attributes : List (String × String)) :
    FailsWith P (checkPropertyTag setting p text tag owner name attributes) := by
  unfold checkPropertyTag
  split
  · exact fails_refuse h rfl
  · refine .bind (fails_typeNamed h _) fun ownerType => ?_
    split
    · exact fails_refuse h rfl
    · split
      · exact fails_refuse h rfl
      · split
        · exact fails_refuse h rfl
        · split
          · exact .of_throw (h.ordinary _ trivial)
          · exact .of_pure _

/-- Texts that are applied fail in admitted ways. -/
theorem fails_putText (path : List (Enclosing H)) (object : ObjectId) (name text : String) :
    FailsWith P (putText setting path object name text) := by
  refine .bind (Assemble.fails_typeOf h _) fun type =>
    .bind (Assemble.fails_propertyOf h _ _) fun _ => .bind .of_get fun a => .bind ?_ fun n =>
      .bind (Assemble.fails_evaluate h n rfl text) fun outcome => ?_
  · rintro a failure a' ⟨⟩
  · cases outcome with
    | value v => exact Assemble.fails_assign h _ _ _ _ _
    | nothing => exact .of_pure _
    | deferred required => exact .of_modify _

/-- A text that was kept fails in the ways of the other texts. -/
theorem fails_putRemembered (path : List (Enclosing H)) (object : ObjectId) (name : String)
    (text : Option String) : FailsWith P (putRemembered setting path object name text) := by
  cases text with
  | none => exact .of_pure _
  | some text => exact fails_putText h _ _ _ _

/-- Attributes fail in admitted ways. -/
theorem fails_applyAttribute (path : List (Enclosing H)) (object : ObjectId) (metadata : Metadata)
    (name value : String) :
    FailsWith P (applyAttribute setting path object metadata name value) := by
  unfold applyAttribute
  obtain ⟨qualifier | qualifier, rest⟩ := Name.splitQualifier name
  · exact .bind (fails_putText h _ _ _ _) fun _ => .of_pure _
  · refine .bind .of_get fun a => .bind (.of_ofExcept fun failure hSpace => ?_) fun space => ?_
    · exact h.ordinary _ (Failure.isOrdinary_of_typeResolution (NameScope.kind_of_spaceOf hSpace))
    · split
      · exact fails_refuse h rfl
      · split
        · exact .of_pure _
        · split
          · exact .of_pure _
          · split
            · exact fails_refuse h rfl
            · exact .of_pure _

/-- Lists of attributes fail in admitted ways. -/
theorem fails_applyAttributes (path : List (Enclosing H)) (object : ObjectId) (metadata : Metadata)
    (attributes : List (String × String)) :
    FailsWith P (applyAttributes setting path object metadata attributes) := by
  induction attributes generalizing metadata with
  | nil => exact .of_pure _
  | cons first rest ih =>
    exact .bind (fails_applyAttribute h _ _ _ _ _) fun metadata' => ih metadata'

/-- Identifiers that are declared fail in admitted ways. -/
theorem fails_identify (complete : Bool) (made : Finished) :
    FailsWith P (identify setting complete made) := by
  unfold identify
  split
  · exact .of_pure _
  · refine .bind .of_get fun a => .bind (.of_ofExcept fun failure hRegister => ?_) fun names => ?_
    · obtain ⟨-, rfl⟩ := (NameTable.register_eq_error_iff ..).1 hRegister
      exact h.ordinary _ trivial
    · exact .bind (.of_set _) fun _ => .bind (Assemble.fails_drain h _) fun _ => .of_pure _

end Interpret

/-! ### Constructing -/

namespace Construct

variable {setting : Setting H} {P : Failure → Prop}

/-- The event is one that no document has at its place, and a guard gives the failure: an attribute
outside of a start tag, or an end when nothing is open. -/
def Trips (setting : Setting H) (event : Markup.Event) (s : Construction H) (failure : Failure) :
    Prop :=
  match event with
  | .attribute name _ => s.tag = none ∧ failure = .structural (.strayAttribute name)
  | .finish =>
    failure = .structural .strayEnd ∧
      ∃ s₁, completeTag setting s = .ok () s₁ ∧ s₁.stack = []
  | .start _ => False
  | .text _ => False

variable (h : setting.vocabulary.Admits P)

include h

/-- Elements that are opened fail in admitted ways. -/
theorem errs_openObject (tag : String) (attributes : List (String × String)) (a : Assembly H)
    (stack : List (OpenElement H)) (root : Option Value) :
    ErrsWith P (outcome (openObject setting tag attributes) ⟨a, stack, none, root⟩) := by
  rw [outcome_openObject]
  exact ((Interpret.fails_make h _).outcome _).bind fun p =>
    ((Interpret.fails_applyAttributes h _ _ _ _).outcome _).map _

/-- A property tag is only opened where an element is open: the root is none, whatever its name. -/
theorem errs_openTag (t : StartTag) (a : Assembly H) (stack : List (OpenElement H))
    (root : Option Value) : ErrsWith P (outcome (openTag setting t) ⟨a, stack, none, root⟩) := by
  cases stack with
  | nil =>
    rw [outcome_openTag_root]
    split
    · exact .of_error (h.ordinary _ rfl)
    · exact ((Interpret.fails_declareNamespaces _).outcome _).bind fun p =>
        errs_openObject h _ _ _ _ _
  | cons e outer =>
    rw [outcome_openTag_nested]
    refine ((Interpret.fails_forbidDeclarations h _ _).outcome _).bind fun p => ?_
    split
    · rw [outcome_openProperty]
      exact ((Interpret.fails_checkPropertyTag h _ _ _ _ _ _).outcome _).map _
    · exact errs_openObject h _ _ _ _ _

/-- Start tags fail in admitted ways. -/
theorem errs_completeTag (s : Construction H) : ErrsWith P (outcome (completeTag setting) s) := by
  cases hTag : s.tag with
  | none =>
    rw [outcome_completeTag_of_none setting hTag]
    exact .of_ok _
  | some t =>
    rw [outcome_completeTag_of_some setting hTag]
    exact errs_openTag h t _ _ _

/-- Elements that are closed fail in admitted ways. -/
theorem errs_closeElement (a : Assembly H) (e : OpenElement H) (outer : List (OpenElement H))
    (tag : Option StartTag) (root : Option Value) :
    ErrsWith P (outcome (closeElement setting) ⟨a, e :: outer, tag, root⟩) := by
  cases outer with
  | nil =>
    rw [outcome_closeElement_root]
    exact ((Interpret.fails_product h _).outcome _).bind fun p =>
      ((Interpret.fails_identify h _ _).outcome _).map _
  | cons parent outer =>
    rw [outcome_closeElement_nested]
    refine ((Interpret.fails_product h _).outcome _).bind fun p => ErrsWith.map ?_ _
    exact (FailsWith.bind (Assemble.fails_assign h _ _ _ _ _) fun _ =>
      Interpret.fails_identify h _ _).outcome _

/-- End tags fail in admitted ways where something is open. -/
theorem errs_endTag (a : Assembly H) (e : OpenElement H) (outer : List (OpenElement H))
    (tag : Option StartTag) (root : Option Value) :
    ErrsWith P (outcome (endTag setting) ⟨a, e :: outer, tag, root⟩) := by
  obtain ⟨type, object, property, text, key, identifier⟩ := e
  cases property with
  | some name =>
    rw [outcome_endTag_property setting ⟨type, object, some name, text, key, identifier⟩ name text]
    exact ((Interpret.fails_putRemembered h _ _ _ _).outcome _).map _
  | none =>
    have hSame := outcome_endTag_element setting ⟨type, object⟩ ⟨key, identifier⟩ text outer a tag
      root
    simp only [OpenElement.ofEnclosing] at hSame
    rw [hSame]
    exact ((Interpret.fails_putRemembered h _ _ _ _).outcome _).bind fun p =>
      errs_closeElement h _ _ _ _ _

omit [Hooks H] h in
/-- A text that is kept fails in an ordinary way. -/
theorem fails_keepText (hOrdinary : ∀ failure : Failure, failure.IsOrdinary → P failure)
    (text : String) : FailsWith P (keepText text : Construct H Unit) := by
  refine .bind .of_get fun s => ?_
  split
  · exact .of_throw (hOrdinary _ rfl)
  · split
    · exact .of_throw (hOrdinary _ rfl)
    · exact .of_set _

/-- An event that fails is one that trips a guard, or else its failure is admitted. -/
theorem of_feed_error {event : Markup.Event} {s s' : Construction H} {failure : Failure}
    (hFeed : feed setting event s = .error failure s') :
    P failure ∨ Trips setting event s failure := by
  have hComplete {s' : Construction H} (hRun : completeTag setting s = .error failure s') :
      P failure := errs_completeTag h s _ (outcome_eq_error.2 ⟨s', hRun⟩)
  cases event with
  | «attribute» name value =>
    unfold feed at hFeed
    rcases bind_eq_error.1 hFeed with hGet | ⟨_, _, hGet, hRest⟩
    · cases hGet
    · cases hGet
      cases hTag : s.tag with
      | none =>
        rw [hTag] at hRest
        cases hRest
        exact .inr ⟨hTag, rfl⟩
      | some t =>
        rw [hTag] at hRest
        cases hRest
  | start name =>
    rcases bind_eq_error.1 hFeed with hRun | ⟨_, _, -, hRest⟩
    · exact .inl (hComplete hRun)
    · cases hRest
  | text text =>
    rcases bind_eq_error.1 hFeed with hRun | ⟨_, s₁, -, hKeep⟩
    · exact .inl (hComplete hRun)
    · exact .inl (fails_keepText h.ordinary text s₁ failure s' hKeep)
  | finish =>
    rcases bind_eq_error.1 hFeed with hRun | ⟨_, s₁, hRun, hEnd⟩
    · exact .inl (hComplete hRun)
    · obtain ⟨a, stack, tag, root⟩ := s₁
      cases stack with
      | nil =>
        cases hEnd
        exact .inr ⟨rfl, _, hRun, rfl⟩
      | cons e outer =>
        exact .inl (errs_endTag h a e outer tag root _ (outcome_eq_error.2 ⟨s', hEnd⟩))

/-- The end of a document fails in admitted ways. -/
theorem of_finish_error {s s' : Construction H} {failure : Failure}
    (hFinish : finish setting s = .error failure s') : P failure := by
  rcases bind_eq_error.1 hFinish with hRun | ⟨_, s₁, -, hRest⟩
  · exact errs_completeTag h s _ (outcome_eq_error.2 ⟨s', hRun⟩)
  · obtain ⟨a, stack, tag, root⟩ := s₁
    cases stack with
    | cons e outer =>
      cases hRest
      exact h.ordinary _ rfl
    | nil =>
      cases root with
      | none =>
        cases hRest
        exact h.ordinary _ rfl
      | some root =>
        have hSettle : FailsWith P (do
            onAssembly (Assemble.settle setting.vocabulary)
            return root : Construct H Value) :=
          .bind (.within (Assemble.fails_settle h)) fun _ => .of_pure _
        exact hSettle _ _ _ hRest

end Construct

namespace Compiler

/-- Feeding a stream fails at one of its events, or it was cancelled, or there is a fault in it. -/
theorem of_feedAll_error {settings : Settings} {setting : Setting H} {n : Nat}
    {items : List (Except Markup.Fault Markup.Event)} {s s' : Construction H} {failure : Failure}
    (h : feedAll settings setting n items s = .error failure s') :
    failure.IsOrdinary ∨ ∃ before event later s₁, items = before.map .ok ++ .ok event :: later ∧
      Construct.feedEvents setting before s = .ok () s₁ ∧
      Construct.feed setting event s₁ = .error failure s' := by
  induction items generalizing n s with
  | nil =>
    unfold feedAll at h
    split at h
    · cases h
      exact .inl trivial
    · cases h
  | cons item rest ih =>
    unfold feedAll at h
    split at h
    · cases h
      exact .inl trivial
    · cases item with
      | error fault =>
        cases h
        exact .inl trivial
      | ok event =>
        rcases bind_eq_error.1 h with hFeed | ⟨_, s₁, hFeed, hRest⟩
        · exact .inr ⟨[], event, rest, s, rfl, rfl, hFeed⟩
        · rcases ih hRest with hOrdinary | ⟨before, event', later, s₂, rfl, hFed, hFails⟩
          · exact .inl hOrdinary
          · refine .inr ⟨event :: before, event', later, s₂, rfl, ?_, hFails⟩
            exact bind_eq_ok.2 ⟨(), s₁, hFeed, hFed⟩

/-- A compilation that fails has an admitted failure, or an event in its stream trips a guard. -/
theorem of_compileEvents_error {c : Compiler H} {P : Failure → Prop} (h : c.vocabulary.Admits P)
    {items : List (Except Markup.Fault Markup.Event)} {dataContext : Option Value}
    {failure : Failure} (hCompile : c.compileEvents items dataContext = .error failure) :
    P failure ∨ ∃ before event later s, items = before.map .ok ++ .ok event :: later ∧
      Construct.feedEvents (c.setting dataContext) before (.ofDefaults c.settings.defaults) =
        .ok () s ∧
      Construct.Trips (c.setting dataContext) event s failure := by
  have hSetting : (c.setting dataContext).vocabulary.Admits P := h
  obtain ⟨s', hError⟩ := failed_of_compileEvents hCompile
  rcases bind_eq_error.1 hError with hFeed | ⟨_, s₁, -, hFinish⟩
  · rcases of_feedAll_error hFeed with hOrdinary | ⟨before, event, later, s, hItems, hFed, hFails⟩
    · exact .inl (h.ordinary _ hOrdinary)
    · rcases Construct.of_feed_error hSetting hFails with hAdmitted | hTrips
      · exact .inl hAdmitted
      · exact .inr ⟨before, event, later, s, hItems, hFed, hTrips⟩
  · exact .inl (Construct.of_finish_error hSetting hFinish)

end Compiler

/-! ### Honest vocabularies -/

/-- An honest vocabulary is never to blame: what waits for identifiers that are declared is not
honest. -/
theorem Vocabulary.Honest.admits (h : vocabulary.Honest) : vocabulary.Admits vocabulary.Blameless where
  ordinary := by
    rintro failure hOrdinary expression rfl
    cases hOrdinary
  evaluated around target text failure hDefer hError := by
    have hVerdict := verdict_evaluate h around hDefer text
    rwa [hError] at hVerdict
  waited around target text required hDefer hOutcome hAll := by
    have hVerdict := verdict_evaluate h around hDefer text
    rw [hOutcome] at hVerdict
    obtain ⟨id, hMem, hNew⟩ := hVerdict
    rw [NameTable.containsAll, List.all_eq_true] at hAll
    rw [hAll id hMem] at hNew
    cases hNew

/-- A compilation with an honest vocabulary has only blameless failures. -/
theorem Compiler.blameless_compileEvents {c : Compiler H} (hHonest : c.vocabulary.Honest)
    {items : List (Except Markup.Fault Markup.Event)} {dataContext : Option Value}
    {failure : Failure} (h : c.compileEvents items dataContext = .error failure) :
    c.vocabulary.Blameless failure := by
  rcases of_compileEvents_error hHonest.admits h with hBlameless | ⟨_, event, _, _, -, -, hTrips⟩
  · exact hBlameless
  · rintro expression rfl
    cases event with
    | «attribute» name value => cases hTrips.2
    | start name => cases hTrips
    | text text => cases hTrips
    | finish => cases hTrips.1

end ObjectMarkup
