import Mathlib.Tactic.ByContra
import ObjectMarkup.Proofs.Expressions
import ObjectMarkup.Proofs.Operation

/-!
# Honest extensions

An extension that asks to be evaluated again lists the identifiers it waits for. It is honest if at
least one of them is not declared at that moment; it would be evaluated again for nothing otherwise.
The extensions that come with the library are honest, and if all extensions of a vocabulary are, so
are its expressions, whatever their arguments wait for (`Evaluation.verdict_run`).
-/

set_option autoImplicit false

namespace ObjectMarkup

open Operation

variable {H : Host} [Hooks H]

/-- Whenever the extension defers, it lists an identifier that is not declared. -/
def Extension.Honest (e : Extension H) : Prop :=
  ∀ arguments provide, e.create arguments = .ok provide →
    ∀ site required, provide site = .ok (.deferred required) →
      ∃ id ∈ required, site.names.contains id = false

/-- All extensions of a vocabulary are honest. -/
def Vocabulary.Honest (vocabulary : Vocabulary H) : Prop :=
  ∀ type ∈ vocabulary.types, ∀ name e, type.extension = some (name, e) → e.Honest

/-- A failure that an extension of the host itself gave, where it could have deferred. -/
def Vocabulary.Raises (vocabulary : Vocabulary H) (failure : Failure) : Prop :=
  ∃ type ∈ vocabulary.types, ∃ name e arguments provide site,
    type.extension = some (name, .host e) ∧ Hooks.extend e arguments = .ok provide ∧
      site.canDefer = true ∧ provide site = .error failure

/-! ### The extensions of the library -/

namespace Extension

/-- A reference waits for the one identifier that it names. -/
theorem honest_reference : (reference : Extension H).Honest := by
  intro arguments provide hCreate site required hProvide
  obtain ⟨name, -, rfl⟩ := except_map_eq_ok_iff.1 hCreate
  unfold declaredValue at hProvide
  split at hProvide
  · cases hProvide
  · next hNone =>
    unfold Site.defer at hProvide
    split at hProvide
    · cases hProvide
      refine ⟨name, Identifiers.mem_ofList.2 (List.mem_singleton_self name), ?_⟩
      rw [NameTable.contains, hNone]
      rfl
    · cases hProvide

/-- Null never waits. -/
theorem honest_null : (null : Extension H).Honest := by
  intro arguments provide hCreate site required hProvide
  cases hCreate
  cases hProvide

/-- The data context never waits. -/
theorem honest_dataContext : (dataContext : Extension H).Honest := by
  intro arguments provide hCreate site required hProvide
  obtain ⟨path, -, rfl⟩ := except_map_eq_ok_iff.1 hCreate
  have hValue : dataContextValue path site = .deferred required := Except.ok.inj hProvide
  unfold dataContextValue at hValue
  split at hValue
  · cases hValue
  · split at hValue
    · cases hValue
    · cases hValue

end Extension

namespace Vocabulary

/-- The vocabulary of the library is honest. -/
theorem honest_builtIn : (builtIn : Vocabulary H).Honest := by
  intro type hMem name e hExtension
  rcases List.mem_append.1 hMem with hMem | hMem
  · rw [ElementType.extension_of_mem_boxes hMem] at hExtension
    cases hExtension
  · simp only [ElementType.builtInExtensions, List.mem_cons, List.not_mem_nil, or_false] at hMem
    have hSame {short : String} {own : Extension H} (hOwn : own.Honest)
        (hType : type = .builtInExtension short own) : e.Honest := by
      rw [hType, ElementType.extension_builtInExtension] at hExtension
      cases hExtension
      exact hOwn
    rcases hMem with hReference | hNull | hDataContext
    · exact hSame Extension.honest_reference hReference
    · exact hSame Extension.honest_null hNull
    · exact hSame Extension.honest_dataContext hDataContext

/-- A vocabulary stays honest with one more type, if its extension is honest. -/
theorem Honest.register {vocabulary : Vocabulary H} (h : vocabulary.Honest) {type : ElementType H}
    (hType : ∀ name e, type.extension = some (name, e) → e.Honest) :
    (vocabulary.register type).Honest := by
  intro t hMem name e hExtension
  rcases List.mem_append.1 hMem with hMem | hMem
  · exact h t hMem name e hExtension
  · cases List.mem_singleton.1 hMem
    exact hType name e hExtension

end Vocabulary

namespace Extension

/-- Where deferring is allowed, only extensions of the host fail. -/
theorem raises_of_provide {vocabulary : Vocabulary H} {type : ElementType H} {name : String}
    {e : Extension H} {arguments : ArgumentValues} {provide : Site H → Except Failure Outcome}
    {site : Site H} {failure : Failure} (hType : type ∈ vocabulary.types)
    (hExtension : type.extension = some (name, e)) (hCreate : e.create arguments = .ok provide)
    (hDefer : site.canDefer = true) (hProvide : provide site = .error failure) :
    vocabulary.Raises failure := by
  cases e with
  | reference =>
    obtain ⟨id, -, rfl⟩ := except_map_eq_ok_iff.1 hCreate
    unfold declaredValue Site.defer at hProvide
    rw [hDefer] at hProvide
    split at hProvide
    · cases hProvide
    · cases hProvide
  | null =>
    cases hCreate
    cases hProvide
  | dataContext =>
    obtain ⟨path, -, rfl⟩ := except_map_eq_ok_iff.1 hCreate
    cases hProvide
  | host e => exact ⟨type, hType, name, e, arguments, provide, site, hExtension, hCreate, hDefer, hProvide⟩

end Extension

/-! ### Expressions -/

/-- The failure does not come from waiting after the end of the document, unless an extension of the
host itself says so. -/
def Vocabulary.Blameless (vocabulary : Vocabulary H) (failure : Failure) : Prop :=
  ∀ expression, failure = .deferredAfterEnd expression → vocabulary.Raises failure

/-- A failure of another kind than an extension's does not come from waiting too long. -/
theorem Vocabulary.blameless_of_kind {vocabulary : Vocabulary H} {failure : Failure}
    (h : failure.kind ≠ .extension) : vocabulary.Blameless failure := by
  rintro expression rfl
  exact absurd rfl h

/-- No expression fault comes from waiting too long. -/
theorem Vocabulary.blameless_of_fault {vocabulary : Vocabulary H} {failure : Failure}
    (h : failure.IsExpressionFault) : vocabulary.Blameless failure := by
  rintro expression rfl
  rcases h with hKind | hKind <;> cases hKind

namespace Evaluation

/-- What the outcome of an honest expression is like: what it waits for is not all declared, and its
failures are blameless. -/
def Verdict (vocabulary : Vocabulary H) (names : NameTable) : Except Failure Outcome → Prop
  | .ok (.deferred required) => ∃ id ∈ required, names.contains id = false
  | .ok _ => True
  | .error failure => vocabulary.Blameless failure

/-- What gathered arguments wait for, if they wait for anything, is not all declared. -/
def Outstanding (names : NameTable) (missing : Identifiers) : Prop :=
  missing.isEmpty = false → ∃ id ∈ missing, names.contains id = false

variable {vocabulary : Vocabulary H} {scope : NameScope} {site : Site H}

omit [Hooks H] in
/-- An undeclared identifier of either set is one of the union. -/
theorem exists_mem_union {names : NameTable} {s t : Identifiers}
    (h : (∃ id ∈ s, names.contains id = false) ∨ ∃ id ∈ t, names.contains id = false) :
    ∃ id ∈ s.union t, names.contains id = false := by
  rcases h with ⟨id, hMem, hNew⟩ | ⟨id, hMem, hNew⟩
  · exact ⟨id, Identifiers.mem_union.2 (.inl hMem), hNew⟩
  · exact ⟨id, Identifiers.mem_union.2 (.inr hMem), hNew⟩

/-- An honest extension applied to what was gathered defers only on something undeclared, and fails
blamelessly. -/
theorem verdict_applyExtension {type : ElementType H} {name key : String} {e : Extension H}
    {positional : Gathered Value} {named : Gathered (String × Value)}
    (hHonest : vocabulary.Honest) (hType : type ∈ vocabulary.types)
    (hExtension : type.extension = some (key, e)) (hDefer : site.canDefer = true)
    (hPositional : Outstanding site.names positional.missing)
    (hNamed : Outstanding site.names named.missing) :
    Verdict vocabulary site.names (applyExtension site name e positional named) := by
  unfold applyExtension
  by_cases hEmpty : (positional.missing.union named.missing).isEmpty = true
  · simp only [hEmpty, if_true]
    cases hCreate : e.create ⟨positional.values, named.values⟩ with
    | error reason =>
      rintro expression ⟨⟩
    | ok provide =>
      show Verdict vocabulary site.names (provide site)
      cases hProvide : provide site with
      | error failure =>
        exact fun _ _ => Extension.raises_of_provide hType hExtension hCreate hDefer hProvide
      | ok outcome =>
        cases outcome with
        | value v => trivial
        | nothing => trivial
        | deferred required => exact hHonest type hType key e hExtension _ _ hCreate site required hProvide
  · have hMissing : ∃ id ∈ positional.missing.union named.missing, site.names.contains id = false := by
      refine exists_mem_union ?_
      cases hNone : positional.missing.isEmpty with
      | false => exact .inl (hPositional hNone)
      | true =>
        refine .inr (hNamed ?_)
        by_contra hBoth
        refine hEmpty (Identifiers.isEmpty_iff.2 fun id hMem => ?_)
        rcases Identifiers.mem_union.1 hMem with hMem | hMem
        · exact Identifiers.isEmpty_iff.1 hNone id hMem
        · exact Identifiers.isEmpty_iff.1 (by simpa using hBoth) id hMem
    simp only [hEmpty, Site.defer, hDefer]
    exact hMissing

/-- Expressions of an honest vocabulary are honest. -/
theorem verdict_run (hHonest : vocabulary.Honest) (hDefer : site.canDefer = true)
    (e : Expression) : Verdict vocabulary site.names (run vocabulary scope site e) := by
  refine run_induction (G := Outstanding site.names) ?_ e
  refine ⟨fun failure hFault => ?_, fun v => trivial, nofun, ?_, ?_⟩
  · exact Vocabulary.blameless_of_fault hFault
  · intro ids missing hDeferred _ _
    exact exists_mem_union (.inl hDeferred)
  · intro type hType key e hExtension name positional named hPositional hNamed
    exact verdict_applyExtension hHonest hType hExtension hDefer hPositional.missing hNamed.missing

/-- Where deferring is allowed, what fails in an expression is a fault of it, or an extension of the
host. -/
theorem run_eq_error (hDefer : site.canDefer = true) {e : Expression} {failure : Failure}
    (h : run vocabulary scope site e = .error failure) :
    failure.IsExpressionFault ∨ vocabulary.Raises failure := by
  have rules : Rules vocabulary site (fun r => ∀ failure, r = .error failure →
      failure.IsExpressionFault ∨ vocabulary.Raises failure) (fun _ => True) := by
    refine ⟨?_, ?_, trivial, fun _ _ _ _ => trivial, ?_⟩
    · rintro failure hFault _ ⟨⟩
      exact .inl hFault
    · rintro v failure ⟨⟩
    · intro type hType key e hExtension name positional named _ _ failure hError
      unfold applyExtension Site.defer at hError
      rw [hDefer] at hError
      simp only [if_true] at hError
      split at hError
      · split at hError
        · cases hError
          exact .inl trivial
        · next hCreate => exact .inr (Extension.raises_of_provide hType hExtension hCreate hDefer hError)
      · cases hError
  exact run_induction rules e failure h

end Evaluation

/-- Where deferring is allowed, what fails in a text is a fault of it, or an extension of the host. -/
theorem evaluate_eq_error {vocabulary : Vocabulary H} {around : Surroundings H} {target : Target}
    {text : String} {failure : Failure} (hDefer : target.canDefer = true)
    (h : evaluate vocabulary around target text = .error failure) :
    failure.IsExpressionFault ∨ vocabulary.Raises failure := by
  unfold evaluate at h
  split at h
  · cases h
  · split at h
    · cases h
      exact .inl (.inl rfl)
    · exact Evaluation.run_eq_error hDefer h

/-- Texts of an honest vocabulary are honest, where they may wait. -/
theorem verdict_evaluate {vocabulary : Vocabulary H} (hHonest : vocabulary.Honest)
    (around : Surroundings H) {target : Target} (hDefer : target.canDefer = true) (text : String) :
    Evaluation.Verdict vocabulary around.names (evaluate vocabulary around target text) := by
  unfold evaluate
  cases ValueText.classify text with
  | literal literal => trivial
  | expression source =>
    simp only
    cases Expression.parse source with
    | error fault => exact Vocabulary.blameless_of_kind nofun
    | ok e =>
      exact Evaluation.verdict_run hHonest hDefer e

end ObjectMarkup
