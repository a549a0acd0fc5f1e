import ObjectMarkup.Proofs.PlainExpressions

/-!
# Where expressions wait

An expression waits because of some of the expressions in it: those whose arguments have values and that
name an identifier which is not declared (`Expression.ArisesAt`). This is about expressions of `Ref` and
`Null`. When all identifiers are declared that such an expression waited for, and it has to wait again,
then it does so further out: each place where it does is strictly around one where it did before
(`Expression.exists_arisesAt_inside`).
-/

set_option autoImplicit false

namespace ObjectMarkup

variable {H : Host}

/-! ### Places where expressions wait -/

namespace Expression

open Evaluation

variable [Hooks H] {vocabulary : Vocabulary H} {scope : NameScope} {site site' : Site H}

/-- That an expression waits arises at a place in it: what stands there waits for `ids`, and none of its
arguments waits. -/
def ArisesAt (vocabulary : Vocabulary H) (scope : NameScope) (site : Site H) (e : Expression)
    (place : List Nat) (ids : Identifiers) : Prop :=
  ∃ inner, e.at? place = some inner ∧ run vocabulary scope site inner = .ok (.deferred ids) ∧
    ∀ argument, .nested argument ∈ inner.arguments → ∀ ids',
      run vocabulary scope site argument ≠ .ok (.deferred ids')

/-- What arises in an argument arises in the expression, one place further in. -/
theorem ArisesAt.nested {e inner : Expression} {i : Nat} {place : List Nat} {ids : Identifiers}
    (hArgument : e.arguments[i]? = some (.nested inner))
    (h : inner.ArisesAt vocabulary scope site place ids) :
    e.ArisesAt vocabulary scope site (i :: place) ids := by
  obtain ⟨innermost, hAt, hRest⟩ := h
  exact ⟨innermost, at?_cons_eq_some.2 ⟨inner, hArgument, hAt⟩, hRest⟩

/-- What waits anywhere in an expression is waited for by the whole. -/
theorem waits_of_waits_at {e inner : Expression} {place : List Nat} {outcome : Outcome}
    (hPlain : e.IsPlain vocabulary scope) (hDefer : site.canDefer = true)
    (h : run vocabulary scope site e = .ok outcome) (hAt : e.at? place = some inner) :
    ∃ outcome', run vocabulary scope site inner = .ok outcome' ∧ ∀ ids, outcome' = .deferred ids →
      ∃ all, outcome = .deferred all ∧ ∀ id ∈ ids, id ∈ all := by
  induction place generalizing e outcome with
  | nil =>
    cases hAt
    exact ⟨outcome, h, fun ids hWaits => ⟨ids, hWaits, fun _ hId => hId⟩⟩
  | cons i place ih =>
    obtain ⟨outer, hArgument, hInside⟩ := at?_cons_eq_some.1 hAt
    have hMem : .nested outer ∈ e.arguments := List.mem_of_getElem? hArgument
    cases runsTo_of_run hPlain hDefer h with
    | waits missing filled gathers =>
      obtain ⟨outcome₁, hOuter⟩ := gathers.evaluated _ hMem
      have hTold := gathers.missing
      rw [runArgument] at hOuter
      obtain ⟨outcome', hRun, hWhole⟩ := ih (hPlain.nested hMem) hOuter hInside
      refine ⟨outcome', hRun, fun ids hWaits => ⟨missing, rfl, fun id hId => ?_⟩⟩
      obtain ⟨all, rfl, hAll⟩ := hWhole ids hWaits
      exact (hTold id).2 ⟨_, hMem, all, by rw [runArgument, hOuter], hAll id hId⟩
    | refers reference evaluated always =>
      obtain ⟨outcome₁, hOuter, hValue⟩ := evaluated _ hMem
      rw [runArgument] at hOuter
      obtain ⟨outcome', hRun, hWhole⟩ := ih (hPlain.nested hMem) hOuter hInside
      refine ⟨outcome', hRun, fun ids hWaits => ?_⟩
      obtain ⟨all, hOutcome, -⟩ := hWhole ids hWaits
      exact absurd hOutcome (hValue all)

/-- Whatever an expression waits for arises somewhere in it. -/
theorem exists_arisesAt_of_mem {e : Expression} {ids : Identifiers} {id : String}
    (hPlain : e.IsPlain vocabulary scope) (hDefer : site.canDefer = true)
    (h : run vocabulary scope site e = .ok (.deferred ids)) (hId : id ∈ ids) :
    ∃ place ids', e.ArisesAt vocabulary scope site place ids' ∧ id ∈ ids' := by
  induction e using Expression.arguments_induction generalizing ids with
  | step e ih =>
    have hRuns := runsTo_of_run hPlain hDefer h
    generalize hOutcome : Outcome.deferred ids = outcome at hRuns
    cases hRuns with
    | waits missing filled gathers =>
      cases hOutcome
      obtain ⟨a, hMem, ids', hWaits, hIn⟩ := (gathers.missing id).1 hId
      cases a with
      | text content =>
        rw [runArgument] at hWaits
        cases hWaits
      | nested argument =>
        rw [runArgument] at hWaits
        obtain ⟨place, ids'', hArises, hMore⟩ := ih argument hMem (hPlain.nested hMem) hWaits hIn
        obtain ⟨i, hArgument⟩ := List.mem_iff_getElem?.1 hMem
        exact ⟨i :: place, ids'', hArises.nested hArgument, hMore⟩
    | refers reference evaluated always =>
      refine ⟨[], ids, ⟨e, rfl, h, fun argument hMem ids' hWaits => ?_⟩, hId⟩
      obtain ⟨outcome, hArgument, hValue⟩ := evaluated _ hMem
      rw [runArgument, hWaits] at hArgument
      exact hValue ids' (Except.ok.inj hArgument).symm

/-- An expression waits for what arises in it. -/
theorem mem_iff_arisesAt {e : Expression} {ids : Identifiers} (hPlain : e.IsPlain vocabulary scope)
    (hDefer : site.canDefer = true) (h : run vocabulary scope site e = .ok (.deferred ids))
    (id : String) :
    id ∈ ids ↔ ∃ place ids', e.ArisesAt vocabulary scope site place ids' ∧ id ∈ ids' := by
  refine ⟨exists_arisesAt_of_mem hPlain hDefer h, ?_⟩
  rintro ⟨place, ids', ⟨inner, hAt, hRun, -⟩, hId⟩
  obtain ⟨outcome, hInner, hWhole⟩ := waits_of_waits_at hPlain hDefer h hAt
  cases hInner.symm.trans hRun
  obtain ⟨all, hAll, hMore⟩ := hWhole ids' rfl
  cases hAll
  exact hMore id hId

/-- If an expression waits, then that arises somewhere. -/
theorem exists_arisesAt {e : Expression} {ids : Identifiers} (hPlain : e.IsPlain vocabulary scope)
    (hDefer : site.canDefer = true) (h : run vocabulary scope site e = .ok (.deferred ids)) :
    ∃ place ids', e.ArisesAt vocabulary scope site place ids' := by
  obtain ⟨id, hId⟩ := (waits_of_run hPlain hDefer h).1
  obtain ⟨place, ids', hArises, -⟩ := exists_arisesAt_of_mem hPlain hDefer h hId
  exact ⟨place, ids', hArises⟩

/-- When all is declared that an expression waited for and it has to wait again, this arises around places
where it arose before. -/
theorem exists_arisesAt_inside {e : Expression} {required ids : Identifiers} {place : List Nat}
    (hPlain : e.IsPlain vocabulary scope) (hDefer : site.canDefer = true)
    (hDefer' : site'.canDefer = true) (hNames : site.names.Grows site'.names)
    (hWaited : run vocabulary scope site e = .ok (.deferred required))
    (hReleased : site'.names.containsAll required = true)
    (h : e.ArisesAt vocabulary scope site' place ids) :
    ∃ inside ids', inside ≠ [] ∧ e.ArisesAt vocabulary scope site (place ++ inside) ids' := by
  obtain ⟨inner, hAt, hRun, hNone⟩ := h
  have hInner := hPlain.inside hAt
  obtain ⟨outcome, hBefore, hWhole⟩ := waits_of_waits_at hPlain hDefer hWaited hAt
  by_cases hWaits : ∃ argument, .nested argument ∈ inner.arguments ∧
      ∃ ids', run vocabulary scope site argument = .ok (.deferred ids')
  · obtain ⟨argument, hMem, ids', hArgument⟩ := hWaits
    obtain ⟨deeper, ids'', innermost, hDeeper, hArises⟩ :=
      exists_arisesAt (hInner.nested hMem) hDefer hArgument
    obtain ⟨i, hIndex⟩ := List.mem_iff_getElem?.1 hMem
    refine ⟨i :: deeper, ids'', List.cons_ne_nil i deeper, innermost, ?_, hArises⟩
    rw [at?_append hAt]
    exact at?_cons_eq_some.2 ⟨argument, hIndex, hDeeper⟩
  · exfalso
    cases runsTo_of_run hInner hDefer hBefore with
    | waits missing filled gathers =>
      obtain ⟨id, hId⟩ := filled
      obtain ⟨a, hMem, ids', hArgument, -⟩ := (gathers.missing id).1 hId
      cases a with
      | text content =>
        rw [runArgument] at hArgument
        cases hArgument
      | nested argument =>
        rw [runArgument] at hArgument
        exact hWaits ⟨argument, hMem, ids', hArgument⟩
    | refers reference evaluated always =>
      -- All its arguments had their values before, so it waited for the same, which is declared now.
      have hSame := always site' hDefer' fun a hMem => by
        obtain ⟨outcome, hArgument, hValue⟩ := evaluated a hMem
        rw [hArgument]
        refine runArgument_congr (fun argument hNested hBefore => ?_) hArgument
        subst hNested
        exact run_of_grows (hInner.nested hMem) hDefer hDefer' hNames hBefore hValue
      rw [hRun, Except.ok.injEq] at hSame
      obtain ⟨id, rfl, rfl, hNew⟩ := exists_of_referTo hSame.symm
      have hNewBefore : site.names.get? id = none := by
        cases hValue : site.names.get? id with
        | none => rfl
        | some v => rw [hNames id v hValue] at hNew; cases hNew
      obtain ⟨all, hAll, hMem⟩ := hWhole (.ofList [id]) (by rw [referTo, hNewBefore])
      cases hAll
      have hId := hMem id (Identifiers.mem_ofList.2 (List.mem_singleton_self id))
      rw [NameTable.containsAll, List.all_eq_true] at hReleased
      have hDeclared := hReleased id hId
      rw [NameTable.contains, hNew] at hDeclared
      cases hDeclared

end Expression

/-! ### Waiting again -/

/-- An evaluation of a text: what it saw, and what it came to. -/
structure Visit (H : Host) where
  graph : ObjectGraph H
  names : NameTable
  outcome : Outcome

namespace Visit

/-- What the evaluation waits for, if it does. -/
def required? (v : Visit H) : Option Identifiers :=
  match v.outcome with
  | .deferred required => some required
  | _ => none

/-- A visit that requires something had to wait for it. -/
theorem outcome_of_required? {v : Visit H} {required : Identifiers} (h : v.required? = some required) :
    v.outcome = .deferred required := by
  unfold required? at h
  split at h
  · next hOutcome =>
    cases h
    exact hOutcome
  · cases h

/-- The site of the evaluation. -/
def site (v : Visit H) (scope : NameScope) (target : Target) (source : String) : Site H :=
  Evaluation.siteOf ⟨scope, v.graph, v.names⟩ target source

end Visit

variable [Hooks H]

/-- The evaluations of a text so far, the latest one first. A text that waits is evaluated again when all
is declared that it waits for. -/
inductive Visits (vocabulary : Vocabulary H) (scope : NameScope) (target : Target) (text : String) :
    List (Visit H) → Prop where
  | never : Visits vocabulary scope target text []
  | first (v : Visit H)
      (evaluated : evaluate vocabulary ⟨scope, v.graph, v.names⟩ target text = .ok v.outcome) :
      Visits vocabulary scope target text [v]
  | again (v w : Visit H) (earlier : List (Visit H)) (required : Identifiers)
      (evaluated : evaluate vocabulary ⟨scope, v.graph, v.names⟩ target text = .ok v.outcome)
      (waited : w.outcome = .deferred required) (released : v.names.containsAll required = true)
      (grows : w.names.Grows v.names) (before : Visits vocabulary scope target text (w :: earlier)) :
      Visits vocabulary scope target text (v :: w :: earlier)

/-- The evaluations of an expression climb: all but the latest waited, no two of them for the same
identifier, and each one further out than the ones before. So it waits at most as often as pairs of braces
are open in it at once, and is evaluated again at most as often. -/
structure Climbs (vocabulary : Vocabulary H) (scope : NameScope) (target : Target) (source : String)
    (e : Expression) (visits : List (Visit H)) : Prop where
  evaluated : ∀ v ∈ visits,
    Evaluation.run vocabulary scope (v.site scope target source) e = .ok v.outcome
  valued : ∀ v ∈ visits, v.outcome ≠ .nothing
  waited : ∀ v ∈ visits.tail, ∃ required, v.outcome = .deferred required
  reruns : visits.length ≤ e.nesting + 1
  bounded : (visits.filterMap Visit.required?).length ≤ e.nesting
  arises : ∀ v ∈ visits, ∀ required, v.outcome = .deferred required →
    (∃ id, id ∈ required) ∧ ∀ id, id ∈ required ↔ ∃ place ids,
      e.ArisesAt vocabulary scope (v.site scope target source) place ids ∧ id ∈ ids
  disjoint : (visits.filterMap Visit.required?).Pairwise fun later earlier => ∀ id ∈ later, id ∉ earlier
  outwards : visits.Pairwise fun later earlier => ∀ place ids,
    e.ArisesAt vocabulary scope (later.site scope target source) place ids →
      ∃ inside ids', inside ≠ [] ∧
        e.ArisesAt vocabulary scope (earlier.site scope target source) (place ++ inside) ids'

namespace Visits

variable {vocabulary : Vocabulary H} {scope : NameScope} {target : Target} {text source : String}
  {e : Expression} {visits earlier : List (Visit H)} {v : Visit H}

/-- All that was waited for before is declared now. -/
theorem released (h : Visits vocabulary scope target text (v :: earlier)) {w : Visit H}
    (hMem : w ∈ earlier) {required : Identifiers} (hWaited : w.outcome = .deferred required) :
    v.names.containsAll required = true := by
  generalize hAll : v :: earlier = visits at h
  induction h generalizing v earlier with
  | never => cases hAll
  | first v' evaluated =>
    cases hAll
    cases hMem
  | again v' w' earlier' required' evaluated waited hReleased grows before ih =>
    cases hAll
    rcases List.mem_cons.1 hMem with rfl | hMem
    · rw [waited] at hWaited
      cases hWaited
      exact hReleased
    · have hBefore := ih hMem rfl
      rw [NameTable.containsAll, List.all_eq_true] at hBefore ⊢
      intro id hId
      obtain ⟨value, hValue⟩ := Option.isSome_iff_exists.1 (hBefore id hId)
      rw [NameTable.contains, grows id value hValue]
      rfl

variable (hText : ValueText.classify text = .expression source)
  (hParse : Expression.parse source = .ok e)

include hText hParse

/-- Each evaluation of a text is one of its expression. -/
theorem evaluated (h : Visits vocabulary scope target text visits) : ∀ v ∈ visits,
    Evaluation.run vocabulary scope (v.site scope target source) e = .ok v.outcome := by
  have hRun {v : Visit H}
      (h : evaluate vocabulary ⟨scope, v.graph, v.names⟩ target text = .ok v.outcome) :
      Evaluation.run vocabulary scope (v.site scope target source) e = .ok v.outcome := by
    unfold evaluate at h
    simp only [hText, hParse] at h
    exact h
  induction h with
  | never => exact fun _ hMem => absurd hMem List.not_mem_nil
  | first v evaluated => exact List.forall_mem_singleton.2 (hRun evaluated)
  | again v w earlier required evaluated waited released grows before ih =>
    exact List.forall_mem_cons.2 ⟨hRun evaluated, ih⟩

variable (hPlain : e.IsPlain vocabulary scope) (hDefer : target.canDefer = true)

include hPlain hDefer

/-- Where a text still has to wait after some evaluations, each of those was further inside. -/
theorem length_lt_nesting (h : Visits vocabulary scope target text (v :: earlier)) {place : List Nat}
    {ids : Identifiers}
    (hArises : e.ArisesAt vocabulary scope (v.site scope target source) place ids) :
    earlier.length + place.length < e.nesting := by
  generalize hAll : v :: earlier = visits at h
  induction h generalizing v earlier place ids with
  | never => cases hAll
  | first v' evaluated =>
    cases hAll
    obtain ⟨inner, hAt, -⟩ := hArises
    rw [List.length_nil, Nat.zero_add]
    exact Expression.length_lt_nesting hAt
  | again v' w' earlier' required evaluated waited hReleased grows before ih =>
    cases hAll
    have hWaited := before.evaluated hText hParse w' (List.mem_cons_self ..)
    rw [waited] at hWaited
    obtain ⟨inside, ids', hInside, hBefore⟩ := Expression.exists_arisesAt_inside hPlain hDefer hDefer
      grows hWaited hReleased hArises
    have hLess := ih hBefore rfl
    have hSome := List.length_pos_iff.2 hInside
    rw [List.length_append] at hLess
    rw [List.length_cons]
    omega

/-- A text that still waits was not evaluated more often than braces are open in it at once. -/
theorem length_le_nesting (h : Visits vocabulary scope target text (v :: earlier))
    {required : Identifiers} (hWaits : v.outcome = .deferred required) :
    (v :: earlier).length ≤ e.nesting := by
  have hRun := h.evaluated hText hParse v (List.mem_cons_self ..)
  rw [hWaits] at hRun
  obtain ⟨place, ids, hArises⟩ := Expression.exists_arisesAt hPlain hDefer hRun
  have hLess := h.length_lt_nesting hText hParse hPlain hDefer hArises
  rw [List.length_cons]
  omega

/-- Nor does it wait more often than that. -/
theorem length_required_le (h : Visits vocabulary scope target text (v :: earlier))
    (hBefore : (earlier.filterMap Visit.required?).length ≤ e.nesting) :
    ((v :: earlier).filterMap Visit.required?).length ≤ e.nesting := by
  cases hWaits : v.required? with
  | none =>
    rw [List.filterMap_cons_none hWaits]
    exact hBefore
  | some required =>
    have hLength := h.length_le_nesting hText hParse hPlain hDefer (Visit.outcome_of_required? hWaits)
    exact Nat.le_trans (List.length_filterMap_le ..) hLength

/-- Identifiers that are waited for now were not waited for before. -/
theorem disjoint_required (h : Visits vocabulary scope target text (v :: earlier))
    (hBefore : (earlier.filterMap Visit.required?).Pairwise fun later before =>
      ∀ id ∈ later, id ∉ before) :
    ((v :: earlier).filterMap Visit.required?).Pairwise fun later before =>
      ∀ id ∈ later, id ∉ before := by
  cases hWaits : v.required? with
  | none =>
    rw [List.filterMap_cons_none hWaits]
    exact hBefore
  | some required =>
    rw [List.filterMap_cons_some hWaits]
    refine List.pairwise_cons.2 ⟨fun before hMem id hId hWaited => ?_, hBefore⟩
    obtain ⟨w, hEarlier, hRequired⟩ := List.mem_filterMap.1 hMem
    have hRun := h.evaluated hText hParse v (List.mem_cons_self ..)
    rw [Visit.outcome_of_required? hWaits] at hRun
    have hNew : v.names.get? id = none := (Evaluation.waits_of_run hPlain hDefer hRun).2 id hId
    have hReleased := h.released hEarlier (Visit.outcome_of_required? hRequired)
    rw [NameTable.containsAll, List.all_eq_true] at hReleased
    have hDeclared := hReleased id hWaited
    rw [NameTable.contains, hNew] at hDeclared
    cases hDeclared

/-- The evaluations of a plain expression climb. -/
theorem climbs (h : Visits vocabulary scope target text visits) :
    Climbs vocabulary scope target source e visits where
  evaluated := h.evaluated hText hParse
  valued v hMem := Evaluation.ne_nothing_of_run hPlain hDefer (h.evaluated hText hParse v hMem)
  waited := by
    induction h with
    | never => exact fun _ hMem => absurd hMem List.not_mem_nil
    | first v evaluated => exact fun _ hMem => absurd hMem List.not_mem_nil
    | again v w earlier required evaluated waited released grows before ih =>
      exact List.forall_mem_cons.2 ⟨⟨required, waited⟩, ih⟩
  reruns := by
    cases h with
    | never => exact Nat.zero_le _
    | first v evaluated => exact Nat.succ_le_succ (Nat.zero_le _)
    | again v w earlier required evaluated waited released grows before =>
      exact Nat.succ_le_succ (before.length_le_nesting hText hParse hPlain hDefer waited)
  bounded := by
    induction h with
    | never => exact Nat.zero_le _
    | first v evaluated =>
      exact (first v evaluated).length_required_le hText hParse hPlain hDefer (Nat.zero_le _)
    | again v w earlier required evaluated waited released grows before ih =>
      exact (again v w earlier required evaluated waited released grows before).length_required_le hText
        hParse hPlain hDefer ih
  arises v hMem required hWaits := by
    have hRun := h.evaluated hText hParse v hMem
    rw [hWaits] at hRun
    exact ⟨(Evaluation.waits_of_run hPlain hDefer hRun).1,
      Expression.mem_iff_arisesAt hPlain hDefer hRun⟩
  disjoint := by
    induction h with
    | never => exact .nil
    | first v evaluated =>
      exact (first v evaluated).disjoint_required hText hParse hPlain hDefer .nil
    | again v w earlier required evaluated waited released grows before ih =>
      exact (again v w earlier required evaluated waited released grows before).disjoint_required hText
        hParse hPlain hDefer ih
  outwards := by
    induction h with
    | never => exact .nil
    | first v evaluated => exact List.pairwise_singleton ..
    | again v w earlier required evaluated waited released grows before ih =>
      have hWaited := before.evaluated hText hParse w (List.mem_cons_self ..)
      rw [waited] at hWaited
      refine List.pairwise_cons.2 ⟨fun u hMem place ids hArises => ?_, ih⟩
      obtain ⟨inside, ids', hInside, hBefore⟩ := Expression.exists_arisesAt_inside hPlain hDefer hDefer
        grows hWaited released hArises
      rcases List.mem_cons.1 hMem with rfl | hMem
      · exact ⟨inside, ids', hInside, hBefore⟩
      · obtain ⟨deeper, ids'', -, hDeeper⟩ := (List.pairwise_cons.1 ih).1 u hMem _ _ hBefore
        rw [List.append_assoc] at hDeeper
        exact ⟨inside ++ deeper, ids'', List.append_ne_nil_of_left_ne_nil hInside deeper, hDeeper⟩

end Visits

end ObjectMarkup
