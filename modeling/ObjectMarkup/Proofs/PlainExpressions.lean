import ObjectMarkup.Proofs.Assembling
import ObjectMarkup.Proofs.Expressions
import ObjectMarkup.Proofs.Grammar

/-!
# Expressions of references and nulls

An expression stands at a place in another one, which tells an argument at each step. About expressions of
`Ref` and `Null` (`Expression.IsPlain`), this module says what they run to: they wait for what their
arguments wait for, or refer to a name (`Evaluation.RunsTo`). What has a value keeps it when names are
declared, as names keep their values (`Evaluation.run_of_grows`).
-/

set_option autoImplicit false

namespace ObjectMarkup

variable {H : Host}

namespace Expression

/-! ### Places in expressions -/

/-- The arguments of an expression, in the order in which they are evaluated. -/
def arguments (e : Expression) : List Argument := e.positional ++ e.named.map NamedArgument.value

/-- The expression at a place. Each number of a place tells an argument of the expression around. -/
def at? (e : Expression) : List Nat → Option Expression
  | [] => some e
  | i :: place =>
    match e.arguments[i]? with
    | some (.nested inner) => inner.at? place
    | _ => none

/-- A place further in is one in an argument. -/
theorem at?_cons_eq_some {e inner : Expression} {i : Nat} {place : List Nat} :
    e.at? (i :: place) = some inner ↔
      ∃ outer, e.arguments[i]? = some (.nested outer) ∧ outer.at? place = some inner := by
  rw [at?]
  split
  · next outer hArgument =>
    rw [hArgument]
    constructor
    · exact fun h => ⟨outer, rfl, h⟩
    · rintro ⟨other, hSame, h⟩
      cases hSame
      exact h
  · next hOther =>
    constructor
    · exact fun h => by cases h
    · rintro ⟨outer, hArgument, -⟩
      exact absurd hArgument (hOther outer)

/-- A place in what stands at a place is a place of the whole. -/
theorem at?_append {e outer : Expression} {place inside : List Nat} (h : e.at? place = some outer) :
    e.at? (place ++ inside) = outer.at? inside := by
  induction place generalizing e with
  | nil =>
    cases h
    rfl
  | cons i place ih =>
    obtain ⟨next, hArgument, hRest⟩ := at?_cons_eq_some.1 h
    rw [List.cons_append, at?, hArgument]
    exact ih hRest

/-- Arguments are nested as deep as each of them at least. -/
theorem nestingOfArgument_le {a : Argument} {arguments : List Argument} (h : a ∈ arguments) :
    nestingOfArgument a ≤ nestingOfPositional arguments := by
  induction arguments with
  | nil => cases h
  | cons first rest ih =>
    rw [nestingOfPositional]
    rcases List.mem_cons.1 h with rfl | h
    · exact Nat.le_max_left ..
    · exact Nat.le_trans (ih h) (Nat.le_max_right ..)

/-- Named arguments are nested as deep as their values. -/
theorem nestingOfNamed_eq (named : List NamedArgument) :
    nestingOfNamed named = nestingOfPositional (named.map NamedArgument.value) := by
  induction named with
  | nil => rw [nestingOfNamed, List.map_nil, nestingOfPositional]
  | cons a rest ih =>
    obtain ⟨name, value⟩ := a
    rw [nestingOfNamed, List.map_cons, nestingOfPositional, ih]

/-- An argument is nested less deeply than what it is an argument of. -/
theorem nesting_lt {e inner : Expression} (h : .nested inner ∈ e.arguments) :
    nesting inner < nesting e := by
  obtain ⟨name, positional, named⟩ := e
  have hInner : nestingOfArgument (.nested inner) = nesting inner := by rw [nestingOfArgument]
  rw [nesting, nestingOfNamed_eq, ← hInner]
  refine Nat.lt_succ_of_le ?_
  rcases List.mem_append.1 h with hPositional | hNamed
  · exact Nat.le_trans (nestingOfArgument_le hPositional) (Nat.le_max_left ..)
  · exact Nat.le_trans (nestingOfArgument_le hNamed) (Nat.le_max_right ..)

/-- What holds of an expression if it holds of its arguments holds of all expressions. -/
theorem arguments_induction {P : Expression → Prop}
    (step : ∀ e, (∀ inner, .nested inner ∈ e.arguments → P inner) → P e) (e : Expression) : P e :=
  step e fun inner _ => arguments_induction step inner
termination_by nesting e
decreasing_by exact nesting_lt (by assumption)

/-- No place is further in than expressions are nested. -/
theorem length_lt_nesting {e inner : Expression} {place : List Nat} (h : e.at? place = some inner) :
    place.length < nesting e := by
  induction place generalizing e with
  | nil =>
    obtain ⟨name, positional, named⟩ := e
    rw [nesting]
    exact Nat.succ_pos _
  | cons i place ih =>
    obtain ⟨outer, hArgument, hRest⟩ := at?_cons_eq_some.1 h
    exact Nat.lt_of_le_of_lt (ih hRest) (nesting_lt (List.mem_of_getElem? hArgument))

/-- An expression of references and nulls: whatever the names in it mean in a scope, they mean one of
these. -/
def IsPlain (vocabulary : Vocabulary H) (scope : NameScope) (e : Expression) : Prop :=
  ∀ place inner, e.at? place = some inner → ∀ type key x,
    scope.findExtension vocabulary inner.name = .ok type → type.extension = some (key, x) →
      x = .reference ∨ x = .null

variable {vocabulary : Vocabulary H} {scope : NameScope}

/-- What stands at a place in a plain expression is plain. -/
theorem IsPlain.inside {e inner : Expression} (h : e.IsPlain vocabulary scope) {place : List Nat}
    (hAt : e.at? place = some inner) : inner.IsPlain vocabulary scope := by
  intro deeper innermost hDeeper
  refine h (place ++ deeper) innermost ?_
  rw [at?_append hAt]
  exact hDeeper

/-- The arguments of a plain expression are plain. -/
theorem IsPlain.nested {e inner : Expression} (h : e.IsPlain vocabulary scope)
    (hMem : .nested inner ∈ e.arguments) : inner.IsPlain vocabulary scope := by
  obtain ⟨i, hArgument⟩ := List.mem_iff_getElem?.1 hMem
  have hAt : e.at? [i] = some inner := at?_cons_eq_some.2 ⟨inner, hArgument, rfl⟩
  exact h.inside hAt

end Expression

/-! ### Runs of plain expressions -/

namespace Evaluation

variable [Hooks H]

/-- Arguments were evaluated, and `missing` is all that they wait for. -/
structure Gathers (vocabulary : Vocabulary H) (scope : NameScope) (site : Site H)
    (arguments : List Argument) (missing : Identifiers) : Prop where
  evaluated : ∀ a ∈ arguments, ∃ outcome, runArgument vocabulary scope site a = .ok outcome
  missing : ∀ id, id ∈ missing ↔ ∃ a ∈ arguments, ∃ ids,
    runArgument vocabulary scope site a = .ok (.deferred ids) ∧ id ∈ ids

variable {vocabulary : Vocabulary H} {scope : NameScope} {site site' : Site H}

namespace Gathers

/-- No arguments wait for nothing. -/
theorem nil : Gathers vocabulary scope site [] .empty where
  evaluated _ hMem := absurd hMem List.not_mem_nil
  missing id := by simp [Identifiers.not_mem_empty]

/-- One more argument waits for what its outcome tells. -/
theorem cons {α : Type} {wrap : Value → α} {a : Argument} {rest : List Argument} {outcome : Outcome}
    {g : Gathered α} (hFirst : runArgument vocabulary scope site a = .ok outcome)
    (h : Gathers vocabulary scope site rest g.missing) :
    Gathers vocabulary scope site (a :: rest) (g.cons wrap outcome).missing where
  evaluated := List.forall_mem_cons.2 ⟨⟨outcome, hFirst⟩, h.evaluated⟩
  missing id := by
    simp only [List.mem_cons, or_and_right, exists_or, exists_eq_left, hFirst, ← h.missing id]
    cases outcome with
    | value v => simp [Gathered.cons]
    | nothing => simp [Gathered.cons]
    | deferred ids => simp [Gathered.cons, Identifiers.mem_union]

/-- Arguments that follow each other wait for what both wait for. -/
theorem append {arguments later : List Argument} {missing missing' : Identifiers}
    (h : Gathers vocabulary scope site arguments missing)
    (h' : Gathers vocabulary scope site later missing') :
    Gathers vocabulary scope site (arguments ++ later) (missing.union missing') where
  evaluated a hMem := (List.mem_append.1 hMem).elim (h.evaluated a) (h'.evaluated a)
  missing id := by
    rw [Identifiers.mem_union, h.missing, h'.missing]
    simp only [List.mem_append, or_and_right, exists_or]

end Gathers

/-- Positional arguments that were evaluated wait for what was gathered. -/
theorem gathers_of_runPositional {arguments : List Argument} {g : Gathered Value}
    (h : runPositional vocabulary scope site arguments = .ok g) :
    Gathers vocabulary scope site arguments g.missing := by
  induction arguments generalizing g with
  | nil =>
    rw [runPositional] at h
    cases h
    exact .nil
  | cons a rest ih =>
    rw [runPositional] at h
    split at h
    · cases h
    · next outcome hFirst =>
      split at h
      · cases h
      · next g' hRest =>
        cases h
        exact .cons hFirst (ih hRest)

/-- Named arguments that were evaluated wait for what was gathered. -/
theorem gathers_of_runNamed {arguments : List NamedArgument} {g : Gathered (String × Value)}
    (h : runNamed vocabulary scope site arguments = .ok g) :
    Gathers vocabulary scope site (arguments.map NamedArgument.value) g.missing := by
  induction arguments generalizing g with
  | nil =>
    rw [runNamed] at h
    cases h
    exact .nil
  | cons a rest ih =>
    obtain ⟨name, value⟩ := a
    rw [runNamed] at h
    split at h
    · cases h
    · next outcome hFirst =>
      split at h
      · cases h
      · next g' hRest =>
        cases h
        exact .cons hFirst (ih hRest)

/-- Positional arguments that are evaluated alike one by one are evaluated alike together. -/
theorem runPositional_congr {arguments : List Argument}
    (h : ∀ a ∈ arguments, runArgument vocabulary scope site a = runArgument vocabulary scope site' a) :
    runPositional vocabulary scope site arguments = runPositional vocabulary scope site' arguments := by
  induction arguments with
  | nil => rw [runPositional, runPositional]
  | cons a rest ih =>
    obtain ⟨hFirst, hRest⟩ := List.forall_mem_cons.1 h
    rw [runPositional, runPositional, hFirst, ih hRest]

/-- Named arguments that are evaluated alike one by one are evaluated alike together. -/
theorem runNamed_congr {arguments : List NamedArgument}
    (h : ∀ a ∈ arguments.map NamedArgument.value,
      runArgument vocabulary scope site a = runArgument vocabulary scope site' a) :
    runNamed vocabulary scope site arguments = runNamed vocabulary scope site' arguments := by
  induction arguments with
  | nil => rw [runNamed, runNamed]
  | cons a rest ih =>
    obtain ⟨name, value⟩ := a
    rw [List.map_cons] at h
    obtain ⟨hFirst, hRest⟩ := List.forall_mem_cons.1 h
    rw [runNamed, runNamed, hFirst, ih hRest]

/-- What an expression comes to that refers to an identifier, or else to null. -/
def referTo (names : NameTable) : Option String → Outcome
  | none => .value .null
  | some id =>
    match names.get? id with
    | some v => .value v
    | none => .deferred (.ofList [id])

/-- A reference that waits does so for its own identifier, which has no value. -/
theorem exists_of_referTo {names : NameTable} {reference : Option String} {ids : Identifiers}
    (h : referTo names reference = .deferred ids) :
    ∃ id, reference = some id ∧ ids = .ofList [id] ∧ names.get? id = none := by
  cases reference with
  | none => cases h
  | some id =>
    rw [referTo] at h
    split at h
    · cases h
    · next hNone =>
      cases h
      exact ⟨id, rfl, rfl, hNone⟩

/-- What a plain expression comes to: it waits because arguments do, or its arguments all have values
and tell what it refers to. Then it refers to the same wherever they have these values. -/
inductive RunsTo (vocabulary : Vocabulary H) (scope : NameScope) (site : Site H) (e : Expression) :
    Outcome → Prop where
  | waits (missing : Identifiers) (filled : ∃ id, id ∈ missing)
      (gathers : Gathers vocabulary scope site e.arguments missing) :
      RunsTo vocabulary scope site e (.deferred missing)
  | refers (reference : Option String)
      (evaluated : ∀ a ∈ e.arguments, ∃ outcome, runArgument vocabulary scope site a = .ok outcome ∧
        ∀ ids, outcome ≠ .deferred ids)
      (always : ∀ site' : Site H, site'.canDefer = true →
        (∀ a ∈ e.arguments,
          runArgument vocabulary scope site' a = runArgument vocabulary scope site a) →
        run vocabulary scope site' e = .ok (referTo site'.names reference)) :
      RunsTo vocabulary scope site e (referTo site.names reference)

/-- A reference and a null only look at the names. -/
theorem exists_referTo {x : Extension H} (hPlain : x = .reference ∨ x = .null) {name : String}
    {positional : Gathered Value} {named : Gathered (String × Value)} {outcome : Outcome}
    (hNone : (positional.missing.union named.missing).isEmpty = true)
    (h : applyExtension site name x positional named = .ok outcome) :
    ∃ reference, ∀ site' : Site H, site'.canDefer = true →
      applyExtension site' name x positional named = .ok (referTo site'.names reference) := by
  simp only [applyExtension, if_pos hNone] at h ⊢
  rcases hPlain with rfl | rfl
  · rw [Extension.create] at h
    cases hName : Extension.referenceName ⟨positional.values, named.values⟩ with
    | error reason =>
      rw [hName] at h
      cases h
    | ok id =>
      refine ⟨some id, fun site' hDefer => ?_⟩
      rw [Extension.create, hName]
      show Extension.declaredValue id site' = _
      rw [Extension.declaredValue, referTo]
      cases site'.names.get? id with
      | some v => rfl
      | none =>
        show site'.defer (.ofList [id]) = .ok (.deferred (.ofList [id]))
        rw [Site.defer, if_pos hDefer]
  · exact ⟨none, fun site' _ => rfl⟩

/-- What a plain expression comes to, if what waits in it waits for something. -/
theorem runsTo_of_filled {e : Expression} {outcome : Outcome} (hPlain : e.IsPlain vocabulary scope)
    (hDefer : site.canDefer = true)
    (hFilled : ∀ a ∈ e.arguments, ∀ ids,
      runArgument vocabulary scope site a = .ok (.deferred ids) → ∃ id, id ∈ ids)
    (h : run vocabulary scope site e = .ok outcome) :
    RunsTo vocabulary scope site e outcome := by
  obtain ⟨name, positional, named⟩ := e
  have hRun := h
  rw [run] at hRun
  split at hRun
  · cases hRun
  · next type hFind =>
    split at hRun
    · cases hRun
    · next key x hExtension =>
      split at hRun
      · cases hRun
      · next p hPositional =>
        split at hRun
        · cases hRun
        · next n hNamed =>
          have hGathers := (gathers_of_runPositional hPositional).append (gathers_of_runNamed hNamed)
          by_cases hNone : (p.missing.union n.missing).isEmpty = true
          · have hKind := hPlain [] _ rfl type key x hFind hExtension
            obtain ⟨reference, hRefers⟩ := exists_referTo hKind hNone hRun
            rw [hRefers site hDefer] at hRun
            cases hRun
            refine .refers reference (fun a hMem => ?_) fun site' hDefer' hSame => ?_
            · obtain ⟨outcome, hArgument⟩ := hGathers.evaluated a hMem
              refine ⟨outcome, hArgument, ?_⟩
              rintro ids rfl
              obtain ⟨id, hId⟩ := hFilled a hMem ids hArgument
              have hMissing := (hGathers.missing id).2 ⟨a, hMem, ids, hArgument, hId⟩
              exact Identifiers.isEmpty_iff.1 hNone id hMissing
            · have hSame₁ := runPositional_congr fun a hMem => hSame a (List.mem_append_left _ hMem)
              have hSame₂ := runNamed_congr fun a hMem => hSame a (List.mem_append_right _ hMem)
              rw [run, hFind]
              simp only [hExtension, hSame₁, hPositional, hSame₂, hNamed]
              exact hRefers site' hDefer'
          · rw [applyExtension, if_neg hNone, Site.defer, if_pos hDefer] at hRun
            cases hRun
            refine .waits _ ?_ hGathers
            rw [Identifiers.isEmpty_iff] at hNone
            exact Classical.not_forall_not.1 hNone

/-- Whatever waits waits for something, and for nothing that is declared. -/
theorem waits_of_run {e : Expression} {ids : Identifiers} (hPlain : e.IsPlain vocabulary scope)
    (hDefer : site.canDefer = true) (h : run vocabulary scope site e = .ok (.deferred ids)) :
    (∃ id, id ∈ ids) ∧ ∀ id ∈ ids, site.names.get? id = none := by
  induction e using Expression.arguments_induction generalizing ids with
  | step e ih =>
    have hArgument (a : Argument) (hMem : a ∈ e.arguments) (ids : Identifiers)
        (hWaits : runArgument vocabulary scope site a = .ok (.deferred ids)) :
        (∃ id, id ∈ ids) ∧ ∀ id ∈ ids, site.names.get? id = none := by
      cases a with
      | text content =>
        rw [runArgument] at hWaits
        cases hWaits
      | nested inner =>
        rw [runArgument] at hWaits
        exact ih inner hMem (hPlain.nested hMem) hWaits
    have hRuns := runsTo_of_filled hPlain hDefer
      (fun a hMem ids hWaits => (hArgument a hMem ids hWaits).1) h
    generalize hOutcome : Outcome.deferred ids = outcome at hRuns
    cases hRuns with
    | waits missing filled gathers =>
      cases hOutcome
      refine ⟨filled, fun id hId => ?_⟩
      obtain ⟨a, hMem, ids', hWaits, hId'⟩ := (gathers.missing id).1 hId
      exact (hArgument a hMem ids' hWaits).2 id hId'
    | refers reference evaluated always =>
      obtain ⟨id, -, rfl, hNone⟩ := exists_of_referTo hOutcome.symm
      refine ⟨⟨id, Identifiers.mem_ofList.2 (List.mem_singleton_self id)⟩, fun id' hId => ?_⟩
      rw [List.mem_singleton.1 (Identifiers.mem_ofList.1 hId)]
      exact hNone

/-- What a plain expression comes to. -/
theorem runsTo_of_run {e : Expression} {outcome : Outcome} (hPlain : e.IsPlain vocabulary scope)
    (hDefer : site.canDefer = true) (h : run vocabulary scope site e = .ok outcome) :
    RunsTo vocabulary scope site e outcome := by
  refine runsTo_of_filled hPlain hDefer (fun a hMem ids hWaits => ?_) h
  cases a with
  | text content =>
    rw [runArgument] at hWaits
    cases hWaits
  | nested inner =>
    rw [runArgument] at hWaits
    exact (waits_of_run (hPlain.nested hMem) hDefer hWaits).1

/-- An argument comes to what it came to, if the expression in it does. -/
theorem runArgument_congr {a : Argument} {outcome : Outcome}
    (hNested : ∀ inner, a = .nested inner → run vocabulary scope site inner = .ok outcome →
      run vocabulary scope site' inner = .ok outcome)
    (h : runArgument vocabulary scope site a = .ok outcome) :
    runArgument vocabulary scope site' a = .ok outcome := by
  cases a with
  | text content =>
    rw [runArgument] at h ⊢
    exact h
  | nested inner =>
    rw [runArgument] at h ⊢
    exact hNested inner rfl h

/-- What has a value keeps it when names are declared. -/
theorem run_of_grows {e : Expression} {outcome : Outcome} (hPlain : e.IsPlain vocabulary scope)
    (hDefer : site.canDefer = true) (hDefer' : site'.canDefer = true)
    (hNames : site.names.Grows site'.names) (h : run vocabulary scope site e = .ok outcome)
    (hValue : ∀ ids, outcome ≠ .deferred ids) : run vocabulary scope site' e = .ok outcome := by
  induction e using Expression.arguments_induction generalizing outcome with
  | step e ih =>
    cases runsTo_of_run hPlain hDefer h with
    | waits missing filled gathers => exact absurd rfl (hValue missing)
    | refers reference evaluated always =>
      have hSame : ∀ a ∈ e.arguments,
          runArgument vocabulary scope site' a = runArgument vocabulary scope site a := by
        intro a hMem
        obtain ⟨outcome, hArgument, hValue⟩ := evaluated a hMem
        rw [hArgument]
        refine runArgument_congr (fun inner hNested hRun => ?_) hArgument
        subst hNested
        exact ih inner hMem (hPlain.nested hMem) hRun hValue
      rw [always site' hDefer' hSame]
      cases reference with
      | none => rfl
      | some id =>
        cases hFound : site.names.get? id with
        | none =>
          rw [referTo, hFound] at hValue
          exact absurd rfl (hValue (.ofList [id]))
        | some v => rw [referTo, referTo, hFound, hNames id v hFound]

/-- A plain expression never comes to nothing. -/
theorem ne_nothing_of_run {e : Expression} {outcome : Outcome} (hPlain : e.IsPlain vocabulary scope)
    (hDefer : site.canDefer = true) (h : run vocabulary scope site e = .ok outcome) :
    outcome ≠ .nothing := by
  cases runsTo_of_run hPlain hDefer h with
  | waits missing filled gathers => nofun
  | refers reference evaluated always =>
    cases reference with
    | none => nofun
    | some id =>
      rw [referTo]
      split <;> nofun

end Evaluation

end ObjectMarkup
