import ObjectMarkup.Proofs.PlainExpressions
import ObjectMarkup.Record.Behavior

/-!
# Calls of extensions

An evaluation that notes which extensions it calls comes to what the evaluation comes to (`perform`). The
arguments of an expression are evaluated one after the other, each once, and the extension is called after
them, if none of them waits for an identifier. Otherwise the whole waits for all that they wait for
(`Evaluation.extension_follows_arguments`).

An argument may wait for no identifier at all. The whole does not wait then: the argument is left out, and
the extension is called without it (`echo_loses_argument`).
-/

set_option autoImplicit false

namespace ObjectMarkup

/-! ### Outcomes of arguments -/

namespace Outcome

/-- What an argument is to an extension. Nothing counts as null, and what waits has no value. -/
def argument? : Outcome → Option Value
  | .value v => some v
  | .nothing => some .null
  | .deferred _ => none

/-- All that some outcomes wait for. -/
def waitedFor : List Outcome → Identifiers
  | [] => .empty
  | .deferred required :: rest => required.union (waitedFor rest)
  | _ :: rest => waitedFor rest

/-- What outcomes wait for is what one of them waits for. -/
theorem mem_waitedFor {outcomes : List Outcome} {id : String} :
    id ∈ waitedFor outcomes ↔ ∃ required, .deferred required ∈ outcomes ∧ id ∈ required := by
  induction outcomes with
  | nil => simp [waitedFor, Identifiers.not_mem_empty]
  | cons outcome rest ih =>
    cases outcome with
    | value v => simp [waitedFor, ih]
    | nothing => simp [waitedFor, ih]
    | deferred required => simp [waitedFor, ih, Identifiers.mem_union, or_and_right, exists_or]

/-- What outcomes that follow each other wait for is joined. -/
theorem waitedFor_append (outcomes later : List Outcome) :
    waitedFor (outcomes ++ later) = (waitedFor outcomes).union (waitedFor later) := by
  apply Identifiers.ext
  intro id
  simp only [Identifiers.mem_union, mem_waitedFor, List.mem_append, or_and_right, exists_or]

/-- Nothing is waited for if each outcome that waits does so for nothing. -/
theorem isEmpty_waitedFor {outcomes : List Outcome} :
    (waitedFor outcomes).isEmpty = true ↔
      ∀ required, .deferred required ∈ outcomes → required = .empty := by
  rw [Identifiers.isEmpty_iff]
  constructor
  · intro hNone required hMem
    apply Identifiers.ext
    intro id
    have hOut : id ∉ required := fun hId => hNone id (mem_waitedFor.2 ⟨required, hMem, hId⟩)
    exact iff_of_false hOut (Identifiers.not_mem_empty id)
  · intro hEmpty id hId
    obtain ⟨required, hMem, hIn⟩ := mem_waitedFor.1 hId
    rw [hEmpty required hMem] at hIn
    exact Identifiers.not_mem_empty id hIn

/-- An outcome that does not wait has a value for an argument. -/
theorem isSome_argument? {outcome : Outcome} (h : ∀ required, outcome ≠ .deferred required) :
    outcome.argument?.isSome = true := by
  cases outcome with
  | value v => rfl
  | nothing => rfl
  | deferred required => exact absurd rfl (h required)

/-- If none waits, the values of outcomes are all their arguments. -/
theorem map_some_filterMap {outcomes : List Outcome}
    (h : ∀ required, .deferred required ∉ outcomes) :
    (outcomes.filterMap argument?).map some = outcomes.map argument? := by
  induction outcomes with
  | nil => rfl
  | cons outcome rest ih =>
    have hFirst : ∀ required, outcome ≠ .deferred required := by
      rintro required rfl
      exact h required (List.mem_cons_self ..)
    obtain ⟨v, hValue⟩ := Option.isSome_iff_exists.1 (isSome_argument? hFirst)
    have hRest := ih fun required hMem => h required (List.mem_cons_of_mem _ hMem)
    rw [List.filterMap_cons_some hValue, List.map_cons, List.map_cons, hRest, hValue]

end Outcome

/-- The values of the arguments of an expression: what those without a name came to, and those with
one. -/
def Expression.argumentValues (e : Expression) (outcomes later : List Outcome) : ArgumentValues where
  positional := outcomes.filterMap Outcome.argument?
  named := ((e.named.map NamedArgument.name).zip later).filterMap fun a =>
    a.2.argument?.map fun v => (a.1, v)

/-- If none waits, the named values are the names with all their arguments. -/
theorem Expression.named_argumentValues (names : List String) {later : List Outcome}
    (hLength : later.length = names.length) (h : ∀ required, .deferred required ∉ later) :
    ((names.zip later).filterMap fun a => a.2.argument?.map fun v => (a.1, v)).map
        (fun a => (a.1, some a.2)) =
      names.zip (later.map Outcome.argument?) := by
  induction later generalizing names with
  | nil => simp
  | cons outcome rest ih =>
    cases names with
    | nil => simp at hLength
    | cons name names =>
      have hFirst : ∀ required, outcome ≠ .deferred required := by
        rintro required rfl
        exact h required (List.mem_cons_self ..)
      obtain ⟨v, hValue⟩ := Option.isSome_iff_exists.1 (Outcome.isSome_argument? hFirst)
      have hRest := ih names (Nat.succ.inj hLength) fun required hMem =>
        h required (List.mem_cons_of_mem _ hMem)
      simp only [List.zip_cons_cons, List.map_cons, List.filterMap_cons, hValue, Option.map_some, hRest]

variable {H : Host}

namespace Evaluation

/-! ### Evaluations that note their calls -/

/-- A call of an extension: it is made from arguments, or asked for its value. -/
inductive Call (H : Host) where
  | create (extension : Extension H) (arguments : ArgumentValues)
  | provide (extension : Extension H) (arguments : ArgumentValues) (site : Site H)

/-- An evaluation that notes its calls, in their order. -/
abbrev Noting (H : Host) := Operation (List (Call H))

/-- Notes a call behind the others. -/
def note (call : Call H) : Noting H Unit := modify fun calls => calls ++ [call]

/-- The extension that a raw name means. -/
def extensionNamed (vocabulary : Vocabulary H) (scope : NameScope) (name : String) :
    Except Failure (Extension H) :=
  match scope.findExtension vocabulary name with
  | .error failure => .error failure
  | .ok type =>
    match type.extension with
    | none => .error (.extensionNotFound name [type.key.space])
    | some (_, extension) => .ok extension

section

variable [Hooks H] (vocabulary : Vocabulary H) (scope : NameScope) (site : Site H)

/-- Makes an extension and asks it for its value. -/
def invoke (name : String) (extension : Extension H) (arguments : ArgumentValues) :
    Noting H Outcome := do
  note (.create extension arguments)
  let provide ← Operation.ofExcept ((extension.create arguments).mapError (.invalidExtension name))
  note (.provide extension arguments site)
  Operation.ofExcept (provide site)

/-- What follows the arguments of an expression: it waits for what they wait for, or its extension is
called. -/
def conclude (e : Expression) (extension : Extension H) (outcomes later : List Outcome) :
    Noting H Outcome :=
  let missing := Outcome.waitedFor (outcomes ++ later)
  if missing.isEmpty then invoke site e.name extension (e.argumentValues outcomes later)
  else Operation.ofExcept (site.defer missing)

mutual

/-- Evaluates an expression and notes the calls. -/
def perform : Expression → Noting H Outcome
  | ⟨name, positional, named⟩ => do
    let extension ← Operation.ofExcept (extensionNamed vocabulary scope name)
    let outcomes ← performPositional positional
    let later ← performNamed named
    conclude site ⟨name, positional, named⟩ extension outcomes later

/-- Evaluates an argument and notes the calls that are made. -/
def performArgument : Argument → Noting H Outcome
  | .text content => pure (.value (.string content))
  | .nested e => perform e

/-- Evaluates positional arguments in order and notes the calls that are made. -/
def performPositional : List Argument → Noting H (List Outcome)
  | [] => pure []
  | a :: rest => do
    let outcome ← performArgument a
    let outcomes ← performPositional rest
    pure (outcome :: outcomes)

/-- Evaluates named arguments in order and notes the calls that are made. -/
def performNamed : List NamedArgument → Noting H (List Outcome)
  | [] => pure []
  | ⟨_, value⟩ :: rest => do
    let outcome ← performArgument value
    let outcomes ← performNamed rest
    pure (outcome :: outcomes)

end

end

variable [Hooks H] {vocabulary : Vocabulary H} {scope : NameScope} {site : Site H}

/-- Positional arguments are performed one by one. -/
theorem performPositional_eq (arguments : List Argument) :
    performPositional vocabulary scope site arguments =
      arguments.mapM (performArgument vocabulary scope site) := by
  induction arguments with
  | nil =>
    rw [performPositional, List.mapM_nil]
  | cons a rest ih =>
    rw [performPositional, List.mapM_cons, ih]

/-- Named arguments are performed one by one, by their values. -/
theorem performNamed_eq (arguments : List NamedArgument) :
    performNamed vocabulary scope site arguments =
      (arguments.map NamedArgument.value).mapM (performArgument vocabulary scope site) := by
  induction arguments with
  | nil =>
    rw [performNamed, List.map_nil, List.mapM_nil]
  | cons a rest ih =>
    cases a with
    | mk name value => rw [performNamed, List.map_cons, List.mapM_cons, ih]

/-- An expression is performed argument by argument, and then concluded. -/
theorem perform_eq (e : Expression) :
    perform vocabulary scope site e = (do
      let extension ← Operation.ofExcept (extensionNamed vocabulary scope e.name)
      let outcomes ← e.positional.mapM (performArgument vocabulary scope site)
      let later ← (e.named.map NamedArgument.value).mapM (performArgument vocabulary scope site)
      conclude site e extension outcomes later) := by
  cases e with
  | mk name positional named => rw [perform, performPositional_eq, performNamed_eq]

/-! ### Noting changes nothing -/

/-- Positional arguments are evaluated one by one, and what has values is gathered. -/
theorem runPositional_eq (arguments : List Argument) :
    runPositional vocabulary scope site arguments =
      (arguments.mapM (runArgument vocabulary scope site)).map fun outcomes =>
        ⟨outcomes.filterMap Outcome.argument?, Outcome.waitedFor outcomes⟩ := by
  induction arguments with
  | nil =>
    rw [runPositional, List.mapM_nil]
    rfl
  | cons a rest ih =>
    rw [runPositional, List.mapM_cons, ih]
    cases runArgument vocabulary scope site a with
    | error failure => rfl
    | ok outcome =>
      cases rest.mapM (runArgument vocabulary scope site) with
      | error failure => rfl
      | ok outcomes => cases outcome <;> rfl

/-- Named arguments are evaluated one by one, and what has values is gathered with the names. -/
theorem runNamed_eq (arguments : List NamedArgument) :
    runNamed vocabulary scope site arguments =
      ((arguments.map NamedArgument.value).mapM (runArgument vocabulary scope site)).map
        fun outcomes =>
          ⟨((arguments.map NamedArgument.name).zip outcomes).filterMap fun a =>
            a.2.argument?.map fun v => (a.1, v), Outcome.waitedFor outcomes⟩ := by
  induction arguments with
  | nil =>
    simp only [runNamed, List.map_nil, List.mapM_nil]
    rfl
  | cons a rest ih =>
    cases a with
    | mk name value =>
      simp only [runNamed, List.map_cons, List.mapM_cons, ih]
      cases runArgument vocabulary scope site value with
      | error failure => rfl
      | ok outcome =>
        cases (rest.map NamedArgument.value).mapM (runArgument vocabulary scope site) with
        | error failure => rfl
        | ok outcomes => cases outcome <;> rfl

/-- An extension that is invoked is created from its arguments and provides at the site. -/
theorem outcome_invoke (name : String) (extension : Extension H) (arguments : ArgumentValues)
    (calls : List (Call H)) :
    ((invoke site name extension arguments).outcome calls).map Prod.fst =
      match extension.create arguments with
      | .error reason => .error (.invalidExtension name reason)
      | .ok provide => provide site := by
  simp only [invoke, note, Operation.outcome_bind, Operation.outcome_modify, Operation.except_ok_bind,
    Operation.outcome_ofExcept, Operation.except_map_bind, Operation.except_bind_map]
  cases extension.create arguments with
  | error reason => rfl
  | ok provide => cases hProvide : provide site <;> simp [Except.mapError, hProvide]

/-- What concludes an expression comes to what its extension does, applied to the arguments. -/
theorem outcome_conclude (e : Expression) (extension : Extension H) (outcomes later : List Outcome)
    (calls : List (Call H)) :
    ((conclude site e extension outcomes later).outcome calls).map Prod.fst =
      applyExtension site e.name extension
        ⟨(e.argumentValues outcomes later).positional, Outcome.waitedFor outcomes⟩
        ⟨(e.argumentValues outcomes later).named, Outcome.waitedFor later⟩ := by
  simp only [conclude, Outcome.waitedFor_append, applyExtension]
  split
  · exact outcome_invoke ..
  · cases hDefer : site.defer ((Outcome.waitedFor outcomes).union (Outcome.waitedFor later)) <;> rfl

/-- Arguments are performed with the outcomes with which they are evaluated. -/
theorem outcome_mapM {arguments : List Argument}
    (h : ∀ a ∈ arguments, ∀ calls, ((performArgument vocabulary scope site a).outcome calls).map
      Prod.fst = runArgument vocabulary scope site a) (calls : List (Call H)) :
    ((arguments.mapM (performArgument vocabulary scope site)).outcome calls).map Prod.fst =
      arguments.mapM (runArgument vocabulary scope site) := by
  induction arguments generalizing calls with
  | nil => rfl
  | cons a rest ih =>
    obtain ⟨hFirst, hRest⟩ := List.forall_mem_cons.1 h
    rw [List.mapM_cons, List.mapM_cons, Operation.outcome_bind, ← hFirst calls]
    cases (performArgument vocabulary scope site a).outcome calls with
    | error failure => rfl
    | ok first =>
      rw [Operation.except_ok_bind, Operation.outcome_bind]
      show _ = (rest.mapM (runArgument vocabulary scope site)).bind fun outcomes =>
        .ok (first.1 :: outcomes)
      rw [← ih hRest first.2]
      cases (rest.mapM (performArgument vocabulary scope site)).outcome first.2 <;> rfl

/-- An expression is run argument by argument, and then its extension is applied. -/
theorem run_eq (e : Expression) :
    run vocabulary scope site e =
      (extensionNamed vocabulary scope e.name).bind fun extension =>
        (e.positional.mapM (runArgument vocabulary scope site)).bind fun outcomes =>
          ((e.named.map NamedArgument.value).mapM (runArgument vocabulary scope site)).bind fun later =>
            applyExtension site e.name extension
              ⟨(e.argumentValues outcomes later).positional, Outcome.waitedFor outcomes⟩
              ⟨(e.argumentValues outcomes later).named, Outcome.waitedFor later⟩ := by
  cases e with
  | mk name positional named =>
    rw [run, extensionNamed, runPositional_eq, runNamed_eq]
    cases scope.findExtension vocabulary name with
    | error failure => rfl
    | ok type =>
      cases hExtension : type.extension with
      | none => simp only [hExtension, Operation.except_error_bind]
      | some found =>
        simp only [hExtension, Operation.except_ok_bind]
        cases positional.mapM (runArgument vocabulary scope site) with
        | error failure => rfl
        | ok outcomes =>
          cases (named.map NamedArgument.value).mapM (runArgument vocabulary scope site) <;> rfl

/-- Noting the calls does not change what an expression comes to. -/
theorem outcome_perform (e : Expression) (calls : List (Call H)) :
    ((perform vocabulary scope site e).outcome calls).map Prod.fst =
      run vocabulary scope site e := by
  induction e using Expression.arguments_induction generalizing calls with
  | step e ih =>
    have hArgument (a : Argument) (hMem : a ∈ e.arguments) (calls : List (Call H)) :
        ((performArgument vocabulary scope site a).outcome calls).map Prod.fst =
          runArgument vocabulary scope site a := by
      cases a with
      | text content =>
        rw [performArgument, runArgument]
        rfl
      | nested inner =>
        rw [performArgument, runArgument]
        exact ih inner hMem calls
    have hPositional := outcome_mapM fun a hMem => hArgument a (List.mem_append_left _ hMem)
    have hNamed := outcome_mapM fun a hMem => hArgument a (List.mem_append_right _ hMem)
    rw [perform_eq, run_eq, Operation.outcome_bind, Operation.outcome_ofExcept]
    cases extensionNamed vocabulary scope e.name with
    | error failure => rfl
    | ok extension =>
      simp only [Operation.except_ok_map, Operation.except_ok_bind]
      rw [Operation.outcome_bind, ← hPositional calls]
      cases (e.positional.mapM (performArgument vocabulary scope site)).outcome calls with
      | error failure => rfl
      | ok first =>
        simp only [Operation.except_ok_map, Operation.except_ok_bind]
        rw [Operation.outcome_bind, ← hNamed first.2]
        cases ((e.named.map NamedArgument.value).mapM
          (performArgument vocabulary scope site)).outcome first.2 with
        | error failure => rfl
        | ok second => exact outcome_conclude ..

/-- The first argument that fails fails all of them, whatever those before it came to. -/
theorem mapM_of_fails {before : List Argument} (after : List Argument) {a : Argument}
    {failure : Failure}
    (hBefore : ∀ b ∈ before, ∃ outcome, runArgument vocabulary scope site b = .ok outcome)
    (hFails : runArgument vocabulary scope site a = .error failure) :
    (before ++ a :: after).mapM (runArgument vocabulary scope site) = .error failure := by
  induction before with
  | nil =>
    rw [List.nil_append, List.mapM_cons, hFails]
    rfl
  | cons b rest ih =>
    obtain ⟨⟨outcome, hFirst⟩, hRest⟩ := List.forall_mem_cons.1 hBefore
    rw [List.cons_append, List.mapM_cons, hFirst, ih hRest]
    rfl

/-- The first argument that fails makes the expression fail. -/
theorem run_of_fails {e : Expression} {extension : Extension H} {before after : List Argument}
    {a : Argument} {failure : Failure}
    (hExtension : extensionNamed vocabulary scope e.name = .ok extension)
    (hArguments : e.arguments = before ++ a :: after)
    (hBefore : ∀ b ∈ before, ∃ outcome, runArgument vocabulary scope site b = .ok outcome)
    (hFails : runArgument vocabulary scope site a = .error failure) :
    run vocabulary scope site e = .error failure := by
  have hAll := mapM_of_fails after hBefore hFails
  rw [← hArguments, Expression.arguments, List.mapM_append] at hAll
  rw [run_eq, hExtension, Operation.except_ok_bind]
  cases hFirst : e.positional.mapM (runArgument vocabulary scope site) with
  | error failure' =>
    rw [hFirst] at hAll
    cases hAll
    rfl
  | ok outcomes =>
    rw [hFirst] at hAll
    rw [Operation.except_ok_bind]
    cases hSecond : (e.named.map NamedArgument.value).mapM (runArgument vocabulary scope site) with
    | error failure' =>
      rw [hSecond] at hAll
      cases hAll
      rfl
    | ok later =>
      rw [hSecond] at hAll
      cases hAll

/-! ### What a whole expression waits for -/

/-- The arguments of an expression that comes to something were evaluated. If one of them waits for an
identifier, the expression waits for all that they wait for. -/
theorem gathers_of_run {e : Expression} {outcome : Outcome}
    (h : run vocabulary scope site e = .ok outcome) :
    ∃ missing, Gathers vocabulary scope site e.arguments missing ∧
      ((∃ id, id ∈ missing) → outcome = .deferred missing) := by
  obtain ⟨name, positional, named⟩ := e
  rw [run] at h
  split at h
  · cases h
  · next type hFind =>
    split at h
    · cases h
    · next key extension hExtension =>
      split at h
      · cases h
      · next p hPositional =>
        split at h
        · cases h
        · next n hNamed =>
          have hGathers := (gathers_of_runPositional hPositional).append (gathers_of_runNamed hNamed)
          refine ⟨_, hGathers, ?_⟩
          rintro ⟨id, hId⟩
          have hSome : ¬(p.missing.union n.missing).isEmpty = true := by
            intro hNone
            exact Identifiers.isEmpty_iff.1 hNone id hId
          rw [applyExtension, if_neg hSome, Site.defer] at h
          split at h
          · cases h
            rfl
          · cases h

end Evaluation

namespace Expression

open Evaluation

variable [Hooks H] {vocabulary : Vocabulary H} {scope : NameScope} {site : Site H}

/-- An expression waits at a place in it, innermost: what stands there waits for `ids`, and none of its
arguments waits for an identifier. -/
def WaitsAt (vocabulary : Vocabulary H) (scope : NameScope) (site : Site H) (e : Expression)
    (place : List Nat) (ids : Identifiers) : Prop :=
  ∃ inner, e.at? place = some inner ∧ run vocabulary scope site inner = .ok (.deferred ids) ∧
    ∀ argument, .nested argument ∈ inner.arguments → ∀ ids',
      run vocabulary scope site argument = .ok (.deferred ids') → ids' = .empty

/-- What waits in an argument waits in the expression, one place further in. -/
theorem WaitsAt.nested {e inner : Expression} {i : Nat} {place : List Nat} {ids : Identifiers}
    (hArgument : e.arguments[i]? = some (.nested inner))
    (h : inner.WaitsAt vocabulary scope site place ids) :
    e.WaitsAt vocabulary scope site (i :: place) ids := by
  obtain ⟨innermost, hAt, hRest⟩ := h
  exact ⟨innermost, at?_cons_eq_some.2 ⟨inner, hArgument, hAt⟩, hRest⟩

/-- Whatever an expression waits for is waited for at an innermost place. -/
theorem exists_waitsAt {e : Expression} {ids : Identifiers} {id : String}
    (h : run vocabulary scope site e = .ok (.deferred ids)) (hId : id ∈ ids) :
    ∃ place ids', e.WaitsAt vocabulary scope site place ids' ∧ id ∈ ids' := by
  induction e using Expression.arguments_induction generalizing ids with
  | step e ih =>
    obtain ⟨missing, hGathers, hWaits⟩ := gathers_of_run h
    by_cases hSome : ∃ id, id ∈ missing
    · cases hWaits hSome
      obtain ⟨a, hMem, ids', hArgument, hIn⟩ := (hGathers.missing id).1 hId
      cases a with
      | text content =>
        rw [runArgument] at hArgument
        cases hArgument
      | nested argument =>
        rw [runArgument] at hArgument
        obtain ⟨place, ids'', hInside, hMore⟩ := ih argument hMem hArgument hIn
        obtain ⟨i, hIndex⟩ := List.mem_iff_getElem?.1 hMem
        exact ⟨i :: place, ids'', hInside.nested hIndex, hMore⟩
    · refine ⟨[], ids, ⟨e, rfl, h, ?_⟩, hId⟩
      intro argument hMem ids' hArgument
      apply Identifiers.ext
      intro id'
      refine iff_of_false (fun hIn => hSome ⟨id', ?_⟩) (Identifiers.not_mem_empty id')
      exact (hGathers.missing id').2 ⟨_, hMem, ids', by rw [runArgument, hArgument], hIn⟩

/-- What is waited for anywhere in an expression is waited for by the whole, if the whole comes to
anything. -/
theorem waits_of_mem_at {e inner : Expression} {place : List Nat} {outcome : Outcome}
    {ids : Identifiers} {id : String} (h : run vocabulary scope site e = .ok outcome)
    (hAt : e.at? place = some inner) (hInner : run vocabulary scope site inner = .ok (.deferred ids))
    (hId : id ∈ ids) : ∃ all, outcome = .deferred all ∧ id ∈ all := by
  induction place generalizing e outcome with
  | nil =>
    cases hAt
    cases hInner.symm.trans h
    exact ⟨ids, rfl, hId⟩
  | cons i place ih =>
    obtain ⟨outer, hArgument, hInside⟩ := at?_cons_eq_some.1 hAt
    have hMem : .nested outer ∈ e.arguments := List.mem_of_getElem? hArgument
    obtain ⟨missing, hGathers, hWaits⟩ := gathers_of_run h
    obtain ⟨outcome', hOuter⟩ := hGathers.evaluated _ hMem
    have hRun := hOuter
    rw [runArgument] at hRun
    obtain ⟨all, rfl, hAll⟩ := ih hRun hInside
    have hMissing := (hGathers.missing id).2 ⟨_, hMem, all, hOuter, hAll⟩
    exact ⟨missing, hWaits ⟨id, hMissing⟩, hMissing⟩

/-- An expression that waits does so for exactly what is waited for at its innermost places. -/
theorem mem_iff_waitsAt {e : Expression} {ids : Identifiers}
    (h : run vocabulary scope site e = .ok (.deferred ids)) (id : String) :
    id ∈ ids ↔ ∃ place ids', e.WaitsAt vocabulary scope site place ids' ∧ id ∈ ids' := by
  refine ⟨exists_waitsAt h, ?_⟩
  rintro ⟨place, ids', ⟨inner, hAt, hInner, -⟩, hId⟩
  obtain ⟨all, hAll, hMem⟩ := waits_of_mem_at h hAt hInner hId
  cases hAll
  exact hMem

end Expression

/-! ### Extensions and their arguments -/

namespace Evaluation

/-- The extension of an expression follows its arguments. -/
structure FollowsArguments [Hooks H] (vocabulary : Vocabulary H) (scope : NameScope) (site : Site H)
    (e : Expression) : Prop where
  /-- Whatever was called before, an evaluation that notes its calls comes to what the expression comes
  to. -/
  result : ∀ calls, ((perform vocabulary scope site e).outcome calls).map Prod.fst =
    run vocabulary scope site e
  /-- Every argument is evaluated once, in the order of the source, and then the expression concluded. -/
  ordered : perform vocabulary scope site e = (do
    let extension ← Operation.ofExcept (extensionNamed vocabulary scope e.name)
    let outcomes ← e.positional.mapM (performArgument vocabulary scope site)
    let later ← (e.named.map NamedArgument.value).mapM (performArgument vocabulary scope site)
    conclude site e extension outcomes later)
  /-- The first failure of an argument is that of the whole, also if arguments before it wait. -/
  fails : ∀ extension before a after failure,
    extensionNamed vocabulary scope e.name = .ok extension → e.arguments = before ++ a :: after →
      (∀ b ∈ before, ∃ outcome, runArgument vocabulary scope site b = .ok outcome) →
        runArgument vocabulary scope site a = .error failure →
          run vocabulary scope site e = .error failure
  /-- If arguments wait for identifiers, the whole waits for all of them, and nothing is called. -/
  waits : ∀ extension outcomes later,
    (∃ required id, .deferred required ∈ outcomes ++ later ∧ id ∈ required) →
      ∃ all, conclude site e extension outcomes later = Operation.ofExcept (site.defer all) ∧
        ∀ id, id ∈ all ↔ ∃ required, .deferred required ∈ outcomes ++ later ∧ id ∈ required
  /-- Otherwise the extension is made from the values of the arguments and asked for its value. -/
  applies : ∀ extension outcomes later,
    (∀ required, .deferred required ∈ outcomes ++ later → required = .empty) →
      conclude site e extension outcomes later =
        invoke site e.name extension (e.argumentValues outcomes later)
  /-- If no argument waits, not even for nothing, each of them has its value there, in its place. -/
  complete : ∀ outcomes later, later.length = e.named.length →
    (∀ required, .deferred required ∉ outcomes ++ later) →
      (e.argumentValues outcomes later).positional.map some = outcomes.map Outcome.argument? ∧
        (e.argumentValues outcomes later).named.map Prod.fst = e.named.map NamedArgument.name ∧
          (e.argumentValues outcomes later).named.map (fun a => some a.2) =
            later.map Outcome.argument?
  /-- The whole waits for exactly what is waited for at its innermost places. -/
  innermost : ∀ ids, run vocabulary scope site e = .ok (.deferred ids) →
    ∀ id, id ∈ ids ↔ ∃ place ids', e.WaitsAt vocabulary scope site place ids' ∧ id ∈ ids'

end Evaluation

/-- Extensions follow their arguments. The arguments of an expression are evaluated each once, in the order
of the source, and the first that fails fails the whole. If some of them wait for identifiers, the whole
waits for all of these, which are those that its innermost places wait for, and its extension is not
called. Otherwise the extension gets the values of the arguments, all of them unless an argument waits
for no identifier at all, and the whole comes to what it provides. -/
theorem Evaluation.extension_follows_arguments [Hooks H] (vocabulary : Vocabulary H)
    (scope : NameScope) (site : Site H) (e : Expression) :
    FollowsArguments vocabulary scope site e where
  result calls := outcome_perform e calls
  ordered := perform_eq e
  fails _ _ _ _ _ hExtension hArguments hBefore hFails :=
    run_of_fails hExtension hArguments hBefore hFails
  waits extension outcomes later hSome := by
    refine ⟨Outcome.waitedFor (outcomes ++ later), if_neg ?_, fun id => Outcome.mem_waitedFor⟩
    intro hNone
    obtain ⟨required, id, hMem, hId⟩ := hSome
    rw [Outcome.isEmpty_waitedFor.1 hNone required hMem] at hId
    exact Identifiers.not_mem_empty id hId
  applies extension outcomes later hNone := if_pos (Outcome.isEmpty_waitedFor.2 hNone)
  complete outcomes later hLength hNone := by
    have hPositional := Outcome.map_some_filterMap fun required hMem =>
      hNone required (List.mem_append_left _ hMem)
    have hNamed := Expression.named_argumentValues (e.named.map NamedArgument.name)
      (by rw [hLength, List.length_map]) fun required hMem =>
        hNone required (List.mem_append_right _ hMem)
    have hNames := congrArg (List.map Prod.fst) hNamed
    have hValues := congrArg (List.map Prod.snd) hNamed
    rw [List.map_map, List.map_fst_zip (by simp [hLength])] at hNames
    rw [List.map_map, List.map_snd_zip (by simp [hLength])] at hValues
    exact ⟨hPositional, hNames, hValues⟩
  innermost _ hRun := Expression.mem_iff_waitsAt hRun

namespace Echoes

/-- An extension that tells its arguments, and one that waits for the identifiers it is given. -/
def vocabulary : Vocabulary Record.host :=
  ⟨[ .assemble Record.view ⟨"urn:echoes", "Echo"⟩ [.extension "Echo" (.host .echo)],
     .assemble Record.view ⟨"urn:echoes", "Always"⟩ [.extension "Always" (.host .always)] ]⟩

/-- A site for a text of the first object, where waiting is allowed. -/
def site : Site Record.host := ⟨"Text", ⟨0⟩, none, .empty, .empty, true, "{Echo {Always}}"⟩

/-- Waits, for no identifier. -/
def idle : Expression := ⟨"Always", [], []⟩

end Echoes

/-- An argument that waits for no identifier does not make the whole wait. It is lost: the extension is
called without it. -/
theorem echo_loses_argument :
    Evaluation.run Echoes.vocabulary (.ofDefaults ["urn:echoes"]) Echoes.site Echoes.idle =
        .ok (.deferred .empty) ∧
      Evaluation.run Echoes.vocabulary (.ofDefaults ["urn:echoes"]) Echoes.site
        ⟨"Echo", [.nested Echoes.idle], []⟩ = .ok (.value (.string "")) := by
  decide +kernel

end ObjectMarkup
