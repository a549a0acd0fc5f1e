import ObjectMarkup.Proofs.Declared
import ObjectMarkup.Proofs.Release
import ObjectMarkup.Proofs.References
import ObjectMarkup.Proofs.CoarseObligations

/-!
# References that are never declared

Where all expressions are references, a text waits for the one identifier that it names, and only
while that is not declared (`Awaiting`). So what waits at the end of a document names an identifier
of no element. A document that compiles has declared all that it refers to, and one that fails
because references are unresolved reports those that it has not declared, and no others
(`Compiler.unresolved_exact`). Only the last drain of a run gives this failure (`exists_reported`).
-/

set_option autoImplicit false

namespace ObjectMarkup

open Operation

variable {H : Host}

/-! ### What waits -/

/-- A binding that waits for one identifier is ready if that is declared. -/
theorem Binding.isReady_of_required {names : NameTable} {b : Binding} {id : String}
    (h : b.required = .ofList [id]) : b.isReady names = names.contains id := by
  rw [isReady, h]
  exact Bool.and_true _

/-- Of each reference that was used, what it names is declared, or a binding waits for that; and
nothing else waits. `held` are bindings that a drain holds. -/
structure Awaiting (uses : List Use) (held : List Binding) (a : Assembly H) : Prop where
  told : ∀ b ∈ held ++ a.waiting, b.expression ∈ Use.contents uses
  awaits : ∀ b ∈ a.waiting, ∃ id, b.required = .ofList [id] ∧
    ValueText.reference? b.expression = some id ∧ a.names.contains id = false
  covered : ∀ content ∈ Use.contents uses, ∀ id, ValueText.reference? content = some id →
    a.names.contains id = true ∨ ∃ b ∈ held ++ a.waiting, b.expression = content

namespace Awaiting

variable {uses : List Use} {held : List Binding} {a a' : Assembly H}

/-- Before anything is made, nothing waits. -/
theorem start (scope : NameScope) : Awaiting [] [] (Assembly.start scope : Assembly H) where
  told _ hMem := absurd hMem List.not_mem_nil
  awaits _ hMem := absurd hMem List.not_mem_nil
  covered _ hMem := absurd hMem List.not_mem_nil

/-- What awaits identifiers is not ready. -/
theorem noneReady (h : Awaiting uses held a) : a.NoneReady := by
  intro b hMem
  obtain ⟨id, hRequired, -, hNew⟩ := h.awaits b hMem
  rw [Binding.isReady_of_required hRequired]
  exact hNew

/-- Only the texts, the queue and the names matter. -/
theorem alike {later : List Use} (h : Awaiting uses held a)
    (hContents : Use.contents later = Use.contents uses) (hNames : a'.names = a.names)
    (hWaiting : a'.waiting = a.waiting) : Awaiting later held a' := by
  obtain ⟨hTold, hAwaits, hCovered⟩ := h
  rw [← hWaiting, ← hContents] at hTold
  rw [← hWaiting, ← hNames] at hAwaits
  rw [← hWaiting, ← hNames, ← hContents] at hCovered
  exact ⟨hTold, hAwaits, hCovered⟩

/-- When names are declared, a drain takes what has to wait no longer. -/
theorem taken (h : Awaiting uses [] a) {names : NameTable} (hNames : a.names.Grows names) :
    Awaiting uses (a.waiting.filter (·.isReady names))
      { a with names, waiting := a.waiting.filter fun b => !b.isReady names } where
  told b hMem := by
    rcases List.mem_append.1 hMem with hMem | hMem
    · exact h.told b (List.mem_filter.1 hMem).1
    · exact h.told b (List.mem_filter.1 hMem).1
  awaits b hMem := by
    -- That its identifier was undeclared says nothing now; that it is not ready does.
    obtain ⟨hWaits, hNotReady⟩ := List.mem_filter.1 hMem
    obtain ⟨id, hRequired, hNamed, -⟩ := h.awaits b hWaits
    rw [Binding.isReady_of_required hRequired, Bool.not_eq_true'] at hNotReady
    exact ⟨id, hRequired, hNamed, hNotReady⟩
  covered content hMem id hNamed := by
    rcases h.covered content hMem id hNamed with hDeclared | ⟨b, hWaits, hSame⟩
    · exact .inl (hNames.contains hDeclared)
    · refine .inr ⟨b, ?_, hSame⟩
      by_cases hReady : b.isReady names = true
      · exact List.mem_append_left _ (List.mem_filter.2 ⟨hWaits, hReady⟩)
      · exact List.mem_append_right _ (List.mem_filter.2 ⟨hWaits, by simpa using hReady⟩)

/-- A text that is applied is held until it is evaluated. -/
theorem told_text (h : Awaiting uses [] a) (object : ObjectId) (property text : String)
    (dataContext : Option Value) :
    Awaiting (uses ++ [⟨object, property, .text text⟩])
      [⟨a.occurrences, text, object, property, dataContext, .empty⟩]
      { a with occurrences := a.occurrences + 1 } where
  told b hMem := by
    rw [Use.contents_append]
    rcases List.mem_cons.1 hMem with rfl | hMem
    · exact List.mem_append_right _ (List.mem_singleton_self text)
    · exact List.mem_append_left _ (h.told b hMem)
  awaits := h.awaits
  covered content hMem id hNamed := by
    rw [Use.contents_append] at hMem
    rcases List.mem_append.1 hMem with hMem | hMem
    · rcases h.covered content hMem id hNamed with hDeclared | ⟨b, hWaits, hSame⟩
      · exact .inl hDeclared
      · exact .inr ⟨b, List.mem_cons_of_mem _ hWaits, hSame⟩
    · exact .inr ⟨_, List.mem_cons_self .., (List.mem_singleton.1 hMem).symm⟩

/-- A text that is no reference to something undeclared is held no longer. -/
theorem settled {b : Binding} (h : Awaiting uses (b :: held) a)
    (hDeclared : ∀ id, ValueText.reference? b.expression = some id → a.names.contains id = true) :
    Awaiting uses held a where
  told b' hMem := h.told b' (List.mem_cons_of_mem b hMem)
  awaits := h.awaits
  covered content hMem id hNamed := by
    rcases h.covered content hMem id hNamed with hBefore | ⟨b', hHeld, hSame⟩
    · exact .inl hBefore
    · rcases List.mem_cons.1 hHeld with rfl | hHeld
      · exact .inl (hDeclared id (by rw [hSame]; exact hNamed))
      · exact .inr ⟨b', hHeld, hSame⟩

/-- A reference to something undeclared waits for it. -/
theorem enqueued {b : Binding} (h : Awaiting uses (b :: held) a) {id : String}
    (hNamed : ValueText.reference? b.expression = some id) (hNew : a.names.contains id = false) :
    Awaiting uses held (a.enqueue { b with required := .ofList [id] }) where
  told b' hMem := by
    have hTold := List.forall_mem_cons.1 h.told
    rw [Assembly.enqueue, ← List.append_assoc] at hMem
    rcases List.mem_append.1 hMem with hMem | hMem
    · exact hTold.2 b' hMem
    · rw [List.mem_singleton.1 hMem]
      exact hTold.1
  awaits b' hMem := by
    rcases List.mem_append.1 hMem with hMem | hMem
    · exact h.awaits b' hMem
    · rw [List.mem_singleton.1 hMem]
      exact ⟨id, rfl, hNamed, hNew⟩
  covered content hMem id' hNamed' := by
    rw [Assembly.enqueue, ← List.append_assoc]
    refine (h.covered content hMem id' hNamed').imp_right ?_
    rintro ⟨b', hHeld, hSame⟩
    rcases List.mem_cons.1 hHeld with rfl | hHeld
    · exact ⟨_, List.mem_append_right _ (List.mem_singleton_self _), hSame⟩
    · exact ⟨b', List.mem_append_left _ hHeld, hSame⟩

variable [Hooks H] {vocabulary : Vocabulary H}

/-- Of a text that is evaluated, what it names is declared, or it waits for that. -/
theorem reran (hReference : a.scope.TakesReference vocabulary)
    (hRefers : ∀ content ∈ Use.contents uses, ValueText.Refers content) {complete : Bool}
    {b : Binding} (h : Awaiting uses (b :: held) a)
    (hReran : Assemble.Reran vocabulary complete b a a') : Awaiting uses held a' := by
  have hText : ValueText.Refers b.expression := hRefers _ (h.told b (List.mem_cons_self ..))
  have hMeaning {outcome : Outcome} (hEvaluated : evaluate vocabulary a.surroundings
      ⟨b.target, b.property, b.dataContext, true⟩ b.expression = .ok outcome) :=
    meaning_of_evaluate hReference hText hEvaluated
  cases hReran with
  | value v w a' evaluated assigned =>
    obtain ⟨-, hNames, hWaiting, -⟩ := assigned.rest
    rcases hMeaning evaluated with ⟨v', hValue, hMeans⟩ | ⟨id, hWaits, -⟩
    · refine (h.settled fun id hNamed => ?_).alike rfl hNames hWaiting
      rw [NameTable.meaning?_of_reference? _ hNamed] at hMeans
      exact Option.isSome_iff_exists.2 ⟨v', hMeans⟩
    · cases hWaits
  | nothing evaluated =>
    rcases hMeaning evaluated with ⟨v, hValue, -⟩ | ⟨id, hWaits, -⟩
    · cases hValue
    · cases hWaits
  | deferred required evaluated =>
    rcases hMeaning evaluated with ⟨v, hValue, -⟩ | ⟨id, hWaits, hNamed, hNew⟩
    · cases hValue
    · cases hWaits
      exact (h.enqueued hNamed hNew).alike rfl rfl rfl

/-- A drain after names were declared. -/
theorem drained (hReference : a.scope.TakesReference vocabulary)
    (hRefers : ∀ content ∈ Use.contents uses, ValueText.Refers content) (h : Awaiting uses [] a)
    {names : NameTable} (hNames : a.names.Grows names) {complete : Bool} {n : Nat}
    (hDrain : Assemble.drain vocabulary complete { a with names } = .ok n a') :
    Awaiting uses [] a' := by
  have hDrained : a'.scope = a.scope ∧ Awaiting uses [] a' := by
    refine Assemble.drain_induction (a := { a with names })
      (P := fun held a₁ => a₁.scope = a.scope ∧ Awaiting uses held a₁) ?_ ⟨rfl, h.taken hNames⟩
      hDrain
    rintro b rest a₁ a₂ ⟨hScope, hHeld⟩ hReran
    rw [← hScope] at hReference
    exact ⟨hReran.grows.scope.trans hScope, hHeld.reran hReference hRefers hReran⟩
  exact hDrained.2

/-- Each deed leaves waiting what refers to something that is not declared. -/
theorem does {d : Deed H} (hReference : a.scope.TakesReference vocabulary)
    (hRefers : ∀ content ∈ Use.contents (uses ++ Deed.uses [d]), ValueText.Refers content)
    (h : Awaiting uses [] a) (hDoes : Does vocabulary a d a') :
    Awaiting (uses ++ Deed.uses [d]) [] a' := by
  have hSame (u : List Use) (hNone : Use.contents u = []) :
      Use.contents (uses ++ u) = Use.contents uses := by
    rw [Use.contents_append, hNone, List.append_nil]
  cases hDoes with
  | make type fresh known constructible => exact h.alike (hSame _ rfl) rfl rfl
  | text object name text dataContext a' evaluated =>
    exact reran (a := { a with occurrences := a.occurrences + 1 }) hReference hRefers
      (h.told_text object name text dataContext) evaluated
  | close type object id value stands => exact h.alike (hSame _ rfl) rfl rfl
  | place child object name value w a' ended assigned =>
    obtain ⟨-, hNames, hWaiting, -⟩ := assigned.rest
    exact h.alike (hSame _ rfl) hNames hWaiting
  | declare id value complete names n a' registered hDrain =>
    rw [Deed.uses_declare, Deed.uses_nil, List.append_nil] at hRefers ⊢
    exact h.drained hReference hRefers (NameTable.grows_of_register registered) hDrain

/-- After the deeds of a document, what waits awaits an identifier that is not declared. -/
theorem doesAll {scope : NameScope} (hReference : scope.TakesReference vocabulary)
    {ds : List (Deed H)} (h : DoesAll vocabulary (.start scope) ds a)
    (hRefers : ∀ content ∈ Use.contents (Deed.uses ds), ValueText.Refers content) :
    Awaiting (Deed.uses ds) [] a := by
  refine DoesAll.invariant_of_texts (P := fun uses a => Awaiting uses [] a) ?_ (start scope) h hRefers
  intro uses a d a' hTexts hScope hBefore hDoes
  rw [← hScope] at hReference
  exact hBefore.does hReference hTexts hDoes

omit [Hooks H] in
/-- What is missing is what is referred to and not declared. -/
theorem mem_missing_iff (h : Awaiting uses [] a) (id : String) :
    id ∈ a.missing ↔
      id ∈ (Use.contents uses).filterMap ValueText.reference? ∧ a.names.contains id = false := by
  rw [Assembly.missing, Identifiers.mem_ofList, List.mem_filter, List.mem_flatMap, List.mem_filterMap,
    Bool.not_eq_true']
  refine and_congr_left fun hNew => ⟨?_, ?_⟩
  · rintro ⟨b, hWaits, hRequired⟩
    obtain ⟨id', hOnly, hNamed, -⟩ := h.awaits b hWaits
    rw [hOnly] at hRequired
    cases List.mem_singleton.1 (Identifiers.mem_ofList.1 hRequired)
    exact ⟨b.expression, h.told b hWaits, hNamed⟩
  · rintro ⟨content, hMem, hNamed⟩
    rcases h.covered content hMem id hNamed with hDeclared | ⟨b, hWaits, rfl⟩
    · rw [hNew] at hDeclared
      cases hDeclared
    · obtain ⟨id', hOnly, hNamed', -⟩ := h.awaits b hWaits
      rw [hNamed] at hNamed'
      cases hNamed'
      refine ⟨b, hWaits, ?_⟩
      rw [hOnly]
      exact Identifiers.mem_ofList.2 (List.mem_singleton_self id)

omit [Hooks H] in
/-- If nothing waits, all that is referred to is declared. -/
theorem contains_of_idle (h : Awaiting uses [] a) (hIdle : a.waiting = []) {id : String}
    (hMem : id ∈ (Use.contents uses).filterMap ValueText.reference?) :
    a.names.contains id = true := by
  obtain ⟨content, hContent, hNamed⟩ := List.mem_filterMap.1 hMem
  rcases h.covered content hContent id hNamed with hDeclared | ⟨b, hWaits, -⟩
  · exact hDeclared
  · rw [hIdle] at hWaits
    exact absurd hWaits List.not_mem_nil

omit [Hooks H] in
/-- If something waits, something is missing. -/
theorem missing_ne_nil (h : Awaiting uses [] a) (hWaiting : a.waiting ≠ []) :
    a.missing.toList ≠ [] := by
  obtain ⟨b, hWaits⟩ := List.exists_mem_of_ne_nil _ hWaiting
  obtain ⟨id, -, hNamed, hNew⟩ := h.awaits b hWaits
  have hMissing : id ∈ a.missing :=
    (h.mem_missing_iff id).2 ⟨List.mem_filterMap.2 ⟨_, h.told b hWaits, hNamed⟩, hNew⟩
  exact List.ne_nil_of_mem hMissing

end Awaiting

/-! ### The report -/

/-- Any failure but a report of unresolved references. -/
def Failure.IsNoReport (failure : Failure) : Prop :=
  ∀ missing, failure ≠ .unresolvedReferences missing

/-- A refusal reports no references. -/
theorem Failure.IsRefusal.isNoReport {failure : Failure} (h : failure.IsRefusal) :
    failure.IsNoReport := by
  rintro missing rfl
  exact h

section Reporting

variable [Hooks H] {vocabulary : Vocabulary H}

/-- A reference fails by a fault of its expression, if it may wait. -/
theorem fault_of_evaluate {around : Surroundings H} {target : Target} {content : String}
    {failure : Failure} (hReference : around.scope.TakesReference vocabulary)
    (hRefers : ValueText.Refers content) (hDefer : target.canDefer = true)
    (h : evaluate vocabulary around target content = .error failure) : failure.IsExpressionFault := by
  unfold evaluate at h
  cases hText : ValueText.classify content with
  | literal text =>
    rw [hText] at h
    cases h
  | expression source =>
    obtain ⟨id, hParse⟩ := hRefers source hText
    simp only [hText, hParse] at h
    cases hFind : around.scope.findExtension vocabulary "Ref" with
    | error fault =>
      rw [Evaluation.run, hFind] at h
      cases h
      exact Failure.isExpressionFault_of_typeResolution (NameScope.kind_of_findExtension hFind)
    | ok type =>
      obtain ⟨name, hExtension⟩ := hReference type hFind
      rw [Evaluation.run_reference hFind hExtension] at h
      split at h
      · cases h
        trivial
      · unfold Extension.declaredValue Site.defer Evaluation.siteOf at h
        rw [hDefer] at h
        split at h
        · cases h
        · cases h

/-- While texts are references, nothing but the last operation of a run reports any. -/
theorem upkeep_isNoReport (setting : Setting H) :
    Upkeep setting (fun scope => scope.TakesReference setting.vocabulary) ValueText.Refers
      (fun m => ∀ b ∈ m.bindings, ValueText.Refers b.expression)
      (fun failure _ => failure.IsNoReport) where
  told _ h := h
  fewer _ _ h hFewer b hMem := h b (hFewer hMem)
  made _ _ _ h _ _ := h
  bound _ _ _ _ h _ _ hText _ _ := List.forall_mem_cons.2 ⟨hText, h⟩
  evaluated _ _ _ _ _ h _ _ _ _ := h
  again _ b _ h hMem := List.forall_mem_cons.2 ⟨h b hMem, h⟩
  assigned _ _ _ _ _ _ h _ _ _ _ _ _ := h
  closed _ _ _ _ _ h _ _ _ := h
  rooted _ _ h _ _ := h
  named _ _ _ _ h _ _ := h
  faulted _ _ _ _ _ _ hScope hText hDefer hFault :=
    (fault_of_evaluate hScope hText hDefer hFault).isRefusal.isNoReport
  refused _ _ _ _ _ hRefusal := hRefusal.isNoReport
  unknown _ _ _ _ _ := nofun
  mismatched _ _ _ _ _ _ _ _ := nofun
  lost _ _ _ _ h _ := h

/-- If nothing is ready, the last drain reports what waits. -/
theorem Assemble.reports_of_settle {a a' : Assembly H} {failure : Failure} (hNone : a.NoneReady)
    (h : settle vocabulary a = .error failure a') :
    failure = .unresolvedReferences a.missing.toList ∧ a.waiting ≠ [] ∧ a' = a := by
  have hIdle : drain vocabulary true a = .ok 0 a := drain_of_noneReady hNone
  rcases bind_eq_error.1 h with hDrain | ⟨n, a₁, hDrain, hRest⟩
  · rw [hIdle] at hDrain
    cases hDrain
  · rw [hIdle] at hDrain
    cases hDrain
    rcases bind_eq_error.1 hRest with hGet | ⟨_, _, hGet, hRest⟩
    · cases hGet
    · cases hGet
      split at hRest
      · cases hRest
      · next hWaits =>
        cases hRest
        exact ⟨rfl, fun hNil => hWaits (List.isEmpty_iff.2 hNil), rfl⟩

variable {c : Compiler H} {items : List (Except Markup.Fault Markup.Event)}
  {dataContext : Option Value}

/-- A report comes from the last drain of a document that is a tree. -/
theorem exists_reported {missing : List String} {s : Construction H}
    (hReference : (c.rootScope
      (Markup.rootAttributes (items.filterMap Except.toOption))).TakesReference c.vocabulary)
    (hRefers : ∀ content ∈ Markup.values (items.filterMap Except.toOption),
      ValueText.Refers content)
    (h : c.construct items dataContext (.ofDefaults c.settings.defaults) =
      .error (.unresolvedReferences missing) s) :
    ∃ t ds a, items = t.events.map .ok ∧ Built c t ds a ∧
      Assemble.settle c.vocabulary a = .error (.unresolvedReferences missing) s.assembly := by
  have u := upkeep_isNoReport (c.setting dataContext)
  have hFed := u.course.feedAll c.settings 0 (.start nofun hReference hRefers)
  rcases bind_eq_error.1 h with hFeed | ⟨_, s₁, hFeed, hFinish⟩
  · exact absurd rfl (hFed.of_error hFeed missing)
  obtain ⟨events, rfl, hEvents⟩ := Compiler.feedEvents_of_feedAll hFeed
  obtain ⟨o, ds, hTraced⟩ := traced_of_feedEvents hEvents
  rcases bind_eq_error.1 hFinish with hComplete | ⟨_, s₂, hComplete, hRest⟩
  · exact absurd rfl ((u.course.completeTag (hFed.of_ok hFeed) rfl).of_error hComplete missing)
  rcases bind_eq_error.1 hRest with hGet | ⟨_, _, hGet, hRest⟩
  · cases hGet
  cases hGet
  cases hStack : s₂.stack with
  | cons e outer =>
    rw [hStack] at hRest
    cases hRest
  | nil =>
    rw [hStack] at hRest
    cases hRoot : s₂.root with
    | none =>
      rw [hRoot] at hRest
      cases hRest
    | some root =>
      rw [hRoot] at hRest
      -- The root is over and no tag was pending, so only the last drain can have failed.
      obtain ⟨t, rfl, -, rfl⟩ := hTraced.complete hComplete hStack hRoot
      obtain ⟨rfl, hBuilt⟩ := built_of_traced hTraced
      rcases bind_eq_error.1 hRest with hSettle | ⟨_, _, -, hEnd⟩
      · obtain ⟨a', hSettled, rfl⟩ := within_eq_error.1 hSettle
        exact ⟨t, ds, s₂.assembly, rfl, hBuilt, hSettled⟩
      · cases hEnd

end Reporting

/-! ### Documents -/

/-- The identifiers that the texts of events refer to, in order. -/
def Markup.references (events : List Event) : List String :=
  (values events).filterMap ValueText.reference?

/-- The identifiers of the elements of a document, in a scope. -/
def ObjectTree.identifiers (t : ObjectTree H) (scope : NameScope) : List String :=
  t.heads.filterMap fun e => scope.identifierOf e.attributes

/-- A report tells what a document refers to and no element of it declares: each identifier once, in
the order of code points, and at least one. -/
structure ObjectTree.Misses (t : ObjectTree H) (scope : NameScope) (missing : List String) :
    Prop where
  nonempty : missing ≠ []
  increasing : missing.Pairwise (· < ·)
  exact : ∀ id, id ∈ missing ↔ id ∈ Markup.references t.events ∧ id ∉ t.identifiers scope

/-- Each text of the uses was evaluated for its property. -/
def Assembly.Evaluates (a : Assembly H) (uses : List Use) : Prop :=
  ∀ n u, (Use.texts uses)[n]? = some u → ∃ dataContext outcome,
    .evaluated n ⟨u.object, u.property, dataContext, true⟩ outcome ∈ a.journal

section Documents

variable [Hooks H]

namespace Assembly.Evaluates

variable {vocabulary : Vocabulary H} {uses : List Use} {a a' : Assembly H}

omit [Hooks H] in
/-- Texts that were evaluated stay so when the assembly has grown. -/
theorem grows (h : a.Evaluates uses) (hGrows : a.Grows a') : a'.Evaluates uses := by
  intro n u hText
  obtain ⟨dataContext, outcome, hMem⟩ := h n u hText
  exact ⟨dataContext, outcome, hGrows.journal.subset hMem⟩

/-- A deed evaluates the texts that it uses. -/
theorem does (h : a.Evaluates uses) (hAccounted : Accounted uses [] a) {d : Deed H}
    (hDoes : Does vocabulary a d a') : a'.Evaluates (uses ++ Deed.uses [d]) := by
  have hGrown := h.grows hDoes.grows
  have unused {later : List Use} (hNone : Use.texts later = []) : a'.Evaluates (uses ++ later) := by
    unfold Evaluates
    rw [Use.texts_append, hNone, List.append_nil]
    exact hGrown
  cases hDoes with
  | make type fresh known constructible => exact unused rfl
  | text object name text dataContext a' evaluated =>
    intro n u hText
    rw [Deed.uses_text, Use.texts_append] at hText
    by_cases hOld : n < (Use.texts uses).length
    · rw [List.getElem?_append_left hOld] at hText
      exact hGrown n u hText
    · rw [List.getElem?_append_right (Nat.not_lt.1 hOld)] at hText
      cases List.mem_singleton.1 (List.mem_of_getElem? hText)
      have hIndex : n - (Use.texts uses).length < 1 := (List.getElem?_eq_some_iff.1 hText).1
      have hLast : n = a.occurrences := by
        rw [hAccounted.numbered]
        omega
      obtain ⟨-, -, outcome, later, hJournal⟩ := evaluated.keeps
      refine ⟨dataContext, outcome, ?_⟩
      rw [hLast, hJournal]
      exact List.mem_append_right later (List.mem_cons_self ..)
  | close type object id value stands => exact unused rfl
  | place child object name value w a' ended assigned => exact unused rfl
  | declare id value complete names n a' registered hDrain => exact unused rfl

/-- The deeds of a document evaluate all the texts that they use. -/
theorem doesAll {scope : NameScope} {ds : List (Deed H)}
    (h : DoesAll vocabulary (.start scope) ds a) : a.Evaluates (Deed.uses ds) := by
  have hDone : Accounted (Deed.uses ds) [] a ∧ a.Evaluates (Deed.uses ds) := by
    refine DoesAll.invariant_of_texts (T := fun _ => True)
      (P := fun uses a => Accounted uses [] a ∧ a.Evaluates uses) ?_ ⟨.start scope, ?_⟩ h
      fun _ _ => trivial
    · rintro uses a d a' - - ⟨hAccounted, hBefore⟩ hDoes
      exact ⟨hAccounted.does hDoes, hBefore.does hAccounted hDoes⟩
    · intro n u hText
      cases hText
  exact hDone.2

end Assembly.Evaluates

omit [Hooks H] in
/-- The events refer to what the uses of the tree refer to. -/
theorem ObjectTree.mem_references_iff (t : ObjectTree H) (id : String) :
    id ∈ Markup.references t.events ↔
      id ∈ (Use.contents t.uses).filterMap ValueText.reference? :=
  (t.values_events.filterMap _).mem_iff

namespace Built

variable {c : Compiler H} {t : ObjectTree H} {ds : List (Deed H)} {a a' : Assembly H}

/-- The identifiers of a tree are those that are declared when it is over. -/
theorem mem_identifiers_iff (h : Built c t ds a) (hElements : Elements ds a') (id : String) :
    id ∈ t.identifiers (c.rootScope t.head.attributes) ↔ a'.names.contains id = true := by
  rw [h.contains_iff hElements, ObjectTree.identifiers, List.mem_filterMap]

/-- When the root of a document is over, what refers to something undeclared waits. -/
theorem awaiting (h : Built c t ds a)
    (hReference : (c.rootScope (Markup.rootAttributes t.events)).TakesReference c.vocabulary)
    (hRefers : ∀ content ∈ Markup.values t.events, ValueText.Refers content) :
    Awaiting t.uses [] a := by
  rw [t.rootAttributes_events] at hReference
  rw [← h.uses]
  refine Awaiting.doesAll hReference h.done fun content hMem => ?_
  rw [h.uses] at hMem
  exact hRefers content (t.values_events.mem_iff.2 hMem)

end Built

/-- Unresolved references are reported exactly. If `Ref` means nothing but the reference of the
library, and all expressions are references to an identifier, then each identifier that a document
refers to is one of its elements', if the document compiles. If it fails because references are
unresolved, then its events are those of a whole tree, each text of the tree was evaluated, and what
is reported is what the texts refer to and no element declares. -/
theorem Compiler.unresolved_exact (c : Compiler H) (dataContext : Option Value)
    (items : List (Except Markup.Fault Markup.Event))
    (hReference : (c.rootScope
      (Markup.rootAttributes (items.filterMap Except.toOption))).TakesReference c.vocabulary)
    (hRefers : ∀ content ∈ Markup.values (items.filterMap Except.toOption),
      ValueText.Refers content) :
    (∀ d, c.compileEvents items dataContext = .ok d →
      ∃ t : ObjectTree H, Document.Tells items t d ∧
        ∀ id ∈ Markup.references t.events, id ∈ t.identifiers (c.rootScope t.head.attributes)) ∧
    ∀ missing, c.compileEvents items dataContext = .error (.unresolvedReferences missing) →
      ∃ t : ObjectTree H, items = t.events.map .ok ∧
        t.Misses (c.rootScope t.head.attributes) missing ∧
        ∃ s, c.construct items dataContext (.ofDefaults c.settings.defaults) =
            .error (.unresolvedReferences missing) s ∧ s.assembly.Evaluates t.uses := by
  constructor
  · intro d hCompile
    obtain ⟨root, s, hConstruct, rfl⟩ := Compiler.of_compileEvents hCompile
    obtain ⟨t, ds, a, hBuilt⟩ := constructed_of_construct hConstruct
    refine ⟨t, hBuilt.tells root, fun id hMem => ?_⟩
    rw [hBuilt.events, Markup.filterMap_map_ok] at hReference hRefers
    have hAwaiting := hBuilt.awaiting hReference hRefers
    obtain ⟨n, hDrain⟩ := hBuilt.drained
    have hSame : a = s.assembly := by
      have hTwice := (Assemble.drain_of_noneReady hAwaiting.noneReady).symm.trans hDrain
      cases hTwice
      rfl
    rw [hBuilt.mem_identifiers_iff hBuilt.elements, ← hSame]
    refine hAwaiting.contains_of_idle ?_ ((t.mem_references_iff id).1 hMem)
    rw [hSame]
    exact hBuilt.waiting
  · intro missing hCompile
    obtain ⟨s, hConstruct⟩ := Compiler.failed_of_compileEvents hCompile
    obtain ⟨t, ds, a, hItems, hBuilt, hSettle⟩ := exists_reported hReference hRefers hConstruct
    rw [hItems, Markup.filterMap_map_ok] at hReference hRefers
    have hAwaiting := hBuilt.awaiting hReference hRefers
    obtain ⟨hReport, hSome, hSame⟩ := Assemble.reports_of_settle hAwaiting.noneReady hSettle
    cases hReport
    have hEvaluates : s.assembly.Evaluates t.uses := by
      rw [hSame, ← hBuilt.uses]
      exact Assembly.Evaluates.doesAll hBuilt.done
    have hExact (id : String) : id ∈ a.missing.toList ↔ id ∈ Markup.references t.events ∧
        id ∉ t.identifiers (c.rootScope t.head.attributes) := by
      rw [hBuilt.mem_identifiers_iff (Elements.doesAll hBuilt.done), Bool.not_eq_true,
        t.mem_references_iff]
      exact hAwaiting.mem_missing_iff id
    have hMisses : t.Misses (c.rootScope t.head.attributes) a.missing.toList :=
      ⟨hAwaiting.missing_ne_nil hSome, a.missing.increasing, hExact⟩
    exact ⟨t, hItems, hMisses, s, hConstruct, hEvaluates⟩

end Documents

/-- Among the types of the library, `Ref` means the reference. -/
theorem Vocabulary.eq_reference_of_mem_builtIn {type : ElementType H}
    (hMem : type ∈ (builtIn : Vocabulary H).types) {e : Extension H}
    (h : type.extension = some ("Ref", e)) : e = .reference := by
  rcases List.mem_append.1 hMem with hMem | hMem
  · rw [ElementType.extension_of_mem_boxes hMem] at h
    cases h
  · simp only [ElementType.builtInExtensions, List.mem_cons, List.not_mem_nil, or_false] at hMem
    rcases hMem with rfl | rfl | rfl
    · cases h
      rfl
    · have hName : "Null" = "Ref" := congrArg Prod.fst (Option.some.inj h)
      exact absurd hName (by decide)
    · have hName : "DataContext" = "Ref" := congrArg Prod.fst (Option.some.inj h)
      exact absurd hName (by decide)

namespace Cards

/-- Every scope takes the reference of the library among the cards. -/
theorem takesReference (scope : NameScope) : scope.TakesReference compiler.vocabulary := by
  refine NameScope.takesReference (fun type hMem e hExtension => ?_) scope
  rcases List.mem_append.1 hMem with hMem | hMem
  · exact Vocabulary.eq_reference_of_mem_builtIn hMem hExtension
  · rw [List.mem_singleton.1 hMem, extension_type] at hExtension
    cases hExtension

/-- A card with another card in it, which names it before it is declared. Two identifiers are named
that no card has, one of them twice. -/
def dangling : List Markup.Event :=
  [ .start "Card", .attribute "xmlns:x" "urn:kiln:metadata", .attribute "x:Id" "a",
    .attribute "Next" "{Ref c}",
    .start "Card", .attribute "Title" "{Ref b}", .attribute "Next" "{Ref a}", .finish,
    .start "Card.Content", .text "{Ref c}", .finish, .finish ]

/-- The two references that nothing declares are reported. -/
theorem compileEvents_dangling :
    compiler.compileEvents (dangling.map .ok) none = .error (.unresolvedReferences ["b", "c"]) := by
  have hRun : (compiler.compileEvents (dangling.map .ok) none).map (fun _ => ()) =
      .error (.unresolvedReferences ["b", "c"]) := by
    decide +kernel
  cases hCompile : compiler.compileEvents (dangling.map .ok) none with
  | error failure =>
    rw [hCompile] at hRun
    cases hRun
    rfl
  | ok d =>
    rw [hCompile] at hRun
    cases hRun

end Cards

/-- What is named before it is declared is not missed, and what is missed is told once. -/
theorem cards_unresolved :
    (∀ content ∈ Markup.values Cards.events, ValueText.Refers content) ∧
      (∀ content ∈ Markup.values Cards.dangling, ValueText.Refers content) ∧
      (∃ d, Cards.compiler.compileEvents (Cards.events.map .ok) none = .ok d ∧
        ∃ t : ObjectTree Record.host, Document.Tells (Cards.events.map .ok) t d ∧
          ∀ id ∈ Markup.references t.events,
            id ∈ t.identifiers (Cards.compiler.rootScope t.head.attributes)) ∧
      Cards.compiler.compileEvents (Cards.dangling.map .ok) none =
          .error (.unresolvedReferences ["b", "c"]) ∧
        ∃ t : ObjectTree Record.host,
          (Cards.dangling.map .ok : List (Except Markup.Fault Markup.Event)) = t.events.map .ok ∧
          t.Misses (Cards.compiler.rootScope t.head.attributes) ["b", "c"] ∧
          ∃ s, Cards.compiler.construct (Cards.dangling.map .ok) none (.ofDefaults ["urn:cards"]) =
              .error (.unresolvedReferences ["b", "c"]) s ∧ s.assembly.Evaluates t.uses := by
  have hEvents : ∀ content ∈ Markup.values Cards.events, ValueText.Refers content := by
    decide +kernel
  have hDangling : ∀ content ∈ Markup.values Cards.dangling, ValueText.Refers content := by
    decide +kernel
  obtain ⟨d, hCompiled⟩ := Cards.exists_document
  have hFirst := Compiler.unresolved_exact Cards.compiler none (Cards.events.map .ok)
    (Cards.takesReference _) (by rwa [Markup.filterMap_map_ok])
  have hSecond := Compiler.unresolved_exact Cards.compiler none (Cards.dangling.map .ok)
    (Cards.takesReference _) (by rwa [Markup.filterMap_map_ok])
  exact ⟨hEvents, hDangling, ⟨d, hCompiled, hFirst.1 d hCompiled⟩, Cards.compileEvents_dangling,
    hSecond.2 _ Cards.compileEvents_dangling⟩

end ObjectMarkup
