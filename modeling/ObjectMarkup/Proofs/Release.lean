import ObjectMarkup.Proofs.Failing
import ObjectMarkup.Proofs.Settlement

/-!
# Bindings are released as soon as possible

If all extensions are honest, nothing in the queue is ever ready between events (`Assembly.NoneReady`):
a binding that is put there waits for an identifier that is not declared, and whatever declares an
identifier drains the queue at once. So a binding is evaluated again while the event is fed that
declares the last identifier it waits for (`Assembly.Releases`), and the drain at the end of the
document finds nothing to do.
-/

set_option autoImplicit false

namespace ObjectMarkup

open Operation

variable {H : Host}

/-- No binding in the queue is ready. -/
def Assembly.NoneReady (a : Assembly H) : Prop :=
  ∀ b ∈ a.waiting, b.isReady a.names = false

/-- What happened to the bindings that waited in `a` on the way to `a'`: those that are ready now were
evaluated again, and the others wait still. -/
def Assembly.Releases (a a' : Assembly H) : Prop :=
  ∃ new, a'.journal = new ++ a.journal ∧
    ∀ b ∈ a.waiting,
      if b.isReady a'.names then
        ∃ outcome, .evaluated b.occurrence ⟨b.target, b.property, b.dataContext, true⟩ outcome ∈ new
      else b ∈ a'.waiting

/-- Not all identifiers are declared when one of them is not. -/
theorem NameTable.containsAll_eq_false_iff {names : NameTable} {ids : Identifiers} :
    names.containsAll ids = false ↔ ∃ id ∈ ids, names.contains id = false := by
  rw [containsAll, List.all_eq_false]
  simp only [Bool.not_eq_true]
  rfl

/-- A binding is not ready when one of its identifiers is not declared. -/
theorem Binding.isReady_eq_false_iff {names : NameTable} {b : Binding} :
    b.isReady names = false ↔ ∃ id ∈ b.required, names.contains id = false :=
  NameTable.containsAll_eq_false_iff

/-- A declared identifier stays declared. -/
theorem NameTable.Grows.contains {t t' : NameTable} (h : t.Grows t') {id : String}
    (hOld : t.contains id = true) : t'.contains id = true := by
  obtain ⟨value, hValue⟩ := Option.isSome_iff_exists.1 hOld
  rw [NameTable.contains, h id value hValue]
  rfl

/-- What is ready stays ready. -/
theorem Binding.isReady_of_grows {t t' : NameTable} (h : t.Grows t') {b : Binding}
    (hReady : b.isReady t = true) : b.isReady t' = true := by
  rw [isReady, NameTable.containsAll, List.all_eq_true] at hReady ⊢
  exact fun id hMem => h.contains (hReady id hMem)

namespace Assembly.Releases

/-- If nothing is declared and the queue only gets longer, nothing has to be released. -/
theorem of_names_eq {a a' : Assembly H} (hNone : a.NoneReady) (hNames : a'.names = a.names)
    (hWaiting : ∀ b ∈ a.waiting, b ∈ a'.waiting) (hJournal : a.journal <:+ a'.journal) :
    a.Releases a' := by
  obtain ⟨new, hNew⟩ := hJournal
  refine ⟨new, hNew.symm, fun b hMem => ?_⟩
  rw [hNames, hNone b hMem, if_neg Bool.false_ne_true]
  exact hWaiting b hMem

/-- Bindings that two stretches of a run release, the run of both releases. -/
theorem trans {a₁ a₂ a₃ : Assembly H} (h : a₁.Releases a₂) (h' : a₂.Releases a₃)
    (hNames : a₂.names.Grows a₃.names) : a₁.Releases a₃ := by
  obtain ⟨new, hNew, hOld⟩ := h
  obtain ⟨later, hLater, hRest⟩ := h'
  refine ⟨later ++ new, by rw [hLater, hNew, List.append_assoc], fun b hMem => ?_⟩
  have hFirst := hOld b hMem
  by_cases hReady : b.isReady a₂.names = true
  · rw [if_pos hReady] at hFirst
    obtain ⟨outcome, hEvaluated⟩ := hFirst
    rw [if_pos (Binding.isReady_of_grows hNames hReady)]
    exact ⟨outcome, List.mem_append_right later hEvaluated⟩
  · rw [if_neg hReady] at hFirst
    have hSecond := hRest b hFirst
    split at hSecond
    · next hNow =>
      obtain ⟨outcome, hEvaluated⟩ := hSecond
      rw [if_pos hNow]
      exact ⟨outcome, List.mem_append_left new hEvaluated⟩
    · next hNow =>
      rw [if_neg hNow]
      exact hSecond

end Assembly.Releases

variable [Hooks H] {vocabulary : Vocabulary H}

namespace Assemble

/-! ### One binding -/

/-- Evaluating a binding again declares nothing, and takes nothing out of the queue. -/
theorem Reran.keeps {complete : Bool} {b : Binding} {a a' : Assembly H}
    (h : Reran vocabulary complete b a a') :
    a'.names = a.names ∧ (∀ b' ∈ a.waiting, b' ∈ a'.waiting) ∧
      ∃ outcome later, a'.journal = later ++
        .evaluated b.occurrence ⟨b.target, b.property, b.dataContext, true⟩ outcome :: a.journal := by
  cases h with
  | value v w a' evaluated assigned =>
    obtain ⟨⟨extent, hJournal⟩, hNames, hWaiting, -⟩ := assigned.rest
    exact ⟨hNames, fun b' hMem => hWaiting.symm ▸ hMem, .value v, [.wrote w extent], hJournal⟩
  | nothing evaluated => exact ⟨rfl, fun _ hMem => hMem, .nothing, [], rfl⟩
  | deferred required evaluated =>
    exact ⟨rfl, fun _ hMem => List.mem_append_left _ hMem, .deferred required, [], rfl⟩

/-- What an honest binding is put into the queue for is not declared. -/
theorem Reran.noneReady (hHonest : vocabulary.Honest) {complete : Bool} {b : Binding}
    {a a' : Assembly H} (h : Reran vocabulary complete b a a') (hNone : a.NoneReady) :
    a'.NoneReady := by
  cases h with
  | value v w a' evaluated assigned =>
    obtain ⟨-, hNames, hWaiting, -⟩ := assigned.rest
    intro b' hMem
    rw [hWaiting] at hMem
    rw [hNames]
    exact hNone b' hMem
  | nothing evaluated => exact hNone
  | deferred required evaluated =>
    intro b' hMem
    rcases List.mem_append.1 hMem with hMem | hMem
    · exact hNone b' hMem
    · cases List.mem_singleton.1 hMem
      have hDefer : (⟨b.target, b.property, b.dataContext, true⟩ : Target).canDefer = true := rfl
      have hVerdict := verdict_evaluate hHonest a.surroundings hDefer b.expression
      rw [evaluated] at hVerdict
      exact Binding.isReady_eq_false_iff.2 hVerdict

/-! ### The drain -/

/-- A drain leaves nothing ready, and evaluates what was ready. -/
theorem releases_of_drain (hHonest : vocabulary.Honest) {complete : Bool} {a a' : Assembly H}
    {n : Nat} (h : drain vocabulary complete a = .ok n a') : a'.NoneReady ∧ a.Releases a' := by
  have hDrained : a'.names = a.names ∧ a'.NoneReady ∧
      (∀ b ∈ a.waiting, b.isReady a.names = false → b ∈ a'.waiting) ∧
      ∃ new, a'.journal = new ++ a.journal ∧ ∀ b ∈ a.waiting, b.isReady a.names = true →
        b ∈ ([] : List Binding) ∨
          ∃ outcome, .evaluated b.occurrence ⟨b.target, b.property, b.dataContext, true⟩ outcome ∈
            new := by
    refine drain_induction (P := fun held a₁ => a₁.names = a.names ∧ a₁.NoneReady ∧
      (∀ b ∈ a.waiting, b.isReady a.names = false → b ∈ a₁.waiting) ∧
      ∃ new, a₁.journal = new ++ a.journal ∧ ∀ b ∈ a.waiting, b.isReady a.names = true →
        b ∈ held ∨
          ∃ outcome, .evaluated b.occurrence ⟨b.target, b.property, b.dataContext, true⟩ outcome ∈
            new) ?_ ⟨rfl, ?_, ?_, [], rfl, ?_⟩ h
    · rintro b rest a₁ a₂ ⟨hNames, hNone, hOthers, new, hNew, hReady⟩ hReran
      obtain ⟨hSame, hLonger, outcome, later, hJournal⟩ := hReran.keeps
      refine ⟨hSame.trans hNames, hReran.noneReady hHonest hNone,
        fun b' hMem hWaits => hLonger b' (hOthers b' hMem hWaits),
        later ++ .evaluated b.occurrence ⟨b.target, b.property, b.dataContext, true⟩ outcome :: new,
        by rw [hJournal, hNew, List.append_assoc, List.cons_append], fun b' hMem hNow => ?_⟩
      rcases hReady b' hMem hNow with hHeld | ⟨outcome', hEvaluated⟩
      · rcases List.mem_cons.1 hHeld with rfl | hHeld
        · exact .inr ⟨outcome, List.mem_append_right later (List.mem_cons_self ..)⟩
        · exact .inl hHeld
      · exact .inr ⟨outcome', List.mem_append_right later (List.mem_cons_of_mem _ hEvaluated)⟩
    · intro b hMem
      simpa using (List.mem_filter.1 hMem).2
    · intro b hMem hWaits
      exact List.mem_filter.2 ⟨hMem, by rw [hWaits]; rfl⟩
    · intro b hMem hNow
      exact .inl (List.mem_filter.2 ⟨hMem, hNow⟩)
  obtain ⟨hNames, hNone, hOthers, new, hNew, hReady⟩ := hDrained
  refine ⟨hNone, new, hNew, fun b hMem => ?_⟩
  rw [hNames]
  split
  · next hNow => exact (hReady b hMem hNow).resolve_left List.not_mem_nil
  · next hNow => exact hOthers b hMem (by simpa using hNow)

/-- If nothing is ready, a drain does nothing. -/
theorem drain_of_noneReady {complete : Bool} {a : Assembly H} (h : a.NoneReady) :
    drain vocabulary complete a = .ok 0 a := by
  have hNone : a.waiting.filter (·.isReady a.names) = [] := by
    rw [List.filter_eq_nil_iff]
    intro b hMem
    rw [h b hMem]
    exact Bool.false_ne_true
  have hAll : (a.waiting.filter fun b => !b.isReady a.names) = a.waiting := by
    rw [List.filter_eq_self]
    intro b hMem
    rw [h b hMem]
    rfl
  rw [drain_eq_ok, hNone, hAll]
  exact ⟨rfl, rfl⟩

end Assemble

/-! ### Runs -/

/-- Each deed leaves nothing ready, and releases what it makes ready. -/
theorem Does.releases (hHonest : vocabulary.Honest) {a a' : Assembly H} {d : Deed H}
    (h : Does vocabulary a d a') (hNone : a.NoneReady) : a'.NoneReady ∧ a.Releases a' := by
  have hGrows := h.grows
  cases h with
  | make type fresh known constructible =>
    exact ⟨hNone, .of_names_eq hNone rfl (fun _ hMem => hMem) hGrows.journal⟩
  | text object name text dataContext a' evaluated =>
    obtain ⟨hNames, hLonger, -⟩ := evaluated.keeps
    exact ⟨evaluated.noneReady hHonest hNone, .of_names_eq hNone hNames hLonger hGrows.journal⟩
  | close type object id value stands =>
    exact ⟨hNone, .of_names_eq hNone rfl (fun _ hMem => hMem) hGrows.journal⟩
  | place child object name value w a' ended assigned =>
    obtain ⟨-, hNames, hWaiting, -⟩ := assigned.rest
    constructor
    · intro b hMem
      rw [hWaiting] at hMem
      rw [hNames]
      exact hNone b hMem
    · exact .of_names_eq hNone hNames (fun _ hMem => hWaiting.symm ▸ hMem) hGrows.journal
  | declare id value complete names n a' registered drained =>
    exact Assemble.releases_of_drain (a := { a with names }) hHonest drained

/-- Under honest extensions deeds that start with nothing ready leave nothing ready and release what
was waiting. -/
theorem DoesAll.releases (hHonest : vocabulary.Honest) {a a' : Assembly H} {ds : List (Deed H)}
    (h : DoesAll vocabulary a ds a') (hNone : a.NoneReady) : a'.NoneReady ∧ a.Releases a' := by
  refine invariant (P := fun _ a₁ => a₁.NoneReady ∧ a.Releases a₁) ?_ ⟨hNone, ?_⟩ h
  · rintro done a₁ d a₂ ⟨hFirst, hReleases⟩ hDoes
    obtain ⟨hSecond, hRest⟩ := hDoes.releases hHonest hFirst
    exact ⟨hSecond, hReleases.trans hRest hDoes.grows.names⟩
  · exact .of_names_eq hNone rfl (fun _ hMem => hMem) (List.suffix_refl _)

/-- Bindings are released as soon as possible, if all extensions are honest, as those of the library
are. Between events, every binding in the queue waits for an identifier that is not declared. An event
that declares the last one evaluates the binding again, and leaves it in the queue otherwise. The
drain at the end of the document finds nothing to do. And no document fails because something waits
after its end, unless an extension of the host itself says so. -/
theorem Compiler.releases_at_once :
    (Extension.reference : Extension H).Honest ∧ (Extension.null : Extension H).Honest ∧
      (Extension.dataContext : Extension H).Honest ∧
      ∀ (c : Compiler H) (dataContext : Option Value), c.vocabulary.Honest →
        (∀ events s,
          Construct.feedEvents (c.setting dataContext) events (.ofDefaults c.settings.defaults) =
              .ok () s →
            (∀ b ∈ s.assembly.waiting, ∃ id ∈ b.required, s.assembly.names.contains id = false) ∧
            (∀ event s', Construct.feed (c.setting dataContext) event s = .ok () s' →
              s.assembly.Releases s'.assembly) ∧
            Assemble.drain c.vocabulary true s.assembly = .ok 0 s.assembly ∧
            ∀ root s', Construct.finish (c.setting dataContext) s = .ok root s' → s' = s) ∧
        ∀ items expression,
          c.compileEvents items dataContext = .error (.deferredAfterEnd expression) →
            c.vocabulary.Raises (.deferredAfterEnd expression) := by
  refine ⟨Extension.honest_reference, Extension.honest_null, Extension.honest_dataContext,
    fun c dataContext hHonest => ⟨fun events s hFeed => ?_, fun items expression hCompile => ?_⟩⟩
  · obtain ⟨o, ds, hTraced⟩ := traced_of_feedEvents hFeed
    have hSetting : (c.setting dataContext).vocabulary.Honest := hHonest
    have hNone := (hTraced.done.releases hSetting nofun).1
    have hDrain : Assemble.drain c.vocabulary true s.assembly = .ok 0 s.assembly :=
      Assemble.drain_of_noneReady hNone
    refine ⟨fun b hMem => Binding.isReady_eq_false_iff.1 (hNone b hMem), ?_, hDrain, ?_⟩
    · intro event s' hNext
      obtain ⟨o', new, scope, -, hDoes⟩ := hTraced.feed hNext
      exact (hDoes.releases hSetting hNone).2
    · intro root s' hFinish
      obtain ⟨t, a', -, hOver, hSettle, rfl⟩ := hTraced.finish hFinish
      obtain ⟨-, n, hLast⟩ := Assemble.of_settle hSettle
      have hSame : s.assembly = a' := by
        have hTwice := hDrain.symm.trans hLast
        cases hTwice
        rfl
      rw [hOver, ← hSame]
  · exact Compiler.blameless_compileEvents hHonest hCompile expression rfl

/-- The type of a card is no extension. -/
theorem Cards.extension_type : Cards.type.extension = none := rfl

/-- All extensions of the cards are honest. -/
theorem Cards.honest : Cards.compiler.vocabulary.Honest :=
  Vocabulary.honest_builtIn.register fun name e hExtension => by
    rw [Cards.extension_type] at hExtension
    cases hExtension

/-- The first card waits for the second one until that is declared. -/
theorem cards_released :
    Cards.compiler.vocabulary.Honest ∧
      (∃ s, Construct.feedEvents (Cards.compiler.setting none) (Cards.events.take 7)
            (.ofDefaults ["urn:cards"]) = .ok () s ∧
          (∀ b ∈ s.assembly.waiting, ∃ id ∈ b.required, s.assembly.names.contains id = false) ∧
          ∃ s', Construct.feed (Cards.compiler.setting none) .finish s = .ok () s' ∧
            s.assembly.Releases s'.assembly) ∧
      ∀ items expression,
        Cards.compiler.compileEvents items none = .error (.deferredAfterEnd expression) →
          Cards.compiler.vocabulary.Raises (.deferredAfterEnd expression) := by
  have hFed : (outcome (do
      Construct.feedEvents (Cards.compiler.setting none) (Cards.events.take 7)
      Construct.feed (Cards.compiler.setting none) .finish) (.ofDefaults ["urn:cards"])).isOk = true := by
    decide +kernel
  obtain ⟨⟨_, s'⟩, hFed⟩ := except_exists_of_isOk hFed
  obtain ⟨_, s, hFirst, hNext⟩ := bind_eq_ok.1 (outcome_eq_ok.1 hFed)
  obtain ⟨hRuns, hFailures⟩ := Compiler.releases_at_once.2.2.2 Cards.compiler none Cards.honest
  obtain ⟨hWaiting, hReleases, -⟩ := hRuns _ s hFirst
  exact ⟨Cards.honest, ⟨s, hFirst, hWaiting, s', hNext, hReleases _ s' hNext⟩, hFailures⟩

end ObjectMarkup
