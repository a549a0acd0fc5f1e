import ObjectMarkup.Proofs.Calls
import ObjectMarkup.Proofs.Lineages
import ObjectMarkup.Proofs.CoarseObligations

/-!
# Permission to wait

An extension sees whether it may ask to wait. It always may: every text is evaluated as one that may
wait, also when the root is over and nothing can be declared any more. So what an extension would do where
it may not is never done. Hosts that differ there only are the same to a run (`Compiler.construct_congr`),
and the journal tells of no evaluation that was not allowed to wait (`Compiler.extensions_may_defer`).
Whether identifiers can still be declared decides only afterwards, about what came out.
-/

set_option autoImplicit false

namespace ObjectMarkup

open Operation

variable {H : Host}

/-! ### What a run asks of the host -/

/-- Two hosts that convert alike, and that evaluate alike what may wait. -/
structure Hooks.Agree (vocabulary : Vocabulary H) (host host' : Hooks H) : Prop where
  converts : @ObjectMarkup.convert H host vocabulary = @ObjectMarkup.convert H host' vocabulary
  evaluates : ∀ around target text, target.canDefer = true →
    @evaluate H host vocabulary around target text = @evaluate H host' vocabulary around target text

section Congruence

variable {host host' : Hooks H} {vocabulary : Vocabulary H} {setting : Setting H}

namespace Assemble

/-- Assignments only ask a host how to convert. -/
theorem assign_congr (h : Hooks.Agree vocabulary host host') :
    @assign H host vocabulary = @assign H host' vocabulary := by
  unfold assign
  simp only [h.converts]

/-- Evaluations that may wait are asked of both hosts alike. -/
theorem evaluate_congr (h : Hooks.Agree vocabulary host host') (n : Nat) {target : Target}
    (hDefer : target.canDefer = true) (text : String) :
    @evaluate H host vocabulary n target text = @evaluate H host' vocabulary n target text := by
  funext a
  unfold evaluate
  rw [h.evaluates a.surroundings target text hDefer]

/-- Drains evaluate only what may wait. -/
theorem drain_congr (h : Hooks.Agree vocabulary host host') (complete : Bool) :
    @drain H host vocabulary complete = @drain H host' vocabulary complete := by
  have hRerun (b : Binding) :
      @rerun H host vocabulary complete b = @rerun H host' vocabulary complete b := by
    unfold rerun
    rw [evaluate_congr h _ rfl, assign_congr h]
  have hRerunAll (bindings : List Binding) :
      @rerunAll H host vocabulary complete bindings =
        @rerunAll H host' vocabulary complete bindings := by
    induction bindings with
    | nil => rfl
    | cons b rest ih =>
      unfold rerunAll
      rw [hRerun, ih]
  unfold drain
  simp only [hRerunAll]

end Assemble

namespace Construct

/-- A text is evaluated as one that may wait. -/
theorem applyText_congr (h : Hooks.Agree setting.vocabulary host host') :
    @applyText H setting host = @applyText H setting host' := by
  have hEvaluate (n : Nat) (object : ObjectId) (name : String) (dataContext : Option Value)
      (text : String) :
      @Assemble.evaluate H host setting.vocabulary n ⟨object, name, dataContext, true⟩ text =
        @Assemble.evaluate H host' setting.vocabulary n ⟨object, name, dataContext, true⟩ text :=
    Assemble.evaluate_congr h n rfl text
  funext object name text
  unfold applyText
  simp only [hEvaluate, Assemble.assign_congr h]

/-- Start tags apply the texts of their attributes, and nothing else is asked of a host. -/
theorem completeTag_congr (h : Hooks.Agree setting.vocabulary host host') :
    @completeTag H setting host = @completeTag H setting host' := by
  have hAttributes (attributes : List (String × String)) :
      @applyAttributes H setting host attributes = @applyAttributes H setting host' attributes := by
    induction attributes with
    | nil => rfl
    | cons first rest ih =>
      unfold applyAttributes applyAttribute applyToTop
      simp only [applyText_congr h, ih]
  unfold completeTag openTag openObject
  simp only [hAttributes]

/-- Events apply texts, hand values over and drain, and nothing else is asked of a host. -/
theorem feed_congr (h : Hooks.Agree setting.vocabulary host host') :
    @feed H setting host = @feed H setting host' := by
  have hEndTag : @endTag H setting host = @endTag H setting host' := by
    unfold endTag closeElement handOver declareIdentifier
    simp only [applyText_congr h, Assemble.assign_congr h, Assemble.drain_congr h]
  funext event
  unfold feed
  simp only [completeTag_congr h, hEndTag]

/-- The end of a document only drains. -/
theorem finish_congr (h : Hooks.Agree setting.vocabulary host host') :
    @finish H setting host = @finish H setting host' := by
  unfold finish Assemble.settle
  simp only [completeTag_congr h, Assemble.drain_congr h]

end Construct

/-- A run asks a host only how to convert, and for evaluations that may wait. -/
theorem Compiler.construct_congr {c : Compiler H} (h : Hooks.Agree c.vocabulary host host')
    (items : List (Except Markup.Fault Markup.Event)) (dataContext : Option Value) :
    @construct H host c items dataContext = @construct H host' c items dataContext := by
  have hSetting : Hooks.Agree (Setting.vocabulary ⟨c.vocabulary, c.settings.strict, dataContext⟩)
      host host' := h
  have hFeedAll (count : Nat) :
      @feedAll H host c.settings ⟨c.vocabulary, c.settings.strict, dataContext⟩ count items =
        @feedAll H host' c.settings ⟨c.vocabulary, c.settings.strict, dataContext⟩ count items := by
    induction items generalizing count with
    | nil => rfl
    | cons item rest ih =>
      unfold feedAll
      simp only [Construct.feed_congr hSetting, ih]
  unfold construct
  simp only [hFeedAll, Construct.finish_congr hSetting]

end Congruence

/-! ### Where extensions cannot defer -/

variable [Hooks H]

/-- The host as it is, but where its extensions cannot defer, they do as `other` says. -/
abbrev Hooks.whereClosed (other : H.Extension → ArgumentValues → Site H → Except Failure Outcome) :
    Hooks H where
  convertsTo := Hooks.convertsTo
  convertsFrom := Hooks.convertsFrom
  convert := Hooks.convert
  extend x arguments := (Hooks.extend x arguments).map fun provide site =>
    if site.canDefer then provide site else other x arguments site

variable (other : H.Extension → ArgumentValues → Site H → Except Failure Outcome)

namespace Evaluation

variable {vocabulary : Vocabulary H} {scope : NameScope} {site : Site H}

/-- Where deferring is allowed, an extension does what it does in the host. -/
theorem applyExtension_whereClosed (hDefer : site.canDefer = true) (name : String) (x : Extension H)
    (positional : Gathered Value) (named : Gathered (String × Value)) :
    @applyExtension H (Hooks.whereClosed other) site name x positional named =
      applyExtension site name x positional named := by
  cases x with
  | host extension =>
    have hExtend : @Hooks.extend H (Hooks.whereClosed other) extension
        ⟨positional.values, named.values⟩ =
          (Hooks.extend extension ⟨positional.values, named.values⟩).map fun provide site =>
            if site.canDefer then provide site
            else other extension ⟨positional.values, named.values⟩ site := rfl
    unfold applyExtension Extension.create
    simp only [hExtend]
    cases Hooks.extend extension ⟨positional.values, named.values⟩ with
    | error reason => rfl
    | ok provide => simp only [except_ok_map, hDefer, if_true]
  | _ => rfl

/-- Arguments that are evaluated alike one by one are evaluated alike together. -/
theorem mapM_congr {arguments : List Argument} {f f' : Argument → Except Failure Outcome}
    (h : ∀ a ∈ arguments, f a = f' a) : arguments.mapM f = arguments.mapM f' := by
  induction arguments with
  | nil => rfl
  | cons a rest ih =>
    obtain ⟨hFirst, hRest⟩ := List.forall_mem_cons.1 h
    rw [List.mapM_cons, List.mapM_cons, hFirst, ih hRest]

/-- Where deferring is allowed, an expression is evaluated as in the host. -/
theorem run_whereClosed (hDefer : site.canDefer = true) (e : Expression) :
    @run H (Hooks.whereClosed other) vocabulary scope site e = run vocabulary scope site e := by
  induction e using Expression.arguments_induction with
  | step e ih =>
    have hArgument (a : Argument) (hMem : a ∈ e.arguments) :
        @runArgument H (Hooks.whereClosed other) vocabulary scope site a =
          runArgument vocabulary scope site a := by
      unfold runArgument
      cases a with
      | text content => rfl
      | nested inner => exact ih inner hMem
    have hPositional := mapM_congr fun a hMem => hArgument a (List.mem_append_left _ hMem)
    have hNamed := mapM_congr fun a hMem => hArgument a (List.mem_append_right _ hMem)
    rw [@run_eq H (Hooks.whereClosed other), run_eq, hPositional, hNamed]
    simp only [applyExtension_whereClosed other hDefer]

end Evaluation

/-- They agree with the host on all that a run asks of it. -/
theorem Hooks.agree_whereClosed (vocabulary : Vocabulary H) :
    Hooks.Agree vocabulary (Hooks.whereClosed other) ‹Hooks H› where
  converts := rfl
  evaluates around target text hDefer := by
    have hRun (source : String) (e : Expression) :
        @Evaluation.run H (Hooks.whereClosed other) vocabulary around.scope
            (Evaluation.siteOf around target source) e =
          Evaluation.run vocabulary around.scope (Evaluation.siteOf around target source) e :=
      Evaluation.run_whereClosed other hDefer e
    unfold evaluate
    simp only [hRun]

/-- What extensions do where they cannot defer makes no difference to a run. -/
theorem Compiler.construct_whereClosed (c : Compiler H)
    (items : List (Except Markup.Fault Markup.Event)) (dataContext : Option Value) :
    @construct H (Hooks.whereClosed other) c items dataContext = c.construct items dataContext :=
  construct_congr (Hooks.agree_whereClosed other c.vocabulary) items dataContext

/-! ### Where extensions are called -/

namespace Evaluation

/-- A call that asks an extension for its value does so at a site. -/
def Call.IsAt (site : Site H) : Call H → Prop
  | .create _ _ => True
  | .provide _ _ site' => site' = site

/-- All calls that were noted are at a site. -/
abbrev AllAt (site : Site H) (calls : List (Call H)) : Prop := ∀ call ∈ calls, call.IsAt site

variable {vocabulary : Vocabulary H} {scope : NameScope} {site : Site H}

omit [Hooks H] in
/-- One more call at the site leaves all calls at the site. -/
theorem AllAt.note {calls : List (Call H)} (h : AllAt site calls) (call : Call H)
    (hCall : call.IsAt site) : AllAt site (calls ++ [call]) := by
  intro call' hMem
  rcases List.mem_append.1 hMem with hOld | hNew
  · exact h call' hOld
  · rw [List.mem_singleton.1 hNew]
    exact hCall

/-- The extension that concludes an expression is called at its site. -/
theorem ends_conclude (e : Expression) (extension : Extension H) (outcomes later : List Outcome)
    {calls : List (Call H)} (h : AllAt site calls) :
    Ends (conclude site e extension outcomes later) calls (fun _ => AllAt site) fun _ => AllAt site := by
  unfold conclude
  simp only
  split
  · have hCreate : AllAt site (calls ++ [.create extension (e.argumentValues outcomes later)]) :=
      h.note _ trivial
    show Ends (Operation.ofExcept _ >>= _) _ _ _
    refine .bind (R := fun _ calls' => AllAt site calls') (.of_ofExcept (fun _ _ => hCreate)
      fun _ _ => hCreate) fun provide calls' hCalls => ?_
    have hProvide := hCalls.note (.provide extension (e.argumentValues outcomes later) site) rfl
    exact .of_ofExcept (fun _ _ => hProvide) fun _ _ => hProvide
  · exact .of_ofExcept (fun _ _ => h) fun _ _ => h

/-- Arguments that are performed at a site leave all calls at the site. -/
theorem ends_mapM {arguments : List Argument}
    (h : ∀ a ∈ arguments, ∀ calls, AllAt site calls →
      Ends (performArgument vocabulary scope site a) calls (fun _ => AllAt site) fun _ => AllAt site)
    {calls : List (Call H)} (hCalls : AllAt site calls) :
    Ends (arguments.mapM (performArgument vocabulary scope site)) calls (fun _ => AllAt site)
      fun _ => AllAt site := by
  induction arguments generalizing calls with
  | nil => exact hCalls
  | cons a rest ih =>
    obtain ⟨hFirst, hRest⟩ := List.forall_mem_cons.1 h
    rw [List.mapM_cons]
    refine (hFirst calls hCalls).bind fun outcome calls₁ h₁ => ?_
    exact (ih hRest h₁).bind fun outcomes calls₂ h₂ => .of_pure h₂

/-- All extensions of an expression are called at one site, also those that are nested. -/
theorem ends_perform (e : Expression) {calls : List (Call H)} (h : AllAt site calls) :
    Ends (perform vocabulary scope site e) calls (fun _ => AllAt site) fun _ => AllAt site := by
  induction e using Expression.arguments_induction generalizing calls with
  | step e ih =>
    have hArgument (a : Argument) (hMem : a ∈ e.arguments) (calls : List (Call H))
        (hCalls : AllAt site calls) :
        Ends (performArgument vocabulary scope site a) calls (fun _ => AllAt site)
          fun _ => AllAt site := by
      cases a with
      | text content =>
        rw [performArgument]
        exact .of_pure hCalls
      | nested inner =>
        rw [performArgument]
        exact ih inner hMem hCalls
    rw [perform_eq]
    have hFound : Ends (Operation.ofExcept (extensionNamed vocabulary scope e.name)) calls
        (fun _ => AllAt site) fun _ => AllAt site := .of_ofExcept (fun _ _ => h) fun _ _ => h
    refine hFound.bind fun extension calls₁ h₁ => ?_
    refine (ends_mapM (fun a hMem => hArgument a (List.mem_append_left _ hMem)) h₁).bind
      fun outcomes calls₂ h₂ => ?_
    refine (ends_mapM (fun a hMem => hArgument a (List.mem_append_right _ hMem)) h₂).bind
      fun later calls₃ h₃ => ?_
    exact ends_conclude e extension outcomes later h₃

end Evaluation

/-! ### What runs allow -/

/-- Every evaluation that a journal tells was allowed to wait. -/
def Entry.AllMayDefer (journal : List Entry) : Prop :=
  ∀ n target outcome, .evaluated n target outcome ∈ journal → target.canDefer = true

omit [Hooks H] in
/-- An entry that is no evaluation, or one that may wait, leaves all evaluations allowed to wait. -/
theorem Entry.AllMayDefer.record {journal : List Entry} (h : AllMayDefer journal) {entry : Entry}
    (hEntry : ∀ n target outcome, entry = .evaluated n target outcome → target.canDefer = true) :
    AllMayDefer (entry :: journal) := by
  intro n target outcome hMem
  rcases List.mem_cons.1 hMem with hNew | hOld
  · exact hEntry n target outcome hNew.symm
  · exact h n target outcome hOld

/-- At every step of a run, texts are evaluated as ones that may wait. -/
theorem Entry.AllMayDefer.upkeep (setting : Setting H) :
    Upkeep setting (fun _ => True) (fun _ => True) (fun m => AllMayDefer m.journal)
      fun _ m => AllMayDefer m.journal where
  told _ _ _ _ := trivial
  fewer _ _ h _ := h
  made _ _ _ h _ _ := h.record (by rintro _ _ _ ⟨⟩)
  bound _ _ _ _ h _ _ _ _ _ := h
  evaluated m scope b target outcome h _ _ hTarget _ := by
    refine h.record ?_
    rintro _ _ _ ⟨⟩
    rw [hTarget]
  again _ _ _ h _ := h
  assigned _ _ _ _ _ _ h _ _ _ _ _ _ := h.record (by rintro _ _ _ ⟨⟩)
  closed _ _ _ _ _ h _ _ _ := h.record (by rintro _ _ _ ⟨⟩)
  rooted _ _ h _ _ := h
  named _ _ _ _ h _ _ := h
  faulted _ _ _ _ _ h _ _ _ _ := h
  refused _ _ _ h _ _ := h
  unknown _ _ h _ _ := h
  mismatched _ _ _ _ h _ _ _ := h
  lost _ _ _ _ h _ := h

/-- Extensions may always ask to wait, in every run, however it ends. What those of the host would do where
they may not makes no difference; every evaluation that the journal tells was allowed to wait, whether an
element was open or not; and whatever an evaluation calls, also nested in it, sees what it was allowed. -/
theorem Compiler.extensions_may_defer (c : Compiler H) (dataContext : Option Value)
    (items : List (Except Markup.Fault Markup.Event)) :
    (∀ other, @construct H (Hooks.whereClosed other) c items dataContext =
        c.construct items dataContext) ∧
      Ends (c.construct items dataContext) (.ofDefaults c.settings.defaults)
        (fun _ s => Entry.AllMayDefer s.assembly.journal)
        (fun _ s => Entry.AllMayDefer s.assembly.journal) ∧
      ∀ (around : Surroundings H) (target : Target) (source : String) (e : Expression),
        let allowed (calls : List (Evaluation.Call H)) : Prop := ∀ x arguments site,
          .provide x arguments site ∈ calls → site.canDefer = target.canDefer
        Ends (Evaluation.perform c.vocabulary around.scope (Evaluation.siteOf around target source) e)
          [] (fun _ => allowed) fun _ => allowed := by
  refine ⟨fun other => construct_whereClosed other c items dataContext, ?_, ?_⟩
  · have hStart : Entry.AllMayDefer (Moment.start : Moment H).journal := by
      intro n target outcome hMem
      cases hMem
    exact (Entry.AllMayDefer.upkeep (c.setting dataContext)).course.construct
      (.start hStart trivial fun _ _ => trivial) fun _ _ h => h
  · intro around target source e allowed
    have hAllowed (calls : List (Evaluation.Call H))
        (h : Evaluation.AllAt (Evaluation.siteOf around target source) calls) : allowed calls := by
      intro x arguments site hMem
      rw [show site = Evaluation.siteOf around target source from h _ hMem]
      rfl
    have hNone : Evaluation.AllAt (Evaluation.siteOf around target source) [] :=
      fun _ hMem => absurd hMem List.not_mem_nil
    exact (Evaluation.ends_perform e hNone).mono (fun _ => hAllowed) fun _ => hAllowed

namespace Tellings

/-- A note has a text, and there is an extension that tells what it sees. -/
def compiler : Compiler Record.host where
  vocabulary := (Vocabulary.builtIn.register
    (.assemble Record.view ⟨"urn:tellings", "Note"⟩
      [.constructor (.ofInitial []), .scalar "Text" .any (Record.Fields.put "Text")])).register
    (.assemble Record.view ⟨"urn:tellings", "ContextExtension"⟩ [.extension "Context" (.host .context)])
  settings := ⟨["urn:tellings"], true, none⟩

/-- A note whose text waits until the note itself is declared, which is the root. -/
def own : List Markup.Event :=
  [ .start "Note", .attribute "xmlns:x" "urn:kiln:metadata", .attribute "x:Id" "n",
    .attribute "Text" "\x7bContext \x7bRef n\x7d\x7d", .finish ]

/-- What the text of the note is evaluated for. -/
def target : Target := ⟨⟨0⟩, "Text", none, true⟩

end Tellings

/-- The root is over, and an extension is told that it may wait. -/
theorem note_may_defer_after_end :
    ∃ root s w, Tellings.compiler.construct (Tellings.own.map .ok) none (.ofDefaults ["urn:tellings"]) =
        .ok root s ∧
      s.assembly.journal = .wrote w 1 ::
        .evaluated 0 Tellings.target (.value (.string "Text|#0|none|true")) ::
        [.closed ⟨0⟩ (some "n") (.object ⟨0⟩),
          .evaluated 0 Tellings.target (.deferred (.ofList ["n"])), .opened ⟨0⟩] ∧
      Entry.openObjects [.closed ⟨0⟩ (some "n") (.object ⟨0⟩),
        .evaluated 0 Tellings.target (.deferred (.ofList ["n"])), .opened ⟨0⟩] = [] := by
  have hRun : (outcome (Tellings.compiler.construct (Tellings.own.map .ok) none)
      (.ofDefaults ["urn:tellings"])).toOption.any (fun p =>
        decide (p.2.assembly.journal =
          [.wrote ⟨.occurrence 0, ⟨0⟩, "Text", none, .string "Text|#0|none|true"⟩ 1,
            .evaluated 0 Tellings.target (.value (.string "Text|#0|none|true")),
            .closed ⟨0⟩ (some "n") (.object ⟨0⟩),
            .evaluated 0 Tellings.target (.deferred (.ofList ["n"])), .opened ⟨0⟩])) = true := by
    decide +kernel
  obtain ⟨⟨root, s⟩, hRun, hJournal⟩ := except_exists_of_any hRun
  exact ⟨root, s, _, outcome_eq_ok.1 hRun, of_decide_eq_true hJournal, rfl⟩

end ObjectMarkup
