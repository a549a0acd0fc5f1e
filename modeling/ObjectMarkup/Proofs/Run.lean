import ObjectMarkup.Document
import ObjectMarkup.Proofs.Operation

/-!
# Runs of the machine

A run feeds events one after the other and stops at the first failure. The states between events are
those that a run from the empty construction reaches.
-/

set_option autoImplicit false

namespace ObjectMarkup

open Operation

namespace Construct

variable {H : Host} [Hooks H] (setting : Setting H)

/-- Feeds events, one after the other. -/
def feedEvents : List Markup.Event → Construct H Unit
  | [] => pure ()
  | event :: rest => do
    feed setting event
    feedEvents rest

/-- Feeding events feeds the first and then the rest. -/
theorem outcome_feedEvents_cons (event : Markup.Event) (rest : List Markup.Event)
    (s : Construction H) :
    outcome (feedEvents setting (event :: rest)) s =
      (outcome (feed setting event) s).bind fun p => outcome (feedEvents setting rest) p.2 :=
  outcome_bind ..

/-- Feeding two stretches of events feeds the second from the state the first leaves. -/
theorem outcome_feedEvents_append (first rest : List Markup.Event) (s : Construction H) :
    outcome (feedEvents setting (first ++ rest)) s =
      (outcome (feedEvents setting first) s).bind fun p =>
        outcome (feedEvents setting rest) p.2 := by
  induction first generalizing s with
  | nil => rfl
  | cons event first ih =>
    simp only [List.cons_append, outcome_feedEvents_cons, except_bind_bind, ih]

/-- Feeds the last events of a document, and ends it. -/
def feedToEnd (events : List Markup.Event) : Construct H Value := do
  feedEvents setting events
  finish setting

/-- Feeding events to the end feeds the first and then the rest to the end. -/
theorem outcome_feedToEnd_cons (event : Markup.Event) (rest : List Markup.Event)
    (s : Construction H) :
    outcome (feedToEnd setting (event :: rest)) s =
      (outcome (feed setting event) s).bind fun p => outcome (feedToEnd setting rest) p.2 := by
  simp only [feedToEnd, outcome_bind, outcome_feedEvents_cons, except_bind_bind]

/-- Feeding two stretches to the end feeds the first and then the second to the end. -/
theorem outcome_feedToEnd_append (first rest : List Markup.Event) (s : Construction H) :
    outcome (feedToEnd setting (first ++ rest)) s =
      (outcome (feedEvents setting first) s).bind fun p =>
        outcome (feedToEnd setting rest) p.2 := by
  simp only [feedToEnd, outcome_bind, outcome_feedEvents_append, except_bind_bind]

end Construct

/-- A stream without faults holds the events that it was made from. -/
theorem Markup.filterMap_map_ok (events : List Event) :
    (events.map Except.ok : List (Except Fault Event)).filterMap Except.toOption = events := by
  rw [List.filterMap_map]
  exact List.filterMap_some

/-- A signal that is seen raised is seen raised from then on. -/
theorem Settings.not_isCancelled_of_le {settings : Settings} {n m : Nat} (h : n ≤ m)
    (hQuiet : settings.isCancelled m = false) : settings.isCancelled n = false := by
  unfold isCancelled Signal.isRaised at *
  cases hSignal : settings.signal with
  | none => rfl
  | some signal =>
    cases hRaised : signal.raisedFrom with
    | none => simp [hRaised]
    | some first =>
      simp only [hSignal, hRaised, decide_eq_false_iff_not] at hQuiet ⊢
      omega

namespace Compiler

variable {H : Host} [Hooks H] {c : Compiler H} {dataContext : Option Value}

omit [Hooks H] in
/-- What stays the same while the compiler is at a document. -/
def setting (c : Compiler H) (dataContext : Option Value) : Setting H :=
  ⟨c.vocabulary, c.settings.strict, dataContext⟩

/-- A run that is cancelled at an event feeds nothing more. -/
theorem feedAll_of_isCancelled {settings : Settings} {n : Nat} (h : settings.isCancelled n = true)
    (setting : Setting H) (items : List (Except Markup.Fault Markup.Event)) :
    feedAll settings setting n items = throw .cancelled := by
  cases items <;> simp [feedAll, h]

/-- A stream is fed piece by piece. -/
theorem outcome_feedAll_append (settings : Settings) (setting : Setting H) (n : Nat)
    (items later : List (Except Markup.Fault Markup.Event)) (s : Construction H) :
    outcome (feedAll settings setting n (items ++ later)) s =
      (outcome (feedAll settings setting n items) s).bind fun p =>
        outcome (feedAll settings setting (n + items.length) later) p.2 := by
  induction items generalizing n s with
  | nil =>
    by_cases hCancelled : settings.isCancelled n = true
    · simp [feedAll_of_isCancelled hCancelled]
    · simp [feedAll, hCancelled]
  | cons item rest ih =>
    by_cases hCancelled : settings.isCancelled n = true
    · simp [feedAll_of_isCancelled hCancelled]
    · cases item with
      | error fault => simp [feedAll, hCancelled]
      | ok event =>
        have hCount : n + 1 + rest.length = n + (rest.length + 1) := by omega
        simp [feedAll, hCancelled, outcome_bind, except_bind_bind, ih, hCount]

/-- Without faults in it, and without a signal, a stream is its events. -/
theorem outcome_feedAll_map_ok {settings : Settings} {n : Nat} {events : List Markup.Event}
    (h : settings.isCancelled (n + events.length) = false) (setting : Setting H)
    (s : Construction H) :
    outcome (feedAll settings setting n (events.map .ok)) s =
      outcome (Construct.feedEvents setting events) s := by
  induction events generalizing n s with
  | nil =>
    have hNow : settings.isCancelled n = false := h
    simp [feedAll, hNow, Construct.feedEvents]
  | cons event rest ih =>
    have hNow := Settings.not_isCancelled_of_le (Nat.le_add_right ..) h
    have hLater : settings.isCancelled (n + 1 + rest.length) = false := by
      rw [← h, List.length_cons]
      congr 1
      omega
    simp [feedAll, hNow, outcome_bind, Construct.outcome_feedEvents_cons, ih hLater]

/-- A run from what is left of a stream to its end. -/
def run (settings : Settings) (setting : Setting H) (n : Nat)
    (items : List (Except Markup.Fault Markup.Event)) : Construct H Value := do
  feedAll settings setting n items
  Construct.finish setting

/-- A compiler's construction is the run that starts at event zero. -/
theorem construct_eq_run (items : List (Except Markup.Fault Markup.Event)) :
    c.construct items dataContext = run c.settings (c.setting dataContext) 0 items := rfl

/-- A run that is not cancelled feeds the event in front and goes on with the next number. -/
theorem outcome_run_cons {settings : Settings} {setting : Setting H} {n : Nat}
    (hNow : settings.isCancelled n = false) (event : Markup.Event)
    (rest : List (Except Markup.Fault Markup.Event)) (s : Construction H) :
    outcome (run settings setting n (.ok event :: rest)) s =
      (outcome (Construct.feed setting event) s).bind fun p =>
        outcome (run settings setting (n + 1) rest) p.2 := by
  simp only [run, feedAll, hNow, Bool.false_eq_true, if_false, outcome_bind, except_bind_bind]

/-- What a compilation gives is what a construction shows. -/
theorem compileEvents_eq_outcome (items : List (Except Markup.Fault Markup.Event)) :
    c.compileEvents items dataContext =
      (outcome (c.construct items dataContext) (.ofDefaults c.settings.defaults)).map fun p =>
        ⟨p.2.assembly.graph, p.1, p.2.assembly.names, p.2.assembly.journal.reverse⟩ := by
  unfold compileEvents outcome
  cases c.construct items dataContext (.ofDefaults c.settings.defaults) <;> rfl

/-- A stream that is fed to its end has no fault in it. -/
theorem feedEvents_of_feedAll {settings : Settings} {setting : Setting H} {n : Nat}
    {items : List (Except Markup.Fault Markup.Event)} {s s' : Construction H}
    (h : feedAll settings setting n items s = .ok () s') :
    ∃ events, items = events.map .ok ∧ Construct.feedEvents setting events s = .ok () s' := by
  induction items generalizing n s with
  | nil =>
    unfold feedAll at h
    split at h
    · cases h
    · cases h
      exact ⟨[], rfl, rfl⟩
  | cons item rest ih =>
    unfold feedAll at h
    split at h
    · cases h
    · cases item with
      | error fault => cases h
      | ok event =>
        obtain ⟨_, s₁, hFirst, hRest⟩ := bind_eq_ok.1 h
        obtain ⟨events, rfl, hEvents⟩ := ih hRest
        exact ⟨event :: events, rfl, bind_eq_ok.2 ⟨(), s₁, hFirst, hEvents⟩⟩

/-- A document is constructed by feeding its beginning, and then the rest to the end. -/
theorem outcome_construct_append {before : List (Except Markup.Fault Markup.Event)}
    {events : List Markup.Event}
    (h : c.settings.isCancelled (before.length + events.length) = false) (s : Construction H) :
    outcome (c.construct (before ++ events.map .ok) dataContext) s =
      (outcome (feedAll c.settings (c.setting dataContext) 0 before) s).bind fun p =>
        outcome (Construct.feedToEnd (c.setting dataContext) events) p.2 := by
  have hQuiet : c.settings.isCancelled (0 + before.length + events.length) = false := by
    rw [Nat.zero_add]
    exact h
  simp only [construct, Construct.feedToEnd, outcome_bind, outcome_feedAll_append,
    outcome_feedAll_map_ok hQuiet, except_bind_bind]
  rfl

/-- Two documents with the same beginning give the same if what comes after it does the same to every
construction that the beginning can lead to. -/
theorem compileEvents_append_congr {before : List (Except Markup.Fault Markup.Event)}
    {rest rest' : List Markup.Event}
    (hQuiet : c.settings.isCancelled (before.length + rest.length) = false)
    (hQuiet' : c.settings.isCancelled (before.length + rest'.length) = false)
    (h : ∀ events s, before = events.map .ok →
      Construct.feedEvents (c.setting dataContext) events (.ofDefaults c.settings.defaults) =
          .ok () s →
        outcome (Construct.feedToEnd (c.setting dataContext) rest) s =
          outcome (Construct.feedToEnd (c.setting dataContext) rest') s) :
    c.compileEvents (before ++ rest.map .ok) dataContext =
      c.compileEvents (before ++ rest'.map .ok) dataContext := by
  rw [compileEvents_eq_outcome, compileEvents_eq_outcome, outcome_construct_append hQuiet,
    outcome_construct_append hQuiet']
  congr 1
  cases hBefore : outcome (feedAll c.settings (c.setting dataContext) 0 before)
      (.ofDefaults c.settings.defaults) with
  | error failure => rfl
  | ok p =>
    obtain ⟨_, s⟩ := p
    obtain ⟨events, hEvents, hFed⟩ := feedEvents_of_feedAll (outcome_eq_ok.mp hBefore)
    exact h events s hEvents hFed

/-- A document is constructed by feeding its events and finishing. -/
theorem of_construct {items : List (Except Markup.Fault Markup.Event)} {s s' : Construction H}
    {root : Value} (h : c.construct items dataContext s = .ok root s') :
    ∃ events s₁, items = events.map .ok ∧
      Construct.feedEvents (c.setting dataContext) events s = .ok () s₁ ∧
      Construct.finish (c.setting dataContext) s₁ = .ok root s' := by
  obtain ⟨_, s₁, hFeed, hFinish⟩ := bind_eq_ok.1 h
  obtain ⟨events, hItems, hEvents⟩ := feedEvents_of_feedAll hFeed
  exact ⟨events, s₁, hItems, hEvents, hFinish⟩

/-- The document that compiling gives is read off the state in which its construction ended. -/
theorem of_compileEvents {items : List (Except Markup.Fault Markup.Event)} {d : Document H}
    (h : c.compileEvents items dataContext = .ok d) :
    ∃ root s, c.construct items dataContext (.ofDefaults c.settings.defaults) = .ok root s ∧
      d = ⟨s.assembly.graph, root, s.assembly.names, s.assembly.journal.reverse⟩ := by
  unfold compileEvents at h
  split at h
  · cases h
  · next root s hConstruct =>
    cases h
    exact ⟨root, s, hConstruct, rfl⟩

/-- A compilation fails with the failure of its construction. -/
theorem failed_of_compileEvents {items : List (Except Markup.Fault Markup.Event)} {failure : Failure}
    (h : c.compileEvents items dataContext = .error failure) :
    ∃ s, c.construct items dataContext (.ofDefaults c.settings.defaults) = .error failure s := by
  unfold compileEvents at h
  split at h
  · next s hConstruct =>
    cases h
    exact ⟨s, hConstruct⟩
  · cases h

end Compiler

end ObjectMarkup
