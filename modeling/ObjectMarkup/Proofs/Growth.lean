import ObjectMarkup.Proofs.Additions
import ObjectMarkup.Proofs.CoarseObligations
import ObjectMarkup.Proofs.Settlement

/-!
# Runs only grow

Nothing that a run has made is ever taken back, as each operation of the machine only adds to what it
starts with (`Construct.grows_feed`). Two things follow for texts that wait (`Steady`). A text that is
evaluated again is evaluated in the scope of its first evaluation, for the same target with the data
context of that time; only the graph and the names have grown. And an identifier that is declared a
second time changes nothing: the failure leaves the whole construction as it was
(`Construct.declareIdentifier_of_contains`).
-/

set_option autoImplicit false

namespace ObjectMarkup

open Operation

variable {H : Host}

/-! ### Runs -/

namespace Traced

variable [Hooks H] {setting : Setting H} {defaults : List String} {events : List Markup.Event}
  {o : Outline H} {ds : List (Deed H)} {s : Construction H}

/-- The root has started as soon as anything is done. -/
theorem started_iff (h : Traced setting.vocabulary defaults events o ds s) : s.Started ↔ ds ≠ [] := by
  constructor
  · rintro hStarted rfl
    have hHeads : o.heads = [] := by
      have hObjects := h.objects
      rw [Deed.objects_nil] at hObjects
      exact List.map_eq_nil_iff.1 hObjects.symm
    obtain ⟨hRoots, hPaths⟩ := List.append_eq_nil_iff.1 hHeads
    rcases hStarted with hOpen | hOver
    · refine hOpen ?_
      have hPath := h.path
      cases hTop : o.path with
      | nil =>
        rw [hTop] at hPath
        exact hPath.stack_eq_nil
      | cons n path => simp [hTop, OpenNode.heads] at hPaths
    · rw [h.root] at hOver
      obtain ⟨t, hTree⟩ := Option.isSome_iff_exists.1 hOver
      simp [hTree, ObjectTree.heads] at hRoots
  · intro hDone
    by_contra hNot
    obtain ⟨hOpen, hOver⟩ := not_or.1 hNot
    refine hDone (h.blank ?_ ?_)
    · rw [h.root] at hOver
      simpa using hOver
    · have hPath := h.path
      rw [not_not.1 hOpen] at hPath
      exact hPath.eq_nil

/-- An event that is fed only adds, and what comes later knows whether the root has started. -/
theorem grows_feed (h : Traced setting.vocabulary defaults events o ds s) (event : Markup.Event) :
    Ends (Construct.feed setting event) s
      (fun _ s' => s.Grows s' ∧ (s.Started → s'.Started) ∧
        ∃ o' ds', Traced setting.vocabulary defaults (events ++ [event]) o' ds' s')
      fun _ s' => s.Grows s' := by
  refine .of_runs (fun _ s' hFeed => ?_) fun _ s' hFeed => ?_
  · obtain ⟨o', new, -, h', -⟩ := h.feed hFeed
    refine ⟨(Construct.grows_feed event s).of_ok hFeed, fun hStarted => ?_, o', ds ++ new, h'⟩
    rw [h'.started_iff]
    exact List.append_ne_nil_of_left_ne_nil (h.started_iff.1 hStarted) new
  · exact (Construct.grows_feed event s).of_error hFeed

/-- More events take back nothing, however they end. -/
theorem grows_feedEvents (h : Traced setting.vocabulary defaults events o ds s)
    (more : List Markup.Event) :
    Ends (Construct.feedEvents setting more) s (fun _ => s.Grows) fun _ => s.Grows := by
  induction more generalizing events o ds s with
  | nil => exact .refl s
  | cons event more ih =>
    refine ((h.grows_feed event).mono (fun _ _ h => h) fun _ _ h => h).bind ?_
    rintro _ s₁ ⟨hGrows, hStarted, o₁, ds₁, h₁⟩
    exact (ih h₁).mono (fun _ _ h' => hGrows.trans h' hStarted) fun _ _ h' => hGrows.trans h' hStarted

/-- So does the rest of a stream, whether the run comes to its end or not. -/
theorem grows_rest (h : Traced setting.vocabulary defaults events o ds s) (settings : Settings)
    (n : Nat) (items : List (Except Markup.Fault Markup.Event)) :
    Ends (Compiler.run settings setting n items) s (fun _ => s.Grows) fun _ => s.Grows := by
  induction items generalizing n events o ds s with
  | nil =>
    unfold Compiler.run Compiler.feedAll
    split
    · exact .refl s
    · exact Construct.grows_finish s
  | cons item items ih =>
    unfold Compiler.run Compiler.feedAll
    split
    · exact .refl s
    · cases item with
      | error fault => exact .refl s
      | ok event =>
        simp only [bind_assoc]
        refine (h.grows_feed event).bind ?_
        rintro _ s₁ ⟨hGrows, hStarted, o₁, ds₁, h₁⟩
        exact (ih h₁ (n + 1)).mono (fun _ _ h' => hGrows.trans h' hStarted)
          fun _ _ h' => hGrows.trans h' hStarted

end Traced

namespace Compiler

variable [Hooks H] {c : Compiler H} {dataContext : Option Value}
  {items : List (Except Markup.Fault Markup.Event)} {n m : Nat} {s s' : Construction H}

/-- The scope that the root of a stream declares. -/
def scopeOf (c : Compiler H) (items : List (Except Markup.Fault Markup.Event)) : NameScope :=
  c.rootScope (Markup.rootAttributes (items.filterMap Except.toOption))

/-- The state of a run after the first `n` events. -/
def Reaches (c : Compiler H) (dataContext : Option Value)
    (items : List (Except Markup.Fault Markup.Event)) (n : Nat) (s : Construction H) : Prop :=
  (∀ look < n, c.settings.isCancelled look = false) ∧
    ∃ events, items.take n = events.map .ok ∧ events.length = n ∧
      Construct.feedEvents (c.setting dataContext) events (.ofDefaults c.settings.defaults) = .ok () s

/-- What comes between two states of a run are the events between. -/
theorem Reaches.feedEvents (h : c.Reaches dataContext items n s)
    (h' : c.Reaches dataContext items m s') (hLe : n ≤ m) :
    ∃ more, Construct.feedEvents (c.setting dataContext) more s = .ok () s' := by
  obtain ⟨-, events, hTake, hLength, hFed⟩ := h
  obtain ⟨-, events', hTake', hLength', hFed'⟩ := h'
  have hFirst : events'.take n = events := by
    have hMap : (events'.take n).map (Except.ok (ε := Markup.Fault)) = events.map .ok := by
      rw [List.map_take, ← hTake', List.take_take, Nat.min_eq_left hLe, hTake]
    exact List.map_injective_iff.2 (fun _ _ e => Except.ok.inj e) hMap
  refine ⟨events'.drop n, ?_⟩
  rw [← outcome_eq_ok, ← List.take_append_drop n events', hFirst,
    Construct.outcome_feedEvents_append, outcome_eq_ok.2 hFed] at hFed'
  exact outcome_eq_ok.1 hFed'

/-- Where events are fed without a failure, a run goes on with the rest of the stream. -/
theorem feedAll_append_run {settings : Settings} {setting : Setting H} {k : Nat}
    {events : List Markup.Event}
    (hQuiet : ∀ look < k + events.length, settings.isCancelled look = false)
    (hFed : Construct.feedEvents setting events s = .ok () s')
    (rest : List (Except Markup.Fault Markup.Event)) :
    feedAll settings setting k (events.map .ok ++ rest) s =
      feedAll settings setting (k + events.length) rest s' := by
  induction events generalizing k s with
  | nil =>
    cases hFed
    rfl
  | cons event events ih =>
    obtain ⟨_, s₁, hFirst, hRest⟩ := bind_eq_ok.1 hFed
    have hNow : settings.isCancelled k = false := hQuiet k (by simp)
    have hCount : k + (event :: events).length = k + 1 + events.length := by
      rw [List.length_cons]
      omega
    rw [hCount] at hQuiet ⊢
    rw [← ih hQuiet hRest, List.map_cons, List.cons_append, feedAll, hNow]
    show EStateM.bind (Construct.feed setting event) _ s = _
    rw [EStateM.bind, hFirst]

/-- What is kept up in the course of a run holds of the states that it reaches. -/
theorem Reaches.upheld {S : NameScope → Prop} {T : String → Prop} {I : Moment H → Prop}
    {J : Binding → Outcome → Moment H → Prop} {E : Failure → Moment H → Prop}
    (h : c.Reaches dataContext items n s) (u : Course (c.setting dataContext) S T I J E)
    (hStart : Course.Upheld S T I (items.filterMap Except.toOption)
      (.ofDefaults c.settings.defaults)) :
    Course.Upheld S T I ((items.drop n).filterMap Except.toOption) s := by
  obtain ⟨-, events, hTake, -, hFed⟩ := h
  have hItems : items.filterMap Except.toOption =
      events ++ (items.drop n).filterMap Except.toOption := by
    rw [← List.take_append_drop n items, hTake, List.filterMap_append, Markup.filterMap_map_ok,
      ← hTake, List.take_append_drop]
  rw [hItems] at hStart
  exact (u.feedEvents hStart).of_ok hFed

/-- A run ends as its rest does. -/
theorem Reaches.ends {Q : Value → Construction H → Prop} {E : Failure → Construction H → Prop}
    (h : c.Reaches dataContext items n s)
    (hRest : Ends (run c.settings (c.setting dataContext) n (items.drop n)) s Q E) :
    Ends (c.construct items dataContext) (.ofDefaults c.settings.defaults) Q E := by
  obtain ⟨hQuiet, events, hTake, hLength, hFed⟩ := h
  have hRun := feedAll_append_run (k := 0) (by rwa [Nat.zero_add, hLength]) hFed (items.drop n)
  rw [← hTake, List.take_append_drop, Nat.zero_add, hLength] at hRun
  have hSame : c.construct items dataContext (.ofDefaults c.settings.defaults) =
      run c.settings (c.setting dataContext) n (items.drop n) s := by
    show EStateM.bind (feedAll c.settings (c.setting dataContext) 0 items) _ _ =
      EStateM.bind (feedAll c.settings (c.setting dataContext) n (items.drop n)) _ _
    rw [EStateM.bind, EStateM.bind, hRun]
    rfl
  unfold Ends
  rw [hSame]
  exact hRest

end Compiler

/-! ### Texts that wait -/

/-- What a text came to, for a target and in a scope. Of the graph and the names that it read, all is
still there. -/
def CameTo [Hooks H] (vocabulary : Vocabulary H) (scope : NameScope) (target : Target) (text : String)
    (outcome : Outcome) (g : ObjectGraph H) (names : NameTable) : Prop :=
  ∃ g₀ names₀, g₀.types <+: g.types ∧ names₀.Grows names ∧
    evaluate vocabulary ⟨scope, g₀, names₀⟩ target text = .ok outcome

/-- All evaluations of a text that a journal tells were of the same text, for the same target, and in
the same scope. -/
def Steady [Hooks H] (vocabulary : Vocabulary H) (scope : NameScope) (a : Assembly H) : Prop :=
  ∃ texts : List (Target × String), ∀ n target outcome, .evaluated n target outcome ∈ a.journal →
    ∃ text, texts[n]? = some (target, text) ∧
      CameTo vocabulary scope target text outcome a.graph a.names

/-- The bindings are for the texts with their numbers, and those were evaluated. -/
structure Readings [Hooks H] (vocabulary : Vocabulary H) (scope : NameScope)
    (texts : List (Target × String)) (m : Moment H) : Prop where
  numbered : texts.length = m.occurrences
  bound : ∀ b ∈ m.bindings, texts[b.occurrence]? = some b.reading
  evaluated : ∀ n target outcome, .evaluated n target outcome ∈ m.journal →
    ∃ text, texts[n]? = some (target, text) ∧
      CameTo vocabulary scope target text outcome m.graph m.names

namespace Readings

variable [Hooks H] {vocabulary : Vocabulary H} {scope : NameScope} {texts : List (Target × String)}
  {m : Moment H}

/-- At every moment of readings the texts that wait are steady. -/
theorem steady {a : Assembly H} {path : List (Enclosing H)} {root : Option Value}
    {held : List Binding} (h : Readings vocabulary scope texts (a.moment path root held)) :
    Steady vocabulary scope a :=
  ⟨texts, h.evaluated⟩

/-- Readings do not need the bindings that are settled. -/
theorem fewer (h : Readings vocabulary scope texts m) (path : List (Enclosing H))
    {bindings : List Binding} (hFewer : bindings ⊆ m.bindings) :
    Readings vocabulary scope texts { m with path, bindings } :=
  ⟨h.numbered, fun b hMem => h.bound b (hFewer hMem), h.evaluated⟩

/-- What else is done leaves the readings, as long as it only adds. -/
theorem grows (h : Readings vocabulary scope texts m) {path : List (Enclosing H)} {g : ObjectGraph H}
    {names : NameTable} {journal : List Entry} (hGraph : m.graph.Grows g) (hNames : m.names.Grows names)
    (hJournal : ∀ n target outcome, .evaluated n target outcome ∈ journal →
      .evaluated n target outcome ∈ m.journal) :
    Readings vocabulary scope texts { m with path, graph := g, names, journal } where
  numbered := h.numbered
  bound := h.bound
  evaluated n target outcome hMem := by
    obtain ⟨text, hText, g₀, names₀, hTypes, hNames₀, hRun⟩ :=
      h.evaluated n target outcome (hJournal n target outcome hMem)
    refine ⟨text, hText, g₀, names₀, hTypes.trans hGraph.types_prefix, ?_, hRun⟩
    exact fun id value e => hNames id value (hNames₀ id value e)

/-- Readings stay so when objects are added. -/
theorem enlarged (h : Readings vocabulary scope texts m) {graph : ObjectGraph H}
    (hExtends : m.graph.Extends graph) : Readings vocabulary scope texts { m with graph } :=
  h.grows hExtends.grows (fun _ _ e => e) fun _ _ _ hMem => hMem

/-- A text gets the next number. -/
theorem add (h : Readings vocabulary scope texts m) {b : Binding}
    (hNumber : b.occurrence = m.occurrences) :
    Readings vocabulary scope (texts ++ [b.reading])
      { m with bindings := b :: m.bindings, occurrences := m.occurrences + 1 } where
  numbered := by
    rw [List.length_append, h.numbered]
    rfl
  bound b' hMem := by
    rcases List.mem_cons.1 hMem with rfl | hMem
    · rw [hNumber, ← h.numbered]
      exact List.getElem?_concat_length
    · have hOld := h.bound b' hMem
      rw [List.getElem?_append_left (List.getElem?_eq_some_iff.1 hOld).1]
      exact hOld
  evaluated n target outcome hMem := by
    obtain ⟨text, hText, hCame⟩ := h.evaluated n target outcome hMem
    refine ⟨text, ?_, hCame⟩
    rw [List.getElem?_append_left (List.getElem?_eq_some_iff.1 hText).1]
    exact hText

/-- What a binding came to is what its text comes to. -/
theorem read (h : Readings vocabulary scope texts m) {b : Binding} (hMem : b ∈ m.bindings)
    {outcome : Outcome}
    (hRun : evaluate vocabulary ⟨scope, m.graph, m.names⟩ b.reading.1 b.reading.2 = .ok outcome) :
    Readings vocabulary scope texts
      { m with journal := .evaluated b.occurrence b.reading.1 outcome :: m.journal } where
  numbered := h.numbered
  bound := h.bound
  evaluated n target outcome' hMem' := by
    rcases List.mem_cons.1 hMem' with hSame | hMem'
    · cases hSame
      exact ⟨b.expression, h.bound b hMem, m.graph, m.names, List.prefix_refl _, fun _ _ e => e, hRun⟩
    · exact h.evaluated n target outcome' hMem'

/-- Every step of a run reads texts as they were read before. -/
theorem upkeep (setting : Setting H) (scope : NameScope) :
    Upkeep setting (· = scope) (fun _ => True)
      (fun m => ∃ texts, Readings setting.vocabulary scope texts m)
      fun _ m => ∃ texts, Readings setting.vocabulary scope texts m where
  told _ _ _ _ := trivial
  fewer m bindings := by
    rintro ⟨texts, h⟩ hFewer
    exact ⟨texts, h.fewer m.path hFewer⟩
  made m type fresh := by
    rintro ⟨texts, h⟩ - -
    exact ⟨texts, h.grows (.insert m.graph type fresh) (fun _ _ e => e) (by simp)⟩
  bound m e path b := by
    rintro ⟨texts, h⟩ - - - - hNumber
    exact ⟨_, h.add hNumber⟩
  evaluated m scope b target outcome := by
    rintro ⟨texts, h⟩ rfl hMem rfl hRun
    exact ⟨texts, h.read hMem hRun⟩
  again m b required := by
    rintro ⟨texts, h⟩ hMem
    exact ⟨texts, h.numbered, List.forall_mem_cons.2 ⟨h.bound b hMem, h.bound⟩, h.evaluated⟩
  assigned m object g o w value := by
    rintro ⟨texts, h⟩ - hExtends - - - -
    exact ⟨texts, h.grows (hExtends.grows.trans (.replace g object o)) (fun _ _ e => e) (by simp)⟩
  closed m e path id value := by
    rintro ⟨texts, h⟩ - - -
    exact ⟨texts, h.grows (.refl _) (fun _ _ e => e) (by simp)⟩
  rooted m value := by
    rintro ⟨texts, h⟩ - -
    exact ⟨texts, h.numbered, h.bound, h.evaluated⟩
  named m id value names := by
    rintro ⟨texts, h⟩ hNew -
    exact ⟨texts, h.grows (.refl _) (NameTable.grows_of_register hNew) fun _ _ _ hMem => hMem⟩
  faulted m scope target text failure := by
    rintro ⟨texts, h⟩ - - - -
    exact ⟨texts, h⟩
  refused m graph failure := by
    rintro ⟨texts, h⟩ hExtends -
    exact ⟨texts, h.enlarged hExtends⟩
  unknown m object := by
    rintro ⟨texts, h⟩ - -
    exact ⟨texts, h⟩
  mismatched m graph owner object := by
    rintro ⟨texts, h⟩ - hExtends -
    exact ⟨texts, h.enlarged hExtends⟩
  lost failure m path bindings := by
    rintro ⟨texts, h⟩ hFewer
    exact ⟨texts, h.fewer path hFewer⟩

/-- A run starts with no readings, in the scope that its root declares. -/
theorem upheld (c : Compiler H) (items : List (Except Markup.Fault Markup.Event)) :
    Course.Upheld (· = c.scopeOf items) (fun _ => True)
      (fun m => ∃ texts, Readings c.vocabulary (c.scopeOf items) texts m)
      (items.filterMap Except.toOption) (.ofDefaults c.settings.defaults) := by
  refine .start ⟨[], rfl, ?_, ?_⟩ rfl fun _ _ => trivial
  · exact fun _ hMem => absurd hMem List.not_mem_nil
  · exact fun _ _ _ hMem => absurd hMem List.not_mem_nil

end Readings

/-! ### Names that are taken -/

/-- An identifier that is declared already is not declared again, and the failure changes nothing. -/
theorem Construct.declareIdentifier_of_contains [Hooks H] (setting : Setting H) {e : OpenElement H}
    {value : Value} {s : Construction H} {id : String} (hId : e.identifier = some id)
    (hTaken : s.assembly.names.contains id = true) :
    declareIdentifier setting e value s = .error (.duplicateIdentifier id) s := by
  have hRegister := (s.assembly.names.register_eq_error_iff id value _).2 ⟨hTaken, rfl⟩
  unfold declareIdentifier
  rw [hId]
  show EStateM.bind (Operation.ofExcept (s.assembly.names.register id value)) _ s = _
  rw [hRegister]
  rfl

/-- A run only grows. Of two of its states, the later one has the objects of the earlier one in front,
with their types, the names with their values, and the entries of the journal; and once the start tag
of the root is complete, names of types, extensions and qualifiers mean what the root declares. The
state in which the run ends, by a failure or not, is a later state than all of these. So every
evaluation of a text, the first and all others, is for one target and in the scope of the root. And a
failure to declare an identifier leaves all as it was. -/
theorem Compiler.runs_grow [Hooks H] (c : Compiler H) (dataContext : Option Value)
    (items : List (Except Markup.Fault Markup.Event)) :
    (∀ n m s s', n ≤ m → c.Reaches dataContext items n s → c.Reaches dataContext items m s' →
      s.Grows s') ∧
    (∀ n s, c.Reaches dataContext items n s →
      (s.Started → s.assembly.scope = c.scopeOf items) ∧
      Steady c.vocabulary (c.scopeOf items) s.assembly ∧
      Ends (c.construct items dataContext) (.ofDefaults c.settings.defaults) (fun _ => s.Grows)
        fun _ => s.Grows) ∧
    Ends (c.construct items dataContext) (.ofDefaults c.settings.defaults)
      (fun _ s => Steady c.vocabulary (c.scopeOf items) s.assembly)
      (fun _ s => Steady c.vocabulary (c.scopeOf items) s.assembly) ∧
    ∀ (e : OpenElement H) value s id, e.identifier = some id → s.assembly.names.contains id = true →
      Construct.declareIdentifier (c.setting dataContext) e value s =
        .error (.duplicateIdentifier id) s := by
  have u := Readings.upkeep (c.setting dataContext) (c.scopeOf items)
  have hStart := Readings.upheld c items
  refine ⟨?_, ?_, ?_, fun e value s id => Construct.declareIdentifier_of_contains _⟩
  · intro n m s s' hLe h h'
    obtain ⟨more, hMore⟩ := h.feedEvents h' hLe
    obtain ⟨-, events, -, -, hFed⟩ := h
    obtain ⟨o, ds, hTraced⟩ := traced_of_feedEvents hFed
    exact (hTraced.grows_feedEvents more).of_ok hMore
  · rintro n s h
    obtain ⟨-, events, -, -, hFed⟩ := id h
    obtain ⟨o, ds, hTraced⟩ := traced_of_feedEvents hFed
    have hUpheld := h.upheld u.course hStart
    refine ⟨fun hStarted => ?_, ?_, h.ends (hTraced.grows_rest c.settings n (items.drop n))⟩
    · rw [← s.scopeAfter_of_started hStarted ((items.drop n).filterMap Except.toOption)]
      exact hUpheld.scope
    · obtain ⟨texts, hTexts⟩ := hUpheld.stands
      exact hTexts.steady
  · refine (u.course.construct hStart ?_).mono ?_ ?_
    · exact fun _ _ hTexts => hTexts
    · rintro _ s ⟨texts, hTexts⟩
      exact hTexts.steady
    · rintro _ s ⟨texts, hTexts⟩
      exact hTexts.steady

namespace Cards

/-- The cards reach the state that some of their events lead to. -/
theorem reaches {n : Nat} (hLe : n ≤ events.length) {s : Construction Record.host}
    (hFed : Construct.feedEvents (compiler.setting none) (events.take n) (.ofDefaults ["urn:cards"]) =
      .ok () s) : compiler.Reaches none (events.map .ok) n s :=
  ⟨fun _ _ => rfl, events.take n, List.map_take.symm, List.length_take_of_le hLe, hFed⟩

/-- After five events the first card is open and waits for the second, which is declared after
eight. -/
theorem exists_reached :
    ∃ s s', compiler.Reaches none (events.map .ok) 5 s ∧
      compiler.Reaches none (events.map .ok) 8 s' ∧ s.stack ≠ [] ∧
        s'.assembly.names.contains "b" = true := by
  have hFirst : (outcome (Construct.feedEvents (compiler.setting none) (events.take 5))
      (.ofDefaults ["urn:cards"])).toOption.any (fun p => !p.2.stack.isEmpty) = true := by
    decide +kernel
  have hSecond : (outcome (Construct.feedEvents (compiler.setting none) (events.take 8))
      (.ofDefaults ["urn:cards"])).toOption.any (fun p => p.2.assembly.names.contains "b") = true := by
    decide +kernel
  obtain ⟨⟨_, s⟩, hRun, hOpen⟩ := except_exists_of_any hFirst
  obtain ⟨⟨_, s'⟩, hRun', hNamed⟩ := except_exists_of_any hSecond
  refine ⟨s, s', reaches (by decide) (outcome_eq_ok.1 hRun),
    reaches (by decide) (outcome_eq_ok.1 hRun'), ?_, hNamed⟩
  simpa using hOpen

end Cards

/-- The first card stays where it is when the second is declared, which is then done for good. -/
theorem cards_grow :
    ∃ s s', Cards.compiler.Reaches none (Cards.events.map .ok) 5 s ∧
      Cards.compiler.Reaches none (Cards.events.map .ok) 8 s' ∧ s.Grows s' ∧ s.Started ∧
      s.assembly.scope = Cards.compiler.scopeOf (Cards.events.map .ok) ∧
      Steady Cards.compiler.vocabulary (Cards.compiler.scopeOf (Cards.events.map .ok)) s'.assembly ∧
      s'.assembly.names.contains "b" = true ∧
      Construct.declareIdentifier (Cards.compiler.setting none)
          ⟨Cards.type, ⟨0⟩, none, none, none, some "b"⟩ .null s' =
        .error (.duplicateIdentifier "b") s' := by
  obtain ⟨hBetween, hReached, -, hTaken⟩ :=
    Compiler.runs_grow Cards.compiler none (Cards.events.map .ok)
  obtain ⟨s, s', h, h', hOpen, hNamed⟩ := Cards.exists_reached
  exact ⟨s, s', h, h', hBetween 5 8 s s' (by decide) h h', .inl hOpen, (hReached 5 s h).1 (.inl hOpen),
    (hReached 8 s' h').2.1, hNamed, hTaken _ .null s' "b" rfl hNamed⟩

end ObjectMarkup
