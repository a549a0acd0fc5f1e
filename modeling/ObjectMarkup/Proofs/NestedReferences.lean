import ObjectMarkup.Proofs.Growth
import ObjectMarkup.Proofs.TextHistories

/-!
# Nested references

In every run the file of a text in the journal is its history. So the evaluations of an expression of
references and nulls climb from the inside out, and there are not more of them than pairs of braces are
open in it at once (`Compiler.references_climb`).
-/

set_option autoImplicit false

namespace ObjectMarkup

open Operation

variable {H : Host}

/-! ### Deeds -/

/-- What is kept of texts at a moment, where the bindings are pending. -/
def Moment.Keeps [Hooks H] (vocabulary : Vocabulary H) (scope : NameScope)
    (texts : List (TextUse × Option Value)) (m : Moment H) : Prop :=
  Filed vocabulary scope texts (m.bindings.map Binding.pending) m.names m.occurrences
    m.journal

namespace Assemble

variable [Hooks H] {vocabulary : Vocabulary H} {scope : NameScope}
  {texts : List (TextUse × Option Value)} {complete : Bool} {a a' : Assembly H}

/-- What is done about a text that was evaluated. -/
theorem Reran.filed {b : Binding} {held : List Binding} (h : Reran vocabulary complete b a a')
    (hRead : ∀ outcome,
      ObjectMarkup.evaluate vocabulary a.surroundings b.reading.1 b.expression = .ok outcome →
        Filed vocabulary scope texts ((b, outcome) :: (held ++ a.waiting).map Binding.pending) a.names
          a.occurrences (.evaluated b.occurrence b.reading.1 outcome :: a.journal)) :
    (a'.moment [] none held).Keeps vocabulary scope texts := by
  unfold Moment.Keeps Assembly.moment
  cases h with
  | value v w a' evaluated assigned =>
    obtain ⟨⟨extent, hJournal⟩, hNames, hWaiting, hOccurrences⟩ := assigned.rest
    rw [hJournal, hNames, hWaiting, hOccurrences]
    exact (hRead _ evaluated).write assigned.origin_eq assigned.object_eq assigned.property_eq extent
  | nothing evaluated => exact (hRead _ evaluated).skip
  | deferred required evaluated =>
    refine (hRead _ evaluated).waits.sorted ?_
    show ((held ++ (a.waiting ++ [{ b with required }])).map Binding.pending).Perm _
    rw [← List.append_assoc, List.map_append]
    exact List.perm_append_singleton ..

/-- A drain keeps the files. -/
theorem filed_of_drain {n : Nat} (hScope : a.scope = scope)
    (h : (a.moment [] none []).Keeps vocabulary scope texts)
    (hDrain : drain vocabulary complete a = .ok n a') :
    (a'.moment [] none []).Keeps vocabulary scope texts := by
  have hDone : a'.scope = scope ∧ (∀ b ∈ ([] : List Binding), b.isReady a'.names = true) ∧
      (a'.moment [] none []).Keeps vocabulary scope texts := by
    refine drain_induction (P := fun held a₁ => a₁.scope = scope ∧
      (∀ b ∈ held, b.isReady a₁.names = true) ∧ (a₁.moment [] none held).Keeps vocabulary scope texts)
      ?_ ⟨hScope, fun b hMem => (List.mem_filter.1 hMem).2, ?_⟩ hDrain
    · rintro b rest a₁ a₂ ⟨rfl, hReady, hFiled⟩ hReran
      obtain ⟨hFirst, hOthers⟩ := List.forall_mem_cons.1 hReady
      refine ⟨hReran.grows.scope, ?_, hReran.filed fun outcome => Filed.reread hFiled hFirst⟩
      rw [hReran.names_eq]
      exact hOthers
    · exact Filed.sorted h ((List.filter_append_perm (·.isReady a.names) a.waiting).map _)
  exact hDone.2.2

end Assemble

namespace Assembly

variable [Hooks H] {vocabulary : Vocabulary H} {scope : NameScope} {a a' : Assembly H}

/-- The texts among the uses are told by the journal. -/
def Files (vocabulary : Vocabulary H) (scope : NameScope) (uses : List Use) (a : Assembly H) : Prop :=
  ∃ texts, texts.map Prod.fst = Use.texts uses ∧ (a.moment [] none []).Keeps vocabulary scope texts

/-- Every deed leaves what it uses in the journal. -/
theorem Files.does {uses : List Use} {d : Deed H} (h : a.Files vocabulary scope uses)
    (hScope : a.scope = scope) (hDoes : Does vocabulary a d a') :
    a'.Files vocabulary scope (uses ++ Deed.uses [d]) := by
  obtain ⟨texts, hTexts, hFiled⟩ := h
  have unused (hUses : Use.texts (Deed.uses [d]) = []) (h' : (a'.moment [] none []).Keeps vocabulary
      scope texts) : a'.Files vocabulary scope (uses ++ Deed.uses [d]) := by
    refine ⟨texts, ?_, h'⟩
    rw [Use.texts_append, hUses, List.append_nil]
    exact hTexts
  cases hDoes with
  | make type fresh known constructible => exact unused rfl (Filed.record hFiled fun _ => rfl)
  | text object name text dataContext a' evaluated =>
    refine ⟨texts ++ [(⟨object, name, text⟩, dataContext)], ?_, evaluated.filed fun outcome hRun => ?_⟩
    · rw [List.map_append, hTexts, Use.texts_append]
      rfl
    · rw [surroundings, show Assembly.scope _ = scope from hScope] at hRun
      exact Filed.read hFiled rfl hRun
  | close type object id value stands => exact unused rfl (Filed.record hFiled fun _ => rfl)
  | place child object name value w a' ended assigned =>
    obtain ⟨⟨extent, hJournal⟩, hNames, hWaiting, hOccurrences⟩ := assigned.rest
    refine unused rfl ?_
    unfold Moment.Keeps moment
    rw [hJournal, hNames, hWaiting, hOccurrences]
    exact Filed.record hFiled fun n => by simp [Entry.isOf, assigned.origin_eq]
  | declare id value complete names n a' registered drained =>
    have hNamed : (Assembly.moment { a with names } [] none []).Keeps vocabulary scope texts :=
      Filed.same hFiled (NameTable.grows_of_register registered) fun _ => rfl
    exact unused rfl (Assemble.filed_of_drain (a := { a with names }) hScope hNamed drained)

/-- The deeds of a document keep the files of the texts that they use. -/
theorem Files.doesAll {ds : List (Deed H)} (h : DoesAll vocabulary (.start scope) ds a) :
    a.Files vocabulary scope (Deed.uses ds) :=
  DoesAll.invariant_of_texts (T := fun _ => True) (P := fun uses a => a.Files vocabulary scope uses)
    (fun _ _ _ _ _ hScope hFiles hDoes => hFiles.does hScope hDoes) ⟨[], rfl, .start vocabulary scope⟩
    h fun _ _ => trivial

end Assembly

/-! ### Courses -/

section Course

variable [Hooks H]

/-- What a run keeps of texts that goes on where `texts` were read: more texts were read since, and all
that are pending are among those that `T` holds of. -/
def Moment.GoesOn (vocabulary : Vocabulary H) (scope : NameScope) (T : String → Prop)
    (texts : List (TextUse × Option Value)) (pending : List (Binding × Outcome)) (m : Moment H) : Prop :=
  ∃ more, (∀ x ∈ more, T x.1.content) ∧ (∀ x ∈ pending, T x.1.expression) ∧
    Filed vocabulary scope (texts ++ more) pending m.names m.occurrences m.journal

/-- What a run leaves of texts that fails. What is pending waits still, or its outcome is the last thing
that the journal tells. -/
def Moment.Stops (vocabulary : Vocabulary H) (scope : NameScope) (T : String → Prop)
    (texts : List (TextUse × Option Value)) (m : Moment H) : Prop :=
  ∃ more pending occurrences, (∀ x ∈ more, T x.1.content) ∧
    Filed vocabulary scope (texts ++ more) pending m.names occurrences m.journal ∧
      ∀ x ∈ pending, (∃ required, x.2 = .deferred required) ∨
        m.journal.head? = some (.evaluated x.1.occurrence x.1.reading.1 x.2)

namespace Moment.GoesOn

variable {vocabulary : Vocabulary H} {scope : NameScope} {T : String → Prop}
  {texts : List (TextUse × Option Value)} {pending : List (Binding × Outcome)} {m : Moment H}

/-- A run that fails at a moment at which nothing is in hand. -/
theorem stops (h : m.GoesOn vocabulary scope T texts (m.bindings.map Binding.pending)) :
    m.Stops vocabulary scope T texts := by
  obtain ⟨more, hMore, -, hFiled⟩ := h
  refine ⟨more, _, _, hMore, hFiled, fun x hMem => .inl ?_⟩
  obtain ⟨b, -, rfl⟩ := List.mem_map.1 hMem
  exact ⟨b.required, rfl⟩

/-- A run that fails while a text is in hand. -/
theorem stops_inHand {b : Binding} {outcome : Outcome}
    (h : m.GoesOn vocabulary scope T texts ((b, outcome) :: m.bindings.map Binding.pending))
    (hLatest : m.journal.head? = some (.evaluated b.occurrence b.reading.1 outcome)) :
    m.Stops vocabulary scope T texts := by
  obtain ⟨more, hMore, -, hFiled⟩ := h
  refine ⟨more, _, _, hMore, hFiled, List.forall_mem_cons.2 ⟨.inr hLatest, fun x hMem => .inl ?_⟩⟩
  obtain ⟨b, -, rfl⟩ := List.mem_map.1 hMem
  exact ⟨b.required, rfl⟩

/-- What is not about a text. -/
theorem record (h : m.GoesOn vocabulary scope T texts pending) {entry : Entry}
    (hOther : ∀ n, entry.isOf n = false) (path : List (Enclosing H)) (graph : ObjectGraph H) :
    { m with path, graph, journal := entry :: m.journal }.GoesOn vocabulary scope T texts pending := by
  obtain ⟨more, hMore, hTold, hFiled⟩ := h
  exact ⟨more, hMore, hTold, hFiled.record hOther⟩

end Moment.GoesOn

/-- Every step of a run keeps the files of texts. -/
theorem Filed.course (setting : Setting H) (scope : NameScope) (T : String → Prop)
    (texts : List (TextUse × Option Value)) :
    Course setting (· = scope) T
      (fun m => m.GoesOn setting.vocabulary scope T texts (m.bindings.map Binding.pending))
      (fun b outcome m =>
        m.GoesOn setting.vocabulary scope T texts ((b, outcome) :: m.bindings.map Binding.pending) ∧
          m.journal.head? = some (.evaluated b.occurrence b.reading.1 outcome))
      (fun _ m => m.Stops setting.vocabulary scope T texts) where
  told m := by
    rintro ⟨more, -, hTold, -⟩ b hMem
    exact hTold b.pending (List.mem_map.2 ⟨b, hMem, rfl⟩)
  sorted m bindings := by
    rintro ⟨more, hMore, hTold, hFiled⟩ hPerm
    have hPending := hPerm.map Binding.pending
    exact ⟨more, hMore, fun x hMem => hTold x (hPending.mem_iff.1 hMem), hFiled.sorted hPending⟩
  made m type fresh h _ _ := h.record (fun _ => rfl) _ _
  applied m scope' b outcome := by
    rintro ⟨more, hMore, hTold, hFiled⟩ rfl hText hApplies hRun
    refine ⟨⟨more ++ [(b.use, b.dataContext)], ?_, List.forall_mem_cons.2 ⟨hText, hTold⟩, ?_⟩, rfl⟩
    · exact List.forall_mem_append.2 ⟨hMore, List.forall_mem_singleton.2 hText⟩
    · rw [← List.append_assoc]
      exact hFiled.read hApplies.number hRun
  reapplied m scope' b rest outcome := by
    rintro ⟨more, hMore, hTold, hFiled⟩ rfl hBindings hReady hRun
    rw [hBindings] at hTold hFiled
    exact ⟨⟨more, hMore, List.forall_mem_cons.2 (List.forall_mem_cons.1 hTold),
      hFiled.reread hReady hRun⟩, rfl⟩
  waits m b required := by
    rintro ⟨⟨more, hMore, hTold, hFiled⟩, -⟩
    have hPerm : ((m.bindings ++ [{ b with required }]).map Binding.pending).Perm
        (Binding.pending { b with required } :: m.bindings.map Binding.pending) := by
      rw [List.map_append]
      exact List.perm_append_singleton ..
    have hTold' : ∀ x ∈ Binding.pending { b with required } :: m.bindings.map Binding.pending,
        T x.1.expression := List.forall_mem_cons.2 (List.forall_mem_cons.1 hTold)
    exact ⟨more, hMore, fun x hMem => hTold' x (hPerm.mem_iff.1 hMem), hFiled.waits.sorted hPerm⟩
  skipped m b := by
    rintro ⟨⟨more, hMore, hTold, hFiled⟩, -⟩
    exact ⟨more, hMore, (List.forall_mem_cons.1 hTold).2, hFiled.skip⟩
  assigned m b g o w value := by
    rintro ⟨⟨more, hMore, hTold, hFiled⟩, -⟩ hOrigin hObject hProperty - -
    exact ⟨more, hMore, (List.forall_mem_cons.1 hTold).2, hFiled.write hOrigin hObject hProperty _⟩
  placed m child e g o w value h _ _ hOrigin _ _ _ :=
    h.record (fun n => by simp [Entry.isOf, hOrigin]) _ _
  closed m e path id value h _ _ _ := h.record (fun _ => rfl) _ _
  rooted m value h _ _ := h
  named m id value names := by
    rintro ⟨more, hMore, hTold, hFiled⟩ hNew -
    exact ⟨more, hMore, hTold, hFiled.same (NameTable.grows_of_register hNew) fun _ => rfl⟩
  unapplied m scope' b failure h _ _ _ _ := h.stops
  faulted m scope' b rest failure h _ _ _ _ := h.stops
  refused m graph failure h _ _ := by
    rcases h with h | ⟨b, outcome, h, hLatest⟩
    · exact h.stops
    · exact h.stops_inHand hLatest
  unknown m object hAims _ := by
    cases hAims with
    | element e stands top => exact stands.stops
    | text b value inHand => exact inHand.1.stops_inHand inHand.2
  mismatched m graph owner object hAims _ _ := by
    cases hAims with
    | element e stands top => exact stands.stops
    | text b value inHand => exact inHand.1.stops_inHand inHand.2
  lost failure m path bindings h _ := h

end Course

/-! ### Runs -/

/-- What a state of a run tells about the texts that it has read: all evaluations of plain expressions
climb, and what a plain expression came to was written, or its history is open. -/
structure Assembly.TextsClimb [Hooks H] (vocabulary : Vocabulary H) (scope : NameScope)
    (texts : List TextUse) (IsOpen : Nat → Target → History H → Prop) (a : Assembly H) : Prop where
  unread : ∀ n, texts.length ≤ n → Entry.fileOf n a.journal = []
  climb : ∀ n u, texts[n]? = some u → ∃ dataContext, ∃ h : History H,
    h.IsOf vocabulary scope n u dataContext a.names a.journal ∧
      ∀ source e, ValueText.classify u.content = .expression source →
        Expression.parse source = .ok e → e.IsPlain vocabulary scope →
          Climbs vocabulary scope (u.target dataContext) source e h.visits ∧
            (h.written.isSome = true ∨ IsOpen n (u.target dataContext) h)

/-- A text waits in the queue, for what it came to wait for last. -/
def Assembly.Awaits (a : Assembly H) (n : Nat) (_ : Target) (h : History H) : Prop :=
  h.written = none ∧
    ∃ b ∈ a.waiting, b.occurrence = n ∧ h.outcome? = some (.deferred b.required)

/-- A text waited when the run failed, or what it came to is the last thing that the journal tells: that
it could not be assigned is the failure. -/
def Assembly.Abandons (a : Assembly H) (n : Nat) (target : Target) (h : History H) : Prop :=
  h.written = none ∧ ((∃ required, h.outcome? = some (.deferred required)) ∨
    ∃ outcome, h.outcome? = some outcome ∧ a.journal.head? = some (.evaluated n target outcome))

variable [Hooks H]

/-- Where files are kept, the texts of references climb. -/
theorem Filed.textsClimb {vocabulary : Vocabulary H} {scope : NameScope}
    {texts : List (TextUse × Option Value)} {pending : List (Binding × Outcome)} {occurrences : Nat}
    {a : Assembly H} (h : Filed vocabulary scope texts pending a.names occurrences a.journal)
    {IsOpen : Nat → Target → History H → Prop}
    (hOpen : ∀ x ∈ pending, ∀ history : History H, history.written = none →
      history.outcome? = some x.2 → IsOpen x.1.occurrence x.1.reading.1 history) :
    a.TextsClimb vocabulary scope (texts.map Prod.fst) IsOpen where
  unread n hLe := by
    rw [List.length_map] at hLe
    exact h.unread n hLe
  climb n u hUse := by
    rw [List.getElem?_map] at hUse
    obtain ⟨⟨u, dataContext⟩, hText, rfl⟩ := Option.map_eq_some_iff.1 hUse
    by_cases hPending : ∃ x ∈ pending, x.1.occurrence = n
    · obtain ⟨x, hMem, rfl⟩ := hPending
      obtain ⟨hOwn, history, hOf, hWritten, hOutcome⟩ := h.unsettled x hMem
      cases hText.symm.trans hOwn
      refine ⟨x.1.dataContext, history, hOf, fun source e hClassify hParse hPlain => ?_⟩
      exact ⟨hOf.visits.climbs hClassify hParse hPlain rfl, .inr (hOpen x hMem history hWritten hOutcome)⟩
    · obtain ⟨history, hOf, hSettled⟩ := h.settled n u dataContext hText fun x hMem hSame =>
        hPending ⟨x, hMem, hSame⟩
      refine ⟨dataContext, history, hOf, fun source e hClassify hParse hPlain => ?_⟩
      have hClimbs := hOf.visits.climbs hClassify hParse hPlain rfl
      refine ⟨hClimbs, .inl (hSettled.resolve_right fun hNothing => ?_)⟩
      obtain ⟨v, hHead, hOutcome⟩ := Option.map_eq_some_iff.1 hNothing
      exact hClimbs.valued v (List.mem_of_mem_head? hHead) hOutcome

/-- The texts of a state that a run reaches are in its journal. -/
theorem Compiler.Reaches.exists_outline {c : Compiler H} {dataContext : Option Value}
    {items : List (Except Markup.Fault Markup.Event)} {n : Nat} {s : Construction H}
    (h : c.Reaches dataContext items n s)
    (hScope : s.scopeAfter ((items.drop n).filterMap Except.toOption) = c.scopeOf items) :
    ∃ o : Outline H, items.take n = o.events.map .ok ∧
      o.heads.map ElementHead.object = (s.assembly.journal.filterMap Entry.opened?).reverse ∧
        s.assembly.Files c.vocabulary (c.scopeOf items) o.uses := by
  obtain ⟨-, events, hTake, -, hFed⟩ := h
  obtain ⟨o, ds, hTraced⟩ := traced_of_feedEvents hFed
  refine ⟨o, by rw [hTake, hTraced.told], ?_, ?_⟩
  · rw [← (Elements.doesAll hTraced.done).opened, hTraced.objects, List.map_map]
    rfl
  · have hDone := hTraced.done
    rw [← hTraced.uses]
    by_cases hStarted : s.Started
    · rw [s.scopeAfter_of_started hStarted, hTraced.scope_eq] at hScope
      rw [hScope] at hDone
      exact .doesAll hDone
    · have hNone : ds = [] := Classical.not_not.1 fun hSome => hStarted (hTraced.started_iff.2 hSome)
      subst hNone
      generalize s.assembly = a at hDone ⊢
      cases hDone
      exact ⟨[], rfl, .start ..⟩

/-- References that are nested settle within their depth, in every run. At each state that a run reaches,
the evaluations of an expression of references and nulls climb: those that waited did so for disjoint
identifiers, each later one further out in the expression, and there are not more of them than pairs of
braces are open in it at once. Nothing else is evaluated under its number. What it came to after that was
written where it belongs, once; otherwise it waits in the queue. When the document compiles, it was
written. When the run fails, at that point or later, it was written, or it waited to the end, or the value
that it came to is the last that was done. -/
theorem Compiler.references_climb (c : Compiler H) (dataContext : Option Value)
    (items : List (Except Markup.Fault Markup.Event)) :
    (∀ n s, c.Reaches dataContext items n s →
      ∃ o : Outline H, items.take n = o.events.map .ok ∧
        o.heads.map ElementHead.object = (s.assembly.journal.filterMap Entry.opened?).reverse ∧
        s.assembly.TextsClimb c.vocabulary (c.scopeOf items) (Use.texts o.uses) s.assembly.Awaits ∧
        ∀ failure s',
          c.construct items dataContext (.ofDefaults c.settings.defaults) = .error failure s' →
            ∃ more : List TextUse,
              (∀ u ∈ more, u.content ∈ Markup.values (items.filterMap Except.toOption)) ∧
                s'.assembly.TextsClimb c.vocabulary (c.scopeOf items) (Use.texts o.uses ++ more)
                  s'.assembly.Abandons) ∧
    ∀ root s, c.construct items dataContext (.ofDefaults c.settings.defaults) = .ok root s →
      ∃ t : ObjectTree H,
        Document.Tells items t
          ⟨s.assembly.graph, root, s.assembly.names, s.assembly.journal.reverse⟩ ∧
        s.assembly.TextsClimb c.vocabulary (c.scopeOf items) (Use.texts t.uses) fun _ _ _ => False := by
  have u (texts : List (TextUse × Option Value)) :=
    Filed.course (c.setting dataContext) (c.scopeOf items)
      (· ∈ Markup.values (items.filterMap Except.toOption)) texts
  constructor
  · intro n s h
    have hStart := h.upheld (u []) (.start
      ⟨[], fun _ hMem => absurd hMem List.not_mem_nil, fun _ hMem => absurd hMem List.not_mem_nil,
        .start ..⟩ rfl fun _ hMem => hMem)
    obtain ⟨o, hTake, hObjects, texts, hTexts, hFiled⟩ := h.exists_outline hStart.scope
    refine ⟨o, hTake, hObjects, ?_, fun failure s' hRun => ?_⟩
    · rw [← hTexts]
      refine hFiled.textsClimb fun x hMem history hWritten hOutcome => ⟨hWritten, ?_⟩
      obtain ⟨b, hWaiting, rfl⟩ := List.mem_map.1 hMem
      exact ⟨b, hWaiting, rfl, hOutcome⟩
    · -- The run goes on where these texts were read.
      have hGoesOn : s.moment.GoesOn c.vocabulary (c.scopeOf items)
          (· ∈ Markup.values (items.filterMap Except.toOption)) texts
            (s.moment.bindings.map Binding.pending) := by
        obtain ⟨more, -, hTold, -⟩ := hStart.stands
        refine ⟨[], fun _ hMem => absurd hMem List.not_mem_nil, hTold, ?_⟩
        rw [List.append_nil]
        exact hFiled
      have hEnds := h.ends ((u texts).run c.settings n ⟨hGoesOn, hStart.scope, hStart.untold⟩
        fun a root hStands => hStands.stops)
      obtain ⟨more, pending, occurrences, hMore, hLeft, hPending⟩ := hEnds.of_error hRun
      refine ⟨more.map Prod.fst, fun u hMem => ?_, ?_⟩
      · obtain ⟨x, hRead, rfl⟩ := List.mem_map.1 hMem
        exact hMore x hRead
      · rw [← hTexts, ← List.map_append]
        refine hLeft.textsClimb fun x hMem history hWritten hOutcome => ⟨hWritten, ?_⟩
        rcases hPending x hMem with ⟨required, hWaits⟩ | hLatest
        · rw [hWaits] at hOutcome
          exact .inl ⟨required, hOutcome⟩
        · exact .inr ⟨x.2, hOutcome, hLatest⟩
  · intro root s hRun
    obtain ⟨t, ds, a, hBuilt⟩ := constructed_of_construct hRun
    refine ⟨t, hBuilt.tells root, ?_⟩
    have hScope : c.scopeOf items = c.rootScope t.head.attributes := by
      rw [scopeOf, hBuilt.events, Markup.filterMap_map_ok, t.rootAttributes_events]
    have hDone := hBuilt.done
    rw [← hScope] at hDone
    obtain ⟨texts, hTexts, hFiled⟩ := Assembly.Files.doesAll hDone
    obtain ⟨k, hDrain⟩ := hBuilt.drained
    have hDrained := Assemble.filed_of_drain hDone.grows.scope hFiled hDrain
    unfold Moment.Keeps Assembly.moment at hDrained
    rw [hBuilt.waiting] at hDrained
    rw [← hBuilt.uses, ← hTexts]
    exact hDrained.textsClimb fun x hMem => absurd hMem List.not_mem_nil

namespace Cards

/-- A card refers to what a text names, which is the card after that. -/
def chain : List Markup.Event :=
  [ .start "Card", .attribute "xmlns:x" "urn:kiln:metadata",
    .attribute "Next" "\x7bRef \x7bRef a\x7d\x7d",
    .start "string", .attribute "x:Id" "a", .text "b", .finish,
    .start "Card", .attribute "x:Id" "b", .finish, .finish ]

/-- The expression of the first card, of two references. -/
def nested : Expression := ⟨"Ref", [.nested ⟨"Ref", [.text "a"], []⟩], []⟩

/-- The nested reference is plain. -/
theorem isPlain_nested : nested.IsPlain compiler.vocabulary (compiler.scopeOf (chain.map .ok)) := by
  intro place inner hAt type key x hFind hExtension
  have hName : inner.name = "Ref" := by
    cases place with
    | nil =>
      cases hAt
      rfl
    | cons i place =>
      obtain ⟨outer, hArgument, hInner⟩ := Expression.at?_cons_eq_some.1 hAt
      cases List.mem_singleton.1 (List.mem_of_getElem? hArgument)
      cases place with
      | nil =>
        cases hInner
        rfl
      | cons j place =>
        obtain ⟨_, hArgument, -⟩ := Expression.at?_cons_eq_some.1 hInner
        cases List.mem_singleton.1 (List.mem_of_getElem? hArgument)
  have hReference : (compiler.scopeOf (chain.map .ok)).findExtension compiler.vocabulary "Ref" =
      .ok (.builtInExtension "Ref" .reference) := rfl
  rw [hName, hReference] at hFind
  cases hFind
  cases hExtension
  exact .inl rfl

/-- The document is constructed, and the first text is evaluated three times. -/
theorem exists_chained :
    ∃ root s, compiler.construct (chain.map .ok) none (.ofDefaults ["urn:cards"]) = .ok root s ∧
      s.assembly.journal.filterMap (Entry.outcomeOf? 0) =
        [.value (.object ⟨2⟩), .deferred (.ofList ["b"]), .deferred (.ofList ["a"])] := by
  have hRun : (outcome (compiler.construct (chain.map .ok) none)
      (.ofDefaults ["urn:cards"])).toOption.any (fun p =>
        decide (p.2.assembly.journal.filterMap (Entry.outcomeOf? 0) =
          [.value (.object ⟨2⟩), .deferred (.ofList ["b"]), .deferred (.ofList ["a"])])) = true := by
    decide +kernel
  obtain ⟨⟨root, s⟩, hRun, hOutcomes⟩ := except_exists_of_any hRun
  exact ⟨root, s, outcome_eq_ok.1 hRun, of_decide_eq_true hOutcomes⟩

end Cards

/-- The first card waits for the text, then for the second card, and is then written. -/
theorem cards_climb :
    Expression.parse "\x7bRef \x7bRef a\x7d\x7d" = .ok Cards.nested ∧ Cards.nested.nesting = 2 ∧
      Cards.nested.IsPlain Cards.compiler.vocabulary (Cards.compiler.scopeOf (Cards.chain.map .ok)) ∧
      ∃ root s,
        Cards.compiler.construct (Cards.chain.map .ok) none (.ofDefaults ["urn:cards"]) = .ok root s ∧
          s.assembly.journal.filterMap (Entry.outcomeOf? 0) =
            [.value (.object ⟨2⟩), .deferred (.ofList ["b"]), .deferred (.ofList ["a"])] ∧
          ∃ t : ObjectTree Record.host,
            Document.Tells (Cards.chain.map .ok) t
              ⟨s.assembly.graph, root, s.assembly.names, s.assembly.journal.reverse⟩ ∧
            s.assembly.TextsClimb Cards.compiler.vocabulary
              (Cards.compiler.scopeOf (Cards.chain.map .ok)) (Use.texts t.uses) fun _ _ _ => False := by
  obtain ⟨root, s, hRun, hOutcomes⟩ := Cards.exists_chained
  have hParse : Expression.parse "\x7bRef \x7bRef a\x7d\x7d" = .ok Cards.nested := by
    with_unfolding_all rfl
  refine ⟨hParse, by decide +kernel, Cards.isPlain_nested, root, s, hRun, hOutcomes, ?_⟩
  exact (Compiler.references_climb Cards.compiler none (Cards.chain.map .ok)).2 root s hRun

end ObjectMarkup
