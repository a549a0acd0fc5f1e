import ObjectMarkup.Proofs.Classes
import ObjectMarkup.Proofs.Compiled
import ObjectMarkup.Proofs.Texts
import ObjectMarkup.Record.Behavior

/-!
# Every text is settled once

A document gives texts for properties, by attributes and by runs of text. Between any two events,
each text so far was assigned, came to nothing or waits, or it was not applied yet because the tag
around it is not over. When the document compiles, nothing waits any more: each text was written
once, to the property that its place in the tree tells, or its last evaluation came to nothing. What
the graph holds then are the instances that the types made, with these writes put into them and no
others (`Document.Replays`).
-/

set_option autoImplicit false

namespace ObjectMarkup

open ObjectNode Operation

variable {H : Host}

/-! ### Counting texts -/

/-- Of the attributes of a tag the plain ones are values. -/
theorem countP_attributeEvents (attributes : List (String × String)) :
    (attributes.map Markup.attributeEvent).countP Markup.Event.isValue =
      (attributes.filter fun a => Name.isPlain a.1).length := by
  rw [Markup.countP_isValue, Markup.values_attributeEvents, List.length_map]

/-- A head has as many value events as its uses have texts. -/
theorem ElementHead.countP_events (e : ElementHead H) :
    e.events.countP Markup.Event.isValue = (Use.texts e.uses).length := by
  rw [Markup.countP_isValue, e.values_events, Use.contents, List.length_map]

/-- Content tells the texts that it gives, and those that stand directly in it. -/
theorem ObjectNode.countP_eventsOf (object : ObjectId) (receiver : String)
    (nodes : List (ObjectNode H)) :
    (eventsOf nodes).countP Markup.Event.isValue =
      (Use.texts (usesOf object receiver nodes)).length + (textsOf nodes).length := by
  rw [Markup.countP_isValue, (values_eventsOf object receiver nodes).length_eq, List.length_append,
    Use.contents, List.length_map]

/-- A tree has as many value events as its uses have texts. -/
theorem ObjectTree.countP_events (t : ObjectTree H) :
    t.events.countP Markup.Event.isValue = (Use.texts t.uses).length := by
  rw [Markup.countP_isValue, t.values_events.length_eq, Use.contents, List.length_map]

/-- An open node has one value event for each text of its uses, and one for the text that is still
open. -/
theorem OpenNode.Shows.countP_events {n : OpenNode H} {e : OpenElement H} (h : n.Shows e) :
    n.events.countP Markup.Event.isValue = (Use.texts n.uses).length + e.text.toList.length := by
  have hContent := countP_eventsOf n.head.object n.head.type.contentProperty n.content
  have hBare := h.bare
  rw [h.text]
  unfold OpenNode.events OpenNode.uses OpenNode.texts
  cases hInner : n.inner with
  | none =>
    simp only [List.append_nil, List.countP_append, Use.texts_append, List.length_append,
      n.head.countP_events, hContent]
    omega
  | some p =>
    have hProperty := countP_eventsOf n.head.object p.name p.content
    have hEmpty : textsOf n.content = [] := hBare (by rw [hInner]; rfl)
    have hStart : ¬ (Markup.Event.start p.tag).isValue = true := by simp [Markup.Event.isValue]
    simp only [List.countP_append, Use.texts_append, List.length_append, n.head.countP_events,
      hContent, hEmpty, List.countP_cons_of_neg hStart, hProperty, List.length_nil]
    omega

/-- The same along a whole path. -/
theorem ShowsPath.countP_events {path : List (OpenNode H)} {stack : List (OpenElement H)}
    (h : ShowsPath path stack) :
    (path.reverse.flatMap OpenNode.events).countP Markup.Event.isValue =
      (Use.texts (path.reverse.flatMap OpenNode.uses)).length +
        (stack.filterMap OpenElement.text).length := by
  have hKept (e : OpenElement H) (stack : List (OpenElement H)) :
      ((e :: stack).filterMap OpenElement.text).length =
        e.text.toList.length + (stack.filterMap OpenElement.text).length := by
    rw [List.filterMap_cons]
    cases e.text with
    | none => simp
    | some text => simp [Nat.add_comm]
  induction h with
  | nil => rfl
  | root n e shows =>
    rw [hKept]
    simpa using shows.countP_events
  | nested n m path e f stack shows whole rest ih =>
    rw [hKept, List.reverse_cons, List.flatMap_append, List.flatMap_append, List.countP_append,
      Use.texts_append, List.length_append, ih]
    simp only [List.flatMap_singleton, shows.countP_events]
    omega

/-- How many texts were told but not applied: those of the tags that are not over. -/
def Construction.unapplied (s : Construction H) : Nat :=
  (s.stack.filterMap OpenElement.text).length +
    match s.tag with
    | none => 0
    | some t => (t.attributes.filter fun a => Name.isPlain a.1).length

variable [Hooks H]

/-- Every text that was told was applied, or is about to be. -/
theorem Traced.countP_events {vocabulary : Vocabulary H} {defaults : List String}
    {events : List Markup.Event} {o : Outline H} {ds : List (Deed H)} {s : Construction H}
    (h : Traced vocabulary defaults events o ds s) :
    events.countP Markup.Event.isValue = (Use.texts (Deed.uses ds)).length + s.unapplied := by
  have hTag : (o.tag.toList.flatMap StartTag.events).countP Markup.Event.isValue =
      match s.tag with
      | none => 0
      | some t => (t.attributes.filter fun a => Name.isPlain a.1).length := by
    rw [h.tag]
    cases o.tag with
    | none => rfl
    | some t =>
      simp only [Option.toList_some, List.flatMap_singleton, StartTag.events]
      rw [List.countP_cons_of_neg (by simp [Markup.Event.isValue]), countP_attributeEvents]
  rw [← h.told, h.uses, Outline.events, Outline.uses, Construction.unapplied, List.countP_append,
    List.countP_append, Use.texts_append, List.length_append, h.path.countP_events, hTag]
  cases o.root with
  | none =>
    simp only [Option.toList_none, List.flatMap_nil, Use.texts_nil, List.countP_nil, List.length_nil]
    omega
  | some t =>
    simp only [Option.toList_some, List.flatMap_singleton, t.countP_events]
    omega

namespace Document

/-- The writes of the text with a number. -/
def writesOf (d : Document H) (n : Nat) : List Write := Entry.writesOf n d.journal

/-- What the text with a number was evaluated to last. -/
def latestOutcome (d : Document H) (n : Nat) : Option Outcome :=
  ObjectMarkup.latestOutcome n d.journal.reverse

/-- The text with a number was settled: its last evaluation gave a value, which was written once, to
its property; or its last evaluation gave nothing, and nothing was written. -/
def Settles (d : Document H) (n : Nat) (u : TextUse) : Prop :=
  (∃ w v, d.writesOf n = [w] ∧ w.object = u.object ∧ w.property = u.property ∧
      d.latestOutcome n = some (.value v)) ∨
    (d.writesOf n = [] ∧ d.latestOutcome n = some .nothing)

/-- In the place of each element the graph holds what its type made, with the writes put into it that
the journal tells. -/
def Replays (d : Document H) (t : ObjectTree H) : Prop :=
  ∀ x ∈ t.objects, ∃ o, d.graph.object? x.2 = some o ∧ x.1.replay x.2 d.journal.reverse = some o

end Document

/-- The journal of a document that is constructed tells how its instances came about. -/
theorem Compiler.replays_of_construct {c : Compiler H} {dataContext : Option Value}
    {items : List (Except Markup.Fault Markup.Event)} {root : Value} {s : Construction H}
    (h : c.construct items dataContext (.ofDefaults c.settings.defaults) = .ok root s)
    {t : ObjectTree H} (hTells : Document.Tells items t
      ⟨s.assembly.graph, root, s.assembly.names, s.assembly.journal.reverse⟩) :
    Document.Replays ⟨s.assembly.graph, root, s.assembly.names, s.assembly.journal.reverse⟩ t := by
  intro x hMem
  have hOpened : .opened x.2 ∈ s.assembly.journal := by
    have hObject : x.2 ∈ t.objects.map Prod.snd := List.mem_map_of_mem hMem
    rw [hTells.objects] at hObject
    obtain ⟨entry, hEntry, hOpens⟩ := List.mem_filterMap.1 hObject
    cases entry <;> cases hOpens
    exact List.mem_reverse.1 hEntry
  obtain ⟨o, hObject, hReplayed⟩ :=
    (Classing.of_construct h).classed.exists_object hOpened (hTells.types x hMem)
  refine ⟨o, hObject, ?_⟩
  rw [List.reverse_reverse]
  exact hReplayed.made

/-- No text is lost and none is settled twice. Between events, each text that was told was applied or
is about to be, and each that was applied was assigned, came to nothing or waits. When the document
compiles, it is a tree, nothing waits, each text of the tree is settled where it stands, and the graph
holds what the writes made of the objects of the tree. -/
theorem Compiler.settles_every_text (c : Compiler H) (dataContext : Option Value) :
    (∀ events s,
      Construct.feedEvents (c.setting dataContext) events (.ofDefaults c.settings.defaults) =
          .ok () s →
        events.countP Markup.Event.isValue = s.assembly.occurrences + s.unapplied ∧
        s.assembly.occurrences = s.assembly.journal.countP Entry.isAssignment +
          s.assembly.journal.countP Entry.isSkip + s.assembly.waiting.length) ∧
    ∀ items d, c.compileEvents items dataContext = .ok d →
      (∃ root s, c.construct items dataContext (.ofDefaults c.settings.defaults) = .ok root s ∧
        s.assembly.waiting = []) ∧
      ∃ t : ObjectTree H, Document.Tells items t d ∧ d.Replays t ∧
        (∀ n u, (Use.texts t.uses)[n]? = some u → d.Settles n u) ∧
        ∀ n, (Use.texts t.uses)[n]? = none → d.writesOf n = [] := by
  constructor
  · intro events s hFeed
    obtain ⟨o, ds, hTraced⟩ := traced_of_feedEvents hFeed
    have hAccounted := Accounted.doesAll hTraced.done
    refine ⟨?_, hAccounted.balance⟩
    rw [hAccounted.numbered]
    exact hTraced.countP_events
  · intro items d hCompile
    obtain ⟨root, s, hConstruct, rfl⟩ := Compiler.of_compileEvents hCompile
    obtain ⟨t, ds, a, hBuilt⟩ := constructed_of_construct hConstruct
    have hAccounted := hBuilt.accounted
    have hWrites (n : Nat) :
        Entry.writesOf n s.assembly.journal.reverse = (Entry.writesOf n s.assembly.journal).reverse := by
      rw [Entry.writesOf, Entry.writes, List.filterMap_reverse, List.filter_reverse]
      rfl
    have hTells := hBuilt.tells root
    have hReplays := Compiler.replays_of_construct hConstruct hTells
    refine ⟨⟨root, s, hConstruct, hBuilt.waiting⟩, t, hTells, hReplays, ?_, ?_⟩
    · intro n u hText
      unfold Document.Settles Document.writesOf Document.latestOutcome
      rw [hWrites, List.reverse_reverse]
      rcases hAccounted.settled_text hBuilt.waiting hText with ⟨w, v, hOnce, hRest⟩ | ⟨hNone, hNothing⟩
      · rw [hOnce]
        exact .inl ⟨w, v, rfl, hRest⟩
      · rw [hNone]
        exact .inr ⟨rfl, hNothing⟩
    · intro n hNone
      rw [Document.writesOf, hWrites, hAccounted.writesOf_eq_nil hNone]
      rfl

/-! ### Two cards -/

namespace Cards

/-- A card has a title, and may name the next one. -/
def type : ElementType Record.host :=
  .assemble Record.view ⟨"urn:cards", "Card"⟩
    [ .constructor (.ofInitial []),
      .scalar "Title" .string (Record.Fields.put "Title"),
      .scalar "Next" (.object ⟨"urn:cards", "Card"⟩) (Record.Fields.put "Next"),
      .collection "Content" .any (Record.Fields.put "Content") ]

/-- A compiler for cards. -/
def compiler : Compiler Record.host := ⟨Vocabulary.builtIn.register type, ⟨["urn:cards"], true, none⟩⟩

/-- A card that names the card inside of it as the next one. -/
def events : List Markup.Event :=
  [ .start "Card", .attribute "xmlns:x" "urn:kiln:metadata", .attribute "Title" "first",
    .attribute "Next" "{Ref b}",
    .start "Card", .attribute "x:Id" "b", .attribute "Title" "second", .finish,
    .finish ]

/-- The cards compile. -/
theorem exists_document : ∃ d, compiler.compileEvents (events.map .ok) none = .ok d :=
  except_exists_of_isOk (by decide +kernel)

end Cards

/-- Of three texts, the second waits for the card inside, and the third is not applied yet. -/
theorem cards_settled :
    (∃ s, Construct.feedEvents (Cards.compiler.setting none) (Cards.events.take 7)
          (.ofDefaults ["urn:cards"]) = .ok () s ∧
        (Cards.events.take 7).countP Markup.Event.isValue = s.assembly.occurrences + s.unapplied ∧
        s.assembly.occurrences = s.assembly.journal.countP Entry.isAssignment +
          s.assembly.journal.countP Entry.isSkip + s.assembly.waiting.length) ∧
      ∃ d, Cards.compiler.compileEvents (Cards.events.map .ok) none = .ok d ∧
        ∃ t : ObjectTree Record.host, Document.Tells (Cards.events.map .ok) t d ∧ d.Replays t ∧
          (∀ n u, (Use.texts t.uses)[n]? = some u → d.Settles n u) ∧
          ∀ n, (Use.texts t.uses)[n]? = none → d.writesOf n = [] := by
  have hFed : (outcome (Construct.feedEvents (Cards.compiler.setting none) (Cards.events.take 7))
      (.ofDefaults ["urn:cards"])).isOk = true := by decide +kernel
  obtain ⟨⟨_, s⟩, hFed⟩ := except_exists_of_isOk hFed
  obtain ⟨d, hCompiled⟩ := Cards.exists_document
  have hCards := Compiler.settles_every_text Cards.compiler none
  exact ⟨⟨s, outcome_eq_ok.1 hFed, hCards.1 _ s (outcome_eq_ok.1 hFed)⟩,
    d, hCompiled, (hCards.2 _ d hCompiled).2⟩

end ObjectMarkup
