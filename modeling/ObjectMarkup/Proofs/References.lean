import ObjectMarkup.Proofs.Settlement
import ObjectMarkup.Proofs.Stability

/-!
# References converge

Where all expressions are references and no type has a converter, what a document means can be told
from its end: a literal is a text, an element stands for its product, and a reference is what its
identifier was declared as. A property that is given one of these is written once, with what the
final graph converts it to (`Compiler.references_converge`), whether the reference came before the
declaration or after it. For what was written was right when it was written (`Converged`), and
neither the meaning of a text nor a conversion that succeeds ever changes.
-/

set_option autoImplicit false

namespace ObjectMarkup

open Operation

variable {H : Host}

/-! ### The invariant -/

/-- What a source gives: a text gives its meaning, and an element what it stood for when it was
closed. -/
def Assembly.Gives (a : Assembly H) : Source → Value → Prop
  | .text content, v => a.names.meaning? content = some v
  | .element child, v => ∃ id, .closed child id v ∈ a.journal

/-- What a source gives it gives from then on. -/
theorem Assembly.Gives.grows {a a' : Assembly H} {source : Source} {v : Value}
    (h : a.Gives source v) (hGrows : a.Grows a') : a'.Gives source v := by
  cases source with
  | text content => exact hGrows.names.meaning? h
  | element child =>
    obtain ⟨id, hMem⟩ := h
    exact ⟨id, hGrows.journal.subset hMem⟩

variable [Hooks H]

/-- A write is of what a use gives, as the graph converts it now. -/
def Assembly.Justifies (vocabulary : Vocabulary H) (uses : List Use) (a : Assembly H) (w : Write) :
    Prop :=
  ∃ u ∈ uses, u.object = w.object ∧ u.property = w.property ∧
    ∃ type property v, a.graph.type? u.object = some type ∧
      type.property? u.property = some property ∧ a.Gives u.source v ∧
        ∀ target set, property.store = .scalar target set →
          convert vocabulary target v a.graph = .ok w.value a.graph

/-- All that was written is justified, nothing was evaluated to nothing, and nothing can be converted
by the type of an object. -/
structure Converged (vocabulary : Vocabulary H) (uses : List Use) (a : Assembly H) : Prop where
  unconverted : a.graph.Unconverted
  justified : ∀ w extent, .wrote w extent ∈ a.journal → a.Justifies vocabulary uses w
  valued : ∀ n target, .evaluated n target .nothing ∉ a.journal

variable {vocabulary : Vocabulary H} {uses : List Use} {a a' : Assembly H}

/-- What justifies a write goes on to do so. -/
theorem Assembly.Justifies.grows (hTypes : ∀ type ∈ vocabulary.types, type.converter = none)
    (hGraph : a.graph.Unconverted) {w : Write} (h : a.Justifies vocabulary uses w)
    (hGrows : a.Grows a') : a'.Justifies vocabulary uses w := by
  obtain ⟨u, hMem, hObject, hName, type, property, v, hType, hProperty, hGives, hConvert⟩ := h
  refine ⟨u, hMem, hObject, hName, type, property, v, hGrows.graph _ _ hType, hProperty,
    hGives.grows hGrows, fun target set hStore => ?_⟩
  exact (convert_stable hTypes hGraph (hConvert target set hStore)).2 a'.graph hGrows.graph

namespace Converged

/-- At the start there are no objects, and nothing was written or evaluated. -/
theorem start (scope : NameScope) : Converged vocabulary [] (Assembly.start scope) where
  unconverted id type hType := by
    rw [ObjectGraph.type?, (ObjectGraph.slot?_eq_none_iff _ id).2 (Nat.zero_le _)] at hType
    cases hType
  justified w extent hMem := absurd hMem List.not_mem_nil
  valued n target := List.not_mem_nil

/-- More uses justify no less. -/
theorem append (h : Converged vocabulary uses a) (later : List Use) :
    Converged vocabulary (uses ++ later) a where
  unconverted := h.unconverted
  justified w extent hMem := by
    obtain ⟨u, hUse, hRest⟩ := h.justified w extent hMem
    exact ⟨u, List.mem_append_left later hUse, hRest⟩
  valued := h.valued

/-- What an assembly grows by has to be justified, and what it has already is. -/
theorem grown (hTypes : ∀ type ∈ vocabulary.types, type.converter = none)
    (h : Converged vocabulary uses a) (hGrows : a.Grows a') (hGraph : a'.graph.Unconverted)
    (new : List Entry) (hJournal : a'.journal = new ++ a.journal)
    (hWrites : ∀ w extent, .wrote w extent ∈ new → a'.Justifies vocabulary uses w)
    (hValued : ∀ n target, .evaluated n target .nothing ∉ new) : Converged vocabulary uses a' where
  unconverted := hGraph
  justified w extent hMem := by
    rw [hJournal] at hMem
    rcases List.mem_append.1 hMem with hMem | hMem
    · exact hWrites w extent hMem
    · exact (h.justified w extent hMem).grows hTypes h.unconverted hGrows
  valued n target hMem := by
    rw [hJournal] at hMem
    rcases List.mem_append.1 hMem with hMem | hMem
    · exact hValued n target hMem
    · exact h.valued n target hMem

/-- A source that gives a value justifies that the value is assigned. -/
theorem assigned (hTypes : ∀ type ∈ vocabulary.types, type.converter = none)
    (h : Converged vocabulary uses a) {u : Use} (hUse : u ∈ uses) {origin : Origin} {v : Value}
    {w : Write} (hGives : a.Gives u.source v)
    (hAssigns : a.Assigns vocabulary origin u.object u.property v w a') :
    Converged vocabulary uses a' := by
  have hGrows := hAssigns.grows
  obtain ⟨⟨extent, hJournal⟩, -⟩ := hAssigns.rest
  obtain ⟨g, o, ⟨type, property, hType, hProperty, hStores⟩, -, rfl⟩ := hAssigns.stored
  obtain rfl := hStores.graph_eq hTypes h.unconverted
  rw [hAssigns.object_eq] at hType
  rw [hAssigns.property_eq] at hProperty
  have hJustified : a.Justifies vocabulary uses w := by
    refine ⟨u, hUse, hAssigns.object_eq.symm, hAssigns.property_eq.symm, type, property, v, hType,
      hProperty, hGives, fun target set hStore => ?_⟩
    rw [hStore] at hStores
    exact hStores.2
  refine h.grown hTypes hGrows (h.unconverted.replace w.object o) [.wrote w extent] hJournal
    (fun w' extent' hMem => ?_) (fun n target hMem => ?_)
  · cases List.mem_singleton.1 hMem
    exact hJustified.grows hTypes h.unconverted hGrows
  · cases List.mem_singleton.1 hMem

/-- An entry that is no write, nor an evaluation to nothing, needs nothing to justify it. -/
theorem recorded (hTypes : ∀ type ∈ vocabulary.types, type.converter = none)
    (h : Converged vocabulary uses a) {entry : Entry} (hWrite : entry.write? = none)
    (hSkip : entry.isSkip = false) : Converged vocabulary uses (a.record entry) := by
  refine h.grown hTypes (.record a entry) h.unconverted [entry] rfl (fun w extent hMem => ?_)
    (fun n target hMem => ?_)
  · rw [← List.mem_singleton.1 hMem] at hWrite
    cases hWrite
  · rw [← List.mem_singleton.1 hMem] at hSkip
    cases hSkip

variable {scope : NameScope} (hTypes : ∀ type ∈ vocabulary.types, type.converter = none)
  (hReference : scope.KnowsReference vocabulary)
  (hRefers : ∀ content ∈ Use.contents uses, ValueText.Refers content)

include hTypes hReference hRefers

/-- A text that is evaluated again comes to its meaning, or waits. -/
theorem reran (h : Converged vocabulary uses a) (hScope : a.scope = scope) {complete : Bool}
    {b : Binding} (hUse : ⟨b.target, b.property, .text b.expression⟩ ∈ uses)
    (hReran : Assemble.Reran vocabulary complete b a a') : Converged vocabulary uses a' := by
  have hKnows : a.surroundings.scope.TakesReference vocabulary := by
    rw [show a.surroundings.scope = scope from hScope]
    exact hReference.takes
  have hText := hRefers b.expression (Use.mem_contents hUse rfl)
  cases hReran with
  | value v w a' evaluated assigned =>
    rcases meaning_of_evaluate hKnows hText evaluated with ⟨v', hValue, hMeans⟩ | ⟨id, hWaits, -⟩
    · cases hValue
      exact (h.recorded hTypes rfl rfl).assigned hTypes hUse hMeans assigned
    · cases hWaits
  | nothing evaluated =>
    rcases meaning_of_evaluate hKnows hText evaluated with ⟨v, hValue, -⟩ | ⟨id, hWaits, -⟩
    · cases hValue
    · cases hWaits
  | deferred required evaluated =>
    have hRecorded : Converged vocabulary uses (a.record (.evaluated b.occurrence
        ⟨b.target, b.property, b.dataContext, true⟩ (.deferred required))) :=
      h.recorded hTypes rfl rfl
    exact ⟨hRecorded.unconverted, hRecorded.justified, hRecorded.valued⟩

/-- A drain in which references come to their meanings keeps an assembly converged. -/
theorem drained (h : Converged vocabulary uses a) (hScope : a.scope = scope)
    (hAccounted : Accounted uses [] a) {complete : Bool} {n : Nat}
    (hDrain : Assemble.drain vocabulary complete a = .ok n a') : Converged vocabulary uses a' := by
  have hDrained : Accounted uses [] a' ∧ a'.scope = scope ∧ Converged vocabulary uses a' := by
    refine Assemble.drain_induction
      (P := fun held a => Accounted uses held a ∧ a.scope = scope ∧ Converged vocabulary uses a) ?_
      ⟨hAccounted.taken _, hScope, h.unconverted, h.justified, h.valued⟩ hDrain
    rintro b rest a₁ a₂ ⟨hHeld, hSame, hDone⟩ hReran
    have hBound := hHeld.bound b (List.mem_cons_self ..)
    obtain ⟨u, hUse, hTextUse⟩ := List.mem_filterMap.1 (List.mem_of_getElem? hBound)
    obtain ⟨object, name, content | child⟩ := u
    · cases hTextUse
      exact ⟨hHeld.reran hReran, hReran.grows.scope.trans hSame,
        hDone.reran hTypes hReference hRefers hSame hUse hReran⟩
    · cases hTextUse
  exact hDrained.2.2

/-- Every deed is justified by what it uses. -/
theorem does {d : Deed H} (h : Converged vocabulary uses a) (hScope : a.scope = scope)
    (hAccounted : Accounted uses [] a)
    (hNew : ∀ content ∈ Use.contents (Deed.uses [d]), ValueText.Refers content)
    (hDoes : Does vocabulary a d a') : Converged vocabulary (uses ++ Deed.uses [d]) a' := by
  have hGrows := hDoes.grows
  cases hDoes with
  | make type fresh known constructible =>
    have hType : type.converter = none := by
      rcases known with hBox | hMem
      · exact ElementType.converter_of_mem_boxes hBox
      · exact hTypes type hMem
    exact (h.append _).grown hTypes hGrows (h.unconverted.insert hType fresh) [.opened a.graph.nextId]
      rfl (fun w extent hMem => by cases List.mem_singleton.1 hMem)
      fun n target hMem => by cases List.mem_singleton.1 hMem
  | text object name text dataContext a' evaluated =>
    have hAll : ∀ content ∈ Use.contents (uses ++ [⟨object, name, .text text⟩]),
        ValueText.Refers content := by
      intro content hMem
      rw [Use.contents_append] at hMem
      exact (List.mem_append.1 hMem).elim (hRefers content) (hNew content)
    have hSame : Converged vocabulary (uses ++ [⟨object, name, .text text⟩])
        { a with occurrences := a.occurrences + 1 } :=
      ⟨h.unconverted, (h.append _).justified, h.valued⟩
    exact hSame.reran hTypes hReference hAll hScope
      (List.mem_append_right uses (List.mem_singleton_self _)) evaluated
  | close type object id value stands => exact (h.append _).recorded hTypes rfl rfl
  | place child object name value w a' ended assigned =>
    exact (h.append _).assigned hTypes (List.mem_append_right uses (List.mem_singleton_self _))
      ended assigned
  | declare id value complete names n a' registered hDrain =>
    have hNamed : Converged vocabulary uses { a with names } := by
      have hOlder : a.Grows { a with names } :=
        ⟨rfl, .refl _, NameTable.grows_of_register registered, List.suffix_refl _⟩
      exact h.grown hTypes hOlder h.unconverted [] rfl
        (fun w extent hMem => absurd hMem List.not_mem_nil) fun n target => List.not_mem_nil
    rw [Deed.uses_declare, Deed.uses_nil, List.append_nil]
    exact hNamed.drained hTypes hReference hRefers hScope (hAccounted.named names) hDrain

omit hRefers in
/-- After any deeds, what was written is justified by what they used. -/
theorem doesAll {ds : List (Deed H)} (h : DoesAll vocabulary (.start scope) ds a)
    (hAll : ∀ content ∈ Use.contents (Deed.uses ds), ValueText.Refers content) :
    Converged vocabulary (Deed.uses ds) a := by
  have hDone : Accounted (Deed.uses ds) [] a ∧ Converged vocabulary (Deed.uses ds) a := by
    refine DoesAll.invariant_of_texts
      (P := fun uses a => Accounted uses [] a ∧ Converged vocabulary uses a) ?_
      ⟨.start scope, start scope⟩ h hAll
    rintro uses a d a' hTexts hScope ⟨hAccounted, hBefore⟩ hDoes
    rw [Use.contents_append] at hTexts
    have hOld := fun content hMem => hTexts content (List.mem_append_left _ hMem)
    have hNew := fun content hMem => hTexts content (List.mem_append_right _ hMem)
    exact ⟨hAccounted.does hDoes,
      hBefore.does hTypes hReference hOld hScope hAccounted hNew hDoes⟩
  exact hDone.2

end Converged

/-- What a document wrote is justified, if its texts are literals and references. -/
theorem Constructed.converged {c : Compiler H} {items : List (Except Markup.Fault Markup.Event)}
    {t : ObjectTree H} {ds : List (Deed H)} (h : Constructed c items t ds a a')
    (hTypes : ∀ type ∈ c.vocabulary.types, type.converter = none)
    (hReference : (c.rootScope t.head.attributes).KnowsReference c.vocabulary)
    (hRefers : ∀ content ∈ Use.contents t.uses, ValueText.Refers content) :
    Converged c.vocabulary t.uses a' := by
  obtain ⟨n, hDrain⟩ := h.drained
  have hAccounted := Accounted.doesAll h.done
  rw [← h.uses] at hRefers ⊢
  have hConverged := Converged.doesAll hTypes hReference h.done hRefers
  exact hConverged.drained hTypes hReference hRefers h.done.grows.scope hAccounted hDrain

/-! ### Documents -/

/-- Whether a use is of a property of an object. -/
def Use.isFor (object : ObjectId) (property : String) (u : Use) : Bool :=
  u.object == object && u.property == property

/-- Whether a write is to a property of an object. -/
def Write.isTo (object : ObjectId) (property : String) (w : Write) : Bool :=
  w.object == object && w.property == property

namespace Document

/-- What a source means in a document: a text its meaning under the names, and an element what it
stands for. -/
def meaning? (d : Document H) : Source → Option Value
  | .text content => d.names.meaning? content
  | .element child => d.product? child

/-- The writes to a property of an object, in order. -/
def writesTo (d : Document H) (object : ObjectId) (property : String) : List Write :=
  (Entry.writes d.journal).filter (Write.isTo object property)

end Document

/-- For each use of a property, one thing is due there. -/
theorem countP_duesFrom_isFor (object : ObjectId) (property : String) (n : Nat) (uses : List Use) :
    (duesFrom n uses).countP (fun d => d.object == object && d.property == property) =
      (uses.filter (Use.isFor object property)).length := by
  induction uses generalizing n with
  | nil => rfl
  | cons u rest ih =>
    obtain ⟨o, name, content | child⟩ := u
    · rw [duesFrom, List.countP_cons, ih, List.filter_cons]
      unfold Use.isFor
      split <;> rfl
    · rw [duesFrom, List.countP_cons, ih, List.filter_cons]
      unfold Use.isFor
      split <;> rfl

omit [Hooks H] in
/-- When nothing waits and nothing came to nothing, a property that is used once is written once. -/
theorem Accounted.written_once (h : Accounted uses [] a) (hWaiting : a.waiting = [])
    (hValued : ∀ n target, .evaluated n target .nothing ∉ a.journal) {object : ObjectId}
    {property : String} {u : Use} (hOnly : uses.filter (Use.isFor object property) = [u]) :
    ∃ w, (Entry.writes a.journal).filter (Write.isTo object property) = [w] := by
  have hOnce : (duesFrom 0 uses).countP (fun d => d.object == object && d.property == property) = 1 := by
    rw [countP_duesFrom_isFor, hOnly]
    rfl
  obtain ⟨d, hDue, hFor⟩ := List.countP_pos_iff.1 (by rw [hOnce]; exact Nat.one_pos)
  rcases h.settled hWaiting hDue with ⟨w, hWrite, rfl⟩ | ⟨n, target, hSkip, -⟩
  · have hLength := h.length_filter_writes_le fun d => d.object == object && d.property == property
    rw [hOnce] at hLength
    exact ⟨w, eq_singleton_of_mem (List.mem_filter.2 ⟨hWrite, hFor⟩) hLength⟩
  · exact absurd hSkip (hValued n target)

/-- What was written to a scalar property that is used once is what its use gives, as the graph
converts it. -/
theorem Converged.gives (h : Converged vocabulary uses a) {w : Write}
    (hWrite : w ∈ Entry.writes a.journal) {object : ObjectId} {name : String}
    (hTo : w.isTo object name = true) {u : Use} (hOnly : uses.filter (Use.isFor object name) = [u])
    {type : ElementType H} {property : Property H} {target : ValueType}
    {set : Instance H → Value → Option (Instance H)} (hType : a.graph.type? object = some type)
    (hProperty : type.property? name = some property) (hStore : property.store = .scalar target set) :
    ∃ v, a.Gives u.source v ∧ convert vocabulary target v a.graph = .ok w.value a.graph := by
  obtain ⟨extent, hEntry⟩ := Entry.mem_writes_iff.1 hWrite
  obtain ⟨u', hUse, hObject, hName, type', property', v, hType', hProperty', hGives, hConvert⟩ :=
    h.justified w extent hEntry
  rw [Write.isTo, ← hObject, ← hName] at hTo
  have hSame : u' = u := by
    have hFor : u' ∈ uses.filter (Use.isFor object name) := List.mem_filter.2 ⟨hUse, hTo⟩
    rw [hOnly] at hFor
    exact List.mem_singleton.1 hFor
  subst hSame
  obtain ⟨hSameObject, hSameName⟩ := Bool.and_eq_true_iff.1 hTo
  rw [beq_iff_eq.1 hSameObject, hType] at hType'
  cases hType'
  rw [beq_iff_eq.1 hSameName, hProperty] at hProperty'
  cases hProperty'
  exact ⟨v, hGives, hConvert target set hStore⟩

/-- References converge to what a reader of the whole document takes them for. If no type has a
converter, `Ref` means the reference of the library, and all expressions are references to an
identifier, then in a document that compiles, a scalar property that is given one text or one element
is written once: with what the final graph converts the text, the value declared under the identifier
or the product of the element to. The graph holds what the writes made of the objects. -/
theorem Compiler.references_converge (c : Compiler H) (dataContext : Option Value)
    (events : List Markup.Event) (d : Document H)
    (hTypes : ∀ type ∈ c.vocabulary.types, type.converter = none)
    (hReference : (c.rootScope (Markup.rootAttributes events)).KnowsReference c.vocabulary)
    (hRefers : ∀ content ∈ Markup.values events, ValueText.Refers content)
    (hCompile : c.compileEvents (events.map .ok) dataContext = .ok d) :
    ∃ t : ObjectTree H, Document.Tells (events.map .ok) t d ∧ d.Replays t ∧
      (∀ x ∈ t.objects, ∃ v, d.product? x.2 = some v ∧ (x.1.isFactory = false → v = .object x.2)) ∧
      ∀ object name u, t.uses.filter (Use.isFor object name) = [u] →
        ∀ type property target set, d.graph.type? object = some type →
          type.property? name = some property → property.store = .scalar target set →
            ∃ w v, d.writesTo object name = [w] ∧ d.meaning? u.source = some v ∧
              convert c.vocabulary target v d.graph = .ok w.value d.graph := by
  obtain ⟨root, s, hConstruct, rfl⟩ := Compiler.of_compileEvents hCompile
  obtain ⟨t, ds, a, hBuilt⟩ := constructed_of_construct hConstruct
  have hEvents : events = t.events := by
    rw [← Markup.filterMap_map_ok events, hBuilt.events, Markup.filterMap_map_ok]
  subst hEvents
  rw [t.rootAttributes_events] at hReference
  have hConverged := hBuilt.converged hTypes hReference fun content hMem =>
    hRefers content (t.values_events.mem_iff.2 hMem)
  have hTells := hBuilt.tells root
  refine ⟨t, hTells, Compiler.replays_of_construct hConstruct hTells,
    fun x hMem => hBuilt.exists_product root hMem, ?_⟩
  intro object name u hOnly type property target set hType hProperty hStore
  obtain ⟨w, hOnce⟩ := hBuilt.accounted.written_once hBuilt.waiting hConverged.valued hOnly
  have hMem : w ∈ (Entry.writes s.assembly.journal).filter (Write.isTo object name) := by
    rw [hOnce]
    exact List.mem_singleton_self w
  obtain ⟨hWrite, hTo⟩ := List.mem_filter.1 hMem
  obtain ⟨v, hGives, hConvert⟩ := hConverged.gives hWrite hTo hOnly hType hProperty hStore
  refine ⟨w, v, ?_, ?_, hConvert⟩
  · rw [Document.writesTo, Entry.writes, List.filterMap_reverse, List.filter_reverse]
    exact congrArg List.reverse hOnce
  · cases hSource : u.source with
    | text content =>
      rw [hSource] at hGives
      exact hGives
    | element child =>
      rw [hSource] at hGives
      obtain ⟨id, hClosed⟩ := hGives
      exact hBuilt.product?_of_mem root hClosed

/-- No type of the cards has a converter. -/
theorem Cards.unconverted : ∀ type ∈ Cards.compiler.vocabulary.types, type.converter = none := by
  intro type hMem
  rcases List.mem_append.1 hMem with hMem | hMem
  · exact Vocabulary.converter_of_mem_builtIn hMem
  · rw [List.mem_singleton.1 hMem]
    rfl

/-- Among the cards `Ref` is the reference of the library. -/
theorem Cards.knowsReference :
    (Cards.compiler.rootScope (Markup.rootAttributes Cards.events)).KnowsReference
      Cards.compiler.vocabulary :=
  ⟨.builtInExtension "Ref" .reference, "Ref", rfl, rfl⟩

/-- The first card names the second one before that is declared. -/
theorem cards_converge :
    (∀ content ∈ Markup.values Cards.events, ValueText.Refers content) ∧
      ∃ d, Cards.compiler.compileEvents (Cards.events.map .ok) none = .ok d ∧
        ∃ t : ObjectTree Record.host, Document.Tells (Cards.events.map .ok) t d ∧ d.Replays t ∧
          (∀ x ∈ t.objects,
            ∃ v, d.product? x.2 = some v ∧ (x.1.isFactory = false → v = .object x.2)) ∧
          ∀ object name u, t.uses.filter (Use.isFor object name) = [u] →
            ∀ type property target set, d.graph.type? object = some type →
              type.property? name = some property → property.store = .scalar target set →
                ∃ w v, d.writesTo object name = [w] ∧ d.meaning? u.source = some v ∧
                  convert Cards.compiler.vocabulary target v d.graph = .ok w.value d.graph := by
  have hRefers : ∀ content ∈ Markup.values Cards.events, ValueText.Refers content := by
    decide +kernel
  obtain ⟨d, hCompiled⟩ := Cards.exists_document
  exact ⟨hRefers, d, hCompiled, Compiler.references_converge Cards.compiler none Cards.events d
    Cards.unconverted Cards.knowsReference hRefers hCompiled⟩

end ObjectMarkup
