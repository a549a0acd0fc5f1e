import ObjectMarkup.Proofs.ContentOrder
import ObjectMarkup.Proofs.MapEntries
import ObjectMarkup.Proofs.References
import ObjectMarkup.Proofs.StartTags
import ObjectMarkup.Proofs.Typing

/-!
# Insertions into maps

All that a run puts into maps comes of children that tell keys, from its first event on
(`Compiler.Reaches.keyed`) and however it ends (`Compiler.Reaches.keepsMaps`). With what is known of the
order of writes it follows that a map took the elements that the document gives for it, in their order, each
once and under its key, and that no text came to a value for it (`FillsMaps`, `Compiler.fills_maps`).
-/

set_option autoImplicit false

namespace ObjectMarkup

open Operation

variable {H : Host}

/-! ### Runs -/

section Runs

variable [Hooks H] {c : Compiler H} {dataContext : Option Value}
  {items : List (Except Markup.Fault Markup.Event)} {n : Nat} {s : Construction H}

namespace Compiler

/-- A tag that is pending tells the key of the element that it opens, once its attributes are complete. -/
theorem Reaches.foretells (h : c.Reaches dataContext items n s)
    (hComplete : ∀ item ∈ items[n]?, ∃ event : Markup.Event, item = .ok event ∧
      event.isAttribute = false) :
    s.Foretells (c.setting dataContext) (c.TellsKey dataContext items) := by
  rintro t hTag hReceives _ rfl type hOpens
  have hPending : c.Pending dataContext items n s t := ⟨h, hTag, hComplete⟩
  rw [← hPending.scope_eq hReceives]
  obtain ⟨before, hTold⟩ := hPending.told
  exact ⟨t, ⟨n, s, type, before, hPending, hTold, hOpens, rfl⟩, rfl⟩

/-- Before an event that is no attribute, a state foretells the keys of the document. -/
theorem Reaches.foretells_of_item (h : c.Reaches dataContext items n s) {event : Markup.Event}
    (hItem : items[n]? = some (.ok event)) (hOther : event.isAttribute = false) :
    s.Foretells (c.setting dataContext) (c.TellsKey dataContext items) := by
  refine h.foretells fun item hMem => ⟨event, ?_, hOther⟩
  rw [hItem] at hMem
  exact (Option.some.inj hMem).symm

/-- In the states that a run reaches, the open elements tell their keys. -/
theorem Reaches.keyed (h : c.Reaches dataContext items n s) :
    s.Keyed c.vocabulary (c.TellsKey dataContext items) := by
  induction n generalizing s with
  | zero =>
    rw [h.unique (.start c dataContext items)]
    exact KeyedAtRest.empty ..
  | succ n ih =>
    obtain ⟨s₀, event, h₀, hItem, hFeed⟩ := h.of_succ
    exact (Construct.keyed_feed (ih h₀) event (h₀.foretells_of_item hItem)).of_ok hFeed

/-- However a run goes on, maps take children under their keys. -/
theorem Reaches.keepsMaps (h : c.Reaches dataContext items n s) :
    Ends (run c.settings (c.setting dataContext) n (items.drop n)) s
      (fun _ s' => s'.assembly.KeepsMaps c.vocabulary (c.TellsKey dataContext items))
      fun failure s' =>
        s'.assembly.Breaks c.vocabulary (c.TellsKey dataContext items) failure := by
  have hKeyed := h.keyed
  -- The induction is on the items that are left; each state on the way is one that the run reaches.
  generalize hRest : items.drop n = rest
  induction rest generalizing n s with
  | nil =>
    have hNone : items[n]? = none := by
      rw [← List.head?_drop, hRest]
      rfl
    have hForetells := h.foretells fun item hMem => by
      rw [hNone] at hMem
      cases hMem
    unfold Compiler.run Compiler.feedAll
    split
    · exact hKeyed.breaks _
    · exact (Construct.keyed_finish hKeyed hForetells).mono (fun _ _ h => h.toKeepsMaps)
        fun _ _ h => h
  | cons item rest ih =>
    have hItem : items[n]? = some item := by
      rw [← List.head?_drop, hRest]
      rfl
    unfold Compiler.run Compiler.feedAll
    split
    · exact hKeyed.breaks _
    · next hQuiet =>
      cases item with
      | error fault => exact hKeyed.breaks _
      | ok event =>
        simp only [bind_assoc]
        refine ((Construct.keyed_feed hKeyed event (h.foretells_of_item hItem)).with_run).bind ?_
        rintro _ s₁ ⟨hFeed, -⟩
        have h₁ := h.step hItem (by simpa using hQuiet) hFeed
        refine ih h₁ h₁.keyed ?_
        rw [← List.tail_drop, hRest]
        rfl

end Compiler

end Runs

/-! ### Maps in journals -/

/-- A property of an object is a map from keys of one type to values of another. -/
def ObjectGraph.IsMap (g : ObjectGraph H) (object : ObjectId) (name : String)
    (keyType valueType : ValueType) : Prop :=
  ∃ property insert, g.accessor? object name = some property ∧
    property.store = .map keyType valueType insert

/-- Whether something is due for a property of an object and comes from an element. -/
def Due.isChildOf (object : ObjectId) (name : String) (d : Due) : Bool :=
  (d.object == object && d.property == name) && d.origin.isElement

/-- The elements that are due for a property are those that are used for it, in order. -/
theorem origins_duesFrom (object : ObjectId) (name : String) (n : Nat) (uses : List Use) :
    ((duesFrom n uses).filter (Due.isChildOf object name)).map Due.origin =
      (Use.children (uses.filter (Use.isFor object name))).map Origin.element := by
  induction uses generalizing n with
  | nil => rfl
  | cons u rest ih =>
    obtain ⟨o, property, content | child⟩ := u
    · rw [duesFrom, List.filter_cons_of_neg (by simp [Due.isChildOf, Origin.isElement]), ih,
        List.filter_cons]
      split <;> rfl
    · rw [duesFrom, List.filter_cons, List.filter_cons]
      unfold Use.isFor Due.isChildOf Origin.isElement
      rw [Bool.and_true]
      split
      · exact congrArg (Origin.element child :: ·) (ih n)
      · exact ih n

/-- In time, what elements are used for a property went into it, the latest first. -/
theorem Timely.origins {uses : List Use} {a : Assembly H} (h : Timely uses a) (object : ObjectId)
    (name : String) :
    ((Entry.written a.journal).filter (Due.isChildOf object name)).map Due.origin =
      ((Use.children (uses.filter (Use.isFor object name))).map Origin.element).reverse := by
  have hElements := congrArg (fun dues => (dues.filter fun d : Due =>
    d.object == object && d.property == name).map Due.origin) h.elements
  rw [List.filter_filter, List.filter_reverse, List.filter_filter, List.map_reverse] at hElements
  rw [← origins_duesFrom object name 0 uses]
  exact hElements

variable [Hooks H] {vocabulary : Vocabulary H} {tells : ObjectId → Option String → Prop}
  {a : Assembly H}

/-- What is written to a map is a child, inserted under its key. -/
theorem Assembly.KeepsMaps.inserts_of_mem (h : a.KeepsMaps vocabulary tells) {w : Write}
    (hMem : w ∈ Entry.writes a.journal) {keyType valueType : ValueType}
    (hMap : a.graph.IsMap w.object w.property keyType valueType) :
    ∃ extent past, .wrote w extent :: past <:+ a.journal ∧
      w.Inserts vocabulary tells extent past keyType valueType a.graph := by
  obtain ⟨extent, hEntry⟩ := Entry.mem_writes_iff.1 hMem
  obtain ⟨later, past, hJournal⟩ := List.append_of_mem hEntry
  have hSuffix : .wrote w extent :: past <:+ a.journal := ⟨later, hJournal.symm⟩
  obtain ⟨property, hFound, hInserts⟩ := h.inserts w extent past hSuffix
  obtain ⟨property', insert, hFound', hStore⟩ := hMap
  obtain rfl : property' = property := Option.some.inj (hFound'.symm.trans hFound)
  exact ⟨extent, past, hSuffix, hInserts keyType valueType insert hStore⟩

/-- When elements are written in time, a map took the elements that are used for it, in order. -/
theorem Assembly.KeepsMaps.origins (h : a.KeepsMaps vocabulary tells) {uses : List Use}
    (hTimely : Timely uses a) {object : ObjectId} {name : String} {keyType valueType : ValueType}
    (hMap : a.graph.IsMap object name keyType valueType) :
    ((Entry.writes a.journal).reverse.filter (Write.isTo object name)).map Write.origin =
      (Use.children (uses.filter (Use.isFor object name))).map Origin.element := by
  have hElements : (Entry.writes a.journal).filter (Write.isTo object name) =
      (Entry.writes a.journal).filter fun w => w.due.isChildOf object name := by
    refine List.filter_congr fun w hMem => ?_
    show Write.isTo object name w = (Write.isTo object name w && w.origin.isElement)
    cases hTo : Write.isTo object name w with
    | false => rfl
    | true =>
      obtain ⟨hObject, hName⟩ := Bool.and_eq_true_iff.1 hTo
      rw [← beq_iff_eq.1 hObject, ← beq_iff_eq.1 hName] at hMap
      obtain ⟨_, _, -, child, _, _, _, _, _, -, -, -, hInserts⟩ := h.inserts_of_mem hMem hMap
      rw [hInserts.origin]
      rfl
  have hOrigins := hTimely.origins object name
  rw [Entry.written, List.filter_map, List.map_map] at hOrigins
  rw [List.filter_reverse, List.map_reverse, hElements]
  exact (congrArg List.reverse hOrigins).trans (List.reverse_reverse _)

/-- What texts came to went into properties. -/
def Assembly.Delivers (a : Assembly H) : Prop :=
  ∀ n target v, .evaluated n target (.value v) ∈ a.journal →
    ∃ w ∈ Entry.writes a.journal, w.due = ⟨.occurrence n, target.object, target.property⟩

namespace Assembly.Delivers

variable {a' : Assembly H}

omit [Hooks H] in
/-- What tells no value that a text came to changes nothing of that. -/
theorem recorded (h : a.Delivers) {entry : Entry} (hJournal : a'.journal = entry :: a.journal)
    (hOther : ∀ n target v, entry ≠ .evaluated n target (.value v)) : a'.Delivers := by
  intro n target v hMem
  rw [hJournal] at hMem ⊢
  rcases List.mem_cons.1 hMem with hSame | hMem
  · exact absurd hSame.symm (hOther n target v)
  · obtain ⟨w, hWrite, hDue⟩ := h n target v hMem
    obtain ⟨extent, hEntry⟩ := Entry.mem_writes_iff.1 hWrite
    exact ⟨w, Entry.mem_writes_iff.2 ⟨extent, List.mem_cons_of_mem entry hEntry⟩, hDue⟩

/-- A binding that is run again delivers, if it comes to a value. -/
theorem reran (h : a.Delivers) {complete : Bool} {b : Binding}
    (hReran : Assemble.Reran vocabulary complete b a a') : a'.Delivers := by
  cases hReran with
  | value v w a' evaluated assigned =>
    obtain ⟨⟨extent, hJournal⟩, -⟩ := assigned.rest
    intro n target v' hMem
    have hWrites : Entry.writes a'.journal = w :: Entry.writes a.journal := by
      rw [hJournal]
      rfl
    rw [hWrites]
    rw [hJournal] at hMem
    rcases List.mem_cons.1 hMem with hSame | hMem
    · cases hSame
    · rcases List.mem_cons.1 hMem with hSame | hMem
      · cases hSame
        refine ⟨w, List.mem_cons_self, ?_⟩
        rw [Write.due, assigned.origin_eq, assigned.object_eq, assigned.property_eq]
      · obtain ⟨w', hWrite, hDue⟩ := h n target v' hMem
        exact ⟨w', List.mem_cons_of_mem w hWrite, hDue⟩
  | nothing evaluated =>
    exact h.recorded rfl fun _ _ _ hSame => by cases hSame
  | deferred required evaluated =>
    exact h.recorded rfl fun _ _ _ hSame => by cases hSame

/-- A drain delivers all that it evaluates to values. -/
theorem drained (h : a.Delivers) {complete : Bool} {n : Nat}
    (hDrain : Assemble.drain vocabulary complete a = .ok n a') : a'.Delivers :=
  Assemble.drain_induction (P := fun _ a => a.Delivers)
    (fun _ _ _ _ hDone hReran => hDone.reran hReran) h hDrain

/-- One deed delivers what it evaluates to a value. -/
theorem does (h : a.Delivers) {d : Deed H} (hDoes : Does vocabulary a d a') : a'.Delivers := by
  cases hDoes with
  | make type fresh known constructible =>
    exact h.recorded rfl fun _ _ _ hSame => by cases hSame
  | text object name text dataContext a' evaluated =>
    exact reran (a := { a with occurrences := a.occurrences + 1 }) h evaluated
  | close type object id value stands =>
    exact h.recorded rfl fun _ _ _ hSame => by cases hSame
  | place child object name value w a' ended assigned =>
    obtain ⟨⟨extent, hJournal⟩, -⟩ := assigned.rest
    exact h.recorded hJournal fun _ _ _ hSame => by cases hSame
  | declare id value complete names n a' registered hDrain =>
    exact drained (a := { a with names }) h hDrain

/-- The deeds of a run deliver all that they evaluate to values. -/
theorem doesAll {scope : NameScope} {ds : List (Deed H)}
    (h : DoesAll vocabulary (.start scope) ds a) : a.Delivers :=
  DoesAll.invariant (P := fun _ a => a.Delivers) (fun _ _ _ _ hDone hDoes => hDone.does hDoes)
    (fun _ _ _ hMem => absurd hMem List.not_mem_nil) h

end Assembly.Delivers

/-! ### Maps that are filled -/

/-- What became of the maps of a graph, by what was done, the oldest first: they took the elements that are
used for them, in the order of the document, each once and under its own key, and nothing of a text. -/
structure FillsMaps (vocabulary : Vocabulary H) (tells : ObjectId → Option String → Prop)
    (uses : List Use) (g : ObjectGraph H) (done : List Entry) : Prop where
  children : ∀ object name keyType valueType, g.IsMap object name keyType valueType →
    ((Entry.writes done).filter (Write.isTo object name)).map Write.origin =
      (Use.children (uses.filter (Use.isFor object name))).map Origin.element
  keyed : ∀ u ∈ uses, ∀ child, u.source = .element child →
    ∀ keyType valueType, g.IsMap u.object u.property keyType valueType →
      ∃ key id product w extent, tells child (some key) ∧ .closed child id product ∈ done ∧
        ((Entry.writes done).filter fun w => w.origin == .element child) = [w] ∧
        .wrote w extent ∈ done ∧ w.due = ⟨.element child, u.object, u.property⟩ ∧
        w.InsertsChild vocabulary keyType valueType extent child key product g
  textless : ∀ n target v, .evaluated n target (.value v) ∈ done →
    ∀ keyType valueType, ¬ g.IsMap target.object target.property keyType valueType

omit [Hooks H] in
/-- An element that went in did so once. -/
theorem Entry.InOrder.once {journal : List Entry} (h : InOrder journal) {w : Write}
    (hMem : w ∈ writes journal) {child : ObjectId} (hOrigin : w.origin = .element child) :
    ((writes journal).filter fun w => w.origin == .element child) = [w] := by
  have hOnly := List.Pairwise.filter (fun w : Write => w.origin == .element child) h
  have hFound : w ∈ (writes journal).filter fun w => w.origin == .element child :=
    List.mem_filter.2 ⟨hMem, beq_iff_eq.2 hOrigin⟩
  refine Accounted.eq_singleton_of_mem hFound (Nat.le_of_not_lt fun hMore => ?_)
  have hAll : ∀ w' ∈ (writes journal).filter fun w => w.origin == .element child,
      w'.origin = .element child := fun w' hMem' => beq_iff_eq.1 (List.mem_filter.1 hMem').2
  generalize (writes journal).filter (fun w => w.origin == .element child) = found
    at hOnly hMore hAll
  match found with
  | [] | [_] => simp at hMore
  | later :: earlier :: rest =>
    obtain ⟨hLater, -⟩ := List.pairwise_cons.1 hOnly
    exact (hLater earlier List.mem_cons_self child child (hAll later List.mem_cons_self)
      (hAll earlier (List.mem_cons_of_mem later List.mem_cons_self))).1 rfl

/-- What is kept up fills the maps, as far as the document was read. -/
theorem Assembly.KeepsMaps.fillsMaps (h : a.KeepsMaps vocabulary tells) {uses : List Use}
    (hTimely : Timely uses a) (hDelivers : a.Delivers) :
    FillsMaps vocabulary tells uses a.graph a.journal.reverse := by
  have hDone : Entry.writes a.journal.reverse = (Entry.writes a.journal).reverse :=
    List.filterMap_reverse
  refine ⟨fun object name keyType valueType hMap => ?_, fun u hMem child hChild keyType valueType hMap => ?_,
    fun n target v hMem keyType valueType hMap => ?_⟩
  · rw [hDone]
    exact h.origins hTimely hMap
  · obtain ⟨w, hWrite, hDue⟩ :=
      List.mem_map.1 (hTimely.mem_written (mem_duesFrom_element hMem hChild 0) rfl)
    obtain ⟨hOrigin, hObject, hProperty⟩ := Due.mk.inj hDue
    rw [← hObject, ← hProperty] at hMap
    obtain ⟨extent, past, hSuffix, child', id, product, earlier, outer, key, rfl, -, hTells, hInserts⟩ :=
      h.inserts_of_mem hWrite hMap
    obtain rfl : child' = child := Origin.element.inj (hInserts.origin.symm.trans hOrigin)
    refine ⟨key, id, product, w, extent, hTells, List.mem_reverse.2 (hSuffix.subset (by simp)), ?_,
      List.mem_reverse.2 (hSuffix.subset (by simp)), hDue, hInserts⟩
    rw [hDone, List.filter_reverse, h.ordered.once hWrite hOrigin]
    rfl
  · obtain ⟨w, hWrite, hDue⟩ := hDelivers n target v (List.mem_reverse.1 hMem)
    obtain ⟨hOrigin, hObject, hProperty⟩ := Due.mk.inj hDue
    rw [← hObject, ← hProperty] at hMap
    obtain ⟨_, _, -, child, _, _, _, _, _, -, -, -, hInserts⟩ := h.inserts_of_mem hWrite hMap
    rw [hInserts.origin] at hOrigin
    cases hOrigin

/-- Maps are filled by elements that tell keys, and by nothing else. A key is what the start tag of an
element tells, and no element has another one. In every state that a run reaches, and however the run ends,
what went into a map is what a child of its object stood for that was closed just before, converted, under its
converted key, and no element went in twice. By then the maps took the elements that are used for them, in the
order of the document, and no text came to a value for them. If a run fails just when an element was closed
that is not the root, then what failed is its assignment under its own key. When the document compiles, all of
its elements that are used for maps tell keys, and they went in. -/
theorem Compiler.fills_maps (c : Compiler H) (dataContext : Option Value)
    (items : List (Except Markup.Fault Markup.Event)) :
    (∀ child key key', c.TellsKey dataContext items child key →
      c.TellsKey dataContext items child key' → key = key') ∧
    (∀ n s, c.Reaches dataContext items n s →
      s.assembly.KeepsMaps c.vocabulary (c.TellsKey dataContext items) ∧
      ∃ o : Outline H, items.take n = o.events.map .ok ∧
        o.heads.map ElementHead.object = (s.assembly.journal.filterMap Entry.opened?).reverse ∧
        FillsMaps c.vocabulary (c.TellsKey dataContext items) o.uses s.assembly.graph
          s.assembly.journal.reverse) ∧
    (∀ failure s, c.construct items dataContext (.ofDefaults c.settings.defaults) = .error failure s →
      s.assembly.Breaks c.vocabulary (c.TellsKey dataContext items) failure) ∧
    (∀ root s, c.construct items dataContext (.ofDefaults c.settings.defaults) = .ok root s →
      s.assembly.KeepsMaps c.vocabulary (c.TellsKey dataContext items)) ∧
    ∀ d, c.compileEvents items dataContext = .ok d →
      ∃ t : ObjectTree H, Document.Tells items t d ∧
        FillsMaps c.vocabulary (c.TellsKey dataContext items) t.uses d.graph d.journal := by
  have hEnds := (Reaches.start c dataContext items).keepsMaps
  refine ⟨fun _ _ _ h h' => h.unique h', fun n s h => ?_, fun _ _ hRun => hEnds.of_error hRun,
    fun _ _ hRun => hEnds.of_ok hRun, fun d hCompile => ?_⟩
  · have hKeeps := h.keyed.toKeepsMaps
    obtain ⟨-, events, hTake, -, hFed⟩ := h
    obtain ⟨o, ds, hTraced⟩ := traced_of_feedEvents hFed
    refine ⟨hKeeps, o, by rw [hTake, hTraced.told], ?_, hKeeps.fillsMaps ?_ (.doesAll hTraced.done)⟩
    · rw [← (Elements.doesAll hTraced.done).opened, hTraced.objects, List.map_map]
      rfl
    · rw [← hTraced.uses]
      exact Timely.doesAll hTraced.done
  · obtain ⟨root, s, hConstruct, rfl⟩ := Compiler.of_compileEvents hCompile
    obtain ⟨t, ds, a, hBuilt⟩ := constructed_of_construct hConstruct
    obtain ⟨n, hDrain⟩ := hBuilt.drained
    have hDelivers : s.assembly.Delivers := (Assembly.Delivers.doesAll hBuilt.done).drained hDrain
    exact ⟨t, hBuilt.tells root, (hEnds.of_ok hConstruct).fillsMaps hBuilt.timely hDelivers⟩

namespace Labels

/-- A label with two others under numbers, the first of which tells its number twice; in the second there is
another one. -/
def marked : List Markup.Event :=
  [.start "Label", .attribute "xmlns:x" "urn:kiln:metadata",
    .start "Label", .attribute "x:Key" "5", .attribute "x:Key" "7", .finish,
    .start "Label", .attribute "x:Key" "3", .start "Label", .attribute "x:Key" "1", .finish, .finish,
    .finish]

/-- A label goes into a map when it is over, under the last number that it tells. -/
theorem exists_marked :
    ∃ d, compiler.compileEvents (marked.map .ok) none = .ok d ∧
      (Entry.writes d.journal).map (fun w => (w.origin, w.object, w.key)) =
        [(.element ⟨1⟩, ⟨0⟩, some (.int 7)), (.element ⟨3⟩, ⟨2⟩, some (.int 1)),
          (.element ⟨2⟩, ⟨0⟩, some (.int 3))] ∧
      ∃ keyType valueType, d.graph.IsMap ⟨0⟩ "Marks" keyType valueType := by
  have hRun : (compiler.compileEvents (marked.map .ok) none).toOption.any (fun d =>
      decide ((Entry.writes d.journal).map (fun w => (w.origin, w.object, w.key)) =
        [(.element ⟨1⟩, ⟨0⟩, some (.int 7)), (.element ⟨3⟩, ⟨2⟩, some (.int 1)),
          (.element ⟨2⟩, ⟨0⟩, some (.int 3))]) &&
        (d.graph.accessor? ⟨0⟩ "Marks").any fun p => p.store.isMap) = true := by
    decide +kernel
  obtain ⟨d, hCompiled, hHolds⟩ := except_exists_of_any hRun
  obtain ⟨hWrites, hFound⟩ := Bool.and_eq_true_iff.1 hHolds
  obtain ⟨property, hProperty, hMap⟩ := (Option.any_eq_true ..).1 hFound
  refine ⟨d, hCompiled, of_decide_eq_true hWrites, ?_⟩
  cases hStore : property.store with
  | map keyType valueType insert => exact ⟨keyType, valueType, property, insert, hProperty, hStore⟩
  | scalar | collection | list =>
    rw [hStore] at hMap
    cases hMap

/-- After its first events the first of the numbered labels is in the map. -/
theorem exists_first_marked :
    ∃ s, compiler.Reaches none (marked.map .ok) 6 s ∧ (Entry.writes s.assembly.journal).length = 1 := by
  have hFed : (outcome (Construct.feedEvents (compiler.setting none) (marked.take 6))
      (.ofDefaults ["urn:labels"])).toOption.any (fun p =>
        (Entry.writes p.2.assembly.journal).length == 1) = true := by
    decide +kernel
  obtain ⟨⟨_, s⟩, hRun, hWrites⟩ := except_exists_of_any hFed
  exact ⟨s, ⟨fun _ _ => rfl, marked.take 6, rfl, rfl, outcome_eq_ok.1 hRun⟩, beq_iff_eq.1 hWrites⟩

/-- A label with another one that tells no number. -/
def unmarked : List Markup.Event := [.start "Label", .start "Label", .finish, .finish]

/-- Without a number no label goes into a map: the last that is done is that it is closed. -/
theorem exists_unmarked :
    ∃ failure s, compiler.construct (unmarked.map .ok) none (.ofDefaults ["urn:labels"]) =
        .error failure s ∧
      s.assembly.journal = [.closed ⟨1⟩ none (.object ⟨1⟩), .opened ⟨1⟩, .opened ⟨0⟩] := by
  have hRun : (match compiler.construct (unmarked.map .ok) none (.ofDefaults ["urn:labels"]) with
      | .ok _ _ => false
      | .error _ s => decide (s.assembly.journal =
          [.closed ⟨1⟩ none (.object ⟨1⟩), .opened ⟨1⟩, .opened ⟨0⟩])) = true := by
    decide +kernel
  split at hRun
  · cases hRun
  · next failure s hFails => exact ⟨failure, s, hFails, of_decide_eq_true hRun⟩

end Labels

/-- Labels fill the maps of the labels around them, but not without a number. -/
theorem labels_fill_maps :
    (∃ d keyType valueType, Labels.compiler.compileEvents (Labels.marked.map .ok) none = .ok d ∧
      d.graph.IsMap ⟨0⟩ "Marks" keyType valueType ∧
      (Entry.writes d.journal).map (fun w => (w.origin, w.object, w.key)) =
        [(.element ⟨1⟩, ⟨0⟩, some (.int 7)), (.element ⟨3⟩, ⟨2⟩, some (.int 1)),
          (.element ⟨2⟩, ⟨0⟩, some (.int 3))] ∧
      ∃ t : ObjectTree Record.host, Document.Tells (Labels.marked.map .ok) t d ∧
        FillsMaps Labels.compiler.vocabulary
          (Labels.compiler.TellsKey none (Labels.marked.map .ok)) t.uses d.graph d.journal) ∧
    (∃ s, Labels.compiler.Reaches none (Labels.marked.map .ok) 6 s ∧
      (Entry.writes s.assembly.journal).length = 1 ∧
      s.assembly.KeepsMaps Labels.compiler.vocabulary
        (Labels.compiler.TellsKey none (Labels.marked.map .ok))) ∧
    ∃ failure s, Labels.compiler.construct (Labels.unmarked.map .ok) none
        (.ofDefaults ["urn:labels"]) = .error failure s ∧
      s.assembly.journal = [.closed ⟨1⟩ none (.object ⟨1⟩), .opened ⟨1⟩, .opened ⟨0⟩] ∧
      s.assembly.Breaks Labels.compiler.vocabulary
        (Labels.compiler.TellsKey none (Labels.unmarked.map .ok)) failure := by
  obtain ⟨d, hCompiled, hWrites, keyType, valueType, hMap⟩ := Labels.exists_marked
  obtain ⟨s, hReaches, hFirst⟩ := Labels.exists_first_marked
  obtain ⟨failure, s', hBroken, hJournal⟩ := Labels.exists_unmarked
  obtain ⟨-, hReached, -, -, hFills⟩ :=
    Compiler.fills_maps Labels.compiler none (Labels.marked.map .ok)
  obtain ⟨-, -, hBreaks, -, -⟩ :=
    Compiler.fills_maps Labels.compiler none (Labels.unmarked.map .ok)
  exact ⟨⟨d, keyType, valueType, hCompiled, hMap, hWrites, hFills d hCompiled⟩,
    ⟨s, hReaches, hFirst, (hReached 6 s hReaches).1⟩, failure, s', hBroken, hJournal,
    hBreaks failure s' hBroken⟩

end ObjectMarkup
