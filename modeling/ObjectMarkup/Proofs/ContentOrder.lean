import ObjectMarkup.Proofs.Nesting
import ObjectMarkup.Proofs.WriteOrder

/-!
# The order of content

What stands in an element goes into its content property: a child when the child is over, but the
run of text only when the element itself is over, and later still if it has to wait. So a property
that collects values gets the children in the order of the document and the text after all of them,
wherever it stands (`Compiler.pushes_text_last`). That is the order of the document exactly when no
text that came to a value stands before a child.

What the content of an element uses comes in one piece of what its document uses, its text last
(`FilledElement.uses`); what is due for the content property is a part of that.
-/

set_option autoImplicit false

namespace ObjectMarkup

open ObjectNode Operation

variable {H : Host}

/-! ### Elements with their content -/

/-- An element with what stands in it, and what its document uses before that. -/
structure FilledElement (H : Host) where
  head : ElementHead H
  content : List (ObjectNode H)
  before : List Use

namespace ObjectNode

mutual

/-- The elements in a piece of content of an object with what stands in them; `before` is what their
document uses before. -/
def filled (before : List Use) (object : ObjectId) : ObjectNode H → List (FilledElement H)
  | .text _ => []
  | .property _ _ name _ children => filledOf before object name children
  | .element head _ children =>
    ⟨head, children, before ++ head.uses⟩ ::
      filledOf (before ++ head.uses) head.object head.type.contentProperty children

/-- The elements in pieces of content with what stands in them. -/
def filledOf (before : List Use) (object : ObjectId) (receiver : String) :
    List (ObjectNode H) → List (FilledElement H)
  | [] => []
  | node :: rest =>
    node.filled before object ++
      filledOf (before ++ node.uses object receiver) object receiver rest

end

/-- Where the value of a piece of content comes from, if a text has this number. What stands in a
property tag is not content. -/
def item? (number : Nat) : ObjectNode H → Option Origin
  | .text _ => some (.occurrence number)
  | .property _ _ _ _ _ => none
  | .element head _ _ => some (.element head.object)

end ObjectNode

/-- The elements of a document with what stands in them, in the order of their start tags. -/
def ObjectTree.filled (t : ObjectTree H) : List (FilledElement H) :=
  ⟨t.head, t.children, t.head.uses⟩ ::
    filledOf t.head.uses t.head.object t.head.type.contentProperty t.children

namespace FilledElement

/-- What the pieces of content give, but for the text that stands directly in the element. -/
def innerUses (x : FilledElement H) : List Use :=
  usesOf x.head.object x.head.type.contentProperty x.content

/-- What the content gives. -/
def uses (x : FilledElement H) : List Use :=
  x.innerUses ++ textUses x.head.object x.head.type.contentProperty (textsOf x.content)

/-- The number of the run of text in the element. -/
def number (x : FilledElement H) : Nat := (Use.texts (x.before ++ x.innerUses)).length

/-- Where the values come from that the content gives for the content property, in the order of the
document. -/
def items (x : FilledElement H) : List Origin := x.content.filterMap (item? x.number)

/-- The same, the children first and then the text. -/
def delivery (x : FilledElement H) : List Origin :=
  x.items.filter Origin.isElement ++ x.items.filter fun origin => !origin.isElement

/-- What is due for the content property. -/
def due (x : FilledElement H) (origin : Origin) : Due :=
  ⟨origin, x.head.object, x.head.type.contentProperty⟩

end FilledElement

namespace ObjectNode

mutual

/-- The elements with content are the elements. -/
theorem heads_filled (before : List Use) (object : ObjectId) (node : ObjectNode H) :
    (node.filled before object).map FilledElement.head = node.heads := by
  match node with
  | .text content => rw [filled, heads, List.map_nil]
  | .property tag owner name split children =>
    rw [filled, heads]
    exact headsOf_filled before object name children
  | .element head whole children =>
    rw [filled, heads, List.map_cons]
    exact congrArg (head :: ·) (headsOf_filled ..)

/-- The filled elements of a content have its heads, in order. -/
theorem headsOf_filled (before : List Use) (object : ObjectId) (receiver : String)
    (nodes : List (ObjectNode H)) :
    (filledOf before object receiver nodes).map FilledElement.head = headsOf nodes := by
  match nodes with
  | [] => rw [filledOf, headsOf, List.map_nil]
  | node :: rest =>
    rw [filledOf, headsOf, List.map_append, heads_filled before object node]
    exact congrArg (node.heads ++ ·) (headsOf_filled ..)

end

mutual

/-- What the content of an element gives comes in one piece. -/
theorem uses_of_mem_filled {before : List Use} {object : ObjectId} {receiver : String}
    {node : ObjectNode H} {x : FilledElement H} (h : x ∈ node.filled before object) :
    ∃ after, before ++ node.uses object receiver = x.before ++ (x.uses ++ after) := by
  match node with
  | .text content =>
    rw [filled] at h
    cases h
  | .property tag owner name split children =>
    rw [filled] at h
    obtain ⟨after, hUses⟩ := uses_of_mem_filledOf h
    refine ⟨after ++ textUses object name (textsOf children), ?_⟩
    rw [uses, ← List.append_assoc, hUses]
    simp only [List.append_assoc]
  | .element head whole children =>
    rw [filled] at h
    rcases List.mem_cons.1 h with rfl | h
    · refine ⟨[⟨object, receiver, .element head.object⟩], ?_⟩
      simp only [uses, FilledElement.uses, FilledElement.innerUses, List.append_assoc]
    · obtain ⟨after, hUses⟩ := uses_of_mem_filledOf h
      refine ⟨after ++ (textUses head.object head.type.contentProperty (textsOf children) ++
        [⟨object, receiver, .element head.object⟩]), ?_⟩
      rw [uses, List.append_assoc, List.append_assoc, ← List.append_assoc before,
        ← List.append_assoc (before ++ head.uses), hUses]
      simp only [List.append_assoc]

/-- The uses of a filled element stand together among those of its content. -/
theorem uses_of_mem_filledOf {before : List Use} {object : ObjectId} {receiver : String}
    {nodes : List (ObjectNode H)} {x : FilledElement H}
    (h : x ∈ filledOf before object receiver nodes) :
    ∃ after, before ++ usesOf object receiver nodes = x.before ++ (x.uses ++ after) := by
  match nodes with
  | [] =>
    rw [filledOf] at h
    cases h
  | node :: rest =>
    rw [filledOf] at h
    rw [usesOf, ← List.append_assoc]
    rcases List.mem_append.1 h with h | h
    · obtain ⟨after, hUses⟩ := uses_of_mem_filled h
      refine ⟨after ++ usesOf object receiver rest, ?_⟩
      rw [hUses]
      simp only [List.append_assoc]
    · exact uses_of_mem_filledOf h

end

/-- Each text of a content is one text node of its markup. -/
theorem countP_isText_markupOf (nodes : List (ObjectNode H)) :
    (markupOf nodes).countP Markup.Node.isText = (textsOf nodes).length := by
  induction nodes with
  | nil => rfl
  | cons node rest ih =>
    rw [markupOf, List.countP_cons, ih, textsOf, textsOf, List.filterMap_cons]
    cases node <;> simp [markup, content?, Markup.Node.isText]

mutual

/-- In regular content, an element holds one run of text at most. -/
theorem single_of_mem_filled {before : List Use} {object : ObjectId}
    {node : ObjectNode H} {x : FilledElement H} (h : x ∈ node.filled before object)
    (hRegular : node.markup.Regular) : (textsOf x.content).length ≤ 1 := by
  match node with
  | .text content =>
    rw [filled] at h
    cases h
  | .property tag owner name split children =>
    rw [filled] at h
    rw [markup] at hRegular
    have hInside : ∀ child ∈ markupOf children, child.Regular := by
      cases hRegular with
      | property tag children dotted bare single inside => exact inside
      | element tag attributes children whole single inside => exact inside
    exact single_of_mem_filledOf h hInside
  | .element head whole children =>
    rw [filled] at h
    rw [markup] at hRegular
    have hChildren : (markupOf children).countP Markup.Node.isText ≤ 1 ∧
        ∀ child ∈ markupOf children, child.Regular := by
      generalize head.attributes = attributes at hRegular
      cases hRegular with
      | property tag children dotted bare single inside => exact ⟨single, inside⟩
      | element tag attributes children whole single inside => exact ⟨single, inside⟩
    rcases List.mem_cons.1 h with rfl | h
    · rw [countP_isText_markupOf] at hChildren
      exact hChildren.1
    · exact single_of_mem_filledOf h hChildren.2

/-- In regular markup every filled element has at most one text. -/
theorem single_of_mem_filledOf {before : List Use} {object : ObjectId} {receiver : String}
    {nodes : List (ObjectNode H)} {x : FilledElement H}
    (h : x ∈ filledOf before object receiver nodes)
    (hRegular : ∀ n ∈ markupOf nodes, n.Regular) : (textsOf x.content).length ≤ 1 := by
  match nodes with
  | [] =>
    rw [filledOf] at h
    cases h
  | node :: rest =>
    rw [filledOf] at h
    rw [markupOf, List.forall_mem_cons] at hRegular
    rcases List.mem_append.1 h with h | h
    · exact single_of_mem_filled h hRegular.1
    · exact single_of_mem_filledOf h hRegular.2

end

/-- The children in content are due in the order in which they stand there. -/
theorem sublist_dues_elements (number : Nat) (object : ObjectId) (receiver : String) (n : Nat)
    (nodes : List (ObjectNode H)) :
    (((nodes.filterMap (item? number)).filter Origin.isElement).map
        fun origin => Due.mk origin object receiver).Sublist
      (duesFrom n (usesOf object receiver nodes)) := by
  induction nodes generalizing n with
  | nil => exact List.nil_sublist _
  | cons node rest ih =>
    rw [usesOf, duesFrom_append]
    have hRest := ih (n + (Use.texts (node.uses object receiver)).length)
    cases node with
    | text content =>
      rw [List.filterMap_cons_some (f := item? number) rfl,
        List.filter_cons_of_neg (by simp [Origin.isElement])]
      exact hRest.trans (List.sublist_append_right ..)
    | property tag owner name split children =>
      rw [List.filterMap_cons_none (f := item? number) rfl]
      exact hRest.trans (List.sublist_append_right ..)
    | element head whole children =>
      rw [List.filterMap_cons_some (f := item? number) rfl, List.filter_cons_of_pos rfl]
      have hOwn : [Due.mk (.element head.object) object receiver].Sublist
          (duesFrom n ((element head whole children).uses object receiver)) := by
        rw [uses, duesFrom_append]
        exact List.sublist_append_right ..
      exact hOwn.append hRest

/-- The texts in content are those that stand directly in it. -/
theorem filter_items_texts (number : Nat) (nodes : List (ObjectNode H)) :
    (nodes.filterMap (item? number)).filter (fun origin => !origin.isElement) =
      (textsOf nodes).map fun _ => .occurrence number := by
  induction nodes with
  | nil => rfl
  | cons node rest ih =>
    cases node with
    | text content => exact congrArg (.occurrence number :: ·) ih
    | property tag owner name split children => exact ih
    | element head whole children => exact ih

end ObjectNode

namespace FilledElement

/-- The items of an element are delivered, and nothing else is. -/
theorem mem_delivery_iff (x : FilledElement H) {origin : Origin} :
    origin ∈ x.delivery ↔ origin ∈ x.items := by
  rw [delivery, List.mem_append, List.mem_filter, List.mem_filter, ← and_or_left]
  refine and_iff_left_of_imp fun _ => ?_
  cases origin.isElement <;> simp

/-- The dues of an element's origins have these origins. -/
theorem origins (x : FilledElement H) (origins : List Origin) :
    (origins.map x.due).map Due.origin = origins := by
  rw [List.map_map]
  exact List.map_id origins

/-- The text in an element is due after all that the rest of its content gives. -/
theorem dues_texts (x : FilledElement H) (hSingle : (textsOf x.content).length ≤ 1) :
    (x.items.filter fun origin => !origin.isElement).map x.due =
      duesFrom x.number
        (textUses x.head.object x.head.type.contentProperty (textsOf x.content)) := by
  rw [items, filter_items_texts]
  cases hTexts : textsOf x.content with
  | nil => rfl
  | cons content rest =>
    rw [hTexts] at hSingle
    have hRest : rest = [] := List.eq_nil_of_length_eq_zero (by simpa using hSingle)
    rw [hRest]
    rfl

/-- Of the dues of content, those of children come first. -/
theorem textLast (x : FilledElement H) (hSingle : (textsOf x.content).length ≤ 1) :
    Due.TextLast (x.delivery.map x.due) := by
  have hElements : (x.delivery.map x.due).filter (fun d => d.origin.isElement) =
      (x.items.filter Origin.isElement).map x.due := by
    rw [List.filter_map, delivery, List.filter_append]
    simp [Function.comp_def, due]
  have hTexts : (x.delivery.map x.due).filter (fun d => !d.origin.isElement) =
      (x.items.filter fun origin => !origin.isElement).map x.due := by
    rw [List.filter_map, delivery, List.filter_append]
    simp [Function.comp_def, due]
  refine ⟨?_, ?_⟩
  · rw [hElements, hTexts, ← List.map_append]
    rfl
  · rw [hTexts, List.length_map, items, filter_items_texts, List.length_map]
    exact hSingle

/-- The content of an element is due in one piece, the children first. -/
theorem sublist_dues (x : FilledElement H) (hSingle : (textsOf x.content).length ≤ 1) :
    (x.delivery.map x.due).Sublist (duesFrom (Use.texts x.before).length x.uses) := by
  have hNumber : x.number = (Use.texts x.before).length + (Use.texts x.innerUses).length := by
    rw [number, Use.texts_append, List.length_append]
  rw [delivery, List.map_append, x.dues_texts hSingle, uses, duesFrom_append, hNumber]
  exact (sublist_dues_elements ..).append (.refl _)

end FilledElement

namespace ObjectTree

variable {t : ObjectTree H} {x : FilledElement H}

/-- The elements with content are all elements of the document. -/
theorem heads_filled (t : ObjectTree H) : t.filled.map FilledElement.head = t.heads := by
  rw [filled, List.map_cons, headsOf_filled]
  rfl

/-- The content of each element is due in one piece of what the document makes due. -/
theorem sublist_dues (hMem : x ∈ t.filled) (hSingle : (textsOf x.content).length ≤ 1) :
    (x.delivery.map x.due).Sublist (duesFrom 0 t.uses) := by
  have hUses : ∃ after, t.uses = x.before ++ (x.uses ++ after) := by
    rcases List.mem_cons.1 hMem with rfl | hInner
    · refine ⟨[], ?_⟩
      rw [List.append_nil]
      rfl
    · obtain ⟨after, hUses⟩ := uses_of_mem_filledOf hInner
      refine ⟨after ++ textUses t.head.object t.head.type.contentProperty (textsOf t.children), ?_⟩
      rw [uses, ← List.append_assoc, hUses]
      simp only [List.append_assoc]
  obtain ⟨after, hUses⟩ := hUses
  rw [hUses, duesFrom_append, duesFrom_append, Nat.zero_add]
  refine (x.sublist_dues hSingle).trans ?_
  exact (List.sublist_append_left ..).trans (List.sublist_append_right ..)

end ObjectTree

/-! ### Documents -/

namespace Document

/-- The writes of what has one of these origins, in order. -/
def pushes (d : Document H) (origins : List Origin) : List Write :=
  (Entry.writes d.journal).filter fun w => decide (w.origin ∈ origins)

/-- Whether a value came from an origin: from each element, and from a text if its last evaluation
gave one. -/
def gives (d : Document H) : Origin → Bool
  | .element _ => true
  | .occurrence n => d.latestOutcome n matches some (.value _)

/-- An occurrence gives a value when its latest outcome is one. -/
theorem gives_occurrence_iff (d : Document H) (n : Nat) :
    d.gives (.occurrence n) = true ↔ ∃ v, d.latestOutcome n = some (.value v) := by
  rw [gives]
  split
  · next v hOutcome => exact iff_of_true rfl ⟨v, hOutcome⟩
  · next hOther => exact iff_of_false (by simp) fun ⟨v, hOutcome⟩ => hOther v hOutcome

/-- How the content of an element went into its content property: the children in the order of the
document, with what they stand for, and the text after them, if it came to a value. So what came to
values went in in the order of the document exactly when nothing but children stands before a child
there. -/
structure PushesTextLast [Hooks H] (d : Document H) (vocabulary : Vocabulary H)
    (x : FilledElement H) : Prop where
  single : (textsOf x.content).length ≤ 1
  receiver : ∀ w ∈ d.pushes x.items,
    w.object = x.head.object ∧ w.property = x.head.type.contentProperty
  children : ∀ w ∈ d.pushes x.items, ∀ child, w.origin = .element child →
    ∃ v extent, d.product? child = some v ∧ .wrote w extent ∈ d.journal ∧
      w.Carries vocabulary extent v d.graph
  order : (d.pushes x.items).map Write.origin = x.delivery.filter d.gives
  ordered_iff : (d.pushes x.items).map Write.origin = x.items.filter d.gives ↔
    (x.items.filter d.gives).Pairwise fun first later =>
      later.isElement = true → first.isElement = true

end Document

variable [Hooks H]

namespace Constructed

variable {c : Compiler H} {items : List (Except Markup.Fault Markup.Event)}
  {t : ObjectTree H} {ds : List (Deed H)} {a a' : Assembly H} {x : FilledElement H}

/-- The journal of a constructed document is timely for the uses of its tree. -/
theorem timely (h : Constructed c items t ds a a') : Timely t.uses a' := by
  obtain ⟨n, hDrain⟩ := h.drained
  rw [← h.uses]
  exact (Timely.doesAll h.done).drained hDrain

/-- What is due was written if it came to a value. -/
theorem mem_written_iff (h : Constructed c items t ds a a') (root : Value) {d : Due}
    (hMem : d ∈ duesFrom 0 t.uses) :
    d ∈ Entry.written a'.journal ↔
      (Document.mk a'.graph root a'.names a'.journal.reverse).gives d.origin = true := by
  obtain ⟨origin, object, property⟩ := d
  cases origin with
  | element child => exact iff_of_true (h.timely.mem_written hMem rfl) rfl
  | occurrence n =>
    rw [h.accounted.written_text_iff h.waiting hMem, Document.gives_occurrence_iff,
      Document.latestOutcome, List.reverse_reverse]

/-- What was pushed of the content of an element, as what it settles. -/
theorem due_pushes (h : Constructed c items t ds a a') (root : Value) (hMem : x ∈ t.filled)
    (hSingle : (textsOf x.content).length ≤ 1) :
    ((Document.mk a'.graph root a'.names a'.journal.reverse).pushes x.items).map Write.due =
      (x.delivery.filter
        (Document.mk a'.graph root a'.names a'.journal.reverse).gives).map x.due := by
  have hPart := ObjectTree.sublist_dues hMem hSingle
  have hFound : ((Document.mk a'.graph root a'.names a'.journal.reverse).pushes x.items).map
      Write.due = (a'.found (x.delivery.map x.due)).reverse := by
    rw [Document.pushes, Entry.writes, List.filterMap_reverse, List.filter_reverse,
      List.map_reverse, Assembly.found, Entry.written, List.filter_map, x.origins]
    refine congrArg (fun writes => (List.map Write.due writes).reverse)
      (List.filter_congr fun w _ => ?_)
    exact decide_eq_decide.2 x.mem_delivery_iff.symm
  rw [hFound, Timely.found_eq h.accounted h.distinct_children hPart (x.textLast hSingle) h.timely,
    List.filter_map]
  refine congrArg (List.map x.due) (List.filter_congr fun origin hOrigin => ?_)
  rw [Bool.eq_iff_iff, Function.comp_apply, decide_eq_true_iff]
  exact h.mem_written_iff root (hPart.subset (List.mem_map_of_mem hOrigin))

/-- The content of an element was pushed, its text last. -/
theorem pushesTextLast (h : Constructed c items t ds a a') (root : Value) (hMem : x ∈ t.filled)
    (hSingle : (textsOf x.content).length ≤ 1) :
    (Document.mk a'.graph root a'.names a'.journal.reverse).PushesTextLast c.vocabulary x := by
  have hPushes := h.due_pushes root hMem hSingle
  have hOrder :
      ((Document.mk a'.graph root a'.names a'.journal.reverse).pushes x.items).map Write.origin =
        x.delivery.filter (Document.mk a'.graph root a'.names a'.journal.reverse).gives := by
    have hOrigins := congrArg (List.map Due.origin) hPushes
    rw [List.map_map, x.origins] at hOrigins
    exact hOrigins
  refine ⟨hSingle, fun w hPush => ?_, fun w hPush child hOrigin => ?_, hOrder, ?_⟩
  · have hDue := List.mem_map_of_mem (f := Write.due) hPush
    rw [hPushes] at hDue
    obtain ⟨origin, -, hSame⟩ := List.mem_map.1 hDue
    obtain ⟨-, hObject, hProperty⟩ := Due.mk.inj hSame
    exact ⟨hObject.symm, hProperty.symm⟩
  · obtain ⟨extent, hWrote⟩ := Entry.mem_writes_iff.1 (List.mem_filter.1 hPush).1
    have hEntry := List.mem_reverse.1 hWrote
    obtain ⟨id, v, hClosed, hCarries⟩ := h.handsOver w extent child hEntry hOrigin
    exact ⟨v, extent, h.product?_of_mem root hClosed, hWrote, hCarries⟩
  · rw [hOrder, FilledElement.delivery, List.filter_append, List.filter_comm _ Origin.isElement,
      List.filter_comm _ fun origin : Origin => !origin.isElement, eq_comm]
    exact eq_filter_append_filter_iff ..

/-- The content of a document that was constructed is regular. -/
theorem regular {dataContext : Option Value} {root : Value} {s : Construction H}
    (h : Constructed c items t ds a a')
    (hConstruct : c.construct items dataContext (.ofDefaults c.settings.defaults) = .ok root s) :
    (∀ child ∈ markupOf t.children, child.Regular) ∧
      (markupOf t.children).countP Markup.Node.isText ≤ 1 := by
  obtain ⟨events, s₁, hItems, hFeed, -⟩ := Compiler.of_construct hConstruct
  rw [h.events] at hItems
  have hEvents : t.events = events :=
    List.map_injective_iff.2 (fun _ _ hSame => Except.ok.inj hSame) hItems
  subst hEvents
  have hFed := (outcome_eq_ok.2 hFeed).symm.trans
    (Construct.outcome_feedEvents_document (c.setting dataContext) t.head.tag t.head.attributes
      (markupOf t.children) (.ofDefaults c.settings.defaults))
  obtain ⟨⟨value, a⟩, hDocument, -⟩ := except_map_eq_ok_iff.1 hFed.symm
  exact Interpret.regular_document (outcome_eq_ok.1 hDocument)

/-- In a document that was constructed from events every filled element has at most one text. -/
theorem single (h : Constructed c items t ds a a') {dataContext : Option Value} {root : Value}
    {s : Construction H}
    (hConstruct : c.construct items dataContext (.ofDefaults c.settings.defaults) = .ok root s)
    (hMem : x ∈ t.filled) : (textsOf x.content).length ≤ 1 := by
  obtain ⟨hInside, hSingle⟩ := h.regular hConstruct
  rcases List.mem_cons.1 hMem with rfl | hInner
  · rw [countP_isText_markupOf] at hSingle
    exact hSingle
  · exact single_of_mem_filledOf hInner hInside

end Constructed

/-- When a document compiles, the content of each element was pushed to its content property, the
children in the order of the document and the text after them, also if it had to wait. -/
theorem Compiler.pushes_text_last (c : Compiler H) (dataContext : Option Value)
    (items : List (Except Markup.Fault Markup.Event)) (d : Document H)
    (hCompile : c.compileEvents items dataContext = .ok d) :
    ∃ t : ObjectTree H, Document.Tells items t d ∧ t.filled.map FilledElement.head = t.heads ∧
      ∀ x ∈ t.filled, d.PushesTextLast c.vocabulary x := by
  obtain ⟨root, s, hConstruct, rfl⟩ := Compiler.of_compileEvents hCompile
  obtain ⟨t, ds, a, hBuilt⟩ := constructed_of_construct hConstruct
  exact ⟨t, hBuilt.tells root, t.heads_filled,
    fun x hMem => hBuilt.pushesTextLast root hMem (hBuilt.single hConstruct hMem)⟩

namespace Cards

/-- A card that holds a text, and after it another card. -/
def late : List Markup.Event :=
  [ .start "Card", .text "late", .start "Card", .finish, .finish ]

/-- What is done for this card: the text is evaluated when the other card was pushed. -/
def lateJournal : List Entry :=
  [ .opened ⟨0⟩, .opened ⟨1⟩, .closed ⟨1⟩ none (.object ⟨1⟩),
    .wrote ⟨.element ⟨1⟩, ⟨0⟩, "Content", none, .object ⟨1⟩⟩ 2,
    .evaluated 0 ⟨⟨0⟩, "Content", none, true⟩ (.value (.string "late")),
    .wrote ⟨.occurrence 0, ⟨0⟩, "Content", none, .string "late"⟩ 2,
    .closed ⟨0⟩ none (.object ⟨0⟩) ]

/-- The content of the card is a collection. -/
theorem exists_late :
    ∃ d, compiler.compileEvents (late.map .ok) none = .ok d ∧ d.journal = lateJournal ∧
      ∃ type, d.graph.type? ⟨0⟩ = some type ∧
        (type.property? type.contentProperty).map (fun p => p.store.shape) = some "collection" := by
  have hRun : (compiler.compileEvents (late.map .ok) none).toOption.any (fun d =>
      decide (d.journal = lateJournal) && (d.graph.type? ⟨0⟩).any fun type =>
        (type.property? type.contentProperty).map (fun p => p.store.shape) == some "collection") =
          true := by
    decide +kernel
  obtain ⟨d, hCompiled, hHolds⟩ := except_exists_of_any hRun
  obtain ⟨hJournal, hType⟩ := Bool.and_eq_true_iff.1 hHolds
  obtain ⟨type, hMade, hList⟩ := (Option.any_eq_true ..).1 hType
  exact ⟨d, hCompiled, of_decide_eq_true hJournal, type, hMade, beq_iff_eq.1 hList⟩

/-- A tree that tells of such a card holds the text before the other card. -/
theorem children_of_late {t : ObjectTree Record.host} (h : t.events = late) :
    ∃ e whole inner, t.children = [.text "late", .element e whole inner] := by
  obtain ⟨⟨tag, attributes, type, object⟩, children⟩ := t
  rw [ObjectTree.events, Markup.Node.events, late] at h
  cases attributes with
  | cons first others => simp [Markup.attributeEvent] at h
  | nil =>
    cases children with
    | nil => simp [markupOf] at h
    | cons first rest =>
      cases first with
      | property tag owner name split inner => simp [markupOf, markup, Markup.Node.events] at h
      | element e whole inner => simp [markupOf, markup, Markup.Node.events] at h
      | text content =>
        cases rest with
        | nil => simp [markupOf, markup, Markup.Node.events] at h
        | cons second rest =>
          cases second with
          | text content => simp [markupOf, markup, Markup.Node.events] at h
          | property tag owner name split inner =>
            have hWhole : Name.splitProperty "Card" = none := by decide
            simp [markupOf, markup, Markup.Node.events] at h
            rw [h.2.2.1, hWhole] at split
            cases split
          | element e whole inner =>
            have hLength := congrArg List.length h
            cases rest with
            | nil =>
              simp [markupOf, markup, Markup.Node.events] at h
              exact ⟨e, whole, inner, by rw [h.2.1]⟩
            | cons third rest =>
              cases third <;> simp [markupOf, markup, Markup.Node.events] at hLength <;> omega

end Cards

/-- The other card was pushed, and then the text. -/
theorem cards_push_text_last :
    ∃ d, Cards.compiler.compileEvents (Cards.late.map .ok) none = .ok d ∧
      (Entry.writes d.journal).map Write.origin = [.element ⟨1⟩, .occurrence 0] ∧
        ∃ t : ObjectTree Record.host, Document.Tells (Cards.late.map .ok) t d ∧
          t.filled.map FilledElement.head = t.heads ∧
            ∀ x ∈ t.filled, d.PushesTextLast Cards.compiler.vocabulary x := by
  obtain ⟨d, hCompiled, hJournal, -⟩ := Cards.exists_late
  refine ⟨d, hCompiled, ?_,
    Compiler.pushes_text_last Cards.compiler none (Cards.late.map .ok) d hCompiled⟩
  rw [hJournal]
  rfl

/-- So a collection did not get what stands in the card in the order of the document, though nothing had
to wait. -/
theorem cards_text_out_of_order :
    ∃ d, Cards.compiler.compileEvents (Cards.late.map .ok) none = .ok d ∧
      (∀ n target required, .evaluated n target (.deferred required) ∉ d.journal) ∧
        ∃ t : ObjectTree Record.host, Document.Tells (Cards.late.map .ok) t d ∧ ∃ x ∈ t.filled,
          (x.head.type.property? x.head.type.contentProperty).map (fun p => p.store.shape) =
              some "collection" ∧
            x.items.filter d.gives = [.occurrence 0, .element ⟨1⟩] ∧
            (d.pushes x.items).map Write.origin = [.element ⟨1⟩, .occurrence 0] := by
  obtain ⟨d, hCompiled, hJournal, type, hType, hList⟩ := Cards.exists_late
  obtain ⟨root, s, hConstruct, hDocument⟩ := Compiler.of_compileEvents hCompiled
  obtain ⟨t, ds, a, hBuilt⟩ := constructed_of_construct hConstruct
  have hTells : Document.Tells (Cards.late.map .ok) t d := hDocument ▸ hBuilt.tells root
  have hEvents : t.events = Cards.late :=
    List.map_injective_iff.2 (fun _ _ hSame => Except.ok.inj hSame) hTells.events.symm
  obtain ⟨e, whole, inner, hChildren⟩ := Cards.children_of_late hEvents
  have hObjects : t.head.object = ⟨0⟩ ∧ e.object = ⟨1⟩ := by
    have hOpened := hTells.objects
    rw [ObjectTree.objects, hChildren, Document.opened, hJournal] at hOpened
    simp [objectsOf, objects, Cards.lateJournal, Entry.opened?] at hOpened
    exact ⟨hOpened.1, hOpened.2.1⟩
  -- The events tell one text in all, so no text has a number before this one.
  have hNumber : FilledElement.number ⟨t.head, t.children, t.head.uses⟩ = 0 := by
    have hTexts := t.countP_events
    rw [hEvents, ObjectTree.uses, ← List.append_assoc, Use.texts_append, List.length_append,
      hChildren] at hTexts
    rw [FilledElement.number, FilledElement.innerUses, hChildren]
    exact Nat.succ.inj hTexts.symm
  have hItems : FilledElement.items ⟨t.head, t.children, t.head.uses⟩ =
      [.occurrence 0, .element ⟨1⟩] := by
    rw [FilledElement.items, hNumber, hChildren]
    simp [item?, hObjects.2]
  refine ⟨d, hCompiled, ?_, t, hTells, ⟨t.head, t.children, t.head.uses⟩, List.mem_cons_self,
    ?_, ?_, ?_⟩
  · rw [hJournal]
    intro n target required hMem
    simp [Cards.lateJournal] at hMem
  · have hOwn : type = t.head.type := by
      have hMade := hTells.types (t.head.type, t.head.object) List.mem_cons_self
      rw [hObjects.1, hType] at hMade
      exact Option.some.inj hMade
    rw [← hOwn]
    exact hList
  · rw [hItems]
    have hLate : d.gives (.occurrence 0) = true := by
      rw [Document.gives, Document.latestOutcome, hJournal]
      rfl
    have hOther : d.gives (.element ⟨1⟩) = true := rfl
    rw [List.filter_cons_of_pos hLate, List.filter_cons_of_pos hOther, List.filter_nil]
  · rw [hItems, Document.pushes, hJournal]
    rfl

end ObjectMarkup
