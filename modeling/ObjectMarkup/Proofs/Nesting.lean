import Mathlib.Data.List.Chain
import ObjectMarkup.Proofs.Names
import ObjectMarkup.Proofs.Settlement

/-!
# Only whole trees are taken

Start tags of elements and property tags are the same events, and so are their ends, but only an
element has a place on the stack. What the starts exceed the ends by is what is open: the elements on
the stack, the properties open in them, and a start tag that is pending. When a document compiles
nothing is open any more, and its events are those of one tree (`Compiler.takes_one_tree`): they are
nested, each attribute follows its tag, and every tag holds what it may hold.
-/

set_option autoImplicit false

namespace ObjectMarkup

open Operation

/-! ### Nested events -/

namespace Markup

namespace Event

/-- Whether an event starts a tag. -/
def isStart : Event → Bool
  | .start _ => true
  | _ => false

/-- Whether an event ends a tag. -/
def isFinish : Event → Bool
  | .finish => true
  | _ => false

/-- Whether an event is an attribute. -/
def isAttribute : Event → Bool
  | .attribute _ _ => true
  | _ => false

/-- An attribute stands right after a start or another attribute. -/
def Precedes (x y : Event) : Prop :=
  y.isAttribute = true → x.isStart = true ∨ x.isAttribute = true

end Event

/-- How many tags start. -/
def starts (events : List Event) : Nat := events.countP Event.isStart

/-- How many tags end. -/
def finishes (events : List Event) : Nat := events.countP Event.isFinish

section Counting

variable (event : Event) (events later : List Event)

/-- The starts of events that follow each other add up. -/
theorem starts_append : starts (events ++ later) = starts events + starts later :=
  List.countP_append

/-- The ends of events that follow each other add up. -/
theorem finishes_append : finishes (events ++ later) = finishes events + finishes later :=
  List.countP_append

/-- The first event counts if it is a start. -/
theorem starts_cons : starts (event :: events) = starts events + if event.isStart then 1 else 0 :=
  List.countP_cons

/-- The first event counts if it is an end. -/
theorem finishes_cons :
    finishes (event :: events) = finishes events + if event.isFinish then 1 else 0 :=
  List.countP_cons

end Counting

/-- As many ends as starts, and at no place more. -/
structure Nested (events : List Event) : Prop where
  total : starts events = finishes events
  prefixes : ∀ k, finishes (events.take k) ≤ starts (events.take k)

namespace Nested

/-- No events are nested. -/
theorem nil : Nested [] := ⟨rfl, fun k => by simp [starts, finishes]⟩

/-- Events that neither start nor end anything. -/
theorem of_flat {events : List Event}
    (h : ∀ event ∈ events, event.isStart = false ∧ event.isFinish = false) : Nested events := by
  have hNone (p : Event → Bool) (hp : ∀ event ∈ events, p event = false) (k : Nat) :
      (events.take k).countP p = 0 := by
    rw [List.countP_eq_zero]
    intro event hMem
    simpa using hp event (List.mem_of_mem_take hMem)
  have hStarts := hNone Event.isStart fun event hMem => (h event hMem).1
  have hFinishes := hNone Event.isFinish fun event hMem => (h event hMem).2
  refine ⟨?_, fun k => ?_⟩
  · have hAll := (hStarts events.length).trans (hFinishes events.length).symm
    rwa [List.take_length] at hAll
  · rw [finishes, hFinishes k]
    exact Nat.zero_le _

/-- Nested events may follow each other. -/
theorem append {events later : List Event} (h : Nested events) (h' : Nested later) :
    Nested (events ++ later) := by
  refine ⟨?_, fun k => ?_⟩
  · rw [starts_append, finishes_append, h.total, h'.total]
  · have hFirst := h.prefixes k
    have hSecond := h'.prefixes (k - events.length)
    rw [List.take_append, starts_append, finishes_append]
    omega

/-- Something is open from the start of a tag to its end. -/
theorem wrap_prefix {inside : List Event} (h : Nested inside) (tag : String) {k : Nat} (hk : 0 < k)
    (hEnd : k < (.start tag :: (inside ++ [.finish])).length) :
    finishes ((.start tag :: (inside ++ [.finish])).take k) <
      starts ((.start tag :: (inside ++ [.finish])).take k) := by
  obtain ⟨m, rfl⟩ := Nat.exists_eq_add_of_lt hk
  have hm : m ≤ inside.length := by
    simp only [List.length_cons, List.length_append, List.length_nil] at hEnd
    omega
  have hInside := h.prefixes m
  rw [Nat.zero_add, List.take_succ_cons, List.take_append_of_le_length hm, starts_cons,
    finishes_cons]
  simp only [Event.isStart, Event.isFinish, Bool.false_eq_true, if_false, if_true]
  omega

/-- Nested events in a tag are nested. -/
theorem wrap {inside : List Event} (h : Nested inside) (tag : String) :
    Nested (.start tag :: (inside ++ [.finish])) := by
  have hTotal : starts (.start tag :: (inside ++ [.finish])) =
      finishes (.start tag :: (inside ++ [.finish])) := by
    rw [starts_cons, finishes_cons, starts_append, finishes_append, h.total]
    rfl
  refine ⟨hTotal, fun k => ?_⟩
  by_cases hk : 0 < k
  · by_cases hEnd : k < (.start tag :: (inside ++ [.finish])).length
    · exact Nat.le_of_lt (h.wrap_prefix tag hk hEnd)
    · rw [List.take_of_length_le (Nat.le_of_not_lt hEnd)]
      exact Nat.le_of_eq hTotal.symm
  · rw [Nat.eq_zero_of_not_pos hk]
    simp [starts, finishes]

end Nested

/-! ### Events of trees -/

namespace Node

/-- Attributes neither start nor end a tag. -/
theorem flat_attributes (attributes : List (String × String)) :
    ∀ event ∈ attributes.map attributeEvent, event.isStart = false ∧ event.isFinish = false := by
  intro event hMem
  obtain ⟨a, -, rfl⟩ := List.mem_map.1 hMem
  exact ⟨rfl, rfl⟩

mutual

/-- The events of a node are nested. -/
theorem nested_events (node : Node) : Nested node.events := by
  match node with
  | .text content =>
    rw [events]
    exact .of_flat (by simp [Event.isStart, Event.isFinish])
  | .element tag attributes children =>
    have hInside := (Nested.of_flat (flat_attributes attributes)).append (nested_eventsOf children)
    rw [events, ← List.append_assoc]
    exact hInside.wrap tag

/-- The events of nodes that follow each other are nested. -/
theorem nested_eventsOf (nodes : List Node) : Nested (eventsOf nodes) := by
  match nodes with
  | [] =>
    rw [eventsOf_nil]
    exact .nil
  | node :: rest =>
    rw [eventsOf_cons]
    exact (nested_events node).append (nested_eventsOf rest)

end

/-- Between the first event of an element and the last, the element is open. -/
theorem open_events (tag : String) (attributes : List (String × String)) (children : List Node)
    {k : Nat} (hk : 0 < k) (hEnd : k < (Node.element tag attributes children).events.length) :
    finishes ((Node.element tag attributes children).events.take k) <
      starts ((Node.element tag attributes children).events.take k) := by
  have hInside := (Nested.of_flat (flat_attributes attributes)).append (nested_eventsOf children)
  rw [events, ← List.append_assoc] at hEnd ⊢
  exact hInside.wrap_prefix tag hk hEnd

/-- Content does not begin with an attribute. -/
theorem head?_eventsOf (nodes : List Node) :
    ∀ event ∈ (eventsOf nodes).head?, event.isAttribute = false := by
  cases nodes with
  | nil => simp
  | cons node rest => cases node <;> simp [events, Event.isAttribute]

/-- A chain goes on with a chain that does not begin with an attribute. -/
theorem chain_append {events later : List Event} (h : events.IsChain Event.Precedes)
    (h' : later.IsChain Event.Precedes) (hHead : ∀ event ∈ later.head?, event.isAttribute = false) :
    (events ++ later).IsChain Event.Precedes := by
  refine List.isChain_append.2 ⟨h, h', fun x _ y hMem hAttribute => ?_⟩
  rw [hHead y hMem] at hAttribute
  cases hAttribute

/-- The attributes of a tag follow its start. -/
theorem chain_tag (tag : String) (attributes : List (String × String)) :
    (.start tag :: attributes.map attributeEvent).IsChain Event.Precedes := by
  have hAttributes : (attributes.map attributeEvent).IsChain Event.Precedes := by
    induction attributes with
    | nil => exact .nil
    | cons first rest ih => exact List.isChain_cons.2 ⟨fun y _ _ => .inr rfl, ih⟩
  exact List.isChain_cons.2 ⟨fun y _ _ => .inl rfl, hAttributes⟩

mutual

/-- In the events of a node, attributes follow their tags. -/
theorem chain_events (node : Node) : node.events.IsChain Event.Precedes := by
  match node with
  | .text content =>
    rw [events]
    exact List.isChain_singleton _
  | .element tag attributes children =>
    have hInside : (eventsOf children ++ [Event.finish]).IsChain Event.Precedes :=
      chain_append (chain_eventsOf children) (List.isChain_singleton _) (by simp [Event.isAttribute])
    rw [events, ← List.cons_append]
    refine chain_append (chain_tag tag attributes) hInside fun event hMem => ?_
    cases hChildren : eventsOf children with
    | nil =>
      rw [hChildren] at hMem
      cases hMem
      rfl
    | cons first rest =>
      rw [hChildren] at hMem
      refine head?_eventsOf children event ?_
      rw [hChildren]
      exact hMem

/-- In the events of nodes that follow each other, attributes follow their tags. -/
theorem chain_eventsOf (nodes : List Node) : (eventsOf nodes).IsChain Event.Precedes := by
  match nodes with
  | [] =>
    rw [eventsOf_nil]
    exact .nil
  | node :: rest =>
    rw [eventsOf_cons]
    exact chain_append (chain_events node) (chain_eventsOf rest) (head?_eventsOf rest)

end

/-- An attribute of an element follows its start or another attribute of it. -/
theorem precedes_attribute {tag : String} {attributes : List (String × String)}
    {children : List Node} {before after : List Event} {name value : String}
    (h : (Node.element tag attributes children).events = before ++ .attribute name value :: after) :
    ∃ event, before.getLast? = some event ∧ (event.isStart = true ∨ event.isAttribute = true) := by
  have hChain := chain_events (.element tag attributes children)
  rw [h] at hChain
  cases hLast : before.getLast? with
  | none =>
    rw [List.getLast?_eq_none_iff.1 hLast, events] at h
    cases h
  | some event =>
    exact ⟨event, rfl, (List.isChain_append.1 hChain).2.2 event hLast _ rfl rfl⟩

/-! ### What tags may hold -/

/-- Whether a node is a text. -/
def isText : Node → Bool
  | .text _ => true
  | .element _ _ _ => false

/-- Whether a piece of content is a property tag. -/
def isPropertyTag : Node → Bool
  | .text _ => false
  | .element tag _ _ => tag.toList.contains '.'

/-- A piece of content in which each tag holds what it may: one run of text at most, and a property
tag no attributes and no property tag directly in it. -/
inductive Regular : Node → Prop where
  | text (content : String) : Regular (.text content)
  | property (tag : String) (children : List Node) (dotted : '.' ∈ tag.toList)
      (bare : ∀ child ∈ children, child.isPropertyTag = false)
      (single : children.countP isText ≤ 1) (inside : ∀ child ∈ children, Regular child) :
      Regular (.element tag [] children)
  | element (tag : String) (attributes : List (String × String)) (children : List Node)
      (whole : '.' ∉ tag.toList) (single : children.countP isText ≤ 1)
      (inside : ∀ child ∈ children, Regular child) : Regular (.element tag attributes children)

end Node

end Markup

/-! ### What is open -/

open Markup (starts finishes Nested)

variable {H : Host}

/-- The events of content are nested. -/
theorem ObjectNode.nested_eventsOf (nodes : List (ObjectNode H)) : Nested (eventsOf nodes) :=
  Markup.Node.nested_eventsOf (markupOf nodes)

/-- The attributes of a tag are nested, as they neither start nor end one. -/
theorem StartTag.nested_attributes (t : StartTag) :
    Nested (t.attributes.map Markup.attributeEvent) :=
  .of_flat (Markup.Node.flat_attributes t.attributes)

/-- An open element has one start more than ends, and another one if a property is open in it. -/
theorem OpenNode.starts_events (n : OpenNode H) :
    starts n.events = finishes n.events + 1 + if n.inner.isSome then 1 else 0 := by
  have hAttributes := Nested.of_flat (Markup.Node.flat_attributes n.head.attributes)
  have hContent := ObjectNode.nested_eventsOf n.content
  have hHead := hAttributes.total
  have hTotal := hContent.total
  unfold events ElementHead.events
  cases n.inner with
  | none =>
    simp only [List.cons_append, Markup.starts_cons, Markup.finishes_cons, Markup.starts_append,
      Markup.finishes_append, Markup.Event.isStart, Markup.Event.isFinish, List.append_nil,
      Option.isSome_none, if_true, Bool.false_eq_true, if_false]
    omega
  | some p =>
    have hInner := (ObjectNode.nested_eventsOf p.content).total
    simp only [List.cons_append, Markup.starts_cons, Markup.finishes_cons, Markup.starts_append,
      Markup.finishes_append, Markup.Event.isStart, Markup.Event.isFinish,
      Option.isSome_some, if_true, Bool.false_eq_true, if_false]
    omega

/-- How many property tags are open. -/
def Construction.openProperties (s : Construction H) : Nat :=
  s.stack.countP fun e => e.property.isSome

/-- What has started and not ended is what the stack shows, elements and open properties. -/
theorem ShowsPath.starts_events {path : List (OpenNode H)} {stack : List (OpenElement H)}
    (h : ShowsPath path stack) :
    starts (path.reverse.flatMap OpenNode.events) =
      finishes (path.reverse.flatMap OpenNode.events) + stack.length +
        stack.countP fun e => e.property.isSome := by
  have hProperty {n : OpenNode H} {e : OpenElement H} (hShows : n.Shows e) :
      e.property.isSome = n.inner.isSome := by
    rw [hShows.property, Option.isSome_map]
  induction h with
  | nil => rfl
  | root n e shows =>
    have hEvents := n.starts_events
    rw [← hProperty shows] at hEvents
    simp only [List.reverse_singleton, List.flatMap_singleton, List.length_singleton,
      List.countP_singleton]
    exact hEvents
  | nested n m path e f stack shows whole rest ih =>
    have hEvents := n.starts_events
    rw [← hProperty shows] at hEvents
    rw [List.reverse_cons, List.flatMap_append, List.flatMap_singleton, Markup.starts_append,
      Markup.finishes_append, List.countP_cons, List.length_cons]
    omega

variable [Hooks H]

/-- What the starts exceed the ends by is what is open. -/
theorem Traced.starts_events {vocabulary : Vocabulary H} {defaults : List String}
    {events : List Markup.Event} {o : Outline H} {ds : List (Deed H)} {s : Construction H}
    (h : Traced vocabulary defaults events o ds s) :
    starts events = finishes events + s.stack.length + s.openProperties +
      if s.tag.isSome then 1 else 0 := by
  have hRoot : starts (o.root.toList.flatMap ObjectTree.events) =
      finishes (o.root.toList.flatMap ObjectTree.events) := by
    cases o.root with
    | none => rfl
    | some t =>
      rw [Option.toList_some, List.flatMap_singleton]
      exact (Markup.Node.nested_events _).total
  have hTag : starts (o.tag.toList.flatMap StartTag.events) =
      finishes (o.tag.toList.flatMap StartTag.events) + if s.tag.isSome then 1 else 0 := by
    rw [h.tag]
    cases o.tag with
    | none => rfl
    | some t =>
      have hAttributes := t.nested_attributes.total
      rw [Option.toList_some, List.flatMap_singleton, StartTag.events, Markup.starts_cons,
        Markup.finishes_cons, hAttributes]
      rfl
  have hPath := h.path.starts_events
  rw [← h.told, Outline.events, Markup.starts_append, Markup.starts_append, Markup.finishes_append,
    Markup.finishes_append, Construction.openProperties]
  omega

/-- An element that closes is taken from the stack. -/
theorem Construct.stack_of_closeElement {setting : Setting H} {e : OpenElement H}
    {outer : List (OpenElement H)} {a : Assembly H} {tag : Option StartTag} {root : Option Value}
    {s' : Construction H}
    (h : outcome (closeElement setting) ⟨a, e :: outer, tag, root⟩ = .ok ((), s')) :
    s'.stack = outer := by
  cases outer with
  | nil =>
    obtain ⟨value, a', rfl, -⟩ := of_closeElement_root h
    rfl
  | cons parent outer =>
    obtain ⟨value, a', rfl, -⟩ := of_closeElement_nested h
    rfl

/-- The end of a property tag leaves the stack of elements, and any other end takes the innermost
element from it. -/
theorem Construct.stack_of_endTag {setting : Setting H} {s s' : Construction H}
    (hTag : s.tag = none) (h : endTag setting s = .ok () s') :
    ∃ e outer, s.stack = e :: outer ∧
      s'.stack = if e.property.isSome then { e with property := none, text := none } :: outer
        else outer := by
  obtain ⟨a, stack, tag, root⟩ := s
  obtain rfl : tag = none := hTag
  rw [← outcome_eq_ok] at h
  cases stack with
  | nil => cases h
  | cons e outer =>
    refine ⟨e, outer, rfl, ?_⟩
    cases hProperty : e.property with
    | none =>
      obtain ⟨a₁, -, hClose⟩ := of_endTag_element hProperty h
      exact stack_of_closeElement hClose
    | some name =>
      have hEnded := outcome_endTag_property setting e name e.text outer a none root
      rw [← hProperty, h] at hEnded
      obtain ⟨⟨_, a'⟩, -, hState⟩ := except_map_eq_ok_iff.1 hEnded.symm
      cases hState
      rfl

/-! ### What is interpreted -/

namespace Interpret

open Markup (Node)

variable {setting : Setting H}

/-- The content of an element that is interpreted is interpreted where no property is open. -/
theorem of_element {outer : List (Enclosing H)} {tag : String} {others : List (String × String)}
    {inside : ContentPlace H → Assemble H (Option String)} {made : Finished} {a a' : Assembly H}
    (h : element setting outer tag others inside a = .ok made a') :
    ∃ e text a₁ a₂, inside ⟨e, outer, none⟩ a₁ = .ok text a₂ := by
  obtain ⟨e, _, -, h⟩ := bind_eq_ok.1 h
  obtain ⟨_, a₁, -, h⟩ := bind_eq_ok.1 h
  obtain ⟨text, a₂, hInside, -⟩ := bind_eq_ok.1 h
  exact ⟨e, text, a₁, a₂, hInside⟩

/-- A text that is kept is one at most. -/
theorem single_of_length_eq {text : Option String} {n : Nat} (h : text.toList.length = n) :
    n ≤ 1 := by
  rw [← h, Option.length_toList]
  split <;> omega

mutual

/-- Content that is interpreted is regular, is no property tag where a property is open, and if it is
text there was none before it. -/
theorem regular_node {p : ContentPlace H} {text text' : Option String} {n : Node}
    {a a' : Assembly H} (h : node setting p text n a = .ok text' a') :
    n.Regular ∧ (p.property.isSome = true → n.isPropertyTag = false) ∧
      text'.toList.length = text.toList.length + if n.isText then 1 else 0 := by
  match n with
  | .text content =>
    rw [node] at h
    cases text with
    | some text => cases h
    | none =>
      cases h
      exact ⟨.text content, fun _ => rfl, rfl⟩
  | .element tag attributes children =>
    rw [node] at h
    obtain ⟨_, _, -, h⟩ := bind_eq_ok.1 h
    cases hSplit : Name.splitProperty tag with
    | some split =>
      rw [hSplit] at h
      obtain ⟨_, _, hCheck, hChecked⟩ := bind_eq_ok.1 h
      obtain ⟨hClosed, rfl, rfl, -⟩ := of_checkPropertyTag hCheck
      obtain ⟨inner, _, hInner, hPut⟩ := bind_eq_ok.1 hChecked
      obtain ⟨_, _, -, hReturn⟩ := bind_eq_ok.1 hPut
      cases hReturn
      obtain ⟨hInside, hBare, hLength⟩ := regular_content hInner
      have hDotted : '.' ∈ tag.toList := by
        by_contra hNone
        rw [Name.splitProperty_eq_none_iff.2 hNone] at hSplit
        cases hSplit
      have hSingle := single_of_length_eq (hLength.trans (Nat.zero_add _))
      refine ⟨.property tag children hDotted (hBare rfl) hSingle hInside, ?_, rfl⟩
      intro hOpen
      rw [hClosed] at hOpen
      cases hOpen
    | none =>
      rw [hSplit] at h
      obtain ⟨made, _, hElement, h⟩ := bind_eq_ok.1 h
      obtain ⟨_, _, -, h⟩ := bind_eq_ok.1 h
      obtain ⟨_, _, -, h⟩ := bind_eq_ok.1 h
      cases h
      obtain ⟨e, inner, a₁, a₂, hInner⟩ := of_element hElement
      obtain ⟨hInside, -, hLength⟩ := regular_content hInner
      have hWhole := Name.splitProperty_eq_none_iff.1 hSplit
      have hSingle := single_of_length_eq (hLength.trans (Nat.zero_add _))
      refine ⟨.element tag attributes children hWhole hSingle hInside, fun _ => ?_, rfl⟩
      simpa [Node.isPropertyTag] using hWhole

/-- Content that is interpreted is regular: it has one text at most, and no property tag in a
property. -/
theorem regular_content {p : ContentPlace H} {text text' : Option String} {nodes : List Node}
    {a a' : Assembly H} (h : content setting p text nodes a = .ok text' a') :
    (∀ n ∈ nodes, n.Regular) ∧
      (p.property.isSome = true → ∀ n ∈ nodes, n.isPropertyTag = false) ∧
        text'.toList.length = text.toList.length + nodes.countP Node.isText := by
  match nodes with
  | [] =>
    rw [content] at h
    cases h
    exact ⟨nofun, fun _ => nofun, rfl⟩
  | first :: rest =>
    rw [content] at h
    obtain ⟨between, _, hFirst, hRest⟩ := bind_eq_ok.1 h
    obtain ⟨hRegular, hBare, hLength⟩ := regular_node hFirst
    obtain ⟨hRegulars, hBares, hLengths⟩ := regular_content hRest
    refine ⟨List.forall_mem_cons.2 ⟨hRegular, hRegulars⟩,
      fun hOpen => List.forall_mem_cons.2 ⟨hBare hOpen, hBares hOpen⟩, ?_⟩
    rw [hLengths, hLength, List.countP_cons]
    omega

end

/-- The content of a document that is interpreted is regular, with one run of text at most. -/
theorem regular_document {tag : String} {attributes : List (String × String)}
    {children : List Node} {value : Value} {a a' : Assembly H}
    (h : document setting tag attributes children a = .ok value a') :
    (∀ child ∈ children, child.Regular) ∧ children.countP Node.isText ≤ 1 := by
  obtain ⟨others, _, -, h⟩ := bind_eq_ok.1 h
  obtain ⟨made, _, hElement, -⟩ := bind_eq_ok.1 h
  obtain ⟨e, text, a₁, a₂, hContent⟩ := of_element hElement
  obtain ⟨hRegular, -, hLength⟩ := regular_content hContent
  exact ⟨hRegular, single_of_length_eq (hLength.trans (Nat.zero_add _))⟩

end Interpret

/-! ### Documents -/

/-- What the end of a tag closes: an open property of the innermost element, which stays on the stack,
or else that element, which is taken from it. -/
def Construction.Closes (s s' : Construction H) : Prop :=
  ∃ e outer, s.stack = e :: outer ∧
    s'.stack = if e.property.isSome then { e with property := none, text := none } :: outer else outer

/-- Events are those of one element, in which all tags hold what they may. So they are nested, nothing
stands before the element or after it, and each attribute follows a start or an attribute. -/
structure Markup.OneTree (events : List Event) : Prop where
  tree : ∃ tag attributes children, events = (Node.element tag attributes children).events ∧
    (∀ child ∈ children, child.Regular) ∧ children.countP Node.isText ≤ 1
  nested : Nested events
  single : ∀ k, 0 < k → k < events.length → finishes (events.take k) < starts (events.take k)
  attributes : ∀ before name value after, events = before ++ .attribute name value :: after →
    ∃ event, before.getLast? = some event ∧ (event.isStart = true ∨ event.isAttribute = true)

/-- Only one whole tree is taken. Between events, the starts exceed the ends by the open elements, the
open properties and the pending start tag; an end completes the pending tag and then closes one
property or one element. When the document compiles, its events are those of one tree. -/
theorem Compiler.takes_one_tree (c : Compiler H) (dataContext : Option Value) :
    (∀ events s,
      Construct.feedEvents (c.setting dataContext) events (.ofDefaults c.settings.defaults) =
          .ok () s →
        starts events = finishes events + s.stack.length + s.openProperties +
          (if s.tag.isSome then 1 else 0) ∧
        ∀ s', Construct.feed (c.setting dataContext) .finish s = .ok () s' →
          ∃ s₁, Construct.completeTag (c.setting dataContext) s = .ok () s₁ ∧ s₁.tag = none ∧
            s₁.Closes s') ∧
    ∀ items d, c.compileEvents items dataContext = .ok d →
      ∃ events, items = events.map .ok ∧ Markup.OneTree events := by
  constructor
  · intro events s hFeed
    obtain ⟨o, ds, hTraced⟩ := traced_of_feedEvents hFeed
    refine ⟨hTraced.starts_events, fun s' hFinish => ?_⟩
    obtain ⟨_, s₁, hComplete, hEnd⟩ := bind_eq_ok.1 hFinish
    obtain ⟨o₁, new, scope, hTag, hTraced₁, -⟩ := hTraced.completeTag (outcome_eq_ok.2 hComplete)
    have hNone : s₁.tag = none := hTraced₁.tag.trans hTag
    exact ⟨s₁, hComplete, hNone, Construct.stack_of_endTag hNone hEnd⟩
  · intro items d hCompile
    obtain ⟨root, s, hConstruct, rfl⟩ := Compiler.of_compileEvents hCompile
    obtain ⟨events, s₁, rfl, hFeed, hFinish⟩ := Compiler.of_construct hConstruct
    obtain ⟨o, ds, hTraced⟩ := traced_of_feedEvents hFeed
    obtain ⟨t, _, rfl, -⟩ := hTraced.finish hFinish
    have hEvents : events = t.events := by
      rw [← hTraced.told]
      simp [Outline.events]
    subst hEvents
    have hFed := (outcome_eq_ok.2 hFeed).symm.trans
      (Construct.outcome_feedEvents_document (c.setting dataContext) t.head.tag t.head.attributes
        (ObjectNode.markupOf t.children) (.ofDefaults c.settings.defaults))
    obtain ⟨⟨value, a⟩, hDocument, -⟩ := except_map_eq_ok_iff.1 hFed.symm
    refine ⟨t.events, rfl, ⟨_, _, _, rfl, Interpret.regular_document (outcome_eq_ok.1 hDocument)⟩,
      Markup.Node.nested_events _, fun k hk hEnd => ?_, fun before name value after h => ?_⟩
    · exact Markup.Node.open_events _ _ _ hk hEnd
    · exact Markup.Node.precedes_attribute h

namespace Cards

/-- A card that holds the next one in the tag of a property. -/
def inner : List Markup.Event :=
  [ .start "Card", .attribute "Title" "first", .start "Card.Next", .start "Card", .finish, .finish,
    .finish ]

/-- The cards with a property tag in them compile. -/
theorem exists_inner : ∃ d, compiler.compileEvents (inner.map .ok) none = .ok d :=
  except_exists_of_isOk (by decide +kernel)

/-- After four events the inner card is pending, and the end after them closes it. -/
theorem exists_pending :
    ∃ s s', Construct.feedEvents (compiler.setting none) (inner.take 4)
        (.ofDefaults ["urn:cards"]) = .ok () s ∧
      Construct.feed (compiler.setting none) .finish s = .ok () s' := by
  have hFed : (outcome (do
      Construct.feedEvents (compiler.setting none) (inner.take 4)
      Construct.feed (compiler.setting none) .finish) (.ofDefaults ["urn:cards"])).isOk = true := by
    decide +kernel
  obtain ⟨⟨_, s'⟩, hRun⟩ := except_exists_of_isOk hFed
  obtain ⟨_, s, hFeed, hFinish⟩ := bind_eq_ok.1 (outcome_eq_ok.1 hRun)
  exact ⟨s, s', hFeed, hFinish⟩

end Cards

/-- Three starts are open when the inner card is pending: the card, the property and the inner card. -/
theorem cards_take_one_tree :
    (∃ s s', Construct.feedEvents (Cards.compiler.setting none) (Cards.inner.take 4)
          (.ofDefaults ["urn:cards"]) = .ok () s ∧
        Construct.feed (Cards.compiler.setting none) .finish s = .ok () s' ∧
        3 = s.stack.length + s.openProperties + (if s.tag.isSome then 1 else 0) ∧
        ∃ s₁, Construct.completeTag (Cards.compiler.setting none) s = .ok () s₁ ∧ s₁.tag = none ∧
          s₁.Closes s') ∧
      (∃ d, Cards.compiler.compileEvents (Cards.inner.map .ok) none = .ok d) ∧
      ∃ events, Cards.inner.map .ok = events.map (Except.ok (ε := Markup.Fault)) ∧
        Markup.OneTree events := by
  obtain ⟨hOpen, hTree⟩ := Compiler.takes_one_tree Cards.compiler none
  obtain ⟨s, s', hFeed, hFinish⟩ := Cards.exists_pending
  obtain ⟨hCount, hCloses⟩ := hOpen _ s hFeed
  have hStarts : starts (Cards.inner.take 4) = 3 := rfl
  have hFinishes : finishes (Cards.inner.take 4) = 0 := rfl
  rw [hStarts, hFinishes, Nat.zero_add] at hCount
  obtain ⟨d, hCompiled⟩ := Cards.exists_inner
  exact ⟨⟨s, s', hFeed, hFinish, hCount, hCloses s' hFinish⟩, ⟨d, hCompiled⟩,
    hTree _ d hCompiled⟩

end ObjectMarkup
