import ObjectMarkup.Document
import ObjectMarkup.Proofs.ObjectTree

/-!
# Outlines of documents

Between two events, a document is known up to a point: a tree that is complete, or the open elements
with the content they have so far, and perhaps a start tag that is not complete. An outline holds
that much of a tree with its objects. It tells the events so far and what they have given so far, and
each event changes an outline in one place.
-/

set_option autoImplicit false

namespace ObjectMarkup

open ObjectNode

variable {H : Host}

/-- A property whose tag is open, with the content so far. -/
structure OpenProperty (H : Host) where
  tag : String
  owner : String
  name : String
  split : Name.splitProperty tag = some (owner, name)
  content : List (ObjectNode H)

/-- An element that is open, with the content so far. -/
structure OpenNode (H : Host) where
  head : ElementHead H
  content : List (ObjectNode H)
  /-- The property whose tag is open inside the element. -/
  inner : Option (OpenProperty H)

namespace OpenNode

/-- The property that content is for. -/
def receiver (n : OpenNode H) : String :=
  match n.inner with
  | none => n.head.type.contentProperty
  | some p => p.name

/-- The runs of text in the innermost open tag. -/
def texts (n : OpenNode H) : List String :=
  match n.inner with
  | none => textsOf n.content
  | some p => textsOf p.content

/-- The events of an open element so far. -/
def events (n : OpenNode H) : List Markup.Event :=
  n.head.events ++ (eventsOf n.content ++
    match n.inner with
    | none => []
    | some p => .start p.tag :: eventsOf p.content)

/-- What an open element has given so far. -/
def uses (n : OpenNode H) : List Use :=
  n.head.uses ++ (usesOf n.head.object n.head.type.contentProperty n.content ++
    match n.inner with
    | none => []
    | some p => usesOf n.head.object p.name p.content)

/-- The elements so far. -/
def heads (n : OpenNode H) : List (ElementHead H) :=
  n.head :: (headsOf n.content ++
    match n.inner with
    | none => []
    | some p => headsOf p.content)

/-- Where the elements so far start and end. -/
def boundaries (n : OpenNode H) : List Boundary :=
  .start n.head.object :: (boundariesOf n.content ++
    match n.inner with
    | none => []
    | some p => boundariesOf p.content)

/-- An element that was just opened. -/
def ofHead (head : ElementHead H) : OpenNode H := ⟨head, [], none⟩

/-- An open element with one more piece of content. -/
def add (n : OpenNode H) (child : ObjectNode H) : OpenNode H :=
  match n.inner with
  | none => { n with content := n.content ++ [child] }
  | some p => { n with inner := some { p with content := p.content ++ [child] } }

/-- An open element with the tag of a property open in it. -/
def openProperty (n : OpenNode H) (tag owner name : String)
    (split : Name.splitProperty tag = some (owner, name)) : OpenNode H :=
  { n with inner := some ⟨tag, owner, name, split, []⟩ }

/-- An open element after the end of the tag of a property in it. -/
def closeProperty (n : OpenNode H) (p : OpenProperty H) : OpenNode H :=
  { n with content := n.content ++ [.property p.tag p.owner p.name p.split p.content], inner := none }

/-- An element that is over, inside of another one. -/
def close (n : OpenNode H) (whole : Name.splitProperty n.head.tag = none) : ObjectNode H :=
  .element n.head whole n.content

/-- The root that is over. -/
def closeRoot (n : OpenNode H) : ObjectTree H := ⟨n.head, n.content⟩

section Changes

variable (n : OpenNode H) (child : ObjectNode H)

/-- Of an element that was just opened, the events are those of its tag. -/
theorem events_ofHead (head : ElementHead H) : (ofHead head).events = head.events := by
  simp [ofHead, events]

/-- Of an element that was just opened, the uses are those of its attributes. -/
theorem uses_ofHead (head : ElementHead H) : (ofHead head).uses = head.uses := by
  simp [ofHead, uses]

/-- An element that was just opened is alone. -/
theorem heads_ofHead (head : ElementHead H) : (ofHead head).heads = [head] := by
  simp [ofHead, heads]

/-- An element that was just opened has only started. -/
theorem boundaries_ofHead (head : ElementHead H) : (ofHead head).boundaries = [.start head.object] := by
  simp [ofHead, boundaries]

/-- A piece of content leaves the head. -/
theorem head_add : (n.add child).head = n.head := by
  unfold add
  cases n.inner <;> rfl

/-- A piece of content leaves the property that is open. -/
theorem inner_add : (n.add child).inner.map OpenProperty.name = n.inner.map OpenProperty.name := by
  unfold add
  cases n.inner with
  | none => simp
  | some p => rfl

/-- A piece of content may be one more text. -/
theorem texts_add : (n.add child).texts = n.texts ++ child.content?.toList := by
  have hSingle : textsOf [child] = child.content?.toList := by
    rw [textsOf, List.filterMap_cons]
    cases child.content? <;> rfl
  unfold add texts
  cases n.inner with
  | none => simp [textsOf_append, hSingle]
  | some p => simp [textsOf_append, hSingle]

/-- A piece of content adds its events. -/
theorem events_add : (n.add child).events = n.events ++ child.markup.events := by
  have hSingle : eventsOf [child] = child.markup.events := by simp [eventsOf, markupOf]
  unfold add events
  cases n.inner with
  | none => simp [eventsOf_append, hSingle]
  | some p => simp [eventsOf_append, hSingle]

/-- A piece of content adds its uses, for the property that takes it. -/
theorem uses_add : (n.add child).uses = n.uses ++ child.uses n.head.object n.receiver := by
  unfold add uses receiver
  cases n.inner with
  | none => simp [usesOf_append, usesOf]
  | some p => simp [usesOf_append, usesOf]

/-- A piece of content adds its elements. -/
theorem heads_add : (n.add child).heads = n.heads ++ child.heads := by
  unfold add heads
  cases n.inner with
  | none => simp [headsOf_append, headsOf]
  | some p => simp [headsOf_append, headsOf]

/-- A piece of content adds the boundaries of its elements. -/
theorem boundaries_add : (n.add child).boundaries = n.boundaries ++ child.boundaries := by
  unfold add boundaries
  cases n.inner with
  | none => simp [boundariesOf_append, boundariesOf]
  | some p => simp [boundariesOf_append, boundariesOf]

variable {n}

section Property

variable {tag owner name : String} (split : Name.splitProperty tag = some (owner, name))
  (h : n.inner = none)

include h

/-- A property that is opened adds the start of its tag. -/
theorem events_openProperty : (n.openProperty tag owner name split).events = n.events ++ [.start tag] := by
  simp [openProperty, events, h]

/-- A property that is opened uses nothing yet. -/
theorem uses_openProperty : (n.openProperty tag owner name split).uses = n.uses := by
  simp [openProperty, uses, h]

/-- A property that is opened is no element. -/
theorem heads_openProperty : (n.openProperty tag owner name split).heads = n.heads := by
  simp [openProperty, heads, h]

/-- A property that is opened starts no element. -/
theorem boundaries_openProperty :
    (n.openProperty tag owner name split).boundaries = n.boundaries := by
  simp [openProperty, boundaries, h]

end Property

variable {p : OpenProperty H}

/-- A property that is closed adds the end of its tag. -/
theorem events_closeProperty (h : n.inner = some p) :
    (n.closeProperty p).events = n.events ++ [.finish] := by
  simp only [closeProperty, events, h, eventsOf_append]
  simp [eventsOf, markupOf, markup, Markup.Node.events]

/-- A property that is closed uses the text inside it. -/
theorem uses_closeProperty (h : n.inner = some p) :
    (n.closeProperty p).uses = n.uses ++ textUses n.head.object p.name (textsOf p.content) := by
  simp [closeProperty, uses, h, usesOf_append, usesOf, ObjectNode.uses]

/-- A property that is closed has had its elements before. -/
theorem heads_closeProperty (h : n.inner = some p) : (n.closeProperty p).heads = n.heads := by
  simp [closeProperty, heads, h, headsOf_append, headsOf, ObjectNode.heads]

/-- A property that is closed ends no element. -/
theorem boundaries_closeProperty (h : n.inner = some p) :
    (n.closeProperty p).boundaries = n.boundaries := by
  simp [closeProperty, boundaries, h, boundariesOf_append, boundariesOf, ObjectNode.boundaries]

section Element

variable (h : n.inner = none)

include h

/-- An element that is closed adds the end of its tag. -/
theorem events_close (whole : Name.splitProperty n.head.tag = none) :
    (n.close whole).markup.events = n.events ++ [.finish] := by
  simp [close, events, h, markup, Markup.Node.events, ElementHead.events, eventsOf]

/-- An element that is closed uses its text, and is used itself where it stands. -/
theorem uses_close (whole : Name.splitProperty n.head.tag = none) (object : ObjectId)
    (receiver : String) :
    (n.close whole).uses object receiver =
      n.uses ++ (textUses n.head.object n.head.type.contentProperty (textsOf n.content) ++
        [⟨object, receiver, .element n.head.object⟩]) := by
  simp [close, uses, h, ObjectNode.uses]

/-- An element that is closed has had its elements before. -/
theorem heads_close (whole : Name.splitProperty n.head.tag = none) :
    (n.close whole).heads = n.heads := by
  simp [close, heads, h, ObjectNode.heads]

/-- The root that is closed adds the end of its tag. -/
theorem events_closeRoot : n.closeRoot.events = n.events ++ [.finish] := by
  simp [closeRoot, ObjectTree.events, events, h, Markup.Node.events, ElementHead.events, eventsOf]

/-- The root that is closed uses its text. -/
theorem uses_closeRoot :
    n.closeRoot.uses =
      n.uses ++ textUses n.head.object n.head.type.contentProperty (textsOf n.content) := by
  simp [closeRoot, ObjectTree.uses, uses, h]

/-- The root that is closed has had its elements before. -/
theorem heads_closeRoot : n.closeRoot.heads = n.heads := by
  simp [closeRoot, ObjectTree.heads, heads, h]

/-- An element that is closed ends there. -/
theorem boundaries_close (whole : Name.splitProperty n.head.tag = none) :
    (n.close whole).boundaries = n.boundaries ++ [.finish n.head.object] := by
  simp [close, boundaries, h, ObjectNode.boundaries]

/-- The root that is closed ends there. -/
theorem boundaries_closeRoot :
    n.closeRoot.boundaries = n.boundaries ++ [.finish n.head.object] := by
  simp [closeRoot, ObjectTree.boundaries, boundaries, h]

end Element

end Changes

end OpenNode

/-- What is known of a document between two events. -/
structure Outline (H : Host) where
  /-- The document, if its root is over. -/
  root : Option (ObjectTree H)
  /-- The elements that are open, innermost first. -/
  path : List (OpenNode H)
  tag : Option StartTag

/-- The events of a start tag so far. -/
def StartTag.events (t : StartTag) : List Markup.Event :=
  .start t.name :: t.attributes.map Markup.attributeEvent

namespace Outline

/-- The events so far. -/
def events (o : Outline H) : List Markup.Event :=
  o.root.toList.flatMap ObjectTree.events ++
    (o.path.reverse.flatMap OpenNode.events ++ o.tag.toList.flatMap StartTag.events)

/-- What the document has given so far. -/
def uses (o : Outline H) : List Use :=
  o.root.toList.flatMap ObjectTree.uses ++ o.path.reverse.flatMap OpenNode.uses

/-- The elements so far. -/
def heads (o : Outline H) : List (ElementHead H) :=
  o.root.toList.flatMap ObjectTree.heads ++ o.path.reverse.flatMap OpenNode.heads

/-- Where the elements so far start and end. -/
def boundaries (o : Outline H) : List Boundary :=
  o.root.toList.flatMap ObjectTree.boundaries ++ o.path.reverse.flatMap OpenNode.boundaries

/-- The attributes of the root, once its start tag is complete. -/
def rootAttributes (o : Outline H) : List (String × String) :=
  match o.root, o.path.getLast? with
  | some t, _ => t.head.attributes
  | none, some n => n.head.attributes
  | none, none => []

end Outline

end ObjectMarkup
