import ObjectMarkup.Markup.Name
import ObjectMarkup.Proofs.AssemblySteps
import ObjectMarkup.Proofs.Tree

/-!
# Trees with their objects

A tree of markup in which each element carries its type and the object that was made for it. Such a
tree tells what its markup gives for which property of which object (`ObjectNode.uses`), in the order
in which a construction takes it: the attributes of an element, then its content from left to right,
then the text in it, and then the element itself, for the property around it.
-/

set_option autoImplicit false

namespace ObjectMarkup

variable {H : Host}

/-- Whether an attribute is for a property: it declares no namespace and is not metadata. -/
def Name.isPlain (name : String) : Bool :=
  (declaredQualifier name).isNone && (splitQualifier name).1.isNone

namespace NameScope

/-- Whether an attribute is metadata of a name. -/
def isMetadata (scope : NameScope) (role name : String) : Bool :=
  (Name.declaredQualifier name).isNone &&
    match Name.splitQualifier name with
    | (none, _) => false
    | (some qualifier, rest) =>
      (scope.spaceOf qualifier).toOption == some metadataSpace && rest == role

/-- The metadata of a name that attributes tell in a scope: the last one does. -/
def metadataOf (scope : NameScope) (role : String) (attributes : List (String × String)) :
    Option String :=
  ((attributes.filter fun a => scope.isMetadata role a.1).map Prod.snd).getLast?

/-- The last attribute of a role tells it. -/
theorem metadataOf_cons (scope : NameScope) (role name value : String)
    (rest : List (String × String)) :
    scope.metadataOf role ((name, value) :: rest) =
      (scope.metadataOf role rest).or
        (if scope.isMetadata role name then some value else none) := by
  unfold metadataOf
  rw [List.filter_cons]
  split
  · rw [List.map_cons, List.getLast?_cons]
    cases ((rest.filter fun a => scope.isMetadata role a.1).map Prod.snd).getLast? <;> rfl
  · rw [Option.or_none]

/-- Namespace declarations tell no metadata. -/
theorem metadataOf_undeclared (scope : NameScope) (role : String)
    (attributes : List (String × String)) :
    scope.metadataOf role (attributes.filter fun a => (Name.declaredQualifier a.1).isNone) =
      scope.metadataOf role attributes := by
  unfold metadataOf
  rw [List.filter_filter]
  congr 3
  funext a
  cases h : (Name.declaredQualifier a.1).isNone <;> simp [isMetadata, h]

/-- The key that attributes tell in a scope. -/
def keyOf (scope : NameScope) (attributes : List (String × String)) : Option String :=
  scope.metadataOf keyAttribute attributes

/-- The identifier that attributes tell in a scope. -/
def identifierOf (scope : NameScope) (attributes : List (String × String)) : Option String :=
  scope.metadataOf identifierAttribute attributes

end NameScope

/-- An element without its content. -/
structure ElementHead (H : Host) where
  tag : String
  attributes : List (String × String)
  type : ElementType H
  object : ObjectId

namespace ElementHead

/-- The start tag with its attributes. -/
def events (e : ElementHead H) : List Markup.Event :=
  .start e.tag :: e.attributes.map Markup.attributeEvent

/-- What attributes give for the properties of an object. -/
def attributeUses (object : ObjectId) (attributes : List (String × String)) : List Use :=
  (attributes.filter fun a => Name.isPlain a.1).map fun a => ⟨object, a.1, .text a.2⟩

/-- What the attributes give. -/
def uses (e : ElementHead H) : List Use := attributeUses e.object e.attributes

/-- What was made for the element. -/
def made (e : ElementHead H) : ElementType H × ObjectId := (e.type, e.object)

/-- What there is to tell of the element when it is over, but for its value. -/
def ending (e : ElementHead H) (scope : NameScope) : ElementType H × ObjectId × Option String :=
  (e.type, e.object, scope.identifierOf e.attributes)

end ElementHead

/-- What there is to tell of an element that is over, but for its value. -/
def Closing.ending (c : Closing H) : ElementType H × ObjectId × Option String :=
  (c.type, c.object, c.identifier)

/-- A piece of content, with the objects of the elements in it. -/
inductive ObjectNode (H : Host) where
  | text (content : String)
  | property (tag owner name : String) (split : Name.splitProperty tag = some (owner, name))
      (children : List (ObjectNode H))
  | element (head : ElementHead H) (whole : Name.splitProperty head.tag = none)
      (children : List (ObjectNode H))

/-- A document with the objects of its elements. -/
structure ObjectTree (H : Host) where
  head : ElementHead H
  children : List (ObjectNode H)

namespace ObjectNode

/-- The text that a piece of content is. -/
def content? : ObjectNode H → Option String
  | .text content => some content
  | _ => none

/-- The runs of text that stand directly in content. -/
def textsOf (nodes : List (ObjectNode H)) : List String := nodes.filterMap content?

/-- What runs of text give for a property. -/
def textUses (object : ObjectId) (property : String) (texts : List String) : List Use :=
  texts.map fun content => ⟨object, property, .text content⟩

mutual

/-- The markup of a piece of content. -/
def markup : ObjectNode H → Markup.Node
  | .text content => .text content
  | .property tag _ _ _ children => .element tag [] (markupOf children)
  | .element head _ children => .element head.tag head.attributes (markupOf children)

/-- The markup of pieces of content. -/
def markupOf : List (ObjectNode H) → List Markup.Node
  | [] => []
  | node :: rest => node.markup :: markupOf rest

end

mutual

/-- What a piece of content gives, where it stands for a property of an object. -/
def uses (object : ObjectId) (receiver : String) : ObjectNode H → List Use
  | .text _ => []
  | .property _ _ name _ children =>
    usesOf object name children ++ textUses object name (textsOf children)
  | .element head _ children =>
    head.uses ++ usesOf head.object head.type.contentProperty children ++
      textUses head.object head.type.contentProperty (textsOf children) ++
      [⟨object, receiver, .element head.object⟩]

/-- What pieces of content give, one after the other. -/
def usesOf (object : ObjectId) (receiver : String) : List (ObjectNode H) → List Use
  | [] => []
  | node :: rest => node.uses object receiver ++ usesOf object receiver rest

end

mutual

/-- The objects in a piece of content with their types, in the order of their start tags. -/
def objects : ObjectNode H → List (ElementType H × ObjectId)
  | .text _ => []
  | .property _ _ _ _ children => objectsOf children
  | .element head _ children => (head.type, head.object) :: objectsOf children

/-- The objects in pieces of content. -/
def objectsOf : List (ObjectNode H) → List (ElementType H × ObjectId)
  | [] => []
  | node :: rest => node.objects ++ objectsOf rest

end

mutual

/-- The elements in a piece of content, in the order of their start tags. -/
def heads : ObjectNode H → List (ElementHead H)
  | .text _ => []
  | .property _ _ _ _ children => headsOf children
  | .element head _ children => head :: headsOf children

/-- The elements in pieces of content. -/
def headsOf : List (ObjectNode H) → List (ElementHead H)
  | [] => []
  | node :: rest => node.heads ++ headsOf rest

end

mutual

/-- Where the elements in a piece of content start and end. -/
def boundaries : ObjectNode H → List Boundary
  | .text _ => []
  | .property _ _ _ _ children => boundariesOf children
  | .element head _ children =>
    .start head.object :: (boundariesOf children ++ [.finish head.object])

/-- Where the elements in pieces of content start and end. -/
def boundariesOf : List (ObjectNode H) → List Boundary
  | [] => []
  | node :: rest => node.boundaries ++ boundariesOf rest

end

mutual

/-- The objects of a node are those of its elements. -/
theorem objects_eq (node : ObjectNode H) : node.objects = node.heads.map ElementHead.made := by
  match node with
  | .text content => simp [objects, heads]
  | .property tag owner name split children => simp [objects, heads, objectsOf_eq children]
  | .element head whole children =>
    simp [objects, heads, objectsOf_eq children, ElementHead.made]

/-- The objects of nodes are those of their elements. -/
theorem objectsOf_eq (nodes : List (ObjectNode H)) :
    objectsOf nodes = (headsOf nodes).map ElementHead.made := by
  match nodes with
  | [] => simp [objectsOf, headsOf]
  | node :: rest => simp [objectsOf, headsOf, objects_eq node, objectsOf_eq rest]

end

/-- The events of pieces of content. -/
def eventsOf (nodes : List (ObjectNode H)) : List Markup.Event :=
  Markup.Node.eventsOf (markupOf nodes)

/-- No content has no events. -/
@[simp] theorem eventsOf_nil : eventsOf ([] : List (ObjectNode H)) = [] := by
  simp [eventsOf, markupOf]

/-- No content uses nothing. -/
@[simp] theorem usesOf_nil (object : ObjectId) (receiver : String) :
    usesOf object receiver ([] : List (ObjectNode H)) = [] := by
  simp [usesOf]

/-- No content has no elements. -/
@[simp] theorem headsOf_nil : headsOf ([] : List (ObjectNode H)) = [] := by
  simp [headsOf]

/-- No content has no boundaries. -/
@[simp] theorem boundariesOf_nil : boundariesOf ([] : List (ObjectNode H)) = [] := by
  simp [boundariesOf]

/-- No content has no texts. -/
@[simp] theorem textsOf_nil : textsOf ([] : List (ObjectNode H)) = [] := rfl

/-- The events of content that follows other content follow its events. -/
theorem eventsOf_append (nodes later : List (ObjectNode H)) :
    eventsOf (nodes ++ later) = eventsOf nodes ++ eventsOf later := by
  induction nodes with
  | nil => simp
  | cons node rest ih =>
    simp only [eventsOf] at ih
    simp [eventsOf, markupOf, ih]

/-- Content that follows other content uses what both use, in order. -/
theorem usesOf_append (object : ObjectId) (receiver : String) (nodes later : List (ObjectNode H)) :
    usesOf object receiver (nodes ++ later) =
      usesOf object receiver nodes ++ usesOf object receiver later := by
  induction nodes with
  | nil => simp
  | cons node rest ih => simp [usesOf, ih]

/-- The elements of content that follows other content follow its elements. -/
theorem headsOf_append (nodes later : List (ObjectNode H)) :
    headsOf (nodes ++ later) = headsOf nodes ++ headsOf later := by
  induction nodes with
  | nil => simp
  | cons node rest ih => simp [headsOf, ih]

/-- The boundaries of content that follows other content follow its boundaries. -/
theorem boundariesOf_append (nodes later : List (ObjectNode H)) :
    boundariesOf (nodes ++ later) = boundariesOf nodes ++ boundariesOf later := by
  induction nodes with
  | nil => simp
  | cons node rest ih => simp [boundariesOf, ih]

/-- The texts of content that follows other content follow its texts. -/
theorem textsOf_append (nodes later : List (ObjectNode H)) :
    textsOf (nodes ++ later) = textsOf nodes ++ textsOf later :=
  List.filterMap_append

end ObjectNode

namespace ObjectTree

/-- The events of a document. -/
def events (t : ObjectTree H) : List Markup.Event :=
  (Markup.Node.element t.head.tag t.head.attributes (ObjectNode.markupOf t.children)).events

/-- What a document gives. -/
def uses (t : ObjectTree H) : List Use :=
  t.head.uses ++
    (ObjectNode.usesOf t.head.object t.head.type.contentProperty t.children ++
      ObjectNode.textUses t.head.object t.head.type.contentProperty (ObjectNode.textsOf t.children))

/-- The objects of a document with their types, in the order of their start tags. -/
def objects (t : ObjectTree H) : List (ElementType H × ObjectId) :=
  (t.head.type, t.head.object) :: ObjectNode.objectsOf t.children

/-- The elements of a document, in the order of their start tags. -/
def heads (t : ObjectTree H) : List (ElementHead H) := t.head :: ObjectNode.headsOf t.children

/-- Where the elements of a document start and end. -/
def boundaries (t : ObjectTree H) : List Boundary :=
  .start t.head.object :: (ObjectNode.boundariesOf t.children ++ [.finish t.head.object])

/-- The objects of a tree are those of its elements. -/
theorem objects_eq (t : ObjectTree H) : t.objects = t.heads.map ElementHead.made := by
  rw [objects, ObjectNode.objectsOf_eq]
  rfl

end ObjectTree

/-- The attributes of the root are told by the events of the tree. -/
theorem ObjectTree.rootAttributes_events (t : ObjectTree H) :
    Markup.rootAttributes t.events = t.head.attributes := by
  have hContent : Markup.leadingAttributes (ObjectNode.eventsOf t.children ++ [.finish]) = [] := by
    cases t.children with
    | nil => rw [ObjectNode.eventsOf_nil]; rfl
    | cons node rest =>
      rw [ObjectNode.eventsOf, ObjectNode.markupOf, Markup.Node.eventsOf_cons]
      cases node with
      | text content => rfl
      | property tag owner name split children => rfl
      | element head whole children => rfl
  exact Markup.leadingAttributes_append t.head.attributes hContent

end ObjectMarkup
