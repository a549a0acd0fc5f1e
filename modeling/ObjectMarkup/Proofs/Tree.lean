import ObjectMarkup.Markup.Event

/-!
# Trees of markup

Content is runs of text and elements, and an element has a tag, attributes and content of its own.
The events of a tree are its start, its attributes, the events of its content and its end: this is
how a reader tells a document, and how the machine that constructs objects is told one.
-/

set_option autoImplicit false

namespace ObjectMarkup

namespace Markup

/-- A piece of content. -/
inductive Node where
  | text (content : String)
  | element (tag : String) (attributes : List (String × String)) (children : List Node)

/-- The event of an attribute, given by its name and its value. -/
def attributeEvent (a : String × String) : Event := .attribute a.1 a.2

namespace Node

mutual

/-- The events of a piece of content. -/
def events : Node → List Event
  | .text content => [.text content]
  | .element tag attributes children =>
    .start tag :: (attributes.map attributeEvent ++ (eventsOf children ++ [.finish]))

/-- The events of pieces of content, one piece after the other. -/
def eventsOf : List Node → List Event
  | [] => []
  | node :: rest => node.events ++ eventsOf rest

end

/-- No nodes, no events. -/
@[simp] theorem eventsOf_nil : eventsOf [] = [] := by
  simp [eventsOf]

/-- The events of nodes, one after the other. -/
@[simp] theorem eventsOf_cons (node : Node) (rest : List Node) :
    eventsOf (node :: rest) = node.events ++ eventsOf rest := by
  simp [eventsOf]

end Node

/-- The attributes that events begin with. -/
def leadingAttributes : List Event → List (String × String)
  | .attribute name value :: rest => (name, value) :: leadingAttributes rest
  | _ => []

/-- The attributes of the root, if events are those of a document. -/
def rootAttributes : List Event → List (String × String)
  | .start _ :: rest => leadingAttributes rest
  | _ => []

/-- Attributes are led by themselves when none follow. -/
theorem leadingAttributes_append (attributes : List (String × String)) {rest : List Event}
    (h : leadingAttributes rest = []) :
    leadingAttributes (attributes.map attributeEvent ++ rest) = attributes := by
  induction attributes with
  | nil => exact h
  | cons first others ih => exact congrArg (first :: ·) ih

end Markup

end ObjectMarkup
