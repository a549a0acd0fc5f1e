import ObjectMarkup.Text.Place

/-!
# Events and faults of markup

A document is a stream of events. An element gives its start, one event per attribute in the order
of the tag, its content, and its end; a self-closing tag gives the same events with no content.
-/

set_option autoImplicit false

namespace ObjectMarkup

namespace Markup

/-- One structural event of a document. -/
inductive Event where
  /-- A start tag, with its raw name. -/
  | start (name : String)
  /-- An attribute of the start tag before it, its references replaced. -/
  | attribute (name value : String)
  /-- A run of text without blanks at its ends. -/
  | text (content : String)
  /-- The end of the innermost open element. -/
  | finish
deriving DecidableEq, Repr

/-- A text that is not markup, or an attribute value that is not an expression, and where. -/
structure Fault where
  message : String
  place : Place
deriving DecidableEq, Repr

/-- The fault with its place in front. -/
def Fault.text (f : Fault) : String :=
  let line := toString f.place.line
  let column := toString f.place.column
  s!"markup error at {line}:{column}: {f.message}"

end Markup

end ObjectMarkup
