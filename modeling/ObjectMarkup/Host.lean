import ObjectMarkup.Value.Basic

/-!
# The host

The objects that markup builds belong to the program around this library, the host. A host is given
by the data that its objects hold and by names for its converters and its extensions; what these
names do is told later, by `Hooks`, because they act on whole object graphs.

Every object in a graph is an `Instance`: data of the host, or the box behind an element such as
`<int>42</int>`, which holds what it was given until it closes. A `View` sees the instances of one
class as a type: it may fail on an instance, but never on one that it made.
-/

set_option autoImplicit false

namespace ObjectMarkup

/-- What a host brings: the data of its objects, and names for its converters and extensions. -/
structure Host where
  Data : Type
  Converter : Type
  Extension : Type

/-- An object of a graph. -/
inductive Instance (H : Host) where
  /-- The box of a simple value, empty until a value is put into it. -/
  | box (content : Option Value)
  | host (data : H.Data)

/-- The instances of one class as a type. -/
structure View (H : Host) (α : Type) where
  wrap : α → Instance H
  unwrap : Instance H → Option α
  unwrap_wrap : ∀ a, unwrap (wrap a) = some a

namespace View

variable {H : Host}

/-- The boxes, seen as their content. -/
def box : View H (Option Value) where
  wrap := .box
  unwrap
    | .box content => some content
    | .host _ => none
  unwrap_wrap _ := rfl

end View

/-- The extensions an expression can name: three that come with this library, and those of the
host. -/
inductive Extension (H : Host) where
  /-- The value declared under an identifier. -/
  | reference
  | null
  /-- The data context, or something that can be reached from it. -/
  | dataContext
  | host (extension : H.Extension)

end ObjectMarkup
