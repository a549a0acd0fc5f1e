import ObjectMarkup.Graph.Basic

/-!
# Extensions

An extension computes a value for a property. It is made from its arguments, once these are values,
and then asked for its value at a site. It may give one, give nothing, or ask to be evaluated again
when certain identifiers are declared.
-/

set_option autoImplicit false

namespace ObjectMarkup

/-- What an evaluation gives. -/
inductive Outcome where
  | value (v : Value)
  /-- The property is left as it is. -/
  | nothing
  /-- To be evaluated again when all these identifiers are declared. -/
  | deferred (required : Identifiers)
deriving DecidableEq

/-- The evaluated arguments of an extension. -/
structure ArgumentValues where
  positional : List Value
  named : List (String × Value)
deriving DecidableEq

namespace ArgumentValues

/-- No arguments. -/
def empty : ArgumentValues := ⟨[], []⟩

/-- The value of the first named argument with a name. -/
def named? (a : ArgumentValues) (name : String) : Option Value := a.named.lookup name

/-- The first argument without a name, or else the one with this name. -/
def firstOrNamed? (a : ArgumentValues) (name : String) : Option Value :=
  a.positional.head?.or (a.named? name)

end ArgumentValues

/-- What an extension can see while it computes a value. -/
structure Site (H : Host) where
  /-- The property that the value is for. -/
  property : String
  /-- The object of that property. -/
  target : ObjectId
  dataContext : Option Value
  graph : ObjectGraph H
  names : NameTable
  /-- Whether identifiers can still be declared. -/
  canDefer : Bool
  /-- The whole expression, for messages. -/
  expression : String

/-- Asks to be evaluated again when all of `ids` are declared. -/
def Site.defer {H : Host} (site : Site H) (ids : Identifiers) : Except Failure Outcome :=
  if site.canDefer then .ok (.deferred ids) else .error (.deferredAfterEnd site.expression)

end ObjectMarkup
