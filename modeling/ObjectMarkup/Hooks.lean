import ObjectMarkup.Extension.Basic

/-!
# What the host does

A converter turns a value into one of another type. It sees the graph and may make objects of
registered types; that is all it can do to the graph, so a converter is given by the requests it
makes, each with what it does next, up to its result.

An extension of the host is made from its arguments, or rejects them, and then computes its value
from what it sees at a site.
-/

set_option autoImplicit false

namespace ObjectMarkup

/-- A conversion by the host in progress. -/
inductive ConverterRun (H : Host) where
  /-- The conversion is over, with a value or a reason why there is none. -/
  | done (result : Except String Value)
  /-- Asks for a new object of a registered type. What comes next depends on its handle, or on why
  there is none, and on the graph with the object in it. -/
  | create (key : TypeName) (object : Instance H)
      (next : Except String Value → ObjectGraph H → ConverterRun H)

namespace ConverterRun

variable {H : Host}

/-- Carries out what a converter asks for. -/
def perform (vocabulary : Vocabulary H) :
    ConverterRun H → ObjectGraph H → Except String Value × ObjectGraph H
  | .done result, g => (result, g)
  | .create key object next, g =>
    match vocabulary.describe key with
    | none =>
      (next (.error s!"type {key.text} is not registered") g).perform vocabulary g
    | some type =>
      let g' := g.insert type object
      (next (.ok (.object g.nextId)) g').perform vocabulary g'

end ConverterRun

/-- What the converters and extensions of a host do. -/
class Hooks (H : Host) where
  /-- Whether a converter turns objects of its type into values of another. -/
  convertsTo : H.Converter → ValueType → Bool
  /-- Whether a converter turns values of a type into objects of its own. -/
  convertsFrom : H.Converter → ValueType → Bool
  /-- Turns a value into one of a type, given the graph. -/
  convert : H.Converter → Value → ValueType → ObjectGraph H → ConverterRun H
  /-- Makes an extension from its arguments, or says what is wrong with them. -/
  extend : H.Extension → ArgumentValues → Except String (Site H → Except Failure Outcome)

end ObjectMarkup
