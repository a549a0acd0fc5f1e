/-!
# Expressions

An attribute value or text that starts with a brace is an expression: the name of an extension and
its arguments, first those without a name, then those with one. An argument is text or an
expression of its own.
-/

set_option autoImplicit false

namespace ObjectMarkup

mutual

/-- What an argument of an expression is. -/
inductive Argument where
  | text (content : String)
  | nested (expression : Expression)

/-- An argument with the name in front of its equals sign. -/
structure NamedArgument where
  name : String
  value : Argument

/-- The name of an extension, possibly qualified, and its arguments in the order of the source. -/
structure Expression where
  name : String
  positional : List Argument
  named : List NamedArgument

end

namespace Expression

/-- The first argument with a name. -/
def argument? (e : Expression) (name : String) : Option Argument :=
  (e.named.find? fun a => a.name == name).map NamedArgument.value

end Expression

end ObjectMarkup
