/-!
# Names in markup

Tags and attributes carry raw names. A colon splits off the qualifier that stands for a namespace
(`x:Key`), a full stop splits a property tag into owner and property (`Panel.Orientation`), and the
names `xmlns` and `xmlns:p` declare namespaces.
-/

set_option autoImplicit false

namespace ObjectMarkup

/-- Characters before and after the first `mark`, if there is one. -/
def splitFirst (mark : Char) : List Char → Option (List Char × List Char)
  | [] => none
  | c :: rest =>
    if c = mark then some ([], rest)
    else (splitFirst mark rest).map fun (before, after) => (c :: before, after)

/-- Characters before and after the last `mark`, if there is one. -/
def splitLast (mark : Char) (cs : List Char) : Option (List Char × List Char) :=
  (splitFirst mark cs.reverse).map fun (after, before) => (before.reverse, after.reverse)

/-- The pieces of characters between all `mark`s. There is always one piece more than marks. -/
def splitAll (mark : Char) : List Char → List (List Char)
  | [] => [[]]
  | c :: rest =>
    let pieces := splitAll mark rest
    if c = mark then [] :: pieces else (c :: pieces.headD []) :: pieces.tail

namespace Name

/-- A raw name split at its first colon: the qualifier, if there is a colon, and the local part. -/
def splitQualifier (name : String) : Option String × String :=
  match splitFirst ':' name.toList with
  | some (qualifier, rest) => (some (String.ofList qualifier), String.ofList rest)
  | none => (none, name)

/-- A property tag split at its last full stop: the raw name of the owner and the property. -/
def splitProperty (name : String) : Option (String × String) :=
  (splitLast '.' name.toList).map fun (owner, property) =>
    (String.ofList owner, String.ofList property)

/-- The name that declares a namespace. -/
def namespaceAttribute : String := "xmlns"

/-- The qualifier that an attribute declares, if its name is a namespace declaration. The name
`xmlns` alone declares the empty one, a namespace for unqualified names. -/
def declaredQualifier (name : String) : Option String :=
  match splitQualifier name with
  | (none, whole) => if whole = namespaceAttribute then some "" else none
  | (some qualifier, declared) => if qualifier = namespaceAttribute then some declared else none

end Name

end ObjectMarkup
