import ObjectMarkup.Markup.Name
import ObjectMarkup.Vocabulary.Basic

/-!
# Name scopes

A scope says what names in a document mean: which namespace a qualifier stands for, and which
namespaces an unqualified name is searched in. The metadata namespace is searched last, unless it is
among the others already.

A name is decided by the first namespace that has a match; if that namespace has several, the name
is ambiguous, whatever the namespaces after it hold.
-/

set_option autoImplicit false

namespace ObjectMarkup

/-- The meaning of names in a document. -/
structure NameScope where
  /-- Qualifiers with their namespaces, latest first. -/
  qualifiers : List (String × String)
  /-- The namespaces of unqualified names, in the order of the search. -/
  defaults : List String
deriving DecidableEq, Repr

namespace NameScope

/-- The scope in which no qualifier is declared. -/
def ofDefaults (defaults : List String) : NameScope := ⟨[], defaults⟩

/-- Declares a qualifier, in place of an earlier one of the same name. -/
def declare (s : NameScope) (qualifier space : String) : NameScope :=
  { s with qualifiers := (qualifier, space) :: s.qualifiers }

/-- Adds a namespace to search unqualified names in. -/
def addDefault (s : NameScope) (space : String) : NameScope :=
  { s with defaults := s.defaults ++ [space] }

/-- The namespace that a qualifier stands for, if it is declared. -/
def spaceOf (s : NameScope) (qualifier : String) : Except Failure String :=
  match s.qualifiers.lookup qualifier with
  | some space => .ok space
  | none => .error (.unknownQualifier qualifier)

/-- The namespaces in which unqualified names are searched. -/
def unqualifiedSpaces (s : NameScope) : List String :=
  if s.defaults.contains metadataSpace then s.defaults else s.defaults ++ [metadataSpace]

/-- The namespaces to search for a raw name, in order, and its local part. -/
def search (s : NameScope) (name : String) : Except Failure (List String × String) :=
  match Name.splitQualifier name with
  | (some qualifier, rest) => (s.spaceOf qualifier).map fun space => ([space], rest)
  | (none, whole) => .ok (s.unqualifiedSpaces, whole)

variable {H : Host}

/-- The only match in the first namespace that has one. -/
def firstMatch (v : Vocabulary H) (isMatch : ElementType H → Bool) (name : String)
    (notFound : Failure) : List String → Except Failure (ElementType H)
  | [] => .error notFound
  | space :: rest =>
    match (v.enumerate space).filter isMatch with
    | [] => firstMatch v isMatch name notFound rest
    | [t] => .ok t
    | several => .error (.ambiguousType name space several.length)

/-- The type that a raw name means. -/
def findType (s : NameScope) (v : Vocabulary H) (name : String) :
    Except Failure (ElementType H) :=
  match s.search name with
  | .error failure => .error failure
  | .ok (spaces, rest) =>
    firstMatch v (fun t => t.key.name == rest) rest (.typeNotFound rest spaces) spaces

/-- The type that is the extension with a raw name. -/
def findExtension (s : NameScope) (v : Vocabulary H) (name : String) :
    Except Failure (ElementType H) :=
  match s.search name with
  | .error failure => .error failure
  | .ok (spaces, rest) =>
    firstMatch v (fun t => t.extensionName == some rest) rest (.extensionNotFound rest spaces) spaces

end NameScope

end ObjectMarkup
