import ObjectMarkup.Vocabulary.Declaration

/-!
# Vocabularies

A vocabulary is the element types that markup can name, in the order of their registration. Several
types may have one name; the first of them is the one a name describes.

The namespace of metadata holds the types that come with the library: a box for each simple type,
and the extensions. A box stands for what it was given, or for the empty value of its type.
-/

set_option autoImplicit false

namespace ObjectMarkup

/-- The namespace of metadata attributes and of the types that come with the library. -/
def metadataSpace : String := "urn:kiln:metadata"

/-- The metadata attribute that gives an element its key in a map. -/
def keyAttribute : String := "Key"

/-- The metadata attribute that declares an element under an identifier. -/
def identifierAttribute : String := "Id"

namespace ElementType

variable {H : Host}

/-- The type of the boxes of a simple type, under its short name. -/
def boxed (short : String) (type : ValueType) (empty : Value) : ElementType H :=
  assemble View.box ⟨metadataSpace, short⟩
    [ .constructor none,
      .readable "Content" type (fun content => content.getD .null) (fun _ value => some value),
      .contentProperty "Content",
      .product fun content => content.getD empty ]

/-- The types whose objects hold one value. -/
def boxes : List (ElementType H) :=
  [ boxed "object" .any .null,
    boxed "string" .string (.string ""),
    boxed "int" .int (.int 0),
    boxed "double" .double (.double .zero),
    boxed "float" .float (.float .zero),
    boxed "char" .char (.char '\x00'),
    boxed "bool" .bool (.bool false) ]

/-- The box of a short name. -/
def box? (short : String) : Option (ElementType H) :=
  boxes.find? fun t => t.key.name == short

/-- The type of an extension that comes with the library. It has no instances. -/
def builtInExtension (name : String) (extension : Extension H) : ElementType H :=
  assemble View.box ⟨metadataSpace, name ++ "Extension"⟩ [.extension name extension]

/-- The types of the extensions of the library. -/
def builtInExtensions : List (ElementType H) :=
  [ builtInExtension "Ref" .reference,
    builtInExtension "Null" .null,
    builtInExtension "DataContext" .dataContext ]

/-! ### What these types are -/

/-- Each of the boxes is a box of some content. -/
theorem exists_boxed_of_mem_boxes {type : ElementType H} (h : type ∈ boxes) :
    ∃ short content empty, type = boxed short content empty := by
  simp only [boxes, List.mem_cons, List.not_mem_nil, or_false] at h
  rcases h with h | h | h | h | h | h | h <;> exact ⟨_, _, _, h⟩

/-- No box is an extension. -/
theorem extension_of_mem_boxes {type : ElementType H} (h : type ∈ boxes) :
    type.extension = none := by
  obtain ⟨short, content, empty, rfl⟩ := exists_boxed_of_mem_boxes h
  rfl

/-- No box has a converter. -/
theorem converter_of_mem_boxes {type : ElementType H} (h : type ∈ boxes) :
    type.converter = none := by
  obtain ⟨short, content, empty, rfl⟩ := exists_boxed_of_mem_boxes h
  rfl

/-- A type of a library extension has that extension under its name. -/
theorem extension_builtInExtension (name : String) (extension : Extension H) :
    (builtInExtension name extension).extension = some (name, extension) :=
  rfl

end ElementType

/-- The element types that markup can name. -/
structure Vocabulary (H : Host) where
  /-- The types, in the order of their registration. -/
  types : List (ElementType H)

namespace Vocabulary

variable {H : Host}

/-- A vocabulary without types. -/
def empty : Vocabulary H := ⟨[]⟩

/-- The types that come with the library. -/
def builtIn : Vocabulary H := ⟨ElementType.boxes ++ ElementType.builtInExtensions⟩

/-- The types that come with the library convert nothing. -/
theorem converter_of_mem_builtIn {type : ElementType H} (h : type ∈ builtIn.types) :
    type.converter = none := by
  rcases List.mem_append.1 h with h | h
  · exact ElementType.converter_of_mem_boxes h
  · simp only [ElementType.builtInExtensions, List.mem_cons, List.not_mem_nil, or_false] at h
    rcases h with rfl | rfl | rfl <;> rfl

/-- A vocabulary with one more type, searched last. -/
def register (v : Vocabulary H) (t : ElementType H) : Vocabulary H := ⟨v.types ++ [t]⟩

/-- The types of a namespace, in the order of their registration. -/
def enumerate (v : Vocabulary H) (space : String) : List (ElementType H) :=
  v.types.filter fun t => t.key.space == space

/-- The first type registered under a name. -/
def describe (v : Vocabulary H) (key : TypeName) : Option (ElementType H) :=
  (v.enumerate key.space).find? fun t => t.key.name == key.name

/-- The number of registered types. -/
def size (v : Vocabulary H) : Nat := v.types.length

end Vocabulary

end ObjectMarkup
