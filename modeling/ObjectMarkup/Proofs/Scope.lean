import ObjectMarkup.Vocabulary.Scope

/-!
# What scopes find

A scope that finds a type or an extension finds it in the vocabulary. When it finds none, it says so
with a failure about the name.
-/

set_option autoImplicit false

namespace ObjectMarkup

namespace NameScope

variable {H : Host} {vocabulary : Vocabulary H} {scope : NameScope}

/-- A first match is one of the registered types and matches. -/
theorem of_firstMatch {isMatch : ElementType H → Bool} {name : String}
    {notFound : Failure} {spaces : List String} {type : ElementType H}
    (h : firstMatch vocabulary isMatch name notFound spaces = .ok type) :
    type ∈ vocabulary.types ∧ isMatch type = true := by
  induction spaces with
  | nil => cases h
  | cons space rest ih =>
    unfold firstMatch at h
    split at h
    · exact ih h
    · next t hMatch =>
      cases h
      have hMem : type ∈ (vocabulary.enumerate space).filter isMatch := by
        rw [hMatch]
        exact List.mem_singleton_self type
      obtain ⟨hSpace, hSame⟩ := List.mem_filter.1 hMem
      exact ⟨(List.mem_filter.1 hSpace).1, hSame⟩
    · cases h

/-- The type that a name means is registered. -/
theorem mem_types_of_findType {name : String} {type : ElementType H}
    (h : scope.findType vocabulary name = .ok type) : type ∈ vocabulary.types := by
  unfold findType at h
  split at h
  · cases h
  · exact (of_firstMatch h).1

/-- The type of the extension that a name means is registered. -/
theorem mem_types_of_findExtension {name : String} {type : ElementType H}
    (h : scope.findExtension vocabulary name = .ok type) : type ∈ vocabulary.types := by
  unfold findExtension at h
  split at h
  · cases h
  · exact (of_firstMatch h).1

/-- An unknown qualifier is a failure of type resolution. -/
theorem kind_of_spaceOf {qualifier : String} {failure : Failure}
    (h : scope.spaceOf qualifier = .error failure) : failure.kind = .typeResolution := by
  unfold spaceOf at h
  split at h
  · cases h
  · cases h
    rfl

/-- A name whose spaces are not known is a failure of type resolution. -/
theorem kind_of_search {name : String} {failure : Failure}
    (h : scope.search name = .error failure) : failure.kind = .typeResolution := by
  unfold search at h
  split at h
  · next qualifier rest hSplit =>
    cases hSpace : scope.spaceOf qualifier with
    | error failure' =>
      rw [hSpace] at h
      cases h
      exact kind_of_spaceOf hSpace
    | ok space =>
      rw [hSpace] at h
      cases h
  · cases h

/-- A search that fails as a type resolution does, when it finds nothing, fails so or not at all. -/
theorem kind_of_firstMatch {isMatch : ElementType H → Bool} {name : String}
    {notFound failure : Failure} {spaces : List String} (hKind : notFound.kind = .typeResolution)
    (h : firstMatch vocabulary isMatch name notFound spaces = .error failure) :
    failure.kind = .typeResolution := by
  induction spaces with
  | nil =>
    cases h
    exact hKind
  | cons space rest ih =>
    unfold firstMatch at h
    split at h
    · exact ih h
    · cases h
    · cases h
      rfl

/-- An element name that means no type is a failure of type resolution. -/
theorem kind_of_findType {name : String} {failure : Failure}
    (h : scope.findType vocabulary name = .error failure) : failure.kind = .typeResolution := by
  unfold findType at h
  split at h
  · next hSearch =>
    cases h
    exact kind_of_search hSearch
  · exact kind_of_firstMatch rfl h

/-- A name that means no extension is a failure of type resolution. -/
theorem kind_of_findExtension {name : String} {failure : Failure}
    (h : scope.findExtension vocabulary name = .error failure) : failure.kind = .typeResolution := by
  unfold findExtension at h
  split at h
  · next hSearch =>
    cases h
    exact kind_of_search hSearch
  · exact kind_of_firstMatch rfl h

end NameScope

end ObjectMarkup
