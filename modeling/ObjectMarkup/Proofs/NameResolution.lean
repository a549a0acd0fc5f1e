import ObjectMarkup.Record.TypeSpec
import ObjectMarkup.Proofs.Names
import ObjectMarkup.Proofs.Scope

/-!
# What names resolve to

Types and extensions are found in the same way, by another name of a type. A raw name tells where to
search: a qualified name in the namespace of its qualifier, any other in the default namespaces and,
unless it is one of them, in the namespace of metadata after them. The first namespace with a match
decides, and it decides for its only match or against all of them. So what is registered in other
namespaces than those up to the deciding one has no influence, and neither has a default namespace
that comes again.
-/

set_option autoImplicit false

namespace ObjectMarkup

variable {H : Host}

/-- What a name is looked up for. -/
inductive Lookup where
  | type
  | extension
deriving DecidableEq

namespace Lookup

/-- Whether a type has a name. -/
def isMatch : Lookup → String → ElementType H → Bool
  | type, name, t => t.key.name == name
  | extension, name, t => t.extensionName == some name

/-- The failure that no namespace has a match. -/
def notFound : Lookup → String → List String → Failure
  | type => .typeNotFound
  | extension => .extensionNotFound

end Lookup

namespace Vocabulary

variable (v : Vocabulary H) (lookup : Lookup)

/-- The types of a namespace that have a name. -/
def named (name space : String) : List (ElementType H) :=
  v.types.filter fun t => t.key.space == space && lookup.isMatch name t

/-- What has a name in a namespace is found among all that is registered there. -/
theorem named_eq_filter_enumerate (name space : String) :
    v.named lookup name space = (v.enumerate space).filter (lookup.isMatch name) := by
  rw [named, enumerate, List.filter_filter]
  exact List.filter_congr fun t _ => Bool.and_comm ..

/-- A namespace decides a name if it has types of the name, and none of the namespaces before it
has. -/
structure Decides (name : String) (before : List String) (space : String) : Prop where
  none_before : ∀ other ∈ before, v.named lookup name other = []
  here : v.named lookup name space ≠ []

/-- Some namespace of a search decides, or none has a match. -/
theorem decides_or_none (name : String) (spaces : List String) :
    (∃ before space after, spaces = before ++ space :: after ∧
      v.Decides lookup name before space) ∨
      ∀ space ∈ spaces, v.named lookup name space = [] := by
  induction spaces with
  | nil => exact .inr fun space hMem => absurd hMem List.not_mem_nil
  | cons first rest ih =>
    by_cases hFirst : v.named lookup name first = []
    · rcases ih with ⟨before, space, after, rfl, hDecides⟩ | hNone
      · exact .inl ⟨first :: before, space, after, rfl,
          List.forall_mem_cons.2 ⟨hFirst, hDecides.none_before⟩, hDecides.here⟩
      · exact .inr (List.forall_mem_cons.2 ⟨hFirst, hNone⟩)
    · exact .inl ⟨[], first, rest, rfl, fun _ hMem => absurd hMem List.not_mem_nil, hFirst⟩

/-- Types that are registered come behind those that are. -/
@[simp] theorem types_foldl_register (more : List (ElementType H)) :
    (more.foldl register v).types = v.types ++ more := by
  induction more generalizing v with
  | nil => simp
  | cons t more ih => simp [ih, register]

/-- Registering types adds nothing to the other namespaces. -/
theorem enumerate_foldl_register {more : List (ElementType H)} {space : String}
    (h : ∀ t ∈ more, t.key.space ≠ space) :
    (more.foldl register v).enumerate space = v.enumerate space := by
  have hNone : more.filter (fun t => t.key.space == space) = [] := by
    rw [List.filter_eq_nil_iff]
    intro t hMem
    simpa using h t hMem
  rw [enumerate, types_foldl_register, List.filter_append, hNone, List.append_nil, enumerate]

end Vocabulary

namespace NameScope

open Name (qualify)

/-- Looks a raw name up. -/
def find (s : NameScope) : Lookup → Vocabulary H → String → Except Failure (ElementType H)
  | .type => s.findType
  | .extension => s.findExtension

/-- The namespaces that a raw name is searched in, in order, and the name it is searched for. -/
inductive Searches (s : NameScope) : String → List String → String → Prop where
  /-- A qualified name is searched for in the namespace of its qualifier. -/
  | qualified {qualifier name space : String} (hWhole : ':' ∉ qualifier.toList)
      (hDeclared : s.qualifiers.lookup qualifier = some space) :
      Searches s (qualify qualifier name) [space] name
  /-- Any other is searched for in the default namespaces, -/
  | defaults {name : String} (hWhole : ':' ∉ name.toList) (hAmong : metadataSpace ∈ s.defaults) :
      Searches s name s.defaults name
  /-- and in the namespace of metadata after them. -/
  | metadataLast {name : String} (hWhole : ':' ∉ name.toList)
      (hOther : metadataSpace ∉ s.defaults) :
      Searches s name (s.defaults ++ [metadataSpace]) name

/-- What a raw name resolves to. -/
inductive Finds (s : NameScope) (lookup : Lookup) (v : Vocabulary H) :
    String → Except Failure (ElementType H) → Prop where
  | undeclared (qualifier name : String) (hWhole : ':' ∉ qualifier.toList)
      (hNone : s.qualifiers.lookup qualifier = none) :
      Finds s lookup v (qualify qualifier name) (.error (.unknownQualifier qualifier))
  /-- The first namespace with a match has no other. -/
  | unique {raw name space : String} {before after : List String} {type : ElementType H}
      (hSearches : s.Searches raw (before ++ space :: after) name)
      (hBefore : ∀ other ∈ before, v.named lookup name other = [])
      (hHere : v.named lookup name space = [type]) : Finds s lookup v raw (.ok type)
  /-- The first namespace with a match has several. -/
  | ambiguous {raw name space : String} {before after : List String}
      (hSearches : s.Searches raw (before ++ space :: after) name)
      (hBefore : ∀ other ∈ before, v.named lookup name other = [])
      (hHere : 1 < (v.named lookup name space).length) :
      Finds s lookup v raw
        (.error (.ambiguousType name space (v.named lookup name space).length))
  | notFound {raw name : String} {spaces : List String} (hSearches : s.Searches raw spaces name)
      (hNone : ∀ space ∈ spaces, v.named lookup name space = []) :
      Finds s lookup v raw (.error (lookup.notFound name spaces))

variable {s : NameScope} {lookup : Lookup} {v : Vocabulary H} {raw name space : String}
  {before after spaces : List String}

/-! ### Where a name is searched -/

/-- What a name searches is what the scope tells. -/
theorem Searches.search_eq (h : s.Searches raw spaces name) :
    s.search raw = .ok (spaces, name) := by
  cases h with
  | @qualified qualifier _ space hWhole hDeclared =>
    have hSpace : s.spaceOf qualifier = .ok space := by
      unfold spaceOf
      rw [hDeclared]
    rw [search, Name.splitQualifier_qualify hWhole]
    simp only [hSpace, Except.map]
  | defaults hWhole hAmong =>
    rw [search, Name.splitQualifier_of_notMem hWhole, unqualifiedSpaces,
      if_pos (List.contains_iff_mem.2 hAmong)]
  | metadataLast hWhole hOther =>
    rw [search, Name.splitQualifier_of_notMem hWhole, unqualifiedSpaces,
      if_neg (by rwa [List.contains_iff_mem])]

/-- A name with a qualifier that is not declared searches nothing. -/
theorem search_of_undeclared {qualifier : String} (hWhole : ':' ∉ qualifier.toList)
    (hNone : s.qualifiers.lookup qualifier = none) :
    s.search (qualify qualifier name) = .error (.unknownQualifier qualifier) := by
  have hSpace : s.spaceOf qualifier = .error (.unknownQualifier qualifier) := by
    unfold spaceOf
    rw [hNone]
  rw [search, Name.splitQualifier_qualify hWhole]
  simp only [hSpace, Except.map]

/-- A raw name is searched somewhere, unless its qualifier is not declared. -/
theorem searches_or_undeclared (s : NameScope) (raw : String) :
    (∃ spaces name, s.Searches raw spaces name) ∨
      ∃ qualifier name, ':' ∉ qualifier.toList ∧ raw = qualify qualifier name ∧
        s.qualifiers.lookup qualifier = none := by
  rcases Name.qualify_or_notMem raw with ⟨qualifier, name, hWhole, rfl⟩ | hWhole
  · cases hDeclared : s.qualifiers.lookup qualifier with
    | none => exact .inr ⟨qualifier, name, hWhole, rfl, hDeclared⟩
    | some space => exact .inl ⟨[space], name, .qualified hWhole hDeclared⟩
  · by_cases hAmong : metadataSpace ∈ s.defaults
    · exact .inl ⟨s.defaults, raw, .defaults hWhole hAmong⟩
    · exact .inl ⟨s.defaults ++ [metadataSpace], raw, .metadataLast hWhole hAmong⟩

/-- A default namespace that comes again is searched again, and nothing else changes. -/
theorem Searches.repeat_default {pre post : List String} {again : String}
    (h : s.Searches raw spaces name) (hDefaults : s.defaults = pre ++ post) (hAgain : again ∈ pre) :
    ∃ spaces', ({ s with defaults := pre ++ again :: post } : NameScope).Searches raw spaces' name ∧
      (spaces' = spaces ∨ ∃ rest, spaces = pre ++ rest ∧ spaces' = pre ++ again :: rest) := by
  have hMem (space : String) : space ∈ pre ++ again :: post ↔ space ∈ s.defaults := by
    rw [hDefaults, List.mem_append, List.mem_append, List.mem_cons]
    constructor
    · rintro (hPre | rfl | hPost)
      · exact .inl hPre
      · exact .inl hAgain
      · exact .inr hPost
    · rintro (hPre | hPost)
      · exact .inl hPre
      · exact .inr (.inr hPost)
  cases h with
  | qualified hWhole hDeclared => exact ⟨_, .qualified hWhole hDeclared, .inl rfl⟩
  | defaults hWhole hAmong =>
    exact ⟨_, .defaults hWhole ((hMem _).2 hAmong), .inr ⟨post, hDefaults, rfl⟩⟩
  | metadataLast hWhole hOther =>
    refine ⟨_, .metadataLast hWhole fun hAmong => hOther ((hMem _).1 hAmong),
      .inr ⟨post ++ [metadataSpace], ?_, ?_⟩⟩
    · rw [hDefaults, List.append_assoc]
    · rw [List.append_assoc, List.cons_append]

/-! ### What is found there -/

/-- A name that searches namespaces finds the first match in them. -/
theorem find_of_searches (h : s.Searches raw spaces name) :
    s.find lookup v raw = firstMatch v (lookup.isMatch name) name (lookup.notFound name spaces)
      spaces := by
  cases lookup <;> simp only [find, findType, findExtension, h.search_eq] <;> rfl

/-- A name with a qualifier that is not declared fails by its qualifier. -/
theorem find_of_undeclared {qualifier : String} (hWhole : ':' ∉ qualifier.toList)
    (hNone : s.qualifiers.lookup qualifier = none) :
    s.find lookup v (qualify qualifier name) = .error (.unknownQualifier qualifier) := by
  cases lookup <;> simp only [find, findType, findExtension, search_of_undeclared hWhole hNone]

/-- Namespaces in which nothing has the name are passed. -/
theorem firstMatch_append {notFound : Failure}
    (h : ∀ other ∈ before, v.named lookup name other = []) (rest : List String) :
    firstMatch v (lookup.isMatch name) name notFound (before ++ rest) =
      firstMatch v (lookup.isMatch name) name notFound rest := by
  induction before with
  | nil => rfl
  | cons first before ih =>
    obtain ⟨hFirst, hRest⟩ := List.forall_mem_cons.1 h
    rw [Vocabulary.named_eq_filter_enumerate] at hFirst
    rw [List.cons_append, firstMatch, hFirst]
    exact ih hRest

/-- What the first namespace with a match says. -/
def decision (name space : String) : List (ElementType H) → Except Failure (ElementType H)
  | [type] => .ok type
  | several => .error (.ambiguousType name space several.length)

/-- Several types of one name are ambiguous. -/
theorem decision_of_several {several : List (ElementType H)} (h : 1 < several.length) :
    decision name space several = .error (.ambiguousType name space several.length) := by
  match several, h with
  | _ :: _ :: _, _ => rfl

/-- The first namespace in which something has the name decides. -/
theorem firstMatch_of_decides {notFound : Failure} (h : v.Decides lookup name before space)
    (after : List String) :
    firstMatch v (lookup.isMatch name) name notFound (before ++ space :: after) =
      decision name space (v.named lookup name space) := by
  have hHere := h.here
  rw [firstMatch_append h.none_before, firstMatch, ← Vocabulary.named_eq_filter_enumerate]
  match v.named lookup name space, hHere with
  | [type], _ => rfl
  | _ :: _ :: _, _ => rfl

/-- The namespace that decides a name says what it resolves to. -/
theorem find_of_decides (hSearches : s.Searches raw (before ++ space :: after) name)
    (hDecides : v.Decides lookup name before space) :
    s.find lookup v raw = decision name space (v.named lookup name space) := by
  rw [find_of_searches hSearches, firstMatch_of_decides hDecides]

/-- If nothing has the name, it is not found, in all the namespaces that were searched. -/
theorem find_of_none (hSearches : s.Searches raw spaces name)
    (hNone : ∀ space ∈ spaces, v.named lookup name space = []) :
    s.find lookup v raw = .error (lookup.notFound name spaces) := by
  rw [find_of_searches hSearches, ← List.append_nil spaces, firstMatch_append hNone]
  rw [List.append_nil]
  rfl

/-- What a name finds is what the search gives. -/
theorem Finds.find_eq {r : Except Failure (ElementType H)} (h : s.Finds lookup v raw r) :
    s.find lookup v raw = r := by
  cases h with
  | undeclared qualifier name hWhole hNone => exact find_of_undeclared hWhole hNone
  | unique hSearches hBefore hHere =>
    rw [find_of_decides hSearches ⟨hBefore, by rw [hHere]; exact List.cons_ne_nil _ _⟩, hHere]
    rfl
  | ambiguous hSearches hBefore hHere =>
    rw [find_of_decides hSearches ⟨hBefore, List.ne_nil_of_length_pos (Nat.zero_lt_of_lt hHere)⟩,
      decision_of_several hHere]
  | notFound hSearches hNone => exact find_of_none hSearches hNone

/-- Every name finds something, or fails in the way that is told. -/
theorem finds_find (s : NameScope) (lookup : Lookup) (v : Vocabulary H) (raw : String) :
    s.Finds lookup v raw (s.find lookup v raw) := by
  rcases searches_or_undeclared s raw with
    ⟨spaces, name, hSearches⟩ | ⟨qualifier, name, hWhole, rfl, hNone⟩
  · rcases v.decides_or_none lookup name spaces with ⟨before, space, after, rfl, hDecides⟩ | hNone
    · have hFind := find_of_decides hSearches hDecides
      rw [hFind]
      cases hHere : v.named lookup name space with
      | nil => exact absurd hHere hDecides.here
      | cons first rest =>
        cases rest with
        | nil => exact .unique hSearches hDecides.none_before hHere
        | cons second rest =>
          have hSeveral : 1 < (v.named lookup name space).length := by
            rw [hHere]
            exact Nat.succ_lt_succ (Nat.succ_pos _)
          rw [← hHere, decision_of_several hSeveral]
          exact .ambiguous hSearches hDecides.none_before hSeveral
    · rw [find_of_none hSearches hNone]
      exact .notFound hSearches hNone
  · rw [find_of_undeclared hWhole hNone]
    exact .undeclared qualifier name hWhole hNone

/-! ### What a decision does not depend on -/

/-- A name that is found or ambiguous is decided by some namespace. -/
theorem exists_decides
    (h : (∃ type, s.find lookup v raw = .ok type) ∨
      ∃ name space count, s.find lookup v raw = .error (.ambiguousType name space count)) :
    ∃ before space after name, s.Searches raw (before ++ space :: after) name ∧
      v.Decides lookup name before space := by
  have hFinds := finds_find s lookup v raw
  generalize s.find lookup v raw = r at h hFinds
  cases hFinds with
  | undeclared => simp at h
  | unique hSearches hBefore hHere =>
    exact ⟨_, _, _, _, hSearches, hBefore, by rw [hHere]; exact List.cons_ne_nil _ _⟩
  | ambiguous hSearches hBefore hHere =>
    exact ⟨_, _, _, _, hSearches, hBefore, List.ne_nil_of_length_pos (Nat.zero_lt_of_lt hHere)⟩
  | notFound => cases lookup <;> simp [Lookup.notFound] at h

/-- Only the namespaces up to the deciding one matter. -/
theorem find_congr {v' : Vocabulary H} (hSearches : s.Searches raw (before ++ space :: after) name)
    (hDecides : v.Decides lookup name before space)
    (hSame : ∀ other ∈ before ++ [space], v'.enumerate other = v.enumerate other) :
    s.find lookup v' raw = s.find lookup v raw := by
  have hNamed : ∀ other ∈ before ++ [space],
      v'.named lookup name other = v.named lookup name other := by
    intro other hMem
    rw [Vocabulary.named_eq_filter_enumerate, hSame other hMem,
      Vocabulary.named_eq_filter_enumerate]
  have hHere := hNamed space (by simp)
  have hDecides' : v'.Decides lookup name before space :=
    ⟨fun other hMem => (hNamed other (List.mem_append_left _ hMem)).trans
      (hDecides.none_before other hMem), by rw [hHere]; exact hDecides.here⟩
  rw [find_of_decides hSearches hDecides, find_of_decides hSearches hDecides', hHere]

/-- A namespace that is searched again has no influence, if any has a match. -/
theorem firstMatch_again {pre rest : List String} {again : String} {notFound notFound' : Failure}
    (hAgain : again ∈ pre) (hHere : v.named lookup name space ≠ []) (hMem : space ∈ pre ++ rest) :
    firstMatch v (lookup.isMatch name) name notFound (pre ++ again :: rest) =
      firstMatch v (lookup.isMatch name) name notFound' (pre ++ rest) := by
  rcases v.decides_or_none lookup name pre with ⟨before, first, after, rfl, hDecides⟩ | hPre
  · rw [List.append_assoc, List.append_assoc, List.cons_append, List.cons_append,
      firstMatch_of_decides hDecides, firstMatch_of_decides hDecides]
  · have hTwice : ∀ other ∈ pre ++ [again], v.named lookup name other = [] := by
      intro other hOther
      rcases List.mem_append.1 hOther with hOther | hOther
      · exact hPre other hOther
      · exact hPre other (List.mem_singleton.1 hOther ▸ hAgain)
    rw [List.append_cons, firstMatch_append hTwice, firstMatch_append hPre]
    rcases v.decides_or_none lookup name rest with ⟨before, first, after, rfl, hDecides⟩ | hRest
    · rw [firstMatch_of_decides hDecides, firstMatch_of_decides hDecides]
    · rcases List.mem_append.1 hMem with hMem | hMem
      · exact absurd (hPre space hMem) hHere
      · exact absurd (hRest space hMem) hHere

/-- **Names resolve to the only match of the first namespace that has one.** A lookup of a type or
an extension gives what the first namespace with a match says: its only match, or that it has
several, with their number; it tells all searched namespaces if none has a match. What it finds
does not change when the vocabulary changes in other namespaces than those up to the deciding one,
or when a default namespace comes again. -/
theorem find_first_match (s : NameScope) (lookup : Lookup) (v : Vocabulary H) (raw : String) :
    (∀ r, s.find lookup v raw = r ↔ s.Finds lookup v raw r) ∧
    (∀ before space after name, s.Searches raw (before ++ space :: after) name →
      v.Decides lookup name before space →
      (∀ v' : Vocabulary H, (∀ other ∈ before ++ [space], v'.enumerate other = v.enumerate other) →
        s.find lookup v' raw = s.find lookup v raw) ∧
      ∀ more : List (ElementType H), (∀ t ∈ more, t.key.space ∉ before ++ [space]) →
        s.find lookup (more.foldl Vocabulary.register v) raw = s.find lookup v raw) ∧
    ((∃ type, s.find lookup v raw = .ok type) ∨
        (∃ name space count, s.find lookup v raw = .error (.ambiguousType name space count)) →
      (∃ before space after name, s.Searches raw (before ++ space :: after) name ∧
        v.Decides lookup name before space) ∧
      ∀ pre post again, s.defaults = pre ++ post → again ∈ pre →
        ({ s with defaults := pre ++ again :: post } : NameScope).find lookup v raw =
          s.find lookup v raw) := by
  refine ⟨fun r => ⟨fun h => h ▸ finds_find s lookup v raw, Finds.find_eq⟩,
    fun before space after name hSearches hDecides => ⟨fun v' hSame =>
      find_congr hSearches hDecides hSame, fun more hMore => ?_⟩, fun hDecided => ?_⟩
  · refine find_congr hSearches hDecides fun other hMem => ?_
    exact v.enumerate_foldl_register fun t hT hSpace => hMore t hT (hSpace ▸ hMem)
  · obtain ⟨before, space, after, name, hSearches, hDecides⟩ := exists_decides hDecided
    refine ⟨⟨before, space, after, name, hSearches, hDecides⟩,
      fun pre post again hDefaults hAgain => ?_⟩
    obtain ⟨spaces', hSearches', rfl | ⟨rest, hSplit, rfl⟩⟩ :=
      hSearches.repeat_default hDefaults hAgain
    · rw [find_of_searches hSearches, find_of_searches hSearches']
    · rw [find_of_searches hSearches, find_of_searches hSearches', hSplit]
      exact firstMatch_again hAgain hDecides.here (hSplit ▸ by simp)

end NameScope

/-! ### Buttons in several namespaces -/

namespace Buttons

/-- A type without properties. -/
def plain (space name : String) : ElementType Record.host :=
  .assemble Record.view ⟨space, name⟩ []

/-- A vocabulary with buttons in two namespaces, and two of them in one. -/
def vocabulary : Vocabulary Record.host :=
  ⟨[plain "urn:a" "Slider", plain "urn:b" "Button", plain "urn:b" "Button"]⟩

/-- A scope with a qualifier and two namespaces for unqualified names. -/
def scope : NameScope := ⟨[("c", "urn:c")], ["urn:a", "urn:b"]⟩

/-- The unqualified name searches the namespaces in order, and that of the library last. -/
theorem searches : scope.Searches "Button" (["urn:a"] ++ "urn:b" :: [metadataSpace]) "Button" :=
  .metadataLast (by decide) (by decide)

/-- The second namespace decides about the name. -/
theorem decides : vocabulary.Decides .type "Button" ["urn:a"] "urn:b" where
  none_before := by
    intro other hMem
    rw [List.mem_singleton.1 hMem]
    rfl
  here := List.cons_ne_nil _ _

end Buttons

/-- A button that is registered twice is ambiguous, also when there are more of its name in the
namespace of metadata or when a namespace is searched again. -/
theorem NameScope.find_first_match_buttons :
    Buttons.scope.find .type Buttons.vocabulary "Button" =
      .error (.ambiguousType "Button" "urn:b" 2) ∧
    Buttons.scope.find .type (Buttons.vocabulary.register (Buttons.plain metadataSpace "Button"))
      "Button" = .error (.ambiguousType "Button" "urn:b" 2) ∧
    NameScope.find ⟨[("c", "urn:c")], ["urn:a", "urn:b", "urn:a"]⟩ .type Buttons.vocabulary
      "Button" = .error (.ambiguousType "Button" "urn:b" 2) ∧
    Buttons.scope.find .type Buttons.vocabulary "d:Button" = .error (.unknownQualifier "d") := by
  obtain ⟨hIff, hRegister, hAgain⟩ :=
    NameScope.find_first_match Buttons.scope .type Buttons.vocabulary "Button"
  have hFind := (hIff _).2
    (.ambiguous Buttons.searches Buttons.decides.none_before (Nat.lt_succ_self 1))
  refine ⟨hFind, ?_, ?_, ?_⟩
  · exact ((hRegister _ _ _ _ Buttons.searches Buttons.decides).2
      [Buttons.plain metadataSpace "Button"]
      (List.forall_mem_singleton.2 (by decide))).trans hFind
  · exact ((hAgain (.inr ⟨_, _, _, hFind⟩)).2 ["urn:a", "urn:b"] [] "urn:a" rfl
      (by decide)).trans hFind
  · exact ((NameScope.find_first_match Buttons.scope .type Buttons.vocabulary "d:Button").1 _).2
      (.undeclared "d" "Button" (by decide) rfl)

end ObjectMarkup
