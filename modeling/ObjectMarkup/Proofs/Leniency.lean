import ObjectMarkup.Proofs.Growth

/-!
# Leniency

A lenient compiler passes over metadata that it does not know, and a strict one refuses it. Nothing
else is different: what a lenient compiler makes of a stream, a strict one makes of the stream without
the unknown metadata on its elements (`Compiler.lenient_eq_strict`). Property tags keep theirs, since
they may have no attributes at all.

What a qualifier means is not known before the start tag of the root is complete. So the two runs are
compared from one event to the next, where the strict one has the same start tag without the unknown
metadata (`Construction.without`), and the scope is the one that the root declares.
-/

set_option autoImplicit false

namespace ObjectMarkup

open Operation

variable {H : Host}

/-! ### Unknown metadata -/

/-- Whether an attribute is metadata other than the key and the identifier. -/
def NameScope.isUnknownMetadata (scope : NameScope) (name : String) : Bool :=
  (Name.declaredQualifier name).isNone &&
    match Name.splitQualifier name with
    | (none, _) => false
    | (some qualifier, rest) =>
      (scope.spaceOf qualifier).toOption == some metadataSpace &&
        (rest != keyAttribute && rest != identifierAttribute)

/-- Attributes without unknown metadata. -/
def NameScope.knownOf (scope : NameScope) (attributes : List (String × String)) :
    List (String × String) :=
  attributes.filter fun x => !scope.isUnknownMetadata x.1

/-- A declaration of a qualifier is not unknown metadata. -/
theorem NameScope.not_isUnknownMetadata_of_declared (scope : NameScope) {name qualifier : String}
    (h : Name.declaredQualifier name = some qualifier) : scope.isUnknownMetadata name = false := by
  rw [isUnknownMetadata, h]
  rfl

namespace Markup

/-- Where in a stream an event comes. -/
inductive Spot where
  /-- Before the start tag of the root. -/
  | front
  /-- In the start tag of an element. -/
  | element
  | other
deriving DecidableEq

namespace Spot

/-- Where the event after this one comes. -/
def next (spot : Spot) : Event → Spot
  | .start name => if spot = .front ∨ (Name.splitProperty name).isNone then .element else .other
  | .attribute _ _ => spot
  | .text _ | .finish => if spot = .front then .front else .other

/-- Whether an event is unknown metadata of an element. -/
def isIdle (spot : Spot) (scope : NameScope) : Event → Bool
  | .attribute name _ => spot = .element && scope.isUnknownMetadata name
  | _ => false

end Spot

/-- A stream without the unknown metadata of its elements. -/
def withoutUnknown (scope : NameScope) :
    Spot → List (Except Fault Event) → List (Except Fault Event)
  | _, [] => []
  | spot, .error fault :: rest => .error fault :: withoutUnknown scope spot rest
  | spot, .ok event :: rest =>
    if spot.isIdle scope event then withoutUnknown scope spot rest
    else .ok event :: withoutUnknown scope (spot.next event) rest

/-- The start tag that an event begins, if it does. -/
def Event.opening? : Event → Option StartTag
  | .start name => some ⟨name, []⟩
  | _ => none

end Markup

/-- A setting in which unknown metadata is refused or not. -/
def Setting.withStrict (setting : Setting H) (strict : Bool) : Setting H := { setting with strict }

/-! ### Start tags -/

namespace Interpret

variable {scope : NameScope} {attributes : List (String × String)}

/-- Unknown metadata declares nothing, so what declarations are forbidden is the same without it. -/
theorem outcome_forbidDeclarations_knownOf (tag : String) (a : Assembly H) :
    outcome (forbidDeclarations tag (scope.knownOf attributes)) a =
      outcome (forbidDeclarations tag attributes) a := by
  unfold NameScope.knownOf
  induction attributes with
  | nil => rfl
  | cons first rest ih =>
    by_cases hUnknown : scope.isUnknownMetadata first.1 = true
    · have hDeclared : (Name.declaredQualifier first.1).isSome = false := by
        cases h : Name.declaredQualifier first.1 with
        | none => rfl
        | some qualifier =>
          rw [scope.not_isUnknownMetadata_of_declared h] at hUnknown
          cases hUnknown
      rw [List.filter_cons_of_neg (by simpa using hUnknown), ih]
      conv => rhs; rw [forbidDeclarations, hDeclared, if_neg Bool.false_ne_true]
    · rw [List.filter_cons_of_pos (by simpa using hUnknown)]
      unfold forbidDeclarations
      split
      · rfl
      · exact ih

/-- Without unknown metadata the same namespaces are declared, and what is left lacks it too. -/
theorem outcome_declareNamespaces_knownOf (a : Assembly H) :
    outcome (declareNamespaces (scope.knownOf attributes)) a =
      (outcome (declareNamespaces attributes) a).map fun p => (scope.knownOf p.1, p.2) := by
  unfold NameScope.knownOf
  induction attributes generalizing a with
  | nil => rfl
  | cons first rest ih =>
    cases hDeclared : Name.declaredQualifier first.1 with
    | some qualifier =>
      have hKnown := scope.not_isUnknownMetadata_of_declared hDeclared
      rw [List.filter_cons_of_pos (by simpa using hKnown)]
      unfold declareNamespaces
      simp only [hDeclared, outcome_bind, outcome_modify, except_ok_bind, ih]
    | none =>
      have hKept (others : List (String × String)) :
          outcome (declareNamespaces (first :: others)) a =
            (outcome (declareNamespaces others) a).map fun p => (first :: p.1, p.2) := by
        conv => lhs; unfold declareNamespaces
        simp only [hDeclared, outcome_bind, outcome_pure, except_bind_ok]
      by_cases hUnknown : scope.isUnknownMetadata first.1 = true
      · rw [List.filter_cons_of_neg (by simpa using hUnknown), ih, hKept, except_map_map]
        simp only [List.filter_cons, hUnknown, Bool.not_true, Bool.false_eq_true, if_false]
      · rw [List.filter_cons_of_pos (by simpa using hUnknown), hKept, hKept, ih, except_map_map,
          except_map_map]
        simp only [List.filter_cons, hUnknown, Bool.not_false, if_true]

variable [Hooks H] (setting : Setting H) {path : List (Enclosing H)} {object : ObjectId}
  {m : Metadata} {name value : String} {a : Assembly H}

/-- A lenient compiler passes over unknown metadata. -/
theorem outcome_applyAttribute_of_unknown (h : a.scope.isUnknownMetadata name = true) :
    outcome (applyAttribute (setting.withStrict false) path object m name value) a = .ok (m, a) := by
  unfold NameScope.isUnknownMetadata at h
  rw [Bool.and_eq_true] at h
  obtain ⟨-, h⟩ := h
  unfold applyAttribute
  rcases hSplit : Name.splitQualifier name with ⟨_ | qualifier, rest⟩
  · rw [hSplit] at h
    cases h
  · simp only [hSplit, Bool.and_eq_true, beq_iff_eq, bne_iff_ne] at h
    obtain ⟨hSpace, hKey, hIdentifier⟩ := h
    cases hFound : a.scope.spaceOf qualifier with
    | error failure =>
      rw [hFound] at hSpace
      cases hSpace
    | ok space =>
      rw [hFound] at hSpace
      cases hSpace
      simp only [outcome_bind, outcome_get, except_ok_bind, outcome_ofExcept, hFound, except_ok_map]
      rw [if_neg (not_not.2 rfl), if_neg hKey, if_neg hIdentifier]
      rfl

/-- About all other attributes compilers agree. -/
theorem outcome_applyAttribute_of_known (hDeclared : Name.declaredQualifier name = none)
    (h : a.scope.isUnknownMetadata name = false) :
    outcome (applyAttribute (setting.withStrict false) path object m name value) a =
      outcome (applyAttribute (setting.withStrict true) path object m name value) a := by
  unfold NameScope.isUnknownMetadata at h
  unfold applyAttribute
  rcases hSplit : Name.splitQualifier name with ⟨_ | qualifier, rest⟩
  · rfl
  · simp only [outcome_bind, outcome_get, except_ok_bind, outcome_ofExcept]
    cases hFound : a.scope.spaceOf qualifier with
    | error failure => rfl
    | ok space =>
      simp only [except_ok_map, except_ok_bind]
      split
      · rfl
      · next hSpace =>
        split
        · rfl
        · next hKey =>
          split
          · rfl
          · next hIdentifier =>
            rw [not_not] at hSpace
            simp [hDeclared, hSplit, hFound, hSpace, Except.toOption, hKey, hIdentifier] at h

/-- A lenient compiler applies what a strict one applies of the known attributes. -/
theorem outcome_applyAttributes_knownOf (hScope : a.scope = scope)
    (hDeclared : ∀ x ∈ attributes, Name.declaredQualifier x.1 = none) :
    outcome (applyAttributes (setting.withStrict false) path object m attributes) a =
      outcome (applyAttributes (setting.withStrict true) path object m (scope.knownOf attributes))
        a := by
  unfold NameScope.knownOf
  induction attributes generalizing m a with
  | nil => rfl
  | cons first rest ih =>
    obtain ⟨hFirst, hRest⟩ := List.forall_mem_cons.1 hDeclared
    conv => lhs; unfold applyAttributes
    rw [outcome_bind]
    by_cases hUnknown : scope.isUnknownMetadata first.1 = true
    · rw [List.filter_cons_of_neg (by simpa using hUnknown),
        outcome_applyAttribute_of_unknown setting (by rw [hScope]; exact hUnknown), except_ok_bind]
      exact ih hScope hRest
    · rw [List.filter_cons_of_pos (by simpa using hUnknown)]
      have hKnown : a.scope.isUnknownMetadata first.1 = false := by
        rw [hScope]
        simpa using hUnknown
      conv => rhs; unfold applyAttributes
      rw [outcome_bind, outcome_applyAttribute_of_known setting hFirst hKnown]
      cases hApply : outcome
          (applyAttribute (setting.withStrict true) path object m first.1 first.2) a with
      | error failure => rfl
      | ok p =>
        have hDoes := (of_applyAttribute (outcome_eq_ok.1 hApply) hFirst).1
        exact ih (hDoes.grows.scope.trans hScope) hRest

end Interpret

namespace Construct

variable [Hooks H] (setting : Setting H) {scope : NameScope}

/-- A lenient compiler opens an element as a strict one opens it with its known attributes. -/
theorem outcome_openObject_knownOf {a : Assembly H} (hScope : a.scope = scope) (name : String)
    {attributes : List (String × String)}
    (hDeclared : ∀ x ∈ attributes, Name.declaredQualifier x.1 = none) (stack : List (OpenElement H))
    (tag : Option StartTag) (root : Option Value) :
    outcome (openObject (setting.withStrict false) name attributes) ⟨a, stack, tag, root⟩ =
      outcome (openObject (setting.withStrict true) name (scope.knownOf attributes))
        ⟨a, stack, tag, root⟩ := by
  have hSame : Interpret.make (setting.withStrict false) name =
      Interpret.make (setting.withStrict true) name := rfl
  rw [outcome_openObject, outcome_openObject, hSame]
  cases hMake : outcome (Interpret.make (setting.withStrict true) name) a with
  | error failure => rfl
  | ok p =>
    have hGrows := (Interpret.does_of_make (outcome_eq_ok.1 hMake)).grows
    rw [except_ok_bind, except_ok_bind,
      Interpret.outcome_applyAttributes_knownOf setting (hGrows.scope.trans hScope) hDeclared]

/-- A lenient compiler opens an element as a strict one does without the unknown metadata. -/
theorem outcome_openTag_element {t : StartTag} {s : Construction H}
    (hScope : (if s.stack.isEmpty && s.root.isNone then s.assembly.scope.declareAll t.attributes
      else s.assembly.scope) = scope)
    (hElement : s.stack = [] ∨ Name.splitProperty t.name = none) :
    outcome (openTag (setting.withStrict false) t) s =
      outcome (openTag (setting.withStrict true) { t with attributes := scope.knownOf t.attributes })
        s := by
  obtain ⟨a, stack, tag, root⟩ := s
  cases stack with
  | nil =>
    rw [outcome_openTag_root, outcome_openTag_root]
    cases root with
    | some value => rfl
    | none =>
      simp only [Option.isSome_none, Bool.false_eq_true, if_false]
      rw [Interpret.outcome_declareNamespaces_knownOf, except_map_bind]
      cases hDeclare : outcome (Interpret.declareNamespaces t.attributes) a with
      | error failure => rfl
      | ok p =>
        obtain ⟨hOthers, hAfter⟩ := Interpret.of_declareNamespaces (outcome_eq_ok.1 hDeclare)
        refine outcome_openObject_knownOf setting ?_ t.name (fun x hMem => ?_) [] tag none
        · rw [hAfter]
          exact hScope
        · rw [hOthers] at hMem
          simpa using (List.mem_filter.1 hMem).2
  | cons e outer =>
    have hWhole := hElement.resolve_left (List.cons_ne_nil e outer)
    rw [outcome_openTag_nested, outcome_openTag_nested, Interpret.outcome_forbidDeclarations_knownOf]
    cases hForbid : outcome (Interpret.forbidDeclarations t.name t.attributes) a with
    | error failure => rfl
    | ok p =>
      obtain ⟨hSame, hDeclared⟩ := Interpret.of_forbidDeclarations (outcome_eq_ok.1 hForbid)
      simp only [except_ok_bind, hWhole]
      refine outcome_openObject_knownOf setting ?_ t.name hDeclared (e :: outer) tag root
      rw [hSame]
      exact hScope

/-- About property tags compilers agree. -/
theorem outcome_openTag_property {t : StartTag} {s : Construction H} (hStarted : s.Started)
    (hProperty : (Name.splitProperty t.name).isSome = true) :
    outcome (openTag (setting.withStrict false) t) s =
      outcome (openTag (setting.withStrict true) t) s := by
  obtain ⟨a, stack, tag, root⟩ := s
  cases stack with
  | nil =>
    rw [outcome_openTag_root, outcome_openTag_root]
    rcases hStarted with hOpen | hOver
    · exact absurd rfl hOpen
    · rw [if_pos hOver, if_pos hOver]
  | cons e outer =>
    obtain ⟨split, hSplit⟩ := Option.isSome_iff_exists.1 hProperty
    rw [outcome_openTag_nested, outcome_openTag_nested]
    simp only [hSplit]
    rfl

end Construct

/-! ### Events -/

namespace Construction

/-- A construction without the unknown metadata of the start tag that is pending. -/
def without (scope : NameScope) (spot : Markup.Spot) (s : Construction H) : Construction H :=
  match spot with
  | .element =>
    { s with tag := s.tag.map fun t => { t with attributes := scope.knownOf t.attributes } }
  | _ => s

/-- The construction is at a spot of its stream. -/
def At (s : Construction H) : Markup.Spot → Prop
  | .front => s.stack = [] ∧ s.root = none ∧ s.tag = none
  | .element => ∃ t, s.tag = some t ∧ (s.stack = [] ∨ Name.splitProperty t.name = none)
  | .other => s.Started ∧ ∀ t ∈ s.tag, (Name.splitProperty t.name).isSome = true

/-- The attributes of a start tag are at the same spot as the tag. -/
theorem At.attribute {s : Construction H} {spot : Markup.Spot} {t : StartTag} (h : s.At spot)
    (hTag : s.tag = some t) (attributes : List (String × String)) :
    At { s with tag := some { t with attributes } } spot := by
  cases spot with
  | front =>
    obtain ⟨-, -, hNone⟩ := h
    rw [hTag] at hNone
    cases hNone
  | element =>
    obtain ⟨t', hTag', hElement⟩ := h
    rw [hTag] at hTag'
    cases hTag'
    exact ⟨_, rfl, hElement⟩
  | other =>
    refine ⟨h.1, ?_⟩
    rintro t' ⟨⟩
    exact h.2 t hTag

/-- A construction that was begun is at another spot when no tag is pending. -/
theorem at_other {s : Construction H} (hStarted : s.Started) (hTag : s.tag = none) : s.At .other := by
  refine ⟨hStarted, ?_⟩
  rw [hTag]
  rintro t ⟨⟩

/-- A tag that was just begun has no attributes that could be left out. -/
theorem without_of_opening {s : Construction H} {event : Markup.Event} (hTag : s.tag = event.opening?)
    (scope : NameScope) (spot : Markup.Spot) : s.without scope spot = s := by
  obtain ⟨a, stack, tag, root⟩ := s
  cases hTag
  cases spot <;> cases event <;> rfl

end Construction

variable [Hooks H]

/-- No invariant at all; only the scope in which evaluations happen is kept. -/
theorem Upkeep.nothing (setting : Setting H) (S : NameScope → Prop) :
    Upkeep setting S (fun _ => True) (fun _ => True) (fun _ _ => True) := by
  constructor <;> intros <;> trivial

namespace Construct

variable (setting : Setting H) {scope : NameScope} {spot : Markup.Spot} {s s' : Construction H}
  {event : Markup.Event}

/-- A start tag is complete when something else than an attribute comes, and means the same to
compilers. -/
theorem outcome_completeTag_without (hAt : s.At spot) {rest : List Markup.Event}
    (hScope : s.scopeAfter rest = scope) (hRest : Markup.leadingAttributes rest = []) :
    outcome (completeTag (setting.withStrict false)) s =
      outcome (completeTag (setting.withStrict true)) (s.without scope spot) := by
  cases spot with
  | front =>
    obtain ⟨-, -, hTag⟩ := hAt
    rw [outcome_completeTag_of_none _ hTag]
    exact (outcome_completeTag_of_none _ hTag).symm
  | element =>
    obtain ⟨t, hTag, hElement⟩ := hAt
    simp only [Construction.scopeAfter, hTag, hRest, List.append_nil] at hScope
    have hTag' : (s.without scope .element).tag =
        some { t with attributes := scope.knownOf t.attributes } :=
      congrArg (Option.map _) hTag
    rw [outcome_completeTag_of_some _ hTag, outcome_completeTag_of_some _ hTag']
    exact outcome_openTag_element (s := { s with tag := none }) setting hScope hElement
  | other =>
    obtain ⟨hStarted, hProperty⟩ := hAt
    show _ = outcome (completeTag (setting.withStrict true)) s
    cases hTag : s.tag with
    | none => rw [outcome_completeTag_of_none _ hTag, outcome_completeTag_of_none _ hTag]
    | some t =>
      rw [outcome_completeTag_of_some _ hTag, outcome_completeTag_of_some _ hTag]
      exact outcome_openTag_property (s := { s with tag := none }) setting hStarted (hProperty t hTag)

/-- The end of a document does the same to both constructions. -/
theorem outcome_finish_without (hAt : s.At spot) (hScope : s.scopeAfter [] = scope) :
    outcome (finish (setting.withStrict false)) s =
      outcome (finish (setting.withStrict true)) (s.without scope spot) := by
  have hTag := outcome_completeTag_without setting hAt hScope rfl
  unfold finish
  rw [outcome_bind, outcome_bind, hTag]
  rfl

/-- All but attributes do the same to both constructions. -/
theorem outcome_feed_without (hAt : s.At spot) {rest : List Markup.Event}
    (hOther : ∀ name value, event ≠ .attribute name value)
    (hScope : s.scopeAfter (event :: rest) = scope) :
    outcome (feed (setting.withStrict false) event) s =
      outcome (feed (setting.withStrict true) event) (s.without scope spot) := by
  have hRest : Markup.leadingAttributes (event :: rest) = [] := by
    cases event with
    | «attribute» name value => exact absurd rfl (hOther name value)
    | _ => rfl
  have hTag := outcome_completeTag_without setting hAt hScope hRest
  cases event with
  | «attribute» name value => exact absurd rfl (hOther name value)
  | start name =>
    unfold feed
    rw [outcome_bind, outcome_bind, hTag]
  | text content =>
    unfold feed
    rw [outcome_bind, outcome_bind, hTag]
  | finish =>
    unfold feed
    rw [outcome_bind, outcome_bind, hTag]
    rfl

/-- The attribute of a start tag joins those before it. -/
theorem outcome_feed_attribute {t : StartTag} (hTag : s.tag = some t) (name value : String) :
    outcome (feed setting (.attribute name value)) s =
      .ok ((), { s with tag := some { t with attributes := t.attributes ++ [(name, value)] } }) := by
  unfold feed
  simp only [outcome_bind, outcome_get, except_ok_bind, hTag]
  rfl

/-- An attribute without a start tag before it fails. -/
theorem outcome_feed_attribute_of_none (hTag : s.tag = none) (name value : String) :
    outcome (feed setting (.attribute name value)) s =
      .error (.structural (.strayAttribute name)) := by
  unfold feed
  simp only [outcome_bind, outcome_get, except_ok_bind, hTag]
  rfl

/-- After all but attributes, the root is open or over, and only the tag that was begun is pending. -/
theorem ends_feed_started (hBegun : s.Started ∨ s.tag.isSome = true)
    (hOther : ∀ name value, event ≠ .attribute name value) :
    Ends (feed setting event) s (fun _ s' => s'.Started ∧ s'.tag = event.opening?)
      (fun _ _ => True) := by
  have u := Upkeep.nothing setting fun _ => True
  have hComplete : Ends (completeTag setting) s
      (fun _ => Course.Begun (fun _ => True) (fun _ => True) (fun _ => True)) (fun _ _ => True) := by
    refine .bind_get ?_
    split
    · next hTag =>
      rw [hTag] at hBegun
      exact ⟨trivial, hBegun.resolve_right Bool.false_ne_true, trivial, fun _ _ => trivial, hTag⟩
    · exact .bind_set (u.course.openTag trivial rfl trivial (fun _ _ => trivial) fun _ _ _ => trivial)
  cases event with
  | «attribute» name value => exact absurd rfl (hOther name value)
  | start name => exact hComplete.bind fun _ s₁ h₁ => ⟨h₁.begun, rfl⟩
  | text content =>
    refine hComplete.bind fun _ s₁ h₁ => .bind_get ?_
    split
    · trivial
    · split
      · trivial
      · exact ⟨.inl (List.cons_ne_nil _ _), h₁.tag⟩
  | finish =>
    refine hComplete.bind fun _ s₁ h₁ => ?_
    exact (u.course.endTag h₁).mono (fun _ s₂ h₂ => ⟨h₂.begun, h₂.tag⟩) fun _ _ _ => trivial

/-- All but attributes leave no other tag pending than the one they begin. -/
theorem at_next_of_other (hAt : s.At spot) (hOther : ∀ name value, event ≠ .attribute name value)
    (hFeed : feed setting event s = .ok () s') :
    s'.tag = event.opening? ∧ s'.At (spot.next event) := by
  by_cases hFront : spot = .front
  · subst hFront
    obtain ⟨a, stack, tag, root⟩ := s
    obtain ⟨rfl, rfl, rfl⟩ := hAt
    cases event with
    | start name =>
      cases hFeed
      rw [Markup.Spot.next, if_pos (.inl rfl)]
      exact ⟨rfl, ⟨name, []⟩, rfl, .inl rfl⟩
    | «attribute» name value => cases hFeed
    | text content => cases hFeed
    | finish => cases hFeed
  · have hBegun : s.Started ∨ s.tag.isSome = true := by
      cases spot with
      | front => exact absurd rfl hFront
      | element =>
        obtain ⟨t, hTag, -⟩ := hAt
        rw [hTag]
        exact .inr rfl
      | other => exact .inl hAt.1
    obtain ⟨hStarted, hTag⟩ := (ends_feed_started setting hBegun hOther).of_ok hFeed
    refine ⟨hTag, ?_⟩
    cases event with
    | «attribute» name value => exact absurd rfl (hOther name value)
    | start name =>
      by_cases hWhole : (Name.splitProperty name).isNone = true
      · rw [Markup.Spot.next, if_pos (.inr hWhole)]
        exact ⟨⟨name, []⟩, hTag, .inr (Option.isNone_iff_eq_none.1 hWhole)⟩
      · rw [Markup.Spot.next, if_neg (not_or.2 ⟨hFront, hWhole⟩)]
        refine ⟨hStarted, ?_⟩
        rw [hTag]
        rintro t ⟨⟩
        exact Option.isSome_iff_ne_none.2 (by simpa using hWhole)
    | text content =>
      rw [Markup.Spot.next, if_neg hFront]
      exact Construction.at_other hStarted hTag
    | finish =>
      rw [Markup.Spot.next, if_neg hFront]
      exact Construction.at_other hStarted hTag

/-- An event leads to the next spot. -/
theorem at_next (hAt : s.At spot) (hFeed : feed setting event s = .ok () s') :
    s'.At (spot.next event) := by
  by_cases hOther : ∀ name value, event ≠ .attribute name value
  · exact (at_next_of_other setting hAt hOther hFeed).2
  · simp only [not_forall, not_not] at hOther
    obtain ⟨name, value, rfl⟩ := hOther
    cases hTag : s.tag with
    | none =>
      cases (outcome_feed_attribute_of_none setting hTag ..).symm.trans (outcome_eq_ok.2 hFeed)
    | some t =>
      cases (outcome_feed_attribute setting hTag ..).symm.trans (outcome_eq_ok.2 hFeed)
      exact hAt.attribute hTag _

omit [Hooks H] in
/-- An attribute that is not left out joins those before it in both constructions. -/
theorem without_attribute {t : StartTag} {name value : String} (hTag : s.tag = some t)
    (hIdle : spot.isIdle scope (.attribute name value) = false) :
    ∃ t', (s.without scope spot).tag = some t' ∧
      Construction.without scope spot
          { s with tag := some { t with attributes := t.attributes ++ [(name, value)] } } =
        { s.without scope spot with
          tag := some { t' with attributes := t'.attributes ++ [(name, value)] } } := by
  cases spot with
  | element =>
    have hKnown : scope.isUnknownMetadata name = false := hIdle
    refine ⟨{ t with attributes := scope.knownOf t.attributes }, congrArg (Option.map _) hTag, ?_⟩
    simp [Construction.without, NameScope.knownOf, hKnown]
  | front => exact ⟨t, hTag, rfl⟩
  | other => exact ⟨t, hTag, rfl⟩

/-- What is not left out does to both constructions the same. -/
theorem outcome_feed_kept (hAt : s.At spot) {rest : List Markup.Event}
    (hScope : s.scopeAfter (event :: rest) = scope) (hKept : spot.isIdle scope event = false) :
    outcome (feed (setting.withStrict true) event) (s.without scope spot) =
      (outcome (feed (setting.withStrict false) event) s).map fun p =>
        (p.1, p.2.without scope (spot.next event)) := by
  by_cases hOther : ∀ name value, event ≠ .attribute name value
  · rw [← outcome_feed_without setting hAt hOther hScope]
    cases hFeed : outcome (feed (setting.withStrict false) event) s with
    | error failure => rfl
    | ok p =>
      obtain ⟨hTag, -⟩ := at_next_of_other _ hAt hOther (outcome_eq_ok.1 hFeed)
      rw [except_ok_map, Construction.without_of_opening hTag]
  · simp only [not_forall, not_not] at hOther
    obtain ⟨name, value, rfl⟩ := hOther
    cases hTag : s.tag with
    | none =>
      have hTag' : (s.without scope spot).tag = none := by
        cases spot with
        | element => exact congrArg (Option.map _) hTag
        | front => exact hTag
        | other => exact hTag
      rw [outcome_feed_attribute_of_none _ hTag, outcome_feed_attribute_of_none _ hTag']
      rfl
    | some t =>
      obtain ⟨t', hTag', hJoined⟩ := without_attribute hTag hKept
      rw [outcome_feed_attribute _ hTag, outcome_feed_attribute _ hTag', except_ok_map]
      exact congrArg (fun s => Except.ok ((), s)) hJoined.symm

/-- What is left out does nothing to the construction without it. -/
theorem exists_feed_idle (hAt : s.At spot) (hIdle : spot.isIdle scope event = true) :
    ∃ s', feed setting event s = .ok () s' ∧ s'.At spot ∧
      s'.without scope spot = s.without scope spot := by
  cases event with
  | «attribute» name value =>
    obtain ⟨hSpot, hUnknown⟩ := Bool.and_eq_true_iff.1 hIdle
    obtain rfl := of_decide_eq_true hSpot
    obtain ⟨t, hTag, -⟩ := id hAt
    refine ⟨_, outcome_eq_ok.1 (outcome_feed_attribute setting hTag name value),
      hAt.attribute hTag _, ?_⟩
    simp [Construction.without, NameScope.knownOf, hUnknown, hTag]
  | _ => cases hIdle

end Construct

/-! ### Runs -/

namespace Compiler

variable {setting : Setting H} {scope : NameScope} {settings : Settings}

/-- From any spot of a stream on, a lenient run does what a strict one does without unknown
metadata. -/
theorem outcome_run_withoutUnknown {items : List (Except Markup.Fault Markup.Event)} {n m : Nat}
    {spot : Markup.Spot} {s : Construction H} (hAt : s.At spot)
    (hUpheld : Course.Upheld (· = scope) (fun _ => True) (fun _ => True)
      (items.filterMap Except.toOption) s)
    (hLe : m ≤ n) (hQuiet : settings.isCancelled (n + items.length) = false) :
    outcome (run settings (setting.withStrict false) n items) s =
      outcome (run settings (setting.withStrict true) m (Markup.withoutUnknown scope spot items))
        (s.without scope spot) := by
  induction items generalizing n m spot s with
  | nil =>
    have hNow : settings.isCancelled m = false := Settings.not_isCancelled_of_le hLe hQuiet
    have hQuiet : settings.isCancelled n = false := hQuiet
    simp only [run, feedAll, Markup.withoutUnknown, hNow, hQuiet, Bool.false_eq_true, if_false,
      outcome_bind, outcome_pure, except_ok_bind]
    exact Construct.outcome_finish_without setting hAt hUpheld.scope
  | cons item rest ih =>
    have hNow : settings.isCancelled n = false :=
      Settings.not_isCancelled_of_le (Nat.le_add_right ..) hQuiet
    have hNow' : settings.isCancelled m = false := Settings.not_isCancelled_of_le hLe hNow
    have hLater : settings.isCancelled (n + 1 + rest.length) = false := by
      rw [Nat.add_right_comm]
      exact hQuiet
    cases item with
    | error fault =>
      simp only [run, feedAll, Markup.withoutUnknown, hNow, hNow', Bool.false_eq_true, if_false,
        outcome_bind, outcome_throw, except_error_bind]
    | ok event =>
      have u := Upkeep.nothing (setting.withStrict false) (· = scope)
      have hFed := u.course.feed hUpheld
      rw [outcome_run_cons hNow, Markup.withoutUnknown]
      by_cases hIdle : spot.isIdle scope event = true
      · -- The strict run stays where it is.
        obtain ⟨s', hFeed, hNext, hSame⟩ :=
          Construct.exists_feed_idle (setting.withStrict false) hAt hIdle
        rw [if_pos hIdle, outcome_eq_ok.2 hFeed, except_ok_bind, ← hSame]
        exact ih hNext (hFed.of_ok hFeed) (Nat.le_succ_of_le hLe) hLater
      · have hKept : spot.isIdle scope event = false := by simpa using hIdle
        rw [if_neg hIdle, outcome_run_cons hNow',
          Construct.outcome_feed_kept setting hAt hUpheld.scope hKept, except_map_bind]
        cases hFeed : outcome (Construct.feed (setting.withStrict false) event) s with
        | error failure => rw [except_error_bind, except_error_bind]
        | ok p =>
          have hRun := outcome_eq_ok.1 hFeed
          rw [except_ok_bind, except_ok_bind]
          exact ih (Construct.at_next _ hAt hRun) (hFed.of_ok hRun) (Nat.succ_le_succ hLe) hLater

/-- A compiler that refuses unknown metadata or passes over it. -/
def withStrict (c : Compiler H) (strict : Bool) : Compiler H :=
  { c with settings := { c.settings with strict } }

omit [Hooks H] in
/-- Strictness changes nothing about when a run is cancelled. -/
theorem isCancelled_withStrict (c : Compiler H) (strict : Bool) :
    (c.withStrict strict).settings.isCancelled = c.settings.isCancelled := rfl

/-- Unknown metadata is refused when attributes are applied, and nowhere else. -/
theorem construct_withStrict (c : Compiler H) (strict : Bool)
    (items : List (Except Markup.Fault Markup.Event)) (dataContext : Option Value) :
    (c.withStrict strict).construct items dataContext =
      run c.settings ((c.setting dataContext).withStrict strict) 0 items := by
  have hFeed (setting : Setting H) (n : Nat) :
      feedAll (c.withStrict strict).settings setting n items =
        feedAll c.settings setting n items := by
    induction items generalizing n with
    | nil => rw [feedAll, feedAll, isCancelled_withStrict]
    | cons item rest ih =>
      unfold feedAll
      simp only [isCancelled_withStrict, ih]
  rw [construct_eq_run, run, run, hFeed]
  rfl

/-- A lenient compiler makes of a stream what a strict one makes of it without the unknown metadata
on its elements: the same document, with the same journal, or the same failure. What is metadata is
said by the root of the stream, also by declarations after the attributes they are about. A signal
that is raised must be raised before the run, as the shorter stream may be over when it is seen. -/
theorem lenient_eq_strict (c : Compiler H) (items : List (Except Markup.Fault Markup.Event))
    (dataContext : Option Value)
    (hSignal : c.settings.isCancelled items.length = c.settings.isCancelled 0) :
    (c.withStrict false).compileEvents items dataContext =
      (c.withStrict true).compileEvents (Markup.withoutUnknown (c.scopeOf items) .front items)
        dataContext := by
  rw [compileEvents_eq_outcome, compileEvents_eq_outcome, construct_withStrict, construct_withStrict]
  congr 1
  cases hNow : c.settings.isCancelled 0 with
  | true =>
    unfold run
    rw [feedAll_of_isCancelled hNow, feedAll_of_isCancelled hNow, outcome_bind, outcome_bind,
      outcome_throw, outcome_throw, except_error_bind, except_error_bind]
  | false =>
    have hUpheld : Course.Upheld (· = c.scopeOf items) (fun _ => True) (fun _ => True)
        (items.filterMap Except.toOption) (.ofDefaults c.settings.defaults : Construction H) :=
      .start trivial rfl fun _ _ => trivial
    have hAt : (Construction.ofDefaults c.settings.defaults : Construction H).At .front :=
      ⟨rfl, rfl, rfl⟩
    refine outcome_run_withoutUnknown hAt hUpheld (Nat.le_refl 0) ?_
    rw [Nat.zero_add, hSignal, hNow]

end Compiler

namespace Cards

/-- Two cards with comments; the first one comes before the qualifier is declared. -/
def commented : List Markup.Event :=
  [.start "Card", .attribute "x:Comment" "outer", .attribute "xmlns:x" "urn:kiln:metadata",
    .attribute "Next" "\x7bRef b\x7d", .start "Card", .attribute "x:Id" "b",
    .attribute "x:Comment" "inner", .attribute "Title" "second", .finish, .finish]

/-- The cards without their comments. -/
def uncommented : List Markup.Event :=
  [.start "Card", .attribute "xmlns:x" "urn:kiln:metadata", .attribute "Next" "\x7bRef b\x7d",
    .start "Card", .attribute "x:Id" "b", .attribute "Title" "second", .finish, .finish]

/-- The comments are the unknown metadata of the commented cards. -/
theorem withoutUnknown_commented :
    Markup.withoutUnknown (compiler.scopeOf (commented.map .ok)) .front (commented.map .ok) =
      uncommented.map .ok := by
  decide +kernel

/-- A strict compiler refuses the comments. -/
theorem exists_uncommented :
    (∃ d, (compiler.withStrict true).compileEvents (uncommented.map .ok) none = .ok d) ∧
      ∃ failure, (compiler.withStrict true).compileEvents (commented.map .ok) none = .error failure :=
  ⟨except_exists_of_isOk (by decide +kernel), except_exists_of_not_isOk (by decide +kernel)⟩

end Cards

/-- Comments change nothing for a lenient compiler, and a strict one refuses them. -/
theorem commented_cards_lenient :
    ∃ d failure,
      (Cards.compiler.withStrict false).compileEvents (Cards.commented.map .ok) none = .ok d ∧
      (Cards.compiler.withStrict true).compileEvents (Cards.uncommented.map .ok) none = .ok d ∧
      (Cards.compiler.withStrict true).compileEvents (Cards.commented.map .ok) none =
        .error failure := by
  obtain ⟨⟨d, hCompiled⟩, failure, hRefused⟩ := Cards.exists_uncommented
  have hSame := Compiler.lenient_eq_strict Cards.compiler (Cards.commented.map .ok) none rfl
  rw [Cards.withoutUnknown_commented, hCompiled] at hSame
  exact ⟨d, failure, hSame, hCompiled, hRefused⟩

end ObjectMarkup
