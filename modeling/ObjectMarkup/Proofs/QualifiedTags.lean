import ObjectMarkup.Proofs.Growth
import ObjectMarkup.Proofs.NameResolution
import ObjectMarkup.Proofs.Nesting

/-!
# What a tag opens

A start tag is taken for a property tag by the full stop in its raw name, if an element is open, and
only then for its qualifier. So a tag without a full stop opens the same at the root and inside of
other elements: what it opens depends on its raw name and on the scope of the run
(`Compiler.tags_open_alike`). With a full stop it is another thing: at the root it opens an element
still, inside of one it never does, and that the full stop is in the qualifier makes no difference
(`Compiler.dotted_qualifier_opens_no_element`).
-/

set_option autoImplicit false

namespace ObjectMarkup

open Operation
open Name (qualify)

variable {H : Host}

namespace NameScope

/-- The type that a tag names in a scope: a box under its short name, or else what the scope
finds. -/
def typeNamed (scope : NameScope) (v : Vocabulary H) (name : String) :
    Except Failure (ElementType H) :=
  match ElementType.box? name with
  | some type => .ok type
  | none => scope.findType v name

/-- The type that a tag opens an element of, with a fresh object of it. -/
def elementNamed (scope : NameScope) (v : Vocabulary H) (name : String) :
    Except Failure (ElementType H × Instance H) :=
  (scope.typeNamed v name).bind fun type =>
    match type.fresh with
    | none => .error (.notConstructible type.key.name)
    | some object => .ok (type, object)

/-- The object of an element of a name is a fresh one of its type. -/
theorem fresh_of_elementNamed {scope : NameScope} {v : Vocabulary H} {name : String}
    {type : ElementType H} {object : Instance H}
    (h : scope.elementNamed v name = .ok (type, object)) : type.fresh = some object := by
  obtain ⟨named, -, hFresh⟩ := except_bind_eq_ok_iff.1 h
  cases hObject : named.fresh with
  | none =>
    rw [hObject] at hFresh
    cases hFresh
  | some _ =>
    rw [hObject] at hFresh
    cases hFresh
    exact hObject

end NameScope

/-- Attributes of a tag that declare no namespaces. -/
def StartTag.others (t : StartTag) : List (String × String) :=
  t.attributes.filter fun a => (Name.declaredQualifier a.1).isNone

namespace Construction

/-- The construction in which an element was opened, in a scope, and none of its attributes applied
yet. -/
def opened (s : Construction H) (scope : NameScope) (type : ElementType H) (object : Instance H) :
    Construction H :=
  let id := s.assembly.graph.nextId
  { s with
    assembly := Assembly.record
      { s.assembly with scope, graph := s.assembly.graph.insert type object } (.opened id)
    stack := ⟨type, id, none, none, none, none⟩ :: s.stack
    tag := none }

variable [Hooks H] {setting : Setting H} {s : Construction H}

/-- The pending tag opens an element of a type: what remains to do when it is complete is to apply
its attributes to the new element. -/
def Opens (setting : Setting H) (s : Construction H) (type : ElementType H) : Prop :=
  ∃ t scope object, s.tag = some t ∧ type.fresh = some object ∧
    Construct.completeTag setting s =
      Construct.applyAttributes setting t.others (s.opened scope type object)

/-- The pending tag is refused, and nothing is opened. -/
def Refuses (setting : Setting H) (s : Construction H) (failure : Failure) : Prop :=
  ∃ s', Construct.completeTag setting s = .error failure s' ∧ s'.stack = s.stack ∧
    s'.assembly.graph = s.assembly.graph

/-- An element may start with a tag: the root with any, another with one that has no full stop and
declares no namespaces. -/
def Receives (s : Construction H) (t : StartTag) : Prop :=
  (s.stack = [] ∧ s.root = none) ∨
    s.stack ≠ [] ∧ '.' ∉ t.name.toList ∧ ∀ a ∈ t.attributes, Name.declaredQualifier a.1 = none

end Construction

namespace Construct

variable [Hooks H] {setting : Setting H} {s : Construction H} {t : StartTag}

/-! ### Opening elements -/

omit [Hooks H] in
/-- At the root, and where nothing is declared, the declarations go into the scope and the other
attributes are left over. -/
theorem declareNamespaces_run {isRoot : Bool} {attributes : List (String × String)}
    (h : isRoot = true ∨ ∀ a ∈ attributes, Name.declaredQualifier a.1 = none) (tag : String)
    (s : Construction H) :
    declareNamespaces isRoot tag attributes s =
      .ok (attributes.filter fun a => (Name.declaredQualifier a.1).isNone)
        { s with assembly := { s.assembly with
          scope :=
            if isRoot then s.assembly.scope.declareAll attributes else s.assembly.scope } } := by
  induction attributes generalizing s with
  | nil => cases isRoot <;> rfl
  | cons first rest ih =>
    have hRest : isRoot = true ∨ ∀ a ∈ rest, Name.declaredQualifier a.1 = none :=
      h.imp_right fun hAll a hMem => hAll a (List.mem_cons_of_mem first hMem)
    unfold declareNamespaces NameScope.declareAll
    rw [List.filter_cons]
    cases hDeclared : Name.declaredQualifier first.1 with
    | none =>
      show EStateM.bind (declareNamespaces isRoot tag rest) _ s = _
      rw [EStateM.bind, ih hRest s]
      rfl
    | some qualifier =>
      rcases h with rfl | hNone
      · exact ih hRest _
      · rw [hNone first (List.mem_cons_self ..)] at hDeclared
        cases hDeclared

omit [Hooks H] in
/-- A type is resolved in the scope of the assembly. -/
theorem resolveType_run (name : String) (s : Construction H) :
    resolveType setting name s =
      Operation.ofExcept (s.assembly.scope.typeNamed setting.vocabulary name) s := by
  unfold resolveType NameScope.typeNamed
  cases (ElementType.box? name : Option (ElementType H)) <;> rfl

/-- An element is opened with the type that its name means, if it means one. -/
theorem openObject_run (name : String) (attributes : List (String × String)) (s : Construction H) :
    openObject setting name attributes s =
      match s.assembly.scope.elementNamed setting.vocabulary name with
      | .error failure => .error failure s
      | .ok (type, object) =>
        applyAttributes setting attributes
          { s.opened s.assembly.scope type object with tag := s.tag } := by
  unfold NameScope.elementNamed
  show EStateM.bind (resolveType setting name) _ s = _
  rw [EStateM.bind, resolveType_run]
  cases s.assembly.scope.typeNamed setting.vocabulary name with
  | error failure => rfl
  | ok type =>
    simp only [Operation.ofExcept, Except.bind]
    cases type.fresh <;> rfl

/-- A pending tag is completed by opening it. -/
theorem completeTag_run (hTag : s.tag = some t) :
    completeTag setting s = openTag setting t { s with tag := none } := by
  obtain ⟨a, stack, tag, root⟩ := s
  cases hTag
  rfl

/-- Where an element may start, the tag is looked up in the scope that it leaves. -/
theorem openTag_run (hReceives : s.Receives t) {scope : NameScope}
    (hScope : scope =
      if s.stack.isEmpty then s.assembly.scope.declareAll t.attributes else s.assembly.scope) :
    openTag setting t s =
      openObject setting t.name t.others { s with assembly := { s.assembly with scope } } := by
  subst hScope
  obtain ⟨a, stack, tag, root⟩ := s
  rcases hReceives with ⟨rfl, rfl⟩ | ⟨hOpen, hWhole, hNone⟩
  · show EStateM.bind (declareNamespaces true t.name t.attributes) _ _ = _
    rw [EStateM.bind, declareNamespaces_run (.inl rfl)]
    rfl
  · cases stack with
    | nil => exact absurd rfl hOpen
    | cons e outer =>
      show EStateM.bind (declareNamespaces false t.name t.attributes) _ _ = _
      rw [EStateM.bind, declareNamespaces_run (.inr hNone)]
      simp only [List.isEmpty_cons, Bool.false_eq_true, if_false,
        Name.splitProperty_eq_none_iff.2 hWhole]
      rfl

/-- What completing a tag comes to where an element may start. -/
theorem completeTag_eq (hTag : s.tag = some t) (hReceives : s.Receives t) {scope : NameScope}
    (hScope : scope =
      if s.stack.isEmpty then s.assembly.scope.declareAll t.attributes else s.assembly.scope) :
    completeTag setting s =
      match scope.elementNamed setting.vocabulary t.name with
      | .error failure =>
        .error failure { s with assembly := { s.assembly with scope }, tag := none }
      | .ok (type, object) =>
        applyAttributes setting t.others (s.opened scope type object) := by
  rw [completeTag_run hTag, openTag_run (s := { s with tag := none }) hReceives hScope,
    openObject_run]
  rfl

/-- Where an element may start, it opens if the scope has a type for it, and is refused if not. -/
theorem opens_or_refuses (setting : Setting H) (hTag : s.tag = some t) (hReceives : s.Receives t)
    {scope : NameScope} (hScope : scope =
      if s.stack.isEmpty then s.assembly.scope.declareAll t.attributes else s.assembly.scope) :
    (∀ type object, scope.elementNamed setting.vocabulary t.name = .ok (type, object) →
      s.Opens setting type) ∧
    ∀ failure, scope.elementNamed setting.vocabulary t.name = .error failure →
      s.Refuses setting failure := by
  have hRun : completeTag setting s = _ := completeTag_eq hTag hReceives hScope
  constructor
  · intro type object hNamed
    rw [hNamed] at hRun
    exact ⟨t, scope, object, hTag, NameScope.fresh_of_elementNamed hNamed, hRun⟩
  · intro failure hNamed
    rw [hNamed] at hRun
    exact ⟨_, hRun, rfl, rfl⟩

/-! ### Opening properties -/

omit [Hooks H] in
/-- A property tag opens a property of the innermost element, or fails; else nothing changes. -/
theorem ends_openProperty (tag owner name : String) (attributes : List (String × String))
    (s : Construction H) :
    Ends (openProperty setting tag owner name attributes) s
      (fun _ s' => ∃ e outer, s.stack = e :: outer ∧
        s' = { s with stack := { e with property := some name } :: outer })
      fun _ s' => s' = s := by
  unfold openProperty
  refine .guard (fun _ => rfl) fun _ => ?_
  have hOwner : Ends (resolveType setting owner) s (fun _ s' => s' = s) (fun _ s' => s' = s) := by
    unfold Ends
    rw [resolveType_run]
    cases s.assembly.scope.typeNamed setting.vocabulary owner <;> rfl
  refine hOwner.bind ?_
  rintro ownerType s rfl
  refine .bind_get ?_
  split
  · rfl
  · next e outer hStack =>
    split
    · rfl
    · split
      · rfl
      · split
        · rfl
        · split
          · rfl
          · exact ⟨e, outer, hStack, rfl⟩

/-- Inside of an element a tag with a full stop is a property tag, wherever the full stop is. -/
theorem ends_completeTag_of_dotted (hTag : s.tag = some t) (hOpen : s.stack ≠ [])
    (hDotted : '.' ∈ t.name.toList) :
    Ends (completeTag setting) s
      (fun _ s' => ∃ owner property e outer, Name.splitProperty t.name = some (owner, property) ∧
        s.stack = e :: outer ∧
        s' = { s with tag := none, stack := { e with property := some property } :: outer })
      fun _ s' => s' = { s with tag := none } := by
  unfold Ends
  rw [completeTag_run hTag]
  show Ends (openTag setting t) { s with tag := none } _ _
  obtain ⟨a, stack, tag, root⟩ := s
  cases stack with
  | nil => exact absurd rfl hOpen
  | cons e outer =>
    obtain ⟨⟨owner, property⟩, hSplit⟩ : ∃ parts, Name.splitProperty t.name = some parts :=
      Option.ne_none_iff_exists'.1 fun hNone => Name.splitProperty_eq_none_iff.1 hNone hDotted
    have hDeclared : Ends (declareNamespaces false t.name t.attributes) ⟨a, e :: outer, none, root⟩
        (fun _ s' => s' = ⟨a, e :: outer, none, root⟩)
        (fun _ s' => s' = ⟨a, e :: outer, none, root⟩) :=
      (Course.ends_declareNamespaces ..).mono (fun _ _ h => h.2) fun _ _ h => h.2.2
    refine .bind_get (.guard (fun _ => rfl) fun _ => ?_)
    refine hDeclared.bind ?_
    rintro others _ rfl
    simp only [List.isEmpty_cons, Bool.false_eq_true, if_false, hSplit]
    refine (ends_openProperty t.name owner property others _).mono ?_ fun _ _ h => h
    rintro _ s' ⟨e', outer', hStack, hSame⟩
    exact ⟨owner, property, e', outer', rfl, hStack, hSame⟩

/-- A tag that opens an element makes its object, also if an attribute fails then. -/
theorem grows_of_opens {type : ElementType H} (h : s.Opens setting type) :
    Ends (completeTag setting) s (fun _ s' => s.assembly.graph.size < s'.assembly.graph.size)
      fun _ s' => s.assembly.graph.size < s'.assembly.graph.size := by
  obtain ⟨t, scope, object, -, -, hRun⟩ := h
  have hAdds : Adds Construction.assembly (applyAttributes setting t.others) :=
    adds_applyAttributes ..
  have hSize (s' : Construction H) (h : (s.opened scope type object).assembly.Grows s'.assembly) :
      s.assembly.graph.size < s'.assembly.graph.size := by
    have hMore := ObjectGraph.size_le_of_types_prefix h.graph.types_prefix
    have hInsert : (s.opened scope type object).assembly.graph.size = s.assembly.graph.size + 1 :=
      ObjectGraph.size_insert ..
    rwa [hInsert] at hMore
  unfold Ends
  rw [hRun]
  exact (hAdds.ends (s.opened scope type object)).mono (fun _ => hSize) fun _ => hSize

/-- A property tag makes no object, so it opens no element. -/
theorem not_opens_of_dotted (hTag : s.tag = some t) (hOpen : s.stack ≠ [])
    (hDotted : '.' ∈ t.name.toList) (type : ElementType H) : ¬ s.Opens setting type := by
  intro hOpens
  have hMore := grows_of_opens hOpens
  have hSame : Ends (completeTag setting) s
      (fun _ s' => s'.assembly.graph.size = s.assembly.graph.size)
      fun _ s' => s'.assembly.graph.size = s.assembly.graph.size := by
    refine (ends_completeTag_of_dotted hTag hOpen hDotted).mono ?_ ?_
    · rintro _ s' ⟨owner, property, e, outer, -, -, rfl⟩
      rfl
    · rintro _ s' rfl
      rfl
  cases hResult : completeTag setting s with
  | ok _ s' => exact absurd (hSame.of_ok hResult) (Nat.ne_of_gt (hMore.of_ok hResult))
  | error _ s' => exact absurd (hSame.of_error hResult) (Nat.ne_of_gt (hMore.of_error hResult))

end Construct

/-! ### Tags of a run -/

namespace NameScope

variable {scope : NameScope} {v : Vocabulary H} {name space : String} {type : ElementType H}

/-- A qualified name opens the only type of its name in the namespace of its qualifier. -/
theorem elementNamed_qualify (qualifier : String) (hWhole : ':' ∉ qualifier.toList)
    (hDeclared : scope.qualifiers.lookup qualifier = some space)
    (hOnly : v.named .type name space = [type]) {object : Instance H}
    (hFresh : type.fresh = some object) :
    scope.elementNamed v (qualify qualifier name) = .ok (type, object) := by
  have hBox : (ElementType.box? (qualify qualifier name) : Option (ElementType H)) = none := by
    rw [ElementType.box?, List.find?_eq_none]
    intro box hMem hName
    have hColon : ':' ∉ box.key.name.toList := by
      simp only [ElementType.boxes, List.mem_cons, List.not_mem_nil, or_false] at hMem
      rcases hMem with rfl | rfl | rfl | rfl | rfl | rfl | rfl <;>
        simp [ElementType.boxed, ElementType.assemble]
    rw [beq_iff_eq.1 hName] at hColon
    exact hColon (by simp [qualify])
  have hSearches : scope.Searches (qualify qualifier name) ([] ++ space :: []) name :=
    .qualified hWhole hDeclared
  have hFinds : scope.Finds .type v (qualify qualifier name) (.ok type) :=
    .unique hSearches (fun _ hMem => absurd hMem List.not_mem_nil) hOnly
  have hFind : scope.findType v (qualify qualifier name) = .ok type := hFinds.find_eq
  rw [elementNamed, typeNamed, hBox]
  simp only [hFind, Except.bind, hFresh]

end NameScope

namespace Compiler

variable [Hooks H] {c : Compiler H} {dataContext : Option Value}
  {items : List (Except Markup.Fault Markup.Event)} {n : Nat} {s : Construction H} {t : StartTag}

/-- After the first `n` events a start tag is pending whose attributes are complete. -/
structure Pending (c : Compiler H) (dataContext : Option Value)
    (items : List (Except Markup.Fault Markup.Event)) (n : Nat) (s : Construction H)
    (t : StartTag) : Prop where
  reaches : c.Reaches dataContext items n s
  tag : s.tag = some t
  complete : ∀ item ∈ items[n]?, ∃ event : Markup.Event, item = .ok event ∧
    event.isAttribute = false

/-- In a state that a run reaches, names mean, or will mean, what the root declares. -/
theorem Reaches.scopeAfter (h : c.Reaches dataContext items n s) :
    s.scopeAfter ((items.drop n).filterMap Except.toOption) = c.scopeOf items :=
  (h.upheld (Readings.upkeep (c.setting dataContext) (c.scopeOf items)).course
    (Readings.upheld c items)).scope

/-- The scope of a document is the one in force behind a tag that starts an element. -/
theorem Pending.scope_eq (h : c.Pending dataContext items n s t) (hReceives : s.Receives t) :
    c.scopeOf items =
      if s.stack.isEmpty then s.assembly.scope.declareAll t.attributes else s.assembly.scope := by
  have hNone : Markup.leadingAttributes ((items.drop n).filterMap Except.toOption) = [] := by
    cases hItem : items[n]? with
    | none => rw [List.drop_eq_nil_of_le (List.getElem?_eq_none_iff.1 hItem)]; rfl
    | some item =>
      obtain ⟨event, rfl, hOther⟩ := h.complete item hItem
      rw [List.drop_eq_getElem?_toList_append, hItem]
      cases event <;> first | rfl | cases hOther
  rw [← h.reaches.scopeAfter, Construction.scopeAfter, h.tag, hNone]
  simp only [List.append_nil]
  rcases hReceives with ⟨hEmpty, hRoot⟩ | ⟨hOpen, -⟩
  · rw [hEmpty, hRoot]
    rfl
  · rw [List.isEmpty_eq_false_iff.2 hOpen]
    rfl

/-- **What a tag opens depends on its raw name and on the scope of the run.** Where an element may
start, at the root or inside of another, a tag opens an element of the type that the scope names, or
is refused as the scope says. So a qualified tag without a full stop opens an element of the only
type of its name in the namespace of its qualifier, at the root and inside. Inside of an element, a
tag with a full stop anywhere in its raw name opens a property and no element. -/
theorem tags_open_alike (c : Compiler H) (dataContext : Option Value)
    (items : List (Except Markup.Fault Markup.Event)) :
    (∀ n s t, c.Pending dataContext items n s t → s.Receives t →
      (∀ type object, (c.scopeOf items).elementNamed c.vocabulary t.name = .ok (type, object) →
        s.Opens (c.setting dataContext) type) ∧
      ∀ failure, (c.scopeOf items).elementNamed c.vocabulary t.name = .error failure →
        s.Refuses (c.setting dataContext) failure) ∧
    (∀ qualifier name space type, ':' ∉ qualifier.toList → '.' ∉ qualifier.toList →
      '.' ∉ name.toList → (c.scopeOf items).qualifiers.lookup qualifier = some space →
      c.vocabulary.named .type name space = [type] → type.fresh.isSome = true →
      ∀ n s attributes, c.Pending dataContext items n s ⟨qualify qualifier name, attributes⟩ →
        (s.stack = [] → s.root = none) →
        (s.stack ≠ [] → ∀ a ∈ attributes, Name.declaredQualifier a.1 = none) →
        s.Opens (c.setting dataContext) type) ∧
    ∀ n s t, c.Pending dataContext items n s t → s.stack ≠ [] → '.' ∈ t.name.toList →
      Ends (Construct.completeTag (c.setting dataContext)) s
        (fun _ s' => ∃ owner property e outer,
          Name.splitProperty t.name = some (owner, property) ∧ s.stack = e :: outer ∧
          s' = { s with tag := none, stack := { e with property := some property } :: outer })
        (fun _ s' => s' = { s with tag := none }) ∧
      ∀ type, ¬ s.Opens (c.setting dataContext) type := by
  refine ⟨fun n s t h hReceives =>
      Construct.opens_or_refuses (c.setting dataContext) h.tag hReceives
        (h.scope_eq hReceives),
    fun qualifier name space type hColon hDot hName hBound hOnly hFresh n s attributes h hRoot
      hNested => ?_,
    fun n s t h hOpen hDotted => ⟨Construct.ends_completeTag_of_dotted h.tag hOpen hDotted,
      Construct.not_opens_of_dotted h.tag hOpen hDotted⟩⟩
  have hWhole : '.' ∉ (qualify qualifier name).toList := by
    simp [qualify, hDot, hName]
  have hReceives : s.Receives ⟨qualify qualifier name, attributes⟩ := by
    by_cases hOpen : s.stack = []
    · exact .inl ⟨hOpen, hRoot hOpen⟩
    · exact .inr ⟨hOpen, hWhole, hNested hOpen⟩
  obtain ⟨object, hObject⟩ := Option.isSome_iff_exists.1 hFresh
  exact (Construct.opens_or_refuses (c.setting dataContext) h.tag hReceives
    (h.scope_eq hReceives)).1 type object
      (NameScope.elementNamed_qualify qualifier hColon hBound hOnly hObject)

end Compiler

/-! ### Qualified cards -/

namespace Cards

/-- A card in a card, both under a qualifier. -/
def qualifiedEvents (qualifier : String) : List Markup.Event :=
  [ .start (qualify qualifier "Card"), .attribute (qualify "xmlns" qualifier) "urn:cards",
    .start (qualify qualifier "Card"), .finish, .finish ]

/-- Before the start of the inner card the tag of the outer one is pending, and before its end the
tag of the inner one. -/
def PendingTwice (qualifier : String) : Prop :=
  ∃ s₁ s₂, compiler.Pending none ((qualifiedEvents qualifier).map .ok) 2 s₁
      ⟨qualify qualifier "Card", [(qualify "xmlns" qualifier, "urn:cards")]⟩ ∧
    s₁.stack = [] ∧ s₁.root = none ∧
    compiler.Pending none ((qualifiedEvents qualifier).map .ok) 3 s₂
      ⟨qualify qualifier "Card", []⟩ ∧ s₂.stack ≠ []

/-- What the tags of the two cards are, from runs of the first two and the first three events. -/
theorem pendingTwice (qualifier : String)
    (hFirst : (outcome (Construct.feedEvents (compiler.setting none)
        ((qualifiedEvents qualifier).take 2)) (.ofDefaults ["urn:cards"])).toOption.any (fun p =>
      p.2.tag == some ⟨qualify qualifier "Card", [(qualify "xmlns" qualifier, "urn:cards")]⟩ &&
        p.2.stack.isEmpty && p.2.root.isNone) = true)
    (hSecond : (outcome (Construct.feedEvents (compiler.setting none)
        ((qualifiedEvents qualifier).take 3)) (.ofDefaults ["urn:cards"])).toOption.any (fun p =>
      p.2.tag == some ⟨qualify qualifier "Card", []⟩ && !p.2.stack.isEmpty) = true) :
    PendingTwice qualifier := by
  obtain ⟨⟨_, s₁⟩, hRun₁, hIs₁⟩ := except_exists_of_any hFirst
  obtain ⟨⟨_, s₂⟩, hRun₂, hIs₂⟩ := except_exists_of_any hSecond
  simp only [Bool.and_eq_true, beq_iff_eq, List.isEmpty_iff, Option.isNone_iff_eq_none,
    Bool.not_eq_true', List.isEmpty_eq_false_iff] at hIs₁ hIs₂
  have hReaches (n : Nat) (hLe : n ≤ 5) (s : Construction Record.host)
      (hRun : outcome (Construct.feedEvents (compiler.setting none)
        ((qualifiedEvents qualifier).take n)) (.ofDefaults ["urn:cards"]) = .ok ((), s)) :
      compiler.Reaches none ((qualifiedEvents qualifier).map .ok) n s :=
    ⟨fun _ _ => rfl, _, List.map_take.symm, List.length_take_of_le hLe, outcome_eq_ok.1 hRun⟩
  refine ⟨s₁, s₂, ⟨hReaches 2 (by decide) s₁ hRun₁, hIs₁.1.1, ?_⟩, hIs₁.1.2, hIs₁.2,
    ⟨hReaches 3 (by decide) s₂ hRun₂, hIs₂.1, ?_⟩, hIs₂.2⟩
  · rintro item ⟨⟩
    exact ⟨_, rfl, rfl⟩
  · rintro item ⟨⟩
    exact ⟨_, rfl, rfl⟩

end Cards

/-- Under a qualifier without a full stop the two cards are opened alike; if there is one in it, the
tag of the inner card opens no element. -/
theorem cards_open_alike :
    (∃ s₁ s₂ : Construction Record.host,
      s₁.stack = [] ∧ s₁.Opens (Cards.compiler.setting none) Cards.type ∧
        s₂.stack ≠ [] ∧ s₂.Opens (Cards.compiler.setting none) Cards.type) ∧
    ∃ s : Construction Record.host, s.tag = some ⟨"a.b:Card", []⟩ ∧ s.stack ≠ [] ∧
      ¬ s.Opens (Cards.compiler.setting none) Cards.type := by
  constructor
  · obtain ⟨s₁, s₂, hPending₁, hEmpty, hRoot, hPending₂, hOpen⟩ :=
      Cards.pendingTwice "c" (by decide +kernel) (by decide +kernel)
    obtain ⟨hTags, hQualified, -⟩ :=
      Compiler.tags_open_alike Cards.compiler none ((Cards.qualifiedEvents "c").map .ok)
    have hBound : (Cards.compiler.scopeOf
        ((Cards.qualifiedEvents "c").map .ok)).qualifiers.lookup "c" = some "urn:cards" := by
      decide
    refine ⟨s₁, s₂, hEmpty, ?_, hOpen, ?_⟩
    · exact (hTags 2 s₁ _ hPending₁ (.inl ⟨hEmpty, hRoot⟩)).1 Cards.type _
        (NameScope.elementNamed_qualify "c" (by decide) hBound rfl rfl)
    · exact hQualified "c" "Card" "urn:cards" Cards.type (by decide) (by decide) (by decide) hBound
        rfl rfl 3 s₂ _ hPending₂ (fun hNone => absurd hNone hOpen)
        fun _ _ hMem => absurd hMem List.not_mem_nil
  · obtain ⟨-, s, -, -, -, hPending, hOpen⟩ :=
      Cards.pendingTwice "a.b" (by decide +kernel) (by decide +kernel)
    obtain ⟨-, -, hDotted⟩ :=
      Compiler.tags_open_alike Cards.compiler none ((Cards.qualifiedEvents "a.b").map .ok)
    exact ⟨s, hPending.tag, hOpen, (hDotted 3 s _ hPending hOpen (by decide)).2 Cards.type⟩

/-- A qualifier with a full stop, which the root binds to the namespace of cards: its tag opens a
card at the root and no element inside. -/
theorem dotted_qualifier_opens_no_element :
    (Cards.compiler.scopeOf ((Cards.qualifiedEvents "a.b").map .ok)).qualifiers.lookup "a.b" =
      some "urn:cards" ∧
    Cards.compiler.vocabulary.named .type "Card" "urn:cards" = [Cards.type] ∧
    Cards.type.fresh.isSome = true ∧
    ∃ s₁ s₂, Cards.compiler.Pending none ((Cards.qualifiedEvents "a.b").map .ok) 2 s₁
        ⟨"a.b:Card", [("xmlns:a.b", "urn:cards")]⟩ ∧
      s₁.stack = [] ∧ s₁.Opens (Cards.compiler.setting none) Cards.type ∧
      Cards.compiler.Pending none ((Cards.qualifiedEvents "a.b").map .ok) 3 s₂ ⟨"a.b:Card", []⟩ ∧
      s₂.stack ≠ [] ∧ ∀ type, ¬ s₂.Opens (Cards.compiler.setting none) type := by
  obtain ⟨s₁, s₂, hPending₁, hEmpty, hRoot, hPending₂, hOpen⟩ :=
    Cards.pendingTwice "a.b" (by decide +kernel) (by decide +kernel)
  have hBound : (Cards.compiler.scopeOf
      ((Cards.qualifiedEvents "a.b").map .ok)).qualifiers.lookup "a.b" = some "urn:cards" := by
    decide
  have hReceives : s₁.Receives ⟨"a.b:Card", [("xmlns:a.b", "urn:cards")]⟩ := .inl ⟨hEmpty, hRoot⟩
  refine ⟨hBound, rfl, rfl, s₁, s₂, hPending₁, hEmpty, ?_, hPending₂, hOpen,
    Construct.not_opens_of_dotted hPending₂.tag hOpen (by decide)⟩
  exact (Construct.opens_or_refuses (Cards.compiler.setting none) hPending₁.tag hReceives
    (hPending₁.scope_eq hReceives)).1 Cards.type _
      (NameScope.elementNamed_qualify "a.b" (by decide) hBound rfl rfl)

end ObjectMarkup
