import ObjectMarkup.Proofs.Names
import ObjectMarkup.Proofs.Nesting

/-!
# Property tags and attributes

A text can be given to a property in two ways: by an attribute of the start tag, or by a property tag
right after it. The attribute is the last thing that opening the element does
(`Construct.outcome_openTag_append`), and the property tag is the first thing that happens in the
open element (`Construct.outcome_feedEvents_propertyTag`). Both put the text into the same property of
the same object, and whatever goes wrong goes wrong in the same way; in particular, the owner in the
property tag means the type of the element again, because nothing but the root's declarations changes
what names mean. What comes after cannot tell the two apart (`Compiler.compileEvents_propertyTag`).
-/

set_option autoImplicit false

namespace ObjectMarkup

open Operation

variable {H : Host}

/-! ### The last attribute and the first property tag -/

namespace Interpret

variable {setting : Setting H}

/-- What a tag names depends on the scope only. -/
theorem typeNamed_of_scope_eq {tag : String} {type : ElementType H} {a a₁ b : Assembly H}
    (h : typeNamed setting tag a = .ok type a₁) (hScope : b.scope = a.scope) :
    typeNamed setting tag b = .ok type b := by
  unfold typeNamed at h ⊢
  cases hBox : (ElementType.box? tag : Option (ElementType H)) with
  | some box =>
    rw [hBox] at h
    cases h
    rfl
  | none =>
    rw [hBox] at h
    obtain ⟨_, _, hGet, h⟩ := bind_eq_ok.mp h
    cases hGet
    obtain ⟨hFind, -⟩ := ofExcept_eq_ok.mp h
    rw [← hScope] at hFind
    exact bind_eq_ok.mpr ⟨b, b, rfl, ofExcept_eq_ok.mpr ⟨hFind, rfl⟩⟩

/-- An attribute at the end that declares no qualifier is left over. -/
theorem outcome_declareNamespaces_append {name : String} (h : Name.declaredQualifier name = none)
    (value : String) (attributes : List (String × String)) (a : Assembly H) :
    outcome (declareNamespaces (attributes ++ [(name, value)])) a =
      (outcome (declareNamespaces attributes) a).map fun p => (p.1 ++ [(name, value)], p.2) := by
  induction attributes generalizing a with
  | nil =>
    rw [List.nil_append]
    unfold declareNamespaces
    rw [h]
    rfl
  | cons first rest ih =>
    rw [List.cons_append]
    unfold declareNamespaces
    cases Name.declaredQualifier first.1 with
    | none =>
      simp only [outcome_bind, ih, except_map_bind, except_bind_map]
      rfl
    | some qualifier =>
      simp only [outcome_bind, outcome_modify, except_ok_bind, ih]

/-- An attribute at the end that declares no qualifier is not forbidden. -/
theorem forbidDeclarations_append {name : String} (h : Name.declaredQualifier name = none)
    (value tag : String) (attributes : List (String × String)) :
    (forbidDeclarations tag (attributes ++ [(name, value)]) : Assemble H Unit) =
      forbidDeclarations tag attributes := by
  induction attributes with
  | nil => simp [forbidDeclarations, h]
  | cons first rest ih => simp only [List.cons_append, forbidDeclarations, ih]

variable [Hooks H]

/-- The last attribute is applied when all others are. -/
theorem outcome_applyAttributes_append {name : String} (h : ':' ∉ name.toList) (value : String)
    (path : List (Enclosing H)) (object : ObjectId) (m : Metadata)
    (attributes : List (String × String)) (a : Assembly H) :
    outcome (applyAttributes setting path object m (attributes ++ [(name, value)])) a =
      (outcome (applyAttributes setting path object m attributes) a).bind fun p =>
        (outcome (putText setting path object name value) p.2).map fun q => (p.1, q.2) := by
  induction attributes generalizing m a with
  | nil =>
    have hPlain := Name.splitQualifier_of_notMem h
    simp only [List.nil_append, applyAttributes, applyAttribute, hPlain, outcome_bind, outcome_pure,
      except_ok_bind, except_bind_ok, except_map_map]
  | cons first rest ih =>
    rw [List.cons_append]
    unfold applyAttributes
    simp only [outcome_bind, ih, except_bind_bind]

/-- A text needs a property that the type of the object has. -/
theorem outcome_putText_of_missing {object : ObjectId} {type : ElementType H} {name : String}
    {a : Assembly H} (hType : a.graph.type? object = some type)
    (hNone : type.property? name = none) (path : List (Enclosing H)) (text : String) :
    outcome (putText setting path object name text) a =
      .error (.propertyNotFound type.key.name name) := by
  have hFound : outcome (Assemble.typeOf object) a = .ok (type, a) := by
    simp [outcome, Assemble.typeOf, hType]
  unfold putText
  simp only [outcome_bind, hFound, except_ok_bind, Assemble.propertyOf, hNone]
  rfl

/-- A property tag with nothing but a text in it puts the text into the property, where the owner
that it names is the type of the element around it. -/
theorem outcome_node_propertyTag {p : ContentPlace H} {a : Assembly H} {tag name : String}
    (hClosed : p.property = none) (hDot : '.' ∉ name.toList)
    (hOwner : typeNamed setting tag a = .ok p.element.type a)
    (hType : a.graph.type? p.element.object = some p.element.type) (value : String) :
    outcome (node setting p none (.element (Name.ofProperty tag name) [] [.text value])) a =
      (outcome (putText setting p.path p.element.object name value) a).map fun q =>
        (none, q.2) := by
  have hSelf : p.element.type.isAssignableTo p.element.type.key = true := by
    simp [ElementType.isAssignableTo]
  have hOwner := outcome_eq_ok.mpr hOwner
  rw [node]
  simp only [Name.splitProperty_ofProperty tag hDot, forbidDeclarations, checkPropertyTag, hClosed,
    outcome_bind, outcome_pure, except_ok_bind, hOwner, hSelf, List.isEmpty_nil, Bool.not_true,
    Bool.false_eq_true, if_false, Option.isSome_none]
  -- Without such a property, the check of the tag fails as putting the text does.
  cases hProperty : p.element.type.property? name with
  | none =>
    rw [outcome_putText_of_missing hType hProperty]
    rfl
  | some property =>
    simp only [content, node, Option.isNone_some, Option.isSome_none, Bool.false_eq_true, if_false,
      outcome_bind, outcome_pure, except_ok_bind, except_bind_ok]
    rfl

end Interpret

namespace Construct

variable [Hooks H] (setting : Setting H)

/-- An element was opened last, by a tag that still names its type. -/
structure JustOpened (tag : String) (s : Construction H) : Prop where
  complete : s.tag = none
  element : ∃ x m outer, s.stack = .ofEnclosing x m :: outer ∧
    Interpret.typeNamed setting tag s.assembly = .ok x.type s.assembly ∧
      s.assembly.graph.type? x.object = some x.type

variable {setting}

/-- In an element that was just opened, a property tag with nothing but a text in it puts the text
into the property. -/
theorem outcome_feedEvents_propertyTag {tag name : String} (hDot : '.' ∉ name.toList)
    (value : String) {s : Construction H} (h : JustOpened setting tag s) :
    outcome (feedEvents setting [.start (Name.ofProperty tag name), .text value, .finish]) s =
      outcome (applyToTop setting name value) s := by
  obtain ⟨a, stack, pending, root⟩ := s
  obtain ⟨rfl, x, m, outer, rfl, hOwner, hType⟩ := h
  have hEvents := outcome_feedEvents_node setting
    (.element (Name.ofProperty tag name) [] [.text value]) (.ofEnclosing x m) outer a root
  simp only [Markup.Node.events, Markup.Node.eventsOf_cons, Markup.Node.eventsOf_nil, List.map_nil,
    List.append_nil, List.nil_append, List.cons_append] at hEvents
  have hNode : outcome (Interpret.node setting ((OpenElement.ofEnclosing x m).place outer)
      (OpenElement.ofEnclosing x m).text
        (.element (Name.ofProperty tag name) [] [.text value])) a = _ :=
    Interpret.outcome_node_propertyTag rfl hDot hOwner hType value
  rw [hEvents, hNode, except_map_map, outcome_applyToTop]
  rfl

/-- An element is opened with its attributes applied, and none of them changes what its tag names. -/
theorem justOpened_of_openObject {tag : String} {attributes : List (String × String)}
    (hOthers : ∀ x ∈ attributes, Name.declaredQualifier x.1 = none) {a : Assembly H}
    {stack : List (OpenElement H)} {root : Option Value} {p : Unit × Construction H}
    (h : outcome (openObject setting tag attributes) ⟨a, stack, none, root⟩ = .ok p) :
    JustOpened setting tag p.2 := by
  rw [outcome_openObject] at h
  obtain ⟨⟨x, a₁⟩, hMake, h⟩ := except_bind_eq_ok_iff.mp h
  obtain ⟨⟨m, a₂⟩, hApply, rfl⟩ := except_map_eq_ok_iff.mp h
  obtain ⟨fresh, hOwner, -, hObject, rfl⟩ := Interpret.of_make (outcome_eq_ok.mp hMake)
  have hGrows := (Interpret.of_applyAttributes (outcome_eq_ok.mp hApply) hOthers).1.grows
  refine ⟨rfl, x, m, stack, rfl, Interpret.typeNamed_of_scope_eq hOwner hGrows.scope, ?_⟩
  apply hGrows.graph
  show (a.graph.insert x.type fresh).type? x.object = some x.type
  rw [hObject, ObjectGraph.type?, ObjectGraph.slot?_insert_nextId]
  rfl

/-- The last attribute of an element, if it is for a property, is applied in the element that was
just opened. -/
theorem outcome_openObject_append {tag name : String} (hColon : ':' ∉ name.toList) (value : String)
    (attributes : List (String × String)) (a : Assembly H) (stack : List (OpenElement H))
    (root : Option Value) :
    outcome (openObject setting tag (attributes ++ [(name, value)])) ⟨a, stack, none, root⟩ =
      (outcome (openObject setting tag attributes) ⟨a, stack, none, root⟩).bind fun p =>
        outcome (applyToTop setting name value) p.2 := by
  simp only [outcome_openObject, Interpret.outcome_applyAttributes_append hColon, except_bind_bind,
    except_bind_map, except_map_bind, except_map_map, outcome_applyToTop]
  rfl

section Element

/-! What a start tag opens when it opens an element, and not a property of one. -/

variable {tag : String} {attributes : List (String × String)} {a : Assembly H}
  {stack : List (OpenElement H)} {root : Option Value}
  (hElement : stack = [] ∨ Name.splitProperty tag = none)

include hElement

/-- After a tag that names an element, the element was opened last by that tag. -/
theorem justOpened_of_openTag {p : Unit × Construction H}
    (h : outcome (openTag setting ⟨tag, attributes⟩) ⟨a, stack, none, root⟩ = .ok p) :
    JustOpened setting tag p.2 := by
  cases stack with
  | nil =>
    rw [outcome_openTag_root] at h
    split at h
    · cases h
    · obtain ⟨⟨others, a₁⟩, hDeclare, h⟩ := except_bind_eq_ok_iff.mp h
      obtain ⟨rfl, -⟩ := Interpret.of_declareNamespaces (outcome_eq_ok.mp hDeclare)
      -- The declarations were taken out, and the scope that they made is the one of the tag.
      refine justOpened_of_openObject ?_ h
      intro x hMem
      simpa using (List.mem_filter.mp hMem).2
  | cons e outer =>
    have hSplit := hElement.resolve_left (List.cons_ne_nil e outer)
    rw [outcome_openTag_nested] at h
    obtain ⟨⟨_, a₁⟩, hForbid, h⟩ := except_bind_eq_ok_iff.mp h
    obtain ⟨-, hOthers⟩ := Interpret.of_forbidDeclarations (outcome_eq_ok.mp hForbid)
    simp only [hSplit] at h
    exact justOpened_of_openObject hOthers h

/-- A plain attribute at the end of a tag is applied after the element is opened with the others. -/
theorem outcome_openTag_append {name : String} (hColon : ':' ∉ name.toList)
    (hOther : name ≠ Name.namespaceAttribute) (value : String) :
    outcome (openTag setting ⟨tag, attributes ++ [(name, value)]⟩) ⟨a, stack, none, root⟩ =
      (outcome (openTag setting ⟨tag, attributes⟩) ⟨a, stack, none, root⟩).bind fun p =>
        outcome (applyToTop setting name value) p.2 := by
  have hDeclared := Name.declaredQualifier_of_notMem hColon hOther
  cases stack with
  | nil =>
    simp only [outcome_openTag_root]
    split
    · rfl
    · simp only [Interpret.outcome_declareNamespaces_append hDeclared, except_map_bind,
        outcome_openObject_append hColon, except_bind_bind]
  | cons e outer =>
    have hSplit := hElement.resolve_left (List.cons_ne_nil e outer)
    simp only [outcome_openTag_nested, Interpret.forbidDeclarations_append hDeclared, hSplit,
      outcome_openObject_append hColon, except_bind_bind]

end Element

/-! ### The rest of a document -/

/-- Attributes after a start tag are collected in it. -/
theorem outcome_feedToEnd_attributes (attributes : List (String × String))
    (rest : List Markup.Event) (a : Assembly H) (stack : List (OpenElement H)) (tag : String)
    (root : Option Value) :
    outcome (feedToEnd setting (attributes.map Markup.attributeEvent ++ rest))
        ⟨a, stack, some ⟨tag, []⟩, root⟩ =
      outcome (feedToEnd setting rest) ⟨a, stack, some ⟨tag, attributes⟩, root⟩ := by
  simp only [feedToEnd, outcome_bind, outcome_feedEvents_attributes, List.nil_append]

/-- Whatever follows a start tag but an attribute of it opens what the tag stands for, and be it the
end. -/
theorem outcome_feedToEnd_of_tag {events : List Markup.Event}
    (h : Markup.leadingAttributes events = []) (a : Assembly H) (stack : List (OpenElement H))
    (t : StartTag) (root : Option Value) :
    outcome (feedToEnd setting events) ⟨a, stack, some t, root⟩ =
      (outcome (openTag setting t) ⟨a, stack, none, root⟩).bind fun p =>
        outcome (feedToEnd setting events) p.2 := by
  cases events with
  | nil =>
    have hEnd (s : Construction H) :
        outcome (feedToEnd setting []) s = outcome (finish setting) s := rfl
    have hPending : outcome (completeTag setting) ⟨a, stack, some t, root⟩ =
        outcome (openTag setting t) ⟨a, stack, none, root⟩ :=
      outcome_completeTag_of_some setting rfl
    simp only [hEnd, finish, outcome_bind, hPending]
    cases hOpen : outcome (openTag setting t) ⟨a, stack, none, root⟩ with
    | error failure => rfl
    | ok p =>
      have hNone := tag_of_openTag setting hOpen
      simp only [except_ok_bind, outcome_completeTag_of_none setting hNone]
  | cons event rest =>
    have hEvent : ∀ name value, event ≠ .attribute name value := by
      rintro name value rfl
      cases h
    simp only [outcome_feedToEnd_cons, outcome_feed_of_tag setting hEvent, except_bind_bind]

/-- From the start tag of an element on, the rest of a document is the same whether the tag ends with
an attribute or a property tag follows it. -/
theorem outcome_feedToEnd_propertyTag {tag name : String} {a : Assembly H}
    {stack : List (OpenElement H)} {root : Option Value}
    (hElement : stack = [] ∨ Name.splitProperty tag = none) (hColon : ':' ∉ name.toList)
    (hDot : '.' ∉ name.toList) (hOther : name ≠ Name.namespaceAttribute)
    (attributes : List (String × String)) (value : String) {after : List Markup.Event}
    (hAfter : Markup.leadingAttributes after = []) :
    outcome (feedToEnd setting
        (attributes.map Markup.attributeEvent ++ .attribute name value :: after))
          ⟨a, stack, some ⟨tag, []⟩, root⟩ =
      outcome (feedToEnd setting (attributes.map Markup.attributeEvent ++
        .start (Name.ofProperty tag name) :: .text value :: .finish :: after))
          ⟨a, stack, some ⟨tag, []⟩, root⟩ := by
  have hTogether : attributes.map Markup.attributeEvent ++ .attribute name value :: after =
      (attributes ++ [(name, value)]).map Markup.attributeEvent ++ after := by
    simp [Markup.attributeEvent]
  have hInside {s : Construction H} (h : JustOpened setting tag s) :
      outcome (feedToEnd setting
          (.start (Name.ofProperty tag name) :: .text value :: .finish :: after)) s =
        (outcome (applyToTop setting name value) s).bind fun p =>
          outcome (feedToEnd setting after) p.2 := by
    rw [← outcome_feedEvents_propertyTag hDot value h]
    exact outcome_feedToEnd_append setting
      [.start (Name.ofProperty tag name), .text value, .finish] after s
  -- Both start tags are opened by the event behind their last attribute: one that comes after the
  -- attribute, or the start of the property tag.
  rw [hTogether, outcome_feedToEnd_attributes, outcome_feedToEnd_attributes,
    outcome_feedToEnd_of_tag hAfter, outcome_feedToEnd_of_tag rfl,
    outcome_openTag_append hElement hColon hOther, except_bind_bind]
  cases hOpen : outcome (openTag setting ⟨tag, attributes⟩) ⟨a, stack, none, root⟩ with
  | error failure => rfl
  | ok p =>
    have hOpened := justOpened_of_openTag hElement hOpen
    exact (hInside hOpened).symm

/-! ### Where elements are opened -/

/-- A start tag completes the pending one and is pending itself. -/
theorem outcome_feed_start (tag : String) (s : Construction H) :
    outcome (feed setting (.start tag)) s =
      (outcome (completeTag setting) s).map fun p => ((), { p.2 with tag := some ⟨tag, []⟩ }) := by
  have hSteps : outcome (feed setting (.start tag)) s =
      (outcome (completeTag setting) s).bind fun p =>
        .ok ((), { p.2 with tag := some ⟨tag, []⟩ }) := outcome_bind ..
  rw [hSteps, except_bind_ok]

/-- A start tag is pending in no element if all tags before it are closed. -/
theorem stack_eq_nil_of_closed {defaults : List String} {before : List Markup.Event} {tag : String}
    {s s' : Construction H} (hBefore : feedEvents setting before (.ofDefaults defaults) = .ok () s)
    (hStart : feed setting (.start tag) s = .ok () s')
    (hClosed : Markup.starts before ≤ Markup.finishes before) : s'.stack = [] := by
  have hFeed : feedEvents setting (before ++ [.start tag]) (.ofDefaults defaults) = .ok () s' := by
    rw [← outcome_eq_ok, outcome_feedEvents_append, outcome_eq_ok.mpr hBefore, except_ok_bind,
      outcome_feedEvents_cons, outcome_eq_ok.mpr hStart]
    rfl
  have hPending : s'.tag.isSome = true := by
    rw [← outcome_eq_ok, outcome_feed_start] at hStart
    obtain ⟨p, -, hState⟩ := except_map_eq_ok_iff.mp hStart
    cases hState
    rfl
  obtain ⟨o, ds, hTraced⟩ := traced_of_feedEvents hFeed
  have hCount := hTraced.starts_events
  simp only [Markup.starts_append, Markup.finishes_append, hPending, if_true] at hCount
  have hStarts : Markup.starts [.start tag] = 1 := rfl
  have hFinishes : Markup.finishes [.start tag] = 0 := rfl
  apply List.length_eq_zero_iff.mp
  omega

end Construct

/-! ### Documents -/

/-- A property tag with nothing but a text in it, right after the start tag of an element, is the same
as an attribute: the compilation gives the same document, with the same journal, or fails in the same
way. The start tag is that of an element if there is no full stop in it or all tags before it are
closed, so that it is the root. The signal must not be raised before the longer document is over, as
the compiler looks at it at each event. -/
theorem Compiler.compileEvents_propertyTag [Hooks H] (c : Compiler H) (dataContext : Option Value)
    (before : List (Except Markup.Fault Markup.Event)) (tag : String)
    (attributes : List (String × String)) (name value : String) (after : List Markup.Event)
    (hElement : '.' ∉ tag.toList ∨ Markup.starts (before.filterMap Except.toOption) ≤
      Markup.finishes (before.filterMap Except.toOption))
    (hName : ':' ∉ name.toList ∧ '.' ∉ name.toList ∧ name ≠ "xmlns")
    (hAfter : Markup.leadingAttributes after = [])
    (hQuiet : c.settings.isCancelled
      (before.length + attributes.length + after.length + 4) = false) :
    c.compileEvents (before ++ (.start tag :: (attributes.map Markup.attributeEvent ++
        .attribute name value :: after)).map .ok) dataContext =
      c.compileEvents (before ++ (.start tag :: (attributes.map Markup.attributeEvent ++
        .start (Name.ofProperty tag name) :: .text value :: .finish :: after)).map .ok)
          dataContext := by
  obtain ⟨hColon, hDot, hOther⟩ := hName
  refine compileEvents_append_congr ?_ ?_ ?_
  · exact Settings.not_isCancelled_of_le (by simp; omega) hQuiet
  · exact Settings.not_isCancelled_of_le (by simp; omega) hQuiet
  intro events s hEvents hFed
  rw [hEvents, Markup.filterMap_map_ok] at hElement
  simp only [Construct.outcome_feedToEnd_cons]
  cases hStart : outcome (Construct.feed (c.setting dataContext) (.start tag)) s with
  | error failure => rfl
  | ok q =>
    obtain ⟨_, s'⟩ := q
    -- At the root a full stop in the tag means nothing.
    have hRoot : s'.stack = [] ∨ Name.splitProperty tag = none := by
      rcases hElement with hPlain | hClosed
      · exact .inr (Name.splitProperty_eq_none_iff.mpr hPlain)
      · exact .inl (Construct.stack_eq_nil_of_closed hFed (outcome_eq_ok.mp hStart) hClosed)
    rw [Construct.outcome_feed_start] at hStart
    obtain ⟨r, -, hState⟩ := except_map_eq_ok_iff.mp hStart
    cases hState
    exact Construct.outcome_feedToEnd_propertyTag hRoot hColon hDot hOther attributes value hAfter

namespace Cards

/-- The beginning of a card that names the card inside of it as the next one. -/
def naming : List (Except Markup.Fault Markup.Event) :=
  [.ok (.start "Card"), .ok (.attribute "xmlns:x" "urn:kiln:metadata"),
    .ok (.attribute "Next" "{Ref b}")]

/-- The cards whose second title is in a property tag compile. -/
theorem exists_propertyTag : ∃ d, compiler.compileEvents (naming ++
    [.start "Card", .attribute "x:Id" "b", .start "Card.Title", .text "second", .finish, .finish,
      .finish].map .ok) none = .ok d :=
  except_exists_of_isOk (by decide +kernel)

end Cards

/-- The title of the inner card is given by an attribute or by a property tag. -/
theorem card_title_by_propertyTag :
    ∃ d, Cards.compiler.compileEvents (Cards.naming ++
          [.start "Card", .attribute "x:Id" "b", .attribute "Title" "second", .finish,
            .finish].map .ok) none = .ok d ∧
      Cards.compiler.compileEvents (Cards.naming ++
          [.start "Card", .attribute "x:Id" "b", .start "Card.Title", .text "second", .finish,
            .finish, .finish].map .ok) none = .ok d := by
  obtain ⟨d, hCompiled⟩ := Cards.exists_propertyTag
  have hSame := Compiler.compileEvents_propertyTag Cards.compiler none Cards.naming "Card"
    [("x:Id", "b")] "Title" "second" [.finish, .finish] (.inl (by decide))
    ⟨by decide, by decide, by decide⟩ rfl rfl
  exact ⟨d, hSame.trans hCompiled, hCompiled⟩

end ObjectMarkup
