import Mathlib.Tactic.SplitIfs
import ObjectMarkup.Proofs.Acting
import ObjectMarkup.Proofs.Run
import ObjectMarkup.Record.Behavior

/-!
# The machine does what recursion says

Feeding the events of a tree to the machine has the same outcome as interpreting the tree.

A construction between two tags is an assembly under a stack of open elements. Each operation of the
machine is first shown to do to the assembly what the interpretation does, and to the stack what the
results of the interpretation tell: `outcome_applyAttribute` and the lemmas around it. The induction
over the tree (`outcome_feedEvents_nodes`) then carries the invariant that content changes nothing of
the stack but the text of its innermost element.
-/

set_option autoImplicit false

namespace ObjectMarkup

open Operation

namespace OpenElement

variable {H : Host}

/-- An element that was just opened, with what its attributes told. -/
def ofEnclosing (e : Enclosing H) (m : Metadata) : OpenElement H :=
  ⟨e.type, e.object, none, none, m.key, m.identifier⟩

/-- What the attributes of an open element told so far. -/
def metadata (e : OpenElement H) : Metadata := ⟨e.key, e.identifier⟩

/-- An open element whose attributes told this. -/
def withMetadata (e : OpenElement H) (m : Metadata) : OpenElement H :=
  { e with key := m.key, identifier := m.identifier }

end OpenElement

namespace Construct

variable {H : Host}

/-! ### Operations on the assembly -/

/-- An act lifted from the assembly leaves the rest of the construction. -/
theorem outcome_onAssembly {α : Type} (act : Assemble H α) (s : Construction H) :
    outcome (onAssembly act) s =
      (outcome act s.assembly).map fun p => (p.1, { s with assembly := p.2 }) :=
  outcome_within ..

/-- The data context in force is the one the enclosing elements give. -/
theorem effectiveDataContext_eq (setting : Setting H) (s : Construction H) :
    effectiveDataContext setting s =
      Interpret.dataContext setting (s.stack.map OpenElement.enclosing) s.assembly := by
  simp only [effectiveDataContext, Interpret.dataContext, List.findSome?_map]
  rfl

/-- The builder finds the type the recursion finds. -/
theorem outcome_resolveType (setting : Setting H) (name : String) (s : Construction H) :
    outcome (resolveType setting name) s =
      (outcome (Interpret.typeNamed setting name) s.assembly).map fun p =>
        (p.1, { s with assembly := p.2 }) := by
  unfold resolveType Interpret.typeNamed
  cases (ElementType.box? name : Option (ElementType H)) with
  | some type => rfl
  | none =>
    simp only [outcome_bind, outcome_get, except_ok_bind, outcome_ofExcept, except_map_map]

/-- The value of the element being closed is the product of its node. -/
theorem outcome_valueOf (e : OpenElement H) (s : Construction H) :
    outcome (valueOf e) s =
      (outcome (Interpret.product e.enclosing) s.assembly).map fun p =>
        (p.1, { s with assembly := p.2 }) := by
  unfold outcome valueOf Interpret.product
  simp only [OpenElement.enclosing]
  by_cases h : e.type.isFactory = true
  · simp only [h, if_true]
    cases s.assembly.waitingOn? e.object with
    | some b => rfl
    | none => cases (s.assembly.graph.object? e.object).bind e.type.produce <;> rfl
  · simp only [h]
    rfl

/-- Below the root, namespace declarations are refused, and all attributes are kept. -/
theorem outcome_declareNamespaces_nested (tag : String) (attributes : List (String × String))
    (s : Construction H) :
    outcome (declareNamespaces false tag attributes) s =
      (outcome (Interpret.forbidDeclarations tag attributes) s.assembly).map fun p =>
        (attributes, { s with assembly := p.2 }) := by
  induction attributes with
  | nil => rfl
  | cons a rest ih =>
    unfold declareNamespaces Interpret.forbidDeclarations
    cases Name.declaredQualifier a.1 with
    | some qualifier => rfl
    | none =>
      simp only [outcome_bind, ih, except_map_bind, Option.isSome_none, Bool.false_eq_true, if_false]
      cases outcome (Interpret.forbidDeclarations tag rest) s.assembly <;> rfl

/-- The root's namespace declarations take effect, and its other attributes are kept. -/
theorem outcome_declareNamespaces_root (tag : String) (attributes : List (String × String))
    (s : Construction H) :
    outcome (declareNamespaces true tag attributes) s =
      (outcome (Interpret.declareNamespaces attributes) s.assembly).map fun p =>
        (p.1, { s with assembly := p.2 }) := by
  induction attributes generalizing s with
  | nil => rfl
  | cons a rest ih =>
    unfold declareNamespaces Interpret.declareNamespaces
    cases Name.declaredQualifier a.1 with
    | none =>
      simp only [outcome_bind, ih, except_map_bind, except_bind_map]
      rfl
    | some qualifier =>
      simp only [Bool.not_true, Bool.false_eq_true, if_false, modifyScope, outcome_bind,
        outcome_modify, except_ok_bind, ih]

variable [Hooks H] (setting : Setting H)

/-- The builder puts a text where the recursion puts it. -/
theorem outcome_applyText (object : ObjectId) (name text : String) (s : Construction H) :
    outcome (applyText setting object name text) s =
      (outcome (Interpret.putText setting (s.stack.map OpenElement.enclosing) object name text)
        s.assembly).map fun p => (p.1, { s with assembly := p.2 }) := by
  unfold applyText Interpret.putText
  simp only [outcome_bind, outcome_onAssembly, except_map_bind, except_bind_map, outcome_get, except_ok_bind,
    effectiveDataContext_eq]
  congr 1; funext p
  congr 1; funext q
  congr 1; funext r
  congr 1; funext t
  cases t.1 <;> simp [outcome_onAssembly]

/-- A text for the innermost element does to the assembly what it does in that element. -/
theorem outcome_applyToTop (e : OpenElement H) (outer : List (OpenElement H)) (name text : String)
    (a : Assembly H) (tag : Option StartTag) (root : Option Value) :
    outcome (applyToTop setting name text) ⟨a, e :: outer, tag, root⟩ =
      (outcome (Interpret.putText setting ((e :: outer).map OpenElement.enclosing) e.object name
        text) a).map fun p => ((), ⟨p.2, e :: outer, tag, root⟩) := by
  unfold applyToTop top
  simp only [outcome_bind, outcome_get, outcome_pure, except_ok_bind, outcome_applyText]

/-- An attribute does to the assembly what it means, and what it tells is kept in the innermost
element. -/
theorem outcome_applyAttribute (e : OpenElement H) (outer : List (OpenElement H))
    (name value : String) (a : Assembly H) (tag : Option StartTag) (root : Option Value) :
    outcome (applyAttribute setting name value) ⟨a, e :: outer, tag, root⟩ =
      (outcome (Interpret.applyAttribute setting ((e :: outer).map OpenElement.enclosing) e.object
        e.metadata name value) a).map fun p =>
          ((), ⟨p.2, e.withMetadata p.1 :: outer, tag, root⟩) := by
  unfold applyAttribute Interpret.applyAttribute
  rcases Name.splitQualifier name with ⟨_ | qualifier, rest⟩
  · simp only [outcome_bind, outcome_applyToTop, except_bind_map]
    cases outcome (Interpret.putText setting ((e :: outer).map OpenElement.enclosing) e.object name
      value) a <;> rfl
  · simp only [outcome_bind, outcome_get, except_ok_bind, outcome_ofExcept]
    cases a.scope.spaceOf qualifier with
    | error failure => rfl
    | ok space =>
      simp only [except_ok_map, except_ok_bind]
      split_ifs <;> rfl

/-- The builder applies the attributes of the element just opened as the recursion applies those of
a node. -/
theorem outcome_applyAttributes (e : OpenElement H) (outer : List (OpenElement H))
    (attributes : List (String × String)) (a : Assembly H) (tag : Option StartTag)
    (root : Option Value) :
    outcome (applyAttributes setting attributes) ⟨a, e :: outer, tag, root⟩ =
      (outcome (Interpret.applyAttributes setting ((e :: outer).map OpenElement.enclosing) e.object
        e.metadata attributes) a).map fun p =>
          ((), ⟨p.2, e.withMetadata p.1 :: outer, tag, root⟩) := by
  induction attributes generalizing e a with
  | nil => rfl
  | cons first rest ih =>
    unfold applyAttributes Interpret.applyAttributes
    simp only [outcome_bind, outcome_applyAttribute, except_map_bind, except_bind_map]
    congr 1
    funext p
    exact ih (e.withMetadata p.1) p.2

/-! ### Opening and closing -/

/-- Opening an object makes it and applies its attributes; then it is the innermost open element. -/
theorem outcome_openObject (name : String) (attributes : List (String × String))
    (a : Assembly H) (stack : List (OpenElement H)) (tag : Option StartTag) (root : Option Value) :
    outcome (openObject setting name attributes) ⟨a, stack, tag, root⟩ =
      (outcome (Interpret.make setting name) a).bind fun p =>
        (outcome (Interpret.applyAttributes setting (p.1 :: stack.map OpenElement.enclosing)
          p.1.object ⟨none, none⟩ attributes) p.2).map fun q =>
            ((), ⟨q.2, .ofEnclosing p.1 q.1 :: stack, tag, root⟩) := by
  unfold openObject Interpret.make
  simp only [outcome_bind, outcome_resolveType, except_map_bind, except_bind_bind]
  congr 1
  funext p
  cases p.1.fresh with
  | none => rfl
  | some object =>
    simp only [outcome_bind, outcome_get, except_ok_bind, outcome_set, outcome_pure]
    exact outcome_applyAttributes setting ⟨p.1, p.2.graph.nextId, none, none, none, none⟩ ..

omit [Hooks H] in
/-- Opening a property checks the tag and remembers the property in the innermost element. -/
theorem outcome_openProperty (name owner property : String) (attributes : List (String × String))
    (e : OpenElement H) (outer : List (OpenElement H)) (a : Assembly H) (tag : Option StartTag)
    (root : Option Value) :
    outcome (openProperty setting name owner property attributes) ⟨a, e :: outer, tag, root⟩ =
      (outcome (Interpret.checkPropertyTag setting (e.place outer) e.text name owner property
        attributes) a).map fun p =>
          ((), ⟨p.2, { e with property := some property } :: outer, tag, root⟩) := by
  unfold openProperty Interpret.checkPropertyTag
  cases attributes with
  | cons first rest => rfl
  | nil =>
    simp only [List.isEmpty_nil, Bool.not_true, Bool.false_eq_true, if_false, outcome_bind,
      outcome_resolveType, except_map_bind, except_bind_map, outcome_get, except_ok_bind, OpenElement.place,
      OpenElement.enclosing]
    congr 1
    funext p
    cases e.property with
    | some other => rfl
    | none =>
      by_cases hText : e.text.isSome = true
      · simp only [hText, if_true]
        rfl
      by_cases hOwner : (!e.type.isAssignableTo p.1.key) = true
      · simp only [hText, hOwner, if_true]
        rfl
      by_cases hName : (e.type.property? property).isNone = true
      · simp only [hText, hOwner, hName, if_true]
        rfl
      · simp only [hText, hOwner, hName]
        rfl

/-- The builder declares the identifier the recursion declares. -/
theorem outcome_declareIdentifier (e : OpenElement H) (value : Value) (s : Construction H) :
    outcome (declareIdentifier setting e value) s =
      (outcome (Interpret.identify setting s.stack.isEmpty ⟨e.object, value, e.metadata⟩)
        s.assembly).map fun p => (p.1, { s with assembly := p.2 }) := by
  unfold declareIdentifier Interpret.identify
  simp only [OpenElement.metadata]
  cases e.identifier with
  | none => rfl
  | some id =>
    simp only [outcome_bind, outcome_get, except_ok_bind, outcome_ofExcept, except_map_bind]
    cases s.assembly.names.register id value with
    | error failure => rfl
    | ok names =>
      simp only [except_ok_bind, outcome_set, outcome_onAssembly, except_map_bind, except_bind_map]
      rfl

/-- Inside of another element, an element that closes is over, its value goes to the element around
it, and its identifier is declared. -/
theorem outcome_closeElement_nested (e parent : OpenElement H) (outer : List (OpenElement H))
    (a : Assembly H) (tag : Option StartTag) (root : Option Value) :
    outcome (closeElement setting) ⟨a, e :: parent :: outer, tag, root⟩ =
      (outcome (Interpret.product e.enclosing) a).bind fun p =>
        (outcome (do
          Assemble.assign setting.vocabulary (.element e.object) parent.object parent.receiver p.1
            e.key
          Interpret.identify setting false ⟨e.object, p.1, e.metadata⟩)
          (p.2.record (.closed e.object e.identifier p.1))).map fun q =>
            ((), ⟨q.2, parent :: outer, tag, root⟩) := by
  unfold closeElement handOver
  simp only [outcome_bind, outcome_get, except_ok_bind, outcome_set, outcome_valueOf, except_map_bind,
    outcome_onAssembly, outcome_modify, except_ok_map, except_bind_map, outcome_declareIdentifier]
  rfl

/-- The root that closes is over, its value is that of the document, and its identifier is
declared. -/
theorem outcome_closeElement_root (e : OpenElement H) (a : Assembly H) (tag : Option StartTag)
    (root : Option Value) :
    outcome (closeElement setting) ⟨a, [e], tag, root⟩ =
      (outcome (Interpret.product e.enclosing) a).bind fun p =>
        (outcome (Interpret.identify setting true ⟨e.object, p.1, e.metadata⟩)
          (p.2.record (.closed e.object e.identifier p.1))).map fun q =>
            ((), ⟨q.2, [], tag, some p.1⟩) := by
  unfold closeElement handOver
  simp only [outcome_bind, outcome_get, except_ok_bind, outcome_set, outcome_valueOf, except_map_bind,
    outcome_onAssembly, outcome_modify, except_ok_map, outcome_declareIdentifier]
  rfl

/-- The end of a property tag applies the text in it and leaves the element open. -/
theorem outcome_endTag_property (e : OpenElement H) (property : String) (text : Option String)
    (outer : List (OpenElement H)) (a : Assembly H) (tag : Option StartTag) (root : Option Value) :
    outcome (endTag setting)
        ⟨a, { e with property := some property, text } :: outer, tag, root⟩ =
      (outcome (Interpret.putRemembered setting (e.place outer).path e.object property text) a).map
        fun p => ((), ⟨p.2, { e with property := none, text := none } :: outer, tag, root⟩) := by
  unfold endTag Interpret.putRemembered
  cases text with
  | none => rfl
  | some text =>
    simp only [outcome_bind, outcome_get, except_ok_bind, outcome_set, outcome_applyText, except_map_bind]
    show (outcome (Interpret.putText setting (e.place outer).path e.object property text) a).bind _
      = _
    cases outcome (Interpret.putText setting (e.place outer).path e.object property text) a <;> rfl

/-- The end of an element applies the text in it and closes it. -/
theorem outcome_endTag_element (x : Enclosing H) (m : Metadata) (text : Option String)
    (outer : List (OpenElement H)) (a : Assembly H) (tag : Option StartTag) (root : Option Value) :
    outcome (endTag setting) ⟨a, { OpenElement.ofEnclosing x m with text } :: outer, tag, root⟩ =
      (outcome (Interpret.putRemembered setting (x :: outer.map OpenElement.enclosing) x.object
        x.type.contentProperty text) a).bind fun p =>
          outcome (closeElement setting) ⟨p.2, .ofEnclosing x m :: outer, tag, root⟩ := by
  unfold endTag Interpret.putRemembered
  cases text with
  | none => rfl
  | some text =>
    simp only [outcome_bind, outcome_get, except_ok_bind, outcome_set, outcome_applyText, except_map_bind]
    rfl

/-! ### Start tags -/

/-- A start tag inside of an element opens a property of it, or another element. -/
theorem outcome_openTag_nested (t : StartTag) (e : OpenElement H) (outer : List (OpenElement H))
    (a : Assembly H) (tag : Option StartTag) (root : Option Value) :
    outcome (openTag setting t) ⟨a, e :: outer, tag, root⟩ =
      (outcome (Interpret.forbidDeclarations t.name t.attributes) a).bind fun p =>
        match Name.splitProperty t.name with
        | some (owner, property) =>
          outcome (openProperty setting t.name owner property t.attributes)
            ⟨p.2, e :: outer, tag, root⟩
        | none => outcome (openObject setting t.name t.attributes) ⟨p.2, e :: outer, tag, root⟩ := by
  unfold openTag
  simp only [outcome_bind, outcome_get, except_ok_bind, List.isEmpty_cons, Bool.false_and,
    Bool.false_eq_true, if_false, outcome_declareNamespaces_nested, except_map_bind]
  congr 1
  funext p
  cases Name.splitProperty t.name <;> rfl

/-- The start tag of the root declares namespaces and opens an element, if there was no root. -/
theorem outcome_openTag_root (t : StartTag) (a : Assembly H) (tag : Option StartTag)
    (root : Option Value) :
    outcome (openTag setting t) ⟨a, [], tag, root⟩ =
      if root.isSome then .error (.structural (.secondRoot t.name))
      else
        (outcome (Interpret.declareNamespaces t.attributes) a).bind fun p =>
          outcome (openObject setting t.name p.1) ⟨p.2, [], tag, root⟩ := by
  unfold openTag
  cases root with
  | some value => rfl
  | none =>
    simp only [outcome_bind, outcome_get, except_ok_bind, List.isEmpty_nil, Option.isSome_none,
      Bool.and_false, Bool.false_eq_true, if_false, if_true, outcome_declareNamespaces_root,
      except_map_bind]

/-- A start tag changes nothing of the next one. -/
theorem tag_of_openTag {t : StartTag} {a : Assembly H} {stack : List (OpenElement H)}
    {root : Option Value} {p : Unit × Construction H}
    (h : outcome (openTag setting t) ⟨a, stack, none, root⟩ = .ok p) : p.2.tag = none := by
  have ofObject {name : String} {attributes : List (String × String)} {b : Assembly H}
      (h : outcome (openObject setting name attributes) ⟨b, stack, none, root⟩ = .ok p) :
      p.2.tag = none := by
    rw [outcome_openObject] at h
    obtain ⟨_, -, h⟩ := except_bind_eq_ok_iff.1 h
    obtain ⟨_, -, rfl⟩ := except_map_eq_ok_iff.1 h
    rfl
  cases stack with
  | nil =>
    rw [outcome_openTag_root] at h
    split at h
    · cases h
    · obtain ⟨_, -, h⟩ := except_bind_eq_ok_iff.1 h
      exact ofObject h
  | cons e outer =>
    rw [outcome_openTag_nested] at h
    obtain ⟨_, -, h⟩ := except_bind_eq_ok_iff.1 h
    split at h
    · rw [outcome_openProperty] at h
      obtain ⟨_, -, rfl⟩ := except_map_eq_ok_iff.1 h
      rfl
    · exact ofObject h

/-- With no tag pending there is nothing to complete. -/
theorem outcome_completeTag_of_none {s : Construction H} (h : s.tag = none) :
    outcome (completeTag setting) s = .ok ((), s) := by
  unfold completeTag
  simp only [outcome_bind, outcome_get, except_ok_bind, h]
  rfl

/-- A pending tag is opened and pends no longer. -/
theorem outcome_completeTag_of_some {s : Construction H} {t : StartTag} (h : s.tag = some t) :
    outcome (completeTag setting) s = outcome (openTag setting t) { s with tag := none } := by
  unfold completeTag
  simp only [outcome_bind, outcome_get, except_ok_bind, h]
  rfl

/-! ### Events -/

/-- The attributes of a start tag are collected in order. -/
theorem outcome_feedEvents_attributes (attributes : List (String × String))
    (rest : List Markup.Event) (a : Assembly H) (stack : List (OpenElement H)) (t : StartTag)
    (root : Option Value) :
    outcome (feedEvents setting (attributes.map Markup.attributeEvent ++ rest))
        ⟨a, stack, some t, root⟩ =
      outcome (feedEvents setting rest)
        ⟨a, stack, some { t with attributes := t.attributes ++ attributes }, root⟩ := by
  induction attributes generalizing t with
  | nil => simp
  | cons first others ih =>
    rw [List.map_cons, List.cons_append, outcome_feedEvents_cons]
    have := ih { t with attributes := t.attributes ++ [first] }
    rw [List.append_assoc] at this
    exact this

/-- Any other event opens what the start tag before it stands for, and is then fed. -/
theorem outcome_feed_of_tag {event : Markup.Event}
    (h : ∀ name value, event ≠ .attribute name value) (a : Assembly H)
    (stack : List (OpenElement H)) (t : StartTag) (root : Option Value) :
    outcome (feed setting event) ⟨a, stack, some t, root⟩ =
      (outcome (openTag setting t) ⟨a, stack, none, root⟩).bind fun p =>
        outcome (feed setting event) p.2 := by
  have key (act : Construct H Unit) :
      outcome (do completeTag setting; act) ⟨a, stack, some t, root⟩ =
        (outcome (openTag setting t) ⟨a, stack, none, root⟩).bind fun p =>
          outcome (do completeTag setting; act) p.2 := by
    rw [outcome_bind, outcome_completeTag_of_some setting rfl]
    cases hOpen : outcome (openTag setting t) ⟨a, stack, none, root⟩ with
    | error failure => rfl
    | ok p =>
      simp only [except_ok_bind]
      rw [outcome_bind, outcome_completeTag_of_none setting (tag_of_openTag setting hOpen)]
      rfl
  cases event with
  | «attribute» name value => exact absurd rfl (h name value)
  | start name => exact key _
  | text content => exact key _
  | finish => exact key _

/-- What follows the start tag of an element opens it. -/
theorem outcome_feedEvents_of_tag (children : List Markup.Node) (rest : List Markup.Event)
    (a : Assembly H) (stack : List (OpenElement H)) (t : StartTag) (root : Option Value) :
    outcome (feedEvents setting (Markup.Node.eventsOf children ++ .finish :: rest))
        ⟨a, stack, some t, root⟩ =
      (outcome (openTag setting t) ⟨a, stack, none, root⟩).bind fun p =>
        outcome (feedEvents setting (Markup.Node.eventsOf children ++ .finish :: rest)) p.2 := by
  have key {event : Markup.Event} (h : ∀ name value, event ≠ .attribute name value)
      (later : List Markup.Event) :
      outcome (feedEvents setting (event :: later)) ⟨a, stack, some t, root⟩ =
        (outcome (openTag setting t) ⟨a, stack, none, root⟩).bind fun p =>
          outcome (feedEvents setting (event :: later)) p.2 := by
    simp only [outcome_feedEvents_cons, outcome_feed_of_tag setting h, except_bind_bind]
  match children with
  | [] => exact key (by simp) _
  | .text content :: others =>
    simp only [Markup.Node.eventsOf_cons, Markup.Node.events, List.cons_append]
    exact key (by simp) _
  | .element tag attributes inner :: others =>
    simp only [Markup.Node.eventsOf_cons, Markup.Node.events, List.cons_append]
    exact key (by simp) _

/-- The events of an element collect its start tag, open what it stands for, feed its content and
end it. -/
theorem outcome_feedEvents_element (tag : String) (attributes : List (String × String))
    (children : List Markup.Node) (a : Assembly H) (stack : List (OpenElement H))
    (root : Option Value) :
    outcome (feedEvents setting (Markup.Node.element tag attributes children).events)
        ⟨a, stack, none, root⟩ =
      (outcome (openTag setting ⟨tag, attributes⟩) ⟨a, stack, none, root⟩).bind fun p =>
        (outcome (feedEvents setting (Markup.Node.eventsOf children)) p.2).bind fun q =>
          outcome (feed setting .finish) q.2 := by
  have start : outcome (feed setting (.start tag)) ⟨a, stack, none, root⟩ =
      .ok ((), ⟨a, stack, some ⟨tag, []⟩, root⟩) := rfl
  have last (s : Construction H) :
      outcome (feedEvents setting [.finish]) s = outcome (feed setting .finish) s := by
    rw [outcome_feedEvents_cons]
    cases outcome (feed setting .finish) s <;> rfl
  rw [Markup.Node.events, outcome_feedEvents_cons, start, except_ok_bind, outcome_feedEvents_attributes,
    List.nil_append, outcome_feedEvents_of_tag]
  simp only [outcome_feedEvents_append, last]

/-- The end of the innermost tag, when no start tag is pending. -/
theorem outcome_feed_finish (a : Assembly H) (stack : List (OpenElement H))
    (root : Option Value) :
    outcome (feed setting .finish) ⟨a, stack, none, root⟩ =
      outcome (endTag setting) ⟨a, stack, none, root⟩ := rfl

/-! ### Trees -/

section Element

variable (children : List Markup.Node) (stack : List (OpenElement H)) (root : Option Value)
  (ih : ∀ (e : OpenElement H) (a : Assembly H),
    outcome (feedEvents setting (Markup.Node.eventsOf children)) ⟨a, e :: stack, none, root⟩ =
      (outcome (Interpret.content setting (e.place stack) e.text children) a).map fun p =>
        ((), ⟨p.2, { e with text := p.1 } :: stack, none, root⟩))

include ih

/-- Opening an object, feeding its content and ending it interprets the element up to the point
where its text is applied, and then closes it. -/
theorem outcome_feed_object (tag : String) (attributes : List (String × String)) (a : Assembly H) :
    ((outcome (openObject setting tag attributes) ⟨a, stack, none, root⟩).bind fun p =>
      (outcome (feedEvents setting (Markup.Node.eventsOf children)) p.2).bind fun q =>
        outcome (feed setting .finish) q.2) =
      (outcome (do
        let x ← Interpret.make setting tag
        let m ← Interpret.applyAttributes setting (x :: stack.map OpenElement.enclosing) x.object
          ⟨none, none⟩ attributes
        let text ← Interpret.content setting ⟨x, stack.map OpenElement.enclosing, none⟩ none children
        Interpret.putRemembered setting (x :: stack.map OpenElement.enclosing) x.object
          x.type.contentProperty text
        pure (x, m)) a).bind fun p =>
          outcome (closeElement setting)
            ⟨p.2, .ofEnclosing p.1.1 p.1.2 :: stack, none, root⟩ := by
  simp only [outcome_openObject, except_bind_bind, except_map_bind, ih, outcome_feed_finish,
    outcome_endTag_element, outcome_bind, outcome_pure, except_ok_bind]
  rfl

end Element

mutual

/-- Content changes nothing of the stack but the text of the innermost element. -/
theorem outcome_feedEvents_node (node : Markup.Node) (e : OpenElement H)
    (outer : List (OpenElement H)) (a : Assembly H) (root : Option Value) :
    outcome (feedEvents setting node.events) ⟨a, e :: outer, none, root⟩ =
      (outcome (Interpret.node setting (e.place outer) e.text node) a).map fun p =>
        ((), ⟨p.2, { e with text := p.1 } :: outer, none, root⟩) := by
  match node with
  | .text content =>
    rw [Markup.Node.events, outcome_feedEvents_cons, Interpret.node]
    have hKeep : outcome (feed setting (.text content)) ⟨a, e :: outer, none, root⟩ =
        outcome (keepText content) ⟨a, e :: outer, none, root⟩ := rfl
    rw [hKeep]
    unfold keepText
    simp only [outcome_bind, outcome_get, except_ok_bind]
    cases e.text <;> rfl
  | .element tag attributes children =>
    rw [outcome_feedEvents_element, outcome_openTag_nested, Interpret.node]
    simp only [outcome_bind, except_bind_bind, except_bind_map]
    congr 1
    funext p
    cases Name.splitProperty tag with
    | some split =>
      simp only [outcome_openProperty, except_map_bind, outcome_bind, except_bind_map]
      cases hCheck : outcome (Interpret.checkPropertyTag setting (e.place outer) e.text tag split.1
        split.2 attributes) p.2 with
      | error failure => rfl
      | ok q =>
        obtain ⟨hProperty, hText, -⟩ := Interpret.of_checkPropertyTag (outcome_eq_ok.1 hCheck)
        have ih := outcome_feedEvents_nodes children { e with property := some split.2 } outer q.2
          root
        have hNone : e.property = none := hProperty
        simp only [except_ok_bind, ih, except_map_bind, outcome_feed_finish,
          outcome_endTag_property]
        simp only [outcome_pure, except_ok_map, except_bind_ok, hText, hNone]
        rfl
    | none =>
      have ih := fun e' a' => outcome_feedEvents_nodes children e' (e :: outer) a' root
      simp only
      rw [outcome_feed_object setting children (e :: outer) root ih]
      simp only [outcome_closeElement_nested, Interpret.element, outcome_bind, except_bind_bind, except_bind_map,
        outcome_pure, outcome_modify, except_ok_map, except_bind_ok, except_map_bind,
        except_map_map]
      rfl

/-- Pieces of content are fed as they are interpreted, one after the other. -/
theorem outcome_feedEvents_nodes (nodes : List Markup.Node) (e : OpenElement H)
    (outer : List (OpenElement H)) (a : Assembly H) (root : Option Value) :
    outcome (feedEvents setting (Markup.Node.eventsOf nodes)) ⟨a, e :: outer, none, root⟩ =
      (outcome (Interpret.content setting (e.place outer) e.text nodes) a).map fun p =>
        ((), ⟨p.2, { e with text := p.1 } :: outer, none, root⟩) := by
  match nodes with
  | [] =>
    rw [Interpret.content]
    rfl
  | node :: rest =>
    rw [Markup.Node.eventsOf_cons, outcome_feedEvents_append, outcome_feedEvents_node node,
      Interpret.content]
    simp only [outcome_bind, except_map_bind, except_bind_map]
    congr 1
    funext p
    exact outcome_feedEvents_nodes rest { e with text := p.1 } outer p.2 root

end

/-- The events of the root are fed as the document is interpreted. -/
theorem outcome_feedEvents_document (tag : String) (attributes : List (String × String))
    (children : List Markup.Node) (a : Assembly H) :
    outcome (feedEvents setting (Markup.Node.element tag attributes children).events)
        ⟨a, [], none, none⟩ =
      (outcome (Interpret.document setting tag attributes children) a).map fun p =>
        ((), ⟨p.2, [], none, some p.1⟩) := by
  have ih := fun e a => outcome_feedEvents_nodes setting children e [] a none
  rw [outcome_feedEvents_element, outcome_openTag_root]
  simp only [Option.isSome_none, Bool.false_eq_true, if_false, except_bind_bind,
    outcome_feed_object setting children [] none ih, outcome_closeElement_root, outcome_bind,
    Interpret.document, Interpret.element, outcome_pure, outcome_modify, except_ok_bind,
    except_bind_map, except_map_bind, except_bind_ok, except_map_map]
  rfl

/-- The machine does what recursion says: in any construction between two tags, reachable or not,
feeding the events of an element has the outcome of interpreting it. Either both fail in the same
way, or both leave the same construction. -/
theorem outcome_feedEvents_eq_interpret (tag : String) (attributes : List (String × String))
    (children : List Markup.Node) (s : Construction H) (h : s.tag = none) :
    outcome (feedEvents setting (Markup.Node.element tag attributes children).events) s =
      outcome (interpret setting tag attributes children) s := by
  obtain ⟨a, stack, pending, root⟩ := s
  obtain rfl : pending = none := h
  unfold interpret
  cases stack with
  | nil =>
    cases root with
    | some value =>
      rw [outcome_feedEvents_element, outcome_openTag_root]
      rfl
    | none =>
      rw [outcome_feedEvents_document]
      simp only [Option.isSome_none, Bool.false_eq_true, if_false, outcome_bind, outcome_get,
        except_ok_bind, outcome_onAssembly, outcome_modify, except_bind_ok]
      cases outcome (Interpret.document setting tag attributes children) a <;> rfl
  | cons e outer =>
    rw [outcome_feedEvents_node]
    simp only [outcome_bind, outcome_get, except_ok_bind, outcome_onAssembly, except_map_bind]
    cases outcome (Interpret.node setting (e.place outer) e.text (.element tag attributes children))
      a <;> rfl

end Construct

/-- A property tag with an element in it, inside of an element that is open and has content. -/
theorem outcome_feedEvents_property_tag :
    let setting : Setting Record.host := ⟨.builtIn, true, none⟩
    let content : List Markup.Node := [.element "int" [] [.text "42"]]
    ∃ s, Construct.feedEvents setting [.start "object", .start "int", .text "7", .finish]
        (.ofDefaults []) = .ok () s ∧
      s.tag = none ∧ (outcome (Construct.interpret setting "object.Content" [] content) s).isOk = true ∧
      outcome (Construct.feedEvents setting
          (Markup.Node.element "object.Content" [] content).events) s =
        outcome (Construct.interpret setting "object.Content" [] content) s := by
  intro setting content
  have hFed : (outcome (Construct.feedEvents setting
      [.start "object", .start "int", .text "7", .finish]) (.ofDefaults [])).toOption.any (fun p =>
        p.2.tag.isNone && (outcome (Construct.feedEvents setting
          (Markup.Node.element "object.Content" [] content).events) p.2).isOk) = true := by
    decide +kernel
  obtain ⟨⟨_, s⟩, hRun, hAll⟩ := except_exists_of_any hFed
  obtain ⟨hTag, hOk⟩ := Bool.and_eq_true_iff.1 hAll
  have hSame := Construct.outcome_feedEvents_eq_interpret setting "object.Content" [] content s
    (Option.isNone_iff_eq_none.1 hTag)
  rw [hSame] at hOk
  exact ⟨s, outcome_eq_ok.1 hRun, Option.isNone_iff_eq_none.1 hTag, hOk, hSame⟩

end ObjectMarkup
