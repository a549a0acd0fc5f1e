import Mathlib.Tactic.ByContra
import ObjectMarkup.Proofs.Acting
import ObjectMarkup.Proofs.Outline
import ObjectMarkup.Proofs.Recursion

/-!
# What a trace is

A run of the machine leaves a trace: the outline of the document so far, and the deeds that it made
the construction do. The two fit together, and they fit the state (`Traced`): the outline tells the
events, its path is what is on the stack, and the deeds, done to an empty assembly, give the assembly
of the state, make the objects of the outline, close those that are not on the path, and use what the
outline gives. What the operations of the machine do are such deeds.
-/

set_option autoImplicit false

namespace ObjectMarkup

open Operation

variable {H : Host}

/-! ### The invariant -/

/-- An open element of an outline is one on the stack. -/
structure OpenNode.Shows (n : OpenNode H) (e : OpenElement H) : Prop where
  type : e.type = n.head.type
  object : e.object = n.head.object
  property : e.property = n.inner.map OpenProperty.name
  text : e.text.toList = n.texts
  /-- No text stands before the tag of an open property. -/
  bare : n.inner.isSome = true → ObjectNode.textsOf n.content = []

/-- A node to which a child is added shows the element whose text takes up the child's. -/
theorem OpenNode.Shows.add {n : OpenNode H} {e : OpenElement H} (h : n.Shows e)
    (child : ObjectNode H) (text : Option String)
    (hText : text.toList = n.texts ++ child.content?.toList) :
    (n.add child).Shows { e with text } where
  type := by
    rw [head_add]
    exact h.type
  object := by
    rw [head_add]
    exact h.object
  property := by
    rw [inner_add]
    exact h.property
  text := by
    rw [texts_add]
    exact hText
  bare hSome := by
    have hBare := h.bare
    unfold OpenNode.add at hSome ⊢
    cases hInner : n.inner with
    | none =>
      rw [hInner] at hSome
      simp at hSome
    | some p => exact hBare (by rw [hInner]; rfl)

/-- An element without a property tag is shown by a node without one. -/
theorem OpenNode.Shows.inner_eq_none {n : OpenNode H} {e : OpenElement H} (h : n.Shows e)
    (hProperty : e.property = none) : n.inner = none := by
  have hName := h.property
  rw [hProperty] at hName
  simpa using hName.symm

/-- Outside of a property, what was kept is the text in the content of the element. -/
theorem OpenNode.Shows.text_eq {n : OpenNode H} {e : OpenElement H} (h : n.Shows e)
    (hProperty : e.property = none) : e.text.toList = ObjectNode.textsOf n.content := by
  rw [h.text, OpenNode.texts, h.inner_eq_none hProperty]

/-- The open elements of an outline are those on the stack; all but the outermost have whole tags. -/
inductive ShowsPath : List (OpenNode H) → List (OpenElement H) → Prop where
  | nil : ShowsPath [] []
  | root (n : OpenNode H) (e : OpenElement H) (shows : n.Shows e) : ShowsPath [n] [e]
  | nested (n m : OpenNode H) (path : List (OpenNode H)) (e f : OpenElement H)
      (stack : List (OpenElement H)) (shows : n.Shows e)
      (whole : Name.splitProperty n.head.tag = none) (rest : ShowsPath (m :: path) (f :: stack)) :
      ShowsPath (n :: m :: path) (e :: f :: stack)

/-- Only the empty path shows the empty stack. -/
theorem ShowsPath.eq_nil {path : List (OpenNode H)} (h : ShowsPath path []) : path = [] := by
  cases h
  rfl

/-- The empty path shows only the empty stack. -/
theorem ShowsPath.stack_eq_nil {stack : List (OpenElement H)} (h : ShowsPath [] stack) :
    stack = [] := by
  cases h
  rfl

/-- The innermost node and element of a path may be replaced when the new ones agree and the head
stays. -/
theorem ShowsPath.replaceTop {n n' : OpenNode H} {path : List (OpenNode H)} {e e' : OpenElement H}
    {stack : List (OpenElement H)} (h : ShowsPath (n :: path) (e :: stack)) (hShows : n'.Shows e')
    (hHead : n'.head = n.head) : ShowsPath (n' :: path) (e' :: stack) := by
  cases h with
  | root n e shows => exact .root n' e' hShows
  | nested n m path e f stack shows whole rest =>
    exact .nested n' m path e' f stack hShows (by rw [hHead]; exact whole) rest

/-- The scope in which the deeds of an outline are done. -/
def Outline.scope (o : Outline H) (defaults : List String) : NameScope :=
  (NameScope.ofDefaults defaults).declareAll o.rootAttributes

/-- An outline and deeds that a run with some events leaves, with its state. -/
structure Traced [Hooks H] (vocabulary : Vocabulary H) (defaults : List String)
    (events : List Markup.Event) (o : Outline H) (ds : List (Deed H)) (s : Construction H) :
    Prop where
  told : o.events = events
  path : ShowsPath o.path s.stack
  tag : s.tag = o.tag
  root : s.root.isSome = o.root.isSome
  /-- Nothing is open when the root is over. -/
  alone : o.root.isSome = true → o.path = []
  done : DoesAll vocabulary (.start (o.scope defaults)) ds s.assembly
  uses : Deed.uses ds = o.uses
  objects : Deed.objects ds = o.heads.map ElementHead.made
  /-- The elements are those that were closed and those that are open. -/
  closed : ((Deed.closed ds).map Closing.ending ++
    o.path.map fun n => n.head.ending (o.scope defaults)).Perm
      (o.heads.map fun e => e.ending (o.scope defaults))
  identifiers : s.stack.map OpenElement.identifier =
    o.path.map fun n => (o.scope defaults).identifierOf n.head.attributes
  /-- An element with an identifier is declared when it is closed. -/
  declared : Deed.declared ds = (Deed.closed ds).filterMap Closing.named?
  /-- The document has the value that its root stood for. -/
  value : ∀ t v, o.root = some t → s.root = some v →
    ∃ id, ⟨t.head.type, t.head.object, id, v⟩ ∈ Deed.closed ds
  /-- Nothing is done before the root is open. -/
  blank : o.root = none → o.path = [] → ds = []
  /-- Elements start and end as they do in the outline. -/
  boundaries : Deed.boundaries ds = o.boundaries

namespace Construct

variable [Hooks H] {setting : Setting H}

/-! ### Deeds of the machine -/

/-- A start tag without declared qualifiers, opened successfully, pushes one element and does the
deeds of its head. -/
theorem of_openObject {name : String} {attributes : List (String × String)} {a : Assembly H}
    {stack : List (OpenElement H)} {root : Option Value} {s' : Construction H}
    (h : outcome (openObject setting name attributes) ⟨a, stack, none, root⟩ = .ok ((), s'))
    (hDeclared : ∀ x ∈ attributes, Name.declaredQualifier x.1 = none) :
    ∃ e m a', s' = ⟨a', .ofEnclosing e m :: stack, none, root⟩ ∧
      m.identifier = a.scope.identifierOf attributes ∧
      DoesAll setting.vocabulary a (.make e.type e.object :: Deed.ofAttributes e.object attributes)
        a' := by
  rw [outcome_openObject] at h
  obtain ⟨⟨e, a₁⟩, hMake, h⟩ := except_bind_eq_ok_iff.1 h
  obtain ⟨⟨m, a₂⟩, hApply, h⟩ := except_map_eq_ok_iff.1 h
  cases h
  have hMade := Interpret.does_of_make (outcome_eq_ok.1 hMake)
  obtain ⟨hApplied, hTold⟩ := Interpret.of_applyAttributes (outcome_eq_ok.1 hApply) hDeclared
  rw [hMade.grows.scope, Option.or_none] at hTold
  exact ⟨e, m, a₂, rfl, hTold, .cons a a₁ a₂ _ _ hMade hApplied⟩

/-- What closing an element does to the assembly before its value goes anywhere. -/
theorem does_of_product {e : OpenElement H} {a : Assembly H} {p : Value × Assembly H}
    (h : outcome (Interpret.product e.enclosing) a = .ok p) :
    Does setting.vocabulary a (.close ⟨e.type, e.object, e.identifier, p.1⟩)
      (p.2.record (.closed e.object e.identifier p.1)) := by
  obtain ⟨hSame, hStands⟩ := Interpret.standsFor_of_product (outcome_eq_ok.1 h)
  rw [hSame]
  exact .close a e.type e.object e.identifier p.1 hStands

/-- Closing an inner element pops it and does its close, its identifier and its hand-over to the
parent. -/
theorem of_closeElement_nested {e parent : OpenElement H} {outer : List (OpenElement H)}
    {a : Assembly H} {tag : Option StartTag} {root : Option Value} {s' : Construction H}
    (h : outcome (closeElement setting) ⟨a, e :: parent :: outer, tag, root⟩ = .ok ((), s')) :
    ∃ value a', s' = ⟨a', parent :: outer, tag, root⟩ ∧
      DoesAll setting.vocabulary a
        (.close ⟨e.type, e.object, e.identifier, value⟩ ::
          .place e.object parent.object parent.receiver value ::
            Deed.ofIdentifier e.identifier value) a' := by
  rw [outcome_closeElement_nested] at h
  obtain ⟨⟨value, a₁⟩, hProduct, h⟩ := except_bind_eq_ok_iff.1 h
  obtain ⟨⟨_, a₂⟩, hRest, h⟩ := except_map_eq_ok_iff.1 h
  cases h
  obtain ⟨_, a₃, hAssign, hIdentify⟩ := bind_eq_ok.1 (outcome_eq_ok.1 hRest)
  obtain ⟨w, hAssigns⟩ := Assemble.assigns_of_assign hAssign
  have hPlaced : Does setting.vocabulary (a₁.record (.closed e.object e.identifier value))
      (.place e.object parent.object parent.receiver value) a₃ :=
    .place _ e.object parent.object parent.receiver value w a₃
      ⟨e.identifier, List.mem_cons_self ..⟩ hAssigns
  exact ⟨value, a₂, rfl, .cons _ _ _ _ _ (does_of_product hProduct)
    (.cons _ _ _ _ _ hPlaced (Interpret.doesAll_of_identify hIdentify))⟩

/-- Closing the outermost element leaves its value as the root. -/
theorem of_closeElement_root {e : OpenElement H} {a : Assembly H} {tag : Option StartTag}
    {root : Option Value} {s' : Construction H}
    (h : outcome (closeElement setting) ⟨a, [e], tag, root⟩ = .ok ((), s')) :
    ∃ value a', s' = ⟨a', [], tag, some value⟩ ∧
      DoesAll setting.vocabulary a
        (.close ⟨e.type, e.object, e.identifier, value⟩ :: Deed.ofIdentifier e.identifier value)
        a' := by
  rw [outcome_closeElement_root] at h
  obtain ⟨⟨value, a₁⟩, hProduct, h⟩ := except_bind_eq_ok_iff.1 h
  obtain ⟨⟨_, a₂⟩, hIdentify, h⟩ := except_map_eq_ok_iff.1 h
  cases h
  exact ⟨value, a₂, rfl, .cons _ _ _ _ _ (does_of_product hProduct)
    (Interpret.doesAll_of_identify (outcome_eq_ok.1 hIdentify))⟩

/-- The end of an element applies the text in it before it closes. -/
theorem of_endTag_element {e : OpenElement H} {outer : List (OpenElement H)} {a : Assembly H}
    {root : Option Value} {s' : Construction H} (hProperty : e.property = none)
    (h : outcome (endTag setting) ⟨a, e :: outer, none, root⟩ = .ok ((), s')) :
    ∃ a₁,
      DoesAll setting.vocabulary a (Deed.ofTexts e.object e.type.contentProperty e.text.toList) a₁ ∧
      outcome (closeElement setting)
        ⟨a₁, .ofEnclosing e.enclosing e.metadata :: outer, none, root⟩ = .ok ((), s') := by
  have hEnd := outcome_endTag_element setting e.enclosing e.metadata e.text outer a none root
  have hSame : ({ OpenElement.ofEnclosing e.enclosing e.metadata with text := e.text } :
      OpenElement H) = e := by
    obtain ⟨type, object, property, text, key, identifier⟩ := e
    cases hProperty
    rfl
  rw [hSame, h] at hEnd
  obtain ⟨⟨_, a₁⟩, hPut, hClose⟩ := except_bind_eq_ok_iff.1 hEnd.symm
  exact ⟨a₁, Interpret.doesAll_of_putRemembered (outcome_eq_ok.1 hPut), hClose⟩

end Construct

end ObjectMarkup
