import ObjectMarkup.Proofs.TraceInvariant

/-!
# Traces of runs

Each event extends the trace of a run (`Traced.feed`): a start tag opens an element or a property in
the outline and makes its object, a text is kept, and an end tag closes what is open. So the events of
a document that compiles are those of a tree, and what the deeds do to an assembly is all that a
document can do to it.
-/

set_option autoImplicit false

namespace ObjectMarkup

open Operation

variable {H : Host}

namespace Traced

variable [Hooks H] {vocabulary : Vocabulary H} {defaults : List String}
  {events : List Markup.Event} {o : Outline H} {ds : List (Deed H)} {s : Construction H}

/-- The scope of a traced state is the outline's. -/
theorem scope_eq (h : Traced vocabulary defaults events o ds s) :
    s.assembly.scope = o.scope defaults :=
  h.done.grows.scope

/-- The scope in which an element opens is that of the outline in which it is open. -/
theorem scope_opened (h : Traced vocabulary defaults events o ds s) (hRoot : o.root = none)
    (head : ElementHead H) :
    (if o.path = [] then s.assembly.scope.declareAll head.attributes else s.assembly.scope) =
      Outline.scope ⟨none, .ofHead head :: o.path, none⟩ defaults := by
  rw [h.scope_eq]
  cases hPath : o.path with
  | nil => simp [Outline.scope, Outline.rootAttributes, hRoot, hPath, OpenNode.ofHead, NameScope.declareAll]
  | cons n path => simp [Outline.scope, Outline.rootAttributes, hRoot, hPath]

/-- Before the root is open, there are no elements whose identifiers a scope could tell. -/
theorem closed_in (h : Traced vocabulary defaults events o ds s) (hRoot : o.root = none)
    (scope : NameScope) (hScope : o.path ≠ [] → scope = o.scope defaults) :
    ((Deed.closed ds).map Closing.ending ++ o.path.map fun n => n.head.ending scope).Perm
        (o.heads.map fun e => e.ending scope) ∧
      s.stack.map OpenElement.identifier =
        o.path.map fun n => scope.identifierOf n.head.attributes := by
  by_cases hPath : o.path = []
  · have hStack : s.stack = [] := by
      have hShows := h.path
      rw [hPath] at hShows
      exact hShows.stack_eq_nil
    simp [h.blank hRoot hPath, hPath, hStack, Outline.heads, hRoot]
  · rw [hScope hPath]
    exact ⟨h.closed, h.identifiers⟩

/-- An element that opens in the trace of a run. -/
theorem opened {a : Assembly H} {stack : List (OpenElement H)} {tag : Option StartTag}
    {root : Option Value} (h : Traced vocabulary defaults events o ds ⟨a, stack, tag, root⟩)
    {t : StartTag} (hTag : o.tag = some t) (hRoot : o.root = none)
    (hWhole : o.path ≠ [] → Name.splitProperty t.name = none) (e : Enclosing H) (m : Metadata)
    {a' : Assembly H} {scope : NameScope}
    (hScope : scope = if o.path = [] then a.scope.declareAll t.attributes else a.scope)
    (hTold : m.identifier = scope.identifierOf t.attributes)
    (hDoes : DoesAll vocabulary { a with scope }
      (.make e.type e.object :: Deed.ofAttributes e.object t.attributes) a') :
    Traced vocabulary defaults events
      ⟨none, .ofHead ⟨t.name, t.attributes, e.type, e.object⟩ :: o.path, none⟩
      (ds ++ .make e.type e.object :: Deed.ofAttributes e.object t.attributes)
      ⟨a', .ofEnclosing e m :: stack, none, root⟩ := by
  have hOpened := h.scope_opened hRoot ⟨t.name, t.attributes, e.type, e.object⟩
  rw [← hScope] at hOpened
  obtain ⟨hClosed, hIdentifiers⟩ := h.closed_in hRoot scope fun hOpen => by
    rw [hScope, if_neg hOpen]
    exact h.scope_eq
  refine ⟨?_, ?_, rfl, ?_, nofun, ?_, ?_, ?_, ?_, ?_, ?_, fun _ _ hSome => (nomatch hSome),
    fun _ hNone => (nomatch hNone), ?_⟩
  · rw [← h.told]
    simp [Outline.events, hTag, hRoot, OpenNode.events_ofHead, ElementHead.events, StartTag.events]
  · have hShows : (OpenNode.ofHead ⟨t.name, t.attributes, e.type, e.object⟩).Shows
        (OpenElement.ofEnclosing e m) :=
      ⟨rfl, rfl, rfl, rfl, fun hNone => by cases hNone⟩
    have hPath := h.path
    cases hStack : o.path with
    | nil =>
      rw [hStack] at hPath
      cases hPath
      exact .root _ _ hShows
    | cons n path =>
      have hTagWhole := hWhole (by simp [hStack])
      rw [hStack] at hPath
      cases stack with
      | nil => cases hPath
      | cons f stack => exact .nested _ _ _ _ _ _ hShows hTagWhole hPath
  · rw [h.root, hRoot]
  · rw [← hOpened]
    by_cases hPath : o.path = []
    · have hDone := h.done
      rw [h.blank hRoot hPath] at hDone ⊢
      cases hDone
      exact hDoes
    · have hSame : scope = a.scope := by rw [hScope, if_neg hPath]
      subst hSame
      have hDone := h.done
      rw [← h.scope_eq] at hDone
      exact hDone.append hDoes
  · rw [Deed.uses_append, h.uses]
    simp [Outline.uses, hRoot, OpenNode.uses_ofHead, ElementHead.uses]
  · rw [Deed.objects_append, h.objects]
    simp [Outline.heads, hRoot, OpenNode.heads_ofHead, ElementHead.made]
  · rw [← hOpened]
    have hHeads : o.heads = o.path.reverse.flatMap OpenNode.heads := by simp [Outline.heads, hRoot]
    rw [hHeads] at hClosed
    have hMiddle := List.perm_middle.trans
      ((hClosed.cons (ElementHead.ending ⟨t.name, t.attributes, e.type, e.object⟩ scope)).trans
        (List.perm_append_singleton ..).symm)
    simpa [Outline.heads, OpenNode.heads, OpenNode.ofHead] using hMiddle
  · rw [← hOpened, List.map_cons, List.map_cons, hIdentifiers]
    exact congrArg (· :: _) hTold
  · rw [Deed.declared_append, h.declared, Deed.closed_append]
    simp
  · rw [Deed.boundaries_append, h.boundaries]
    simp [Outline.boundaries, hRoot, OpenNode.boundaries_ofHead]

/-- What is on top of the stack is on top of the outline. -/
theorem top {a : Assembly H} {e : OpenElement H} {outer : List (OpenElement H)}
    {tag : Option StartTag} {root : Option Value}
    (h : Traced vocabulary defaults events o ds ⟨a, e :: outer, tag, root⟩) :
    o.root = none ∧ ∃ n path, o.path = n :: path ∧ n.Shows e := by
  have hPath := h.path
  cases hOpen : o.path with
  | nil =>
    rw [hOpen] at hPath
    cases hPath
  | cons n path =>
    refine ⟨?_, n, path, rfl, ?_⟩
    · by_contra hSome
      have := h.alone (Option.isSome_iff_ne_none.2 hSome)
      rw [hOpen] at this
      cases this
    · rw [hOpen] at hPath
      cases hPath with
      | root n e shows => exact shows
      | nested n m path e f stack shows whole rest => exact shows

omit [Hooks H] in
/-- The scope of an outline depends on the head of its root only. -/
theorem scope_path {o : Outline H} {n n' : OpenNode H} {path : List (OpenNode H)}
    (hRoot : o.root = none) (hTop : o.path = n :: path) (hHead : n'.head = n.head)
    (defaults : List String) :
    Outline.scope ⟨none, n' :: path, none⟩ defaults = o.scope defaults := by
  obtain ⟨oRoot, oPath, oTag⟩ := o
  cases hRoot
  cases hTop
  cases path with
  | nil => simp [Outline.scope, Outline.rootAttributes, hHead]
  | cons m path => simp [Outline.scope, Outline.rootAttributes]

/-- A change of the innermost open element that adds `later` events to it and has texts applied. -/
theorem replaceTop {a a' : Assembly H} {e e' : OpenElement H} {outer : List (OpenElement H)}
    {tag : Option StartTag} {root : Option Value} {n n' : OpenNode H} {path : List (OpenNode H)}
    {later : List Markup.Event} {property : String} {texts : List String}
    (h : Traced vocabulary defaults events o ds ⟨a, e :: outer, tag, root⟩)
    (hTop : o.path = n :: path) (hShows : n'.Shows e') (hIdentifier : e'.identifier = e.identifier)
    (hHead : n'.head = n.head)
    (hEvents : n'.events = n.events ++ (o.tag.toList.flatMap StartTag.events ++ later))
    (hUses : n'.uses = n.uses ++ ObjectNode.textUses n.head.object property texts)
    (hHeads : n'.heads = n.heads) (hBoundaries : n'.boundaries = n.boundaries)
    (hDoes : DoesAll vocabulary a (Deed.ofTexts n.head.object property texts) a') :
    Traced vocabulary defaults (events ++ later) ⟨none, n' :: path, none⟩
      (ds ++ Deed.ofTexts n.head.object property texts) ⟨a', e' :: outer, none, root⟩ := by
  obtain ⟨hRoot, -⟩ := h.top
  have hOutline : o.root.toList = [] := by rw [hRoot]; rfl
  have hScope := scope_path hRoot hTop hHead defaults
  have hAll : Outline.heads ⟨none, n' :: path, none⟩ = o.heads := by
    simp [Outline.heads, hTop, hOutline, hHeads]
  refine ⟨?_, ?_, rfl, ?_, nofun, ?_, ?_, ?_, ?_, ?_, ?_, fun _ _ hSome => (nomatch hSome),
    fun _ hNone => (nomatch hNone), ?_⟩
  · rw [← h.told]
    simp [Outline.events, hTop, hOutline, hEvents]
  · have hPath := h.path
    rw [hTop] at hPath
    exact hPath.replaceTop hShows hHead
  · rw [h.root, hRoot]
  · rw [hScope]
    exact h.done.append hDoes
  · rw [Deed.uses_append, h.uses]
    simp [Outline.uses, hTop, hOutline, hUses]
  · rw [Deed.objects_append, h.objects, hAll]
    simp
  · have hOld := h.closed
    rw [hTop] at hOld
    rw [hScope, hAll, Deed.closed_append, Deed.closed_ofTexts, List.append_nil, List.map_cons, hHead]
    exact hOld
  · have hOld := h.identifiers
    rw [hTop] at hOld
    rw [hScope, List.map_cons, List.map_cons, hIdentifier, hHead]
    exact hOld
  · rw [Deed.declared_append, h.declared, Deed.closed_append]
    simp
  · rw [Deed.boundaries_append, h.boundaries]
    simp [Outline.boundaries, hTop, hOutline, hBoundaries]

variable {setting : Setting H}

/-- A property tag inside of an element is in the outline where it is on the stack. -/
theorem openProperty {t : StartTag} {owner property : String} {e : OpenElement H}
    {outer : List (OpenElement H)} {a : Assembly H} {tag : Option StartTag} {root : Option Value}
    {s' : Construction H}
    (h : Traced vocabulary defaults events o ds ⟨a, e :: outer, tag, root⟩) (hTag : o.tag = some t)
    (hSplit : Name.splitProperty t.name = some (owner, property))
    (hOpen : outcome (Construct.openProperty setting t.name owner property t.attributes)
      ⟨a, e :: outer, none, root⟩ = .ok ((), s')) :
    ∃ o', o'.tag = none ∧ o'.path ≠ [] ∧ Traced vocabulary defaults events o' ds s' ∧
      s'.assembly = a := by
  rw [Construct.outcome_openProperty] at hOpen
  obtain ⟨⟨_, a'⟩, hCheck, hOpen⟩ := except_map_eq_ok_iff.1 hOpen
  cases hOpen
  obtain ⟨hProperty, hText, hAttributes, rfl⟩ :=
    Interpret.of_checkPropertyTag (outcome_eq_ok.1 hCheck)
  obtain ⟨-, n, path, hTop, hShows⟩ := h.top
  have hNone : e.property = none := hProperty
  have hInner : n.inner = none := hShows.inner_eq_none hNone
  have hContent : ObjectNode.textsOf n.content = [] := by
    rw [← hShows.text_eq hNone, hText]
    rfl
  refine ⟨⟨none, n.openProperty t.name owner property hSplit :: path, none⟩, rfl, nofun, ?_, rfl⟩
  have hNew : Traced vocabulary defaults (events ++ [])
      ⟨none, n.openProperty t.name owner property hSplit :: path, none⟩
      (ds ++ Deed.ofTexts n.head.object property [])
      ⟨a', { e with property := some property } :: outer, none, root⟩ := by
    refine h.replaceTop hTop ⟨hShows.type, hShows.object, rfl, ?_, fun _ => hContent⟩ rfl rfl ?_ ?_ ?_
      ?_ (.nil a')
    · rw [hText]
      rfl
    · rw [OpenNode.events_openProperty hSplit hInner, hTag]
      simp [StartTag.events, hAttributes]
    · rw [OpenNode.uses_openProperty hSplit hInner]
      exact (List.append_nil _).symm
    · exact OpenNode.heads_openProperty hSplit hInner
    · exact OpenNode.boundaries_openProperty hSplit hInner
  simpa [Deed.ofTexts] using hNew

/-- A start tag that is complete opens what it stands for, in the outline as on the stack. -/
theorem openTag {t : StartTag} {a : Assembly H} {stack : List (OpenElement H)}
    {tag : Option StartTag} {root : Option Value} {s' : Construction H}
    (h : Traced setting.vocabulary defaults events o ds ⟨a, stack, tag, root⟩)
    (hTag : o.tag = some t)
    (hOpen : outcome (Construct.openTag setting t) ⟨a, stack, none, root⟩ = .ok ((), s')) :
    ∃ o' new scope, o'.tag = none ∧ o'.path ≠ [] ∧
      Traced setting.vocabulary defaults events o' (ds ++ new) s' ∧
      DoesAll setting.vocabulary { a with scope } new s'.assembly := by
  cases stack with
  | nil =>
    rw [Construct.outcome_openTag_root] at hOpen
    split at hOpen
    · cases hOpen
    · next hNone =>
      obtain ⟨⟨others, a₁⟩, hDeclare, hOpen⟩ := except_bind_eq_ok_iff.1 hOpen
      obtain ⟨rfl, rfl⟩ := Interpret.of_declareNamespaces (outcome_eq_ok.1 hDeclare)
      obtain ⟨e, m, a', rfl, hTold, hDoes⟩ := Construct.of_openObject hOpen fun x hx => by
        simpa using (List.mem_filter.1 hx).2
      have hRoot : o.root = none := by
        have := h.root
        simpa [hNone] using this.symm
      have hPath : o.path = [] := h.path.eq_nil
      rw [Deed.ofAttributes_undeclared] at hDoes
      rw [NameScope.identifierOf, NameScope.metadataOf_undeclared] at hTold
      have hOpened := h.opened hTag hRoot (absurd hPath) e m (by rw [if_pos hPath]) hTold hDoes
      exact ⟨_, _, a.scope.declareAll t.attributes, rfl, List.cons_ne_nil _ _, hOpened, hDoes⟩
  | cons f outer =>
    rw [Construct.outcome_openTag_nested] at hOpen
    obtain ⟨⟨_, a₁⟩, hForbid, hRest⟩ := except_bind_eq_ok_iff.1 hOpen
    obtain ⟨rfl, hDeclared⟩ := Interpret.of_forbidDeclarations (outcome_eq_ok.1 hForbid)
    cases hSplit : Name.splitProperty t.name with
    | some split =>
      rw [hSplit] at hRest
      obtain ⟨o', hNone, hOpened, hTraced, hSame⟩ := h.openProperty hTag hSplit hRest
      refine ⟨o', [], a₁.scope, hNone, hOpened, by rwa [List.append_nil], ?_⟩
      rw [hSame]
      exact .nil a₁
    | none =>
      rw [hSplit] at hRest
      obtain ⟨e, m, a', rfl, hTold, hDoes⟩ := Construct.of_openObject hRest hDeclared
      obtain ⟨hRoot, n, path, hTop, -⟩ := h.top
      have hNotRoot : o.path ≠ [] := by simp [hTop]
      have hOpened := h.opened hTag hRoot (fun _ => hSplit) e m (by rw [if_neg hNotRoot]) hTold hDoes
      exact ⟨_, _, a₁.scope, rfl, List.cons_ne_nil _ _, hOpened, hDoes⟩

/-- A start tag that is complete, if there is one, opens what it stands for. -/
theorem completeTag {s' : Construction H}
    (h : Traced setting.vocabulary defaults events o ds s)
    (hComplete : outcome (Construct.completeTag setting) s = .ok ((), s')) :
    ∃ o' new scope, o'.tag = none ∧
      Traced setting.vocabulary defaults events o' (ds ++ new) s' ∧
      DoesAll setting.vocabulary { s.assembly with scope } new s'.assembly := by
  cases hTag : s.tag with
  | none =>
    rw [Construct.outcome_completeTag_of_none setting hTag] at hComplete
    cases hComplete
    refine ⟨o, [], s.assembly.scope, ?_, by rwa [List.append_nil], .nil _⟩
    rw [← h.tag, hTag]
  | some t =>
    rw [Construct.outcome_completeTag_of_some setting hTag] at hComplete
    obtain ⟨o', new, scope, hNone, -, hRest⟩ := h.openTag (by rw [← h.tag, hTag]) hComplete
    exact ⟨o', new, scope, hNone, hRest⟩

/-- A run of text is kept in the innermost open tag. -/
theorem keepText {content : String} {s' : Construction H}
    (h : Traced vocabulary defaults events o ds s) (hTag : o.tag = none)
    (hKeep : outcome (Construct.keepText content) s = .ok ((), s')) :
    ∃ o', Traced vocabulary defaults (events ++ [.text content]) o' ds s' ∧
      s'.assembly = s.assembly := by
  obtain ⟨a, stack, tag, root⟩ := s
  have hNone : tag = none := h.tag.trans hTag
  subst hNone
  unfold Construct.keepText at hKeep
  cases stack with
  | nil => cases hKeep
  | cons e outer =>
    obtain ⟨-, n, path, hTop, hShows⟩ := h.top
    cases hText : e.text with
    | some text =>
      simp only [outcome_bind, outcome_get, except_ok_bind, hText] at hKeep
      cases hKeep
    | none =>
      simp only [outcome_bind, outcome_get, except_ok_bind, hText] at hKeep
      cases hKeep
      have hTexts : n.texts = [] := by
        rw [← hShows.text, hText]
        rfl
      refine ⟨⟨none, n.add (.text content) :: path, none⟩, ?_, rfl⟩
      have hNew : Traced vocabulary defaults (events ++ [.text content])
          ⟨none, n.add (.text content) :: path, none⟩
          (ds ++ Deed.ofTexts n.head.object n.receiver [])
          ⟨a, { e with text := some content } :: outer, none, root⟩ := by
        refine h.replaceTop hTop (hShows.add (.text content) (some content) ?_) rfl (n.head_add _)
          ?_ ?_ ?_ ?_ (.nil a)
        · rw [hTexts]
          rfl
        · rw [OpenNode.events_add, hTag]
          rfl
        · rw [OpenNode.uses_add]
          rfl
        · rw [OpenNode.heads_add, ObjectNode.heads, List.append_nil]
        · rw [OpenNode.boundaries_add, ObjectNode.boundaries, List.append_nil]
      simpa [Deed.ofTexts] using hNew

/-- The end of a property tag closes the property in the outline. -/
theorem endProperty {a : Assembly H} {e : OpenElement H} {outer : List (OpenElement H)}
    {root : Option Value} {s' : Construction H} {name : String}
    (h : Traced setting.vocabulary defaults events o ds ⟨a, e :: outer, none, root⟩)
    (hTag : o.tag = none) (hProperty : e.property = some name)
    (hEnd : outcome (Construct.endTag setting) ⟨a, e :: outer, none, root⟩ = .ok ((), s')) :
    ∃ o' new, Traced setting.vocabulary defaults (events ++ [.finish]) o' (ds ++ new) s' ∧
      DoesAll setting.vocabulary a new s'.assembly := by
  obtain ⟨-, n, path, hTop, hShows⟩ := h.top
  obtain ⟨p, hInner, rfl⟩ : ∃ p, n.inner = some p ∧ p.name = name := by
    have hName := hShows.property
    rw [hProperty] at hName
    simpa using hName.symm
  have hTexts : e.text.toList = ObjectNode.textsOf p.content := by
    rw [hShows.text, OpenNode.texts, hInner]
  have hEnded := Construct.outcome_endTag_property setting e p.name e.text outer a none root
  have hSame : ({ e with property := some p.name, text := e.text } : OpenElement H) = e := by
    rw [← hProperty]
  rw [hSame] at hEnded
  rw [hEnded] at hEnd
  obtain ⟨⟨_, a'⟩, hPut, hEnd⟩ := except_map_eq_ok_iff.1 hEnd
  cases hEnd
  have hDoes := Interpret.doesAll_of_putRemembered (outcome_eq_ok.1 hPut)
  rw [hShows.object] at hDoes
  refine ⟨⟨none, n.closeProperty p :: path, none⟩, _, ?_, hDoes⟩
  refine h.replaceTop hTop ⟨hShows.type, hShows.object, rfl, ?_,
    fun hOpen => absurd hOpen Bool.false_ne_true⟩ rfl rfl ?_ ?_ ?_ ?_ hDoes
  · have hBare := hShows.bare (by rw [hInner]; rfl)
    rw [OpenNode.texts, OpenNode.closeProperty]
    show [] = ObjectNode.textsOf (n.content ++ [_])
    rw [ObjectNode.textsOf_append, hBare]
    rfl
  · rw [OpenNode.events_closeProperty hInner, hTag]
    rfl
  · rw [OpenNode.uses_closeProperty hInner, hTexts]
  · exact OpenNode.heads_closeProperty hInner
  · exact OpenNode.boundaries_closeProperty hInner

/-- The end of an element closes it in the outline: it becomes content of the element around it. -/
theorem endNested {a : Assembly H} {e f : OpenElement H} {outer : List (OpenElement H)}
    {root : Option Value} {s' : Construction H}
    (h : Traced setting.vocabulary defaults events o ds ⟨a, e :: f :: outer, none, root⟩)
    (hTag : o.tag = none) (hProperty : e.property = none)
    (hEnd : outcome (Construct.endTag setting) ⟨a, e :: f :: outer, none, root⟩ = .ok ((), s')) :
    ∃ o' new, Traced setting.vocabulary defaults (events ++ [.finish]) o' (ds ++ new) s' ∧
      DoesAll setting.vocabulary a new s'.assembly := by
  obtain ⟨hRoot, -⟩ := h.top
  obtain ⟨a₁, hTexts, hClose⟩ := Construct.of_endTag_element hProperty hEnd
  obtain ⟨value, a', rfl, hClosed⟩ := Construct.of_closeElement_nested hClose
  have hDoes := hTexts.append hClosed
  have hPath := h.path
  obtain ⟨oRoot, oPath, oTag⟩ := o
  cases hRoot
  cases hTag
  cases hPath with
  | nested n m path e f stack hShows whole rest =>
    have hInner : n.inner = none := hShows.inner_eq_none hProperty
    have hContent := hShows.text_eq hProperty
    have hParent : m.Shows f := by
      cases rest with
      | root n e shows => exact shows
      | nested n m path e f stack shows whole rest => exact shows
    have hNoText : f.text.toList = m.texts ++ (n.close whole).content?.toList := by
      rw [hParent.text]
      exact (List.append_nil _).symm
    have hReceiver : f.receiver = m.receiver := by
      rw [OpenElement.receiver, OpenNode.receiver, hParent.property, hParent.type]
      cases m.inner <;> rfl
    have hScope : Outline.scope ⟨none, m.add (n.close whole) :: path, none⟩ defaults =
        Outline.scope ⟨none, n :: m :: path, none⟩ defaults := by
      cases path with
      | nil => simp [Outline.scope, Outline.rootAttributes, OpenNode.head_add]
      | cons k path => simp [Outline.scope, Outline.rootAttributes]
    obtain ⟨hIdentifier, hOthers⟩ := List.cons.inj h.identifiers
    refine ⟨⟨none, m.add (n.close whole) :: path, none⟩, _, ⟨?_, ?_, rfl, h.root, nofun, ?_, ?_, ?_,
      ?_, ?_, ?_, fun _ _ hSome => (nomatch hSome), fun _ hNone => (nomatch hNone), ?_⟩, hDoes⟩
    · rw [← h.told]
      simp [Outline.events, OpenNode.events_add, OpenNode.events_close hInner]
    · exact rest.replaceTop (hParent.add (n.close whole) f.text hNoText) (m.head_add _)
    · rw [hScope]
      exact h.done.append hDoes
    · rw [Deed.uses_append, h.uses]
      simp [Outline.uses, OpenNode.uses_add, OpenNode.uses_close hInner, hContent, hReceiver,
        OpenElement.ofEnclosing, OpenElement.enclosing, hShows.object, hShows.type, hParent.object]
    · rw [Deed.objects_append, h.objects]
      simp [Outline.heads, OpenNode.heads_add, OpenNode.heads_close hInner]
    · have hOld := h.closed
      rw [hScope]
      simpa [Outline.heads, OpenNode.heads_add, OpenNode.heads_close hInner, OpenNode.head_add,
        OpenElement.ofEnclosing, OpenElement.enclosing, OpenElement.metadata, Closing.ending,
        ElementHead.ending, hShows.type, hShows.object, hIdentifier] using hOld
    · rw [hScope]
      simpa only [List.map_cons, m.head_add] using hOthers
    · rw [Deed.declared_append, h.declared, Deed.closed_append, List.filterMap_append]
      simp [Closing.named?_singleton, Closing.named?]
    · rw [Deed.boundaries_append, h.boundaries]
      simp [Outline.boundaries, OpenNode.boundaries_add, OpenNode.boundaries_close hInner,
        OpenElement.ofEnclosing, OpenElement.enclosing, hShows.object]

/-- The end of the root makes a document of the outline. -/
theorem endRoot {a : Assembly H} {e : OpenElement H} {root : Option Value} {s' : Construction H}
    (h : Traced setting.vocabulary defaults events o ds ⟨a, [e], none, root⟩)
    (hTag : o.tag = none) (hProperty : e.property = none)
    (hEnd : outcome (Construct.endTag setting) ⟨a, [e], none, root⟩ = .ok ((), s')) :
    ∃ o' new, Traced setting.vocabulary defaults (events ++ [.finish]) o' (ds ++ new) s' ∧
      DoesAll setting.vocabulary a new s'.assembly := by
  obtain ⟨hRoot, -⟩ := h.top
  obtain ⟨a₁, hTexts, hClose⟩ := Construct.of_endTag_element hProperty hEnd
  obtain ⟨value, a', rfl, hClosed⟩ := Construct.of_closeElement_root hClose
  have hDoes := hTexts.append hClosed
  have hPath := h.path
  obtain ⟨oRoot, oPath, oTag⟩ := o
  cases hRoot
  cases hTag
  cases hPath with
  | root n e hShows =>
    have hInner : n.inner = none := hShows.inner_eq_none hProperty
    have hContent := hShows.text_eq hProperty
    have hScope : Outline.scope ⟨some n.closeRoot, [], none⟩ defaults =
        Outline.scope ⟨none, [n], none⟩ defaults := rfl
    obtain ⟨hIdentifier, -⟩ := List.cons.inj h.identifiers
    refine ⟨⟨some n.closeRoot, [], none⟩, _, ⟨?_, .nil, rfl, rfl, fun _ => rfl, ?_, ?_, ?_, ?_, rfl,
      ?_, ?_, nofun, ?_⟩, hDoes⟩
    · rw [← h.told]
      simp [Outline.events, OpenNode.events_closeRoot hInner]
    · exact h.done.append hDoes
    · rw [Deed.uses_append, h.uses]
      simp [Outline.uses, OpenNode.uses_closeRoot hInner, hContent, hShows.object, hShows.type]
    · rw [Deed.objects_append, h.objects]
      simp [Outline.heads, OpenNode.heads_closeRoot hInner]
    · have hOld := h.closed
      rw [hScope]
      simpa [Outline.heads, OpenNode.heads_closeRoot hInner, OpenElement.ofEnclosing,
        OpenElement.enclosing, OpenElement.metadata, Closing.ending, ElementHead.ending, hShows.type,
        hShows.object, hIdentifier] using hOld
    · rw [Deed.declared_append, h.declared, Deed.closed_append, List.filterMap_append]
      simp [Closing.named?_singleton, Closing.named?]
    · rintro t v ⟨⟩ ⟨⟩
      refine ⟨e.identifier, ?_⟩
      simp [OpenElement.ofEnclosing, OpenElement.enclosing, OpenElement.metadata, OpenNode.closeRoot,
        hShows.type, hShows.object]
    · rw [Deed.boundaries_append, h.boundaries]
      simp [Outline.boundaries, OpenNode.boundaries_closeRoot hInner, OpenElement.ofEnclosing,
        OpenElement.enclosing, hShows.object]

/-- The end of the innermost tag ends what is innermost in the outline. -/
theorem endTag {s' : Construction H} (h : Traced setting.vocabulary defaults events o ds s)
    (hTag : o.tag = none) (hEnd : Construct.endTag setting s = .ok () s') :
    ∃ o' new, Traced setting.vocabulary defaults (events ++ [.finish]) o' (ds ++ new) s' ∧
      DoesAll setting.vocabulary s.assembly new s'.assembly := by
  obtain ⟨a, stack, tag, root⟩ := s
  have hNone : tag = none := h.tag.trans hTag
  subst hNone
  rw [← outcome_eq_ok] at hEnd
  cases stack with
  | nil => cases hEnd
  | cons e outer =>
    cases hProperty : e.property with
    | some name => exact h.endProperty hTag hProperty hEnd
    | none =>
      cases outer with
      | nil => exact h.endRoot hTag hProperty hEnd
      | cons f outer => exact h.endNested hTag hProperty hEnd

/-- Each event that is fed extends the trace. The deeds that are new are done to the assembly before
it, where the scope is final. -/
theorem feed {event : Markup.Event} {s' : Construction H}
    (h : Traced setting.vocabulary defaults events o ds s)
    (hFeed : Construct.feed setting event s = .ok () s') :
    ∃ o' new scope, Traced setting.vocabulary defaults (events ++ [event]) o' (ds ++ new) s' ∧
      DoesAll setting.vocabulary { s.assembly with scope } new s'.assembly := by
  cases event with
  | «attribute» name value =>
    unfold Construct.feed at hFeed
    obtain ⟨_, _, hGet, hFeed⟩ := bind_eq_ok.1 hFeed
    cases hGet
    cases hTag : s.tag with
    | none =>
      rw [hTag] at hFeed
      cases hFeed
    | some t =>
      rw [hTag] at hFeed
      cases hFeed
      have hOutline : o.tag = some t := by rw [← h.tag, hTag]
      refine ⟨{ o with tag := some { t with attributes := t.attributes ++ [(name, value)] } }, [],
        s.assembly.scope, ?_, .nil _⟩
      rw [List.append_nil]
      refine ⟨?_, h.path, rfl, h.root, h.alone, h.done, h.uses, h.objects, h.closed, h.identifiers,
        h.declared, h.value, h.blank, h.boundaries⟩
      rw [← h.told]
      simp [Outline.events, hOutline, StartTag.events, Markup.attributeEvent]
  | start name =>
    obtain ⟨_, s₁, hComplete, hStart⟩ := bind_eq_ok.1 hFeed
    cases hStart
    obtain ⟨o₁, new, scope, hTag, h₁, hDoes⟩ := h.completeTag (outcome_eq_ok.2 hComplete)
    refine ⟨{ o₁ with tag := some ⟨name, []⟩ }, new, scope, ?_, hDoes⟩
    refine ⟨?_, h₁.path, rfl, h₁.root, h₁.alone, h₁.done, h₁.uses, h₁.objects, h₁.closed,
      h₁.identifiers, h₁.declared, h₁.value, h₁.blank, h₁.boundaries⟩
    rw [← h₁.told]
    simp [Outline.events, hTag, StartTag.events]
  | text content =>
    obtain ⟨_, s₁, hComplete, hKeep⟩ := bind_eq_ok.1 hFeed
    obtain ⟨o₁, new, scope, hTag, h₁, hDoes⟩ := h.completeTag (outcome_eq_ok.2 hComplete)
    obtain ⟨o₂, h₂, hSame⟩ := h₁.keepText hTag (outcome_eq_ok.2 hKeep)
    refine ⟨o₂, new, scope, h₂, ?_⟩
    rw [hSame]
    exact hDoes
  | finish =>
    obtain ⟨_, s₁, hComplete, hEnd⟩ := bind_eq_ok.1 hFeed
    obtain ⟨o₁, new, scope, hTag, h₁, hDoes⟩ := h.completeTag (outcome_eq_ok.2 hComplete)
    obtain ⟨o₂, later, h₂, hLater⟩ := h₁.endTag hTag hEnd
    exact ⟨o₂, new ++ later, scope, by rwa [← List.append_assoc], hDoes.append hLater⟩

/-- Before the first event there is nothing to trace. -/
theorem start (vocabulary : Vocabulary H) (defaults : List String) :
    Traced vocabulary defaults [] ⟨none, [], none⟩ [] (.ofDefaults defaults) :=
  ⟨rfl, .nil, rfl, rfl, fun _ => rfl, .nil _, rfl, rfl, .nil, rfl, rfl,
    fun _ _ hSome => (nomatch hSome), fun _ _ => rfl, rfl⟩

/-- Each run extends the trace. -/
theorem feedEvents {more : List Markup.Event} {s' : Construction H}
    (h : Traced setting.vocabulary defaults events o ds s)
    (hFeed : Construct.feedEvents setting more s = .ok () s') :
    ∃ o' new, Traced setting.vocabulary defaults (events ++ more) o' (ds ++ new) s' := by
  induction more generalizing events o ds s with
  | nil =>
    cases hFeed
    exact ⟨o, [], by simpa using h⟩
  | cons event more ih =>
    obtain ⟨_, s₁, hFirst, hRest⟩ := bind_eq_ok.1 hFeed
    obtain ⟨o₁, new, -, h₁, -⟩ := h.feed hFirst
    obtain ⟨o₂, later, h₂⟩ := ih h₁ hRest
    refine ⟨o₂, new ++ later, ?_⟩
    simpa using h₂

/-- When nothing is open at the end and there is a root, the events are those of a tree, and no tag
was left to complete. -/
theorem complete {s₁ : Construction H} {root : Value}
    (h : Traced setting.vocabulary defaults events o ds s)
    (hComplete : Construct.completeTag setting s = .ok () s₁) (hStack : s₁.stack = [])
    (hRoot : s₁.root = some root) :
    ∃ t, o = ⟨some t, [], none⟩ ∧ s = ⟨s.assembly, [], none, some root⟩ ∧ s₁ = s := by
  rw [← outcome_eq_ok] at hComplete
  have hTag : s.tag = none := by
    by_contra hSome
    obtain ⟨t, hTag⟩ := Option.ne_none_iff_exists'.1 hSome
    rw [Construct.outcome_completeTag_of_some setting hTag] at hComplete
    obtain ⟨o', _, _, -, hOpened, hTraced, -⟩ := h.openTag (by rw [← h.tag, hTag]) hComplete
    have hPath := hTraced.path
    rw [hStack] at hPath
    exact hOpened hPath.eq_nil
  rw [Construct.outcome_completeTag_of_none setting hTag] at hComplete
  cases hComplete
  obtain ⟨a, stack, tag, root'⟩ := s
  cases hStack
  cases hTag
  cases hRoot
  have hSome : o.root.isSome = true := by rw [← h.root]; rfl
  obtain ⟨t, hTree⟩ := Option.isSome_iff_exists.1 hSome
  refine ⟨t, ?_, rfl, rfl⟩
  obtain ⟨oRoot, oPath, oTag⟩ := o
  cases hTree
  cases h.alone hSome
  cases h.tag
  rfl

/-- A document that ends without a failure is a tree, and only the last drain comes after it. -/
theorem finish {value : Value} {s' : Construction H}
    (h : Traced setting.vocabulary defaults events o ds s)
    (hFinish : Construct.finish setting s = .ok value s') :
    ∃ t a', o = ⟨some t, [], none⟩ ∧ s = ⟨s.assembly, [], none, some value⟩ ∧
      Assemble.settle setting.vocabulary s.assembly = .ok () a' ∧
      s' = ⟨a', [], none, some value⟩ := by
  obtain ⟨_, s₁, hComplete, hRest⟩ := bind_eq_ok.1 hFinish
  obtain ⟨_, _, hGet, hRest⟩ := bind_eq_ok.1 hRest
  cases hGet
  cases hStack : s₁.stack with
  | cons e outer =>
    rw [hStack] at hRest
    cases hRest
  | nil =>
    rw [hStack] at hRest
    cases hRoot : s₁.root with
    | none =>
      rw [hRoot] at hRest
      cases hRest
    | some root =>
      rw [hRoot] at hRest
      obtain ⟨_, s₂, hSettle, hEnd⟩ := bind_eq_ok.1 hRest
      obtain ⟨a', hSettled, rfl⟩ := within_eq_ok.1 hSettle
      cases hEnd
      obtain ⟨t, hOutline, hOver, rfl⟩ := h.complete hComplete hStack hRoot
      refine ⟨t, a', hOutline, hOver, hSettled, ?_⟩
      rw [hOver]

end Traced

/-- Every state that events lead to has a trace. -/
theorem traced_of_feedEvents [Hooks H] {setting : Setting H} {defaults : List String}
    {events : List Markup.Event} {s : Construction H}
    (h : Construct.feedEvents setting events (.ofDefaults defaults) = .ok () s) :
    ∃ o ds, Traced setting.vocabulary defaults events o ds s := by
  obtain ⟨o, ds, hTraced⟩ := (Traced.start setting.vocabulary defaults).feedEvents h
  exact ⟨o, ds, by simpa using hTraced⟩

end ObjectMarkup
