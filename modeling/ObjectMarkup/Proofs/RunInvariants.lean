import ObjectMarkup.Proofs.StepObligations

/-!
# What holds in every run

What is shown of each step (`Course`) holds in every run: when a tag is complete, when an element is over,
after each event, and at the end of the stream, whether it succeeds or fails (`Course.construct`).

Evaluations happen in the scope that the root declares and read texts that the events tell. Both are
known before the run comes to them (`Upheld`), so an invariant may rely on them.
-/

set_option autoImplicit false

namespace ObjectMarkup

open Operation

namespace Course

variable {H : Host} [Hooks H] {setting : Setting H} {S : NameScope → Prop} {T : String → Prop}
  {I : Moment H → Prop} {J : Binding → Outcome → Moment H → Prop} {E : Failure → Moment H → Prop}
  {path : List (Enclosing H)}

/-! ### Tags -/

/-- The tag of the root was complete, and no start tag is pending. -/
structure Begun (S : NameScope → Prop) (T : String → Prop) (I : Moment H → Prop)
    (s : Construction H) : Prop where
  stands : I s.moment
  begun : s.Started
  scope : S s.assembly.scope
  texts : ∀ content ∈ s.stack.filterMap OpenElement.text, T content
  tag : s.tag = none

omit [Hooks H] in
/-- A construction with the same open elements is begun as well. -/
theorem Begun.alike {s s' : Construction H} (h : Begun S T I s) (hAlike : s.Alike s')
    (h' : I s'.moment) : Begun S T I s' where
  stands := h'
  begun := by
    have hPath := hAlike.path
    rw [Construction.Started, hAlike.root]
    refine h.begun.imp_left fun hOpen hNone => hOpen ?_
    rw [Construction.path, hNone, List.map_nil] at hPath
    exact List.map_eq_nil_iff.1 hPath.symm
  scope := by
    rw [hAlike.scope]
    exact h.scope
  texts := by
    rw [hAlike.texts]
    exact h.texts
  tag := hAlike.tag.trans h.tag

/-- The name of a tag is resolved to a type that markup can name. -/
theorem resolveType (u : Course setting S T I J E) {s : Construction H} (h : I s.moment)
    (name : String) :
    Ends (Construct.resolveType setting name) s
      (fun type s' => s' = s ∧ setting.vocabulary.Knows type) (Construction.FailsIn E) := by
  unfold Construct.resolveType
  cases hBox : (ElementType.box? name : Option (ElementType H)) with
  | some type => exact ⟨rfl, .inl (List.mem_of_find?_eq_some hBox)⟩
  | none =>
    refine .bind_get (.of_ofExcept (fun type hFind => ?_) fun failure hError => ?_)
    · exact ⟨rfl, .inr (NameScope.mem_types_of_findType hFind)⟩
    · have hKind := NameScope.kind_of_findType hError
      exact u.refuse h failure (Failure.isRefusal_of_typeResolution hKind)

/-- An element that is opened keeps up `I`. -/
theorem openObject (u : Course setting S T I J E) {s : Construction H} (h : I s.moment)
    (hScope : S s.assembly.scope) (hKept : ∀ content ∈ s.stack.filterMap OpenElement.text, T content)
    (hTag : s.tag = none) (name : String) (attributes : List (String × String))
    (hTexts : ∀ a ∈ attributes, (Name.splitQualifier a.1).1 = none → T a.2) :
    Ends (Construct.openObject setting name attributes) s (fun _ => Begun S T I)
      (Construction.FailsIn E) := by
  refine (u.resolveType h name).bind fun type s₁ ⟨hSame, hKnown⟩ => ?_
  subst hSame
  cases hFresh : type.fresh with
  | none => exact u.refuse h (.notConstructible type.key.name) trivial
  | some object =>
    refine .bind_get (.bind_set ?_)
    have hMade := u.made _ type object h hKnown hFresh
    have hBegun : Begun S T I { s₁ with
        assembly := Assembly.record
          { s₁.assembly with graph := s₁.assembly.graph.insert type object }
          (.opened s₁.assembly.graph.nextId)
        stack := ⟨type, s₁.assembly.graph.nextId, none, none, none, none⟩ :: s₁.stack } :=
      ⟨hMade, .inl nofun, hScope, hKept, hTag⟩
    refine (u.applyAttributes hBegun.stands hScope rfl attributes hTexts).mono ?_
      fun _ _ hError => hError
    exact fun _ s' ⟨hAlike, h'⟩ => hBegun.alike hAlike h'

/-- A property that is opened keeps up `I`. -/
theorem openProperty (u : Course setting S T I J E) {s : Construction H}
    (h : Begun S T I s) (tag owner name : String) (attributes : List (String × String)) :
    Ends (Construct.openProperty setting tag owner name attributes) s (fun _ => Begun S T I)
      (Construction.FailsIn E) := by
  unfold Construct.openProperty
  refine .guard (fun _ => u.refuse h.stands (.structural _) trivial) fun _ => ?_
  refine (u.resolveType h.stands owner).bind ?_
  rintro ownerType s ⟨rfl, -⟩
  refine .bind_get ?_
  split
  · exact u.fault h.stands _ trivial
  · next e outer hStack =>
    have hKept := h.texts
    rw [hStack] at hKept
    split
    · exact u.fault h.stands _ trivial
    · split
      · exact u.fault h.stands _ trivial
      · split
        · exact u.fault h.stands _ trivial
        · split
          · exact u.refuse h.stands (.propertyNotFound e.type.key.name name) trivial
          · refine ⟨?_, .inl (List.cons_ne_nil _ _), h.scope, hKept, h.tag⟩
            have hStands := h.stands
            rw [Construction.moment, Construction.holding, Construction.path, hStack] at hStands
            exact hStands

omit [Hooks H] in
/-- The namespace declarations of the root take effect; all others are refused. -/
theorem ends_declareNamespaces (isRoot : Bool) (tag : String) (attributes : List (String × String))
    (s : Construction H) :
    Ends (Construct.declareNamespaces isRoot tag attributes) s
      (fun others s' => (∀ a ∈ others, a ∈ attributes ∧ Name.declaredQualifier a.1 = none) ∧
        s' = { s with assembly := { s.assembly with
          scope := if isRoot then s.assembly.scope.declareAll attributes else s.assembly.scope } })
      fun failure s' => failure.IsRefusal ∧ isRoot = false ∧ s' = s := by
  induction attributes generalizing s with
  | nil => exact ⟨fun _ hMem => absurd hMem List.not_mem_nil, by cases isRoot <;> rfl⟩
  | cons first rest ih =>
    unfold Construct.declareNamespaces NameScope.declareAll
    cases hDeclared : Name.declaredQualifier first.1 with
    | none =>
      refine (ih s).bind ?_
      rintro others s₁ ⟨hOthers, hSame⟩
      refine ⟨fun a hMem => ?_, hSame⟩
      rcases List.mem_cons.1 hMem with rfl | hMem
      · exact ⟨List.mem_cons_self .., hDeclared⟩
      · exact ⟨List.mem_cons_of_mem first (hOthers a hMem).1, (hOthers a hMem).2⟩
    | some qualifier =>
      cases isRoot with
      | false => exact ⟨trivial, rfl, rfl⟩
      | true =>
        refine (ih _).mono ?_ ?_
        · rintro others s' ⟨hOthers, hSame⟩
          refine ⟨fun a hMem => ?_, hSame⟩
          exact ⟨List.mem_cons_of_mem first (hOthers a hMem).1, (hOthers a hMem).2⟩
        · rintro failure s' ⟨-, hNested, -⟩
          cases hNested

/-- A start tag opens a property or an element; a second root is refused. -/
theorem openTag (u : Course setting S T I J E) {s : Construction H} (h : I s.moment)
    (hTag : s.tag = none) {t : StartTag}
    (hScope : S (if s.stack.isEmpty && s.root.isNone then s.assembly.scope.declareAll t.attributes
      else s.assembly.scope))
    (hKept : ∀ content ∈ s.stack.filterMap OpenElement.text, T content)
    (hTexts : ∀ a ∈ t.attributes, Name.isPlain a.1 = true → T a.2) :
    Ends (Construct.openTag setting t) s (fun _ => Begun S T I) (Construction.FailsIn E) := by
  have hDeclared : Ends (Construct.declareNamespaces s.stack.isEmpty t.name t.attributes) s
      (fun others s' => (∀ a ∈ others, (Name.splitQualifier a.1).1 = none → T a.2) ∧
        s' = { s with assembly := { s.assembly with
          scope := if s.stack.isEmpty then s.assembly.scope.declareAll t.attributes
            else s.assembly.scope } }) (Construction.FailsIn E) := by
    refine (ends_declareNamespaces ..).mono ?_ ?_
    · rintro others s' ⟨hOthers, hSame⟩
      refine ⟨fun a hMem hWhole => ?_, hSame⟩
      refine hTexts a (hOthers a hMem).1 ?_
      rw [Name.isPlain, (hOthers a hMem).2, hWhole]
      rfl
    · rintro failure s' ⟨hRefusal, -, rfl⟩
      exact u.refuse h _ hRefusal
  obtain ⟨a, stack, pending, root⟩ := s
  refine .bind_get (.guard (fun _ => u.refuse h (.structural _) trivial) fun hFirst => ?_)
  refine hDeclared.bind ?_
  rintro others _ ⟨hOthers, rfl⟩
  cases stack with
  | nil =>
    cases root with
    | some value => exact absurd rfl hFirst
    | none =>
      exact u.openObject (s := ⟨{ a with scope := a.scope.declareAll t.attributes }, [], pending, none⟩)
        h hScope hKept hTag t.name others hOthers
  | cons e outer =>
    simp only [List.isEmpty_cons, Bool.false_eq_true, if_false]
    cases Name.splitProperty t.name with
    | some split =>
      have hBegun : Begun S T I ⟨a, e :: outer, pending, root⟩ :=
        ⟨h, .inl (List.cons_ne_nil e outer), hScope, hKept, hTag⟩
      exact u.openProperty hBegun t.name split.1 split.2 others
    | none => exact u.openObject h hScope hKept hTag t.name others hOthers

/-! ### Ends of elements -/

/-- A factory stands for its product only if nothing waits to be put into it. -/
theorem valueOf (u : Course setting S T I J E) {s : Construction H} {e : OpenElement H}
    (h : I (s.assembly.moment (e.enclosing :: path) s.root [])) :
    Ends (Construct.valueOf e) s
      (fun v s' => s' = s ∧ e.type.StandsFor s.assembly.graph e.object v ∧
        (e.type.isFactory = true → ∀ b ∈ s.assembly.waiting, b.target ≠ e.object))
      (Construction.FailsIn E) := by
  unfold Ends Construct.valueOf ElementType.StandsFor
  by_cases hFactory : e.type.isFactory = true
  · simp only [hFactory, if_true]
    cases hWaiting : s.assembly.waitingOn? e.object with
    | some b => exact u.refuse h (.deferredProduct e.type.key.name b.expression) trivial
    | none =>
      simp only
      cases hProduce : (s.assembly.graph.object? e.object).bind e.type.produce with
      | some v =>
        refine ⟨rfl, rfl, fun _ b hMem => ?_⟩
        simpa using List.find?_eq_none.1 hWaiting b hMem
      | none =>
        refine u.left (u.mismatched _ s.assembly.graph _ e.object (.element e.enclosing h rfl) (.refl _) ?_)
        exact .product e.enclosing rfl hFactory hProduce
  · simp only [hFactory]
    exact ⟨rfl, rfl, fun hSome => absurd hSome Bool.false_ne_true⟩

/-- The value of an element goes to the element around it, or is that of the document. -/
theorem handOver (u : Course setting S T I J E) {s : Construction H} (h : I s.moment)
    (hScope : S s.assembly.scope) (hKept : ∀ content ∈ s.stack.filterMap OpenElement.text, T content)
    (hTag : s.tag = none) {e : OpenElement H} {value : Value}
    (hClosed : .closed e.object e.identifier value ∈ s.assembly.journal) :
    Ends (Construct.handOver setting e value) s
      (fun _ s' => s.assembly.journal <:+ s'.assembly.journal ∧ Begun S T I s')
      (Construction.FailsIn E) := by
  refine .bind_get ?_
  split
  · next hStack =>
    have hOver : s.moment.path = [] := List.map_eq_nil_iff.2 hStack
    exact ⟨List.suffix_refl _, u.rooted _ value h hOver ⟨_, _, hClosed⟩, .inr rfl, hScope, hKept, hTag⟩
  · next parent outer hStack =>
    have hTop : parent.enclosing ∈ s.moment.path.head? := by
      simp [Construction.moment, Construction.holding, Assembly.moment, Construction.path, hStack]
    have hAssign : Ends (Assemble.assign setting.vocabulary (.element e.object) parent.object
          parent.receiver value e.key) s.assembly
        (fun _ a' => a'.scope = s.assembly.scope ∧ s.assembly.journal <:+ a'.journal ∧
          I (a'.moment s.path s.root []))
        (Assembly.FailsIn E s.root) := by
      refine u.assign (.element parent.enclosing h hTop) ?_ e.key
      intro w g o hOrigin hObject _ hStored hPut
      exact u.placed _ e.object parent.enclosing g o w value h hTop ⟨_, hClosed⟩ hOrigin hObject hStored
        hPut
    have hOpen : s.stack ≠ [] := by
      rw [hStack]
      exact List.cons_ne_nil parent outer
    have hBegun : Begun S T I s := ⟨h, .inl hOpen, hScope, hKept, hTag⟩
    refine (ends_onAssembly (Q := fun _ s' => s.assembly.journal <:+ s'.assembly.journal ∧ I s'.moment)
      hAssign).mono ?_ fun _ _ hError => hError
    rintro _ s' ⟨hAlike, hJournal, h'⟩
    exact ⟨hJournal, hBegun.alike hAlike h'⟩

/-- What waited for the identifier of an element is evaluated again when it is declared. -/
theorem declareIdentifier (u : Course setting S T I J E) {s : Construction H}
    (h : Begun S T I s) {e : OpenElement H} {value : Value}
    (hClosed : .closed e.object e.identifier value ∈ s.assembly.journal) :
    Ends (Construct.declareIdentifier setting e value) s (fun _ => Begun S T I)
      (Construction.FailsIn E) := by
  unfold Construct.declareIdentifier
  cases hId : e.identifier with
  | none => exact h
  | some id =>
    rw [hId] at hClosed
    have hRegister : Ends (Operation.ofExcept (s.assembly.names.register id value)) s
        (fun names s' => s' = s ∧ s.assembly.names.register id value = .ok names)
        (Construction.FailsIn E) := by
      refine .of_ofExcept (fun names hOk => ⟨rfl, hOk⟩) fun failure hError =>
        u.refuse h.stands failure ?_
      obtain ⟨-, rfl⟩ := (NameTable.register_eq_error_iff ..).1 hError
      trivial
    refine .bind_get (hRegister.bind fun names s₁ ⟨hSame, hNew⟩ => .bind_set ?_)
    subst hSame
    have hNamed : Begun S T I { s₁ with assembly := { s₁.assembly with names } } :=
      ⟨u.named _ id value names h.stands hNew ⟨e.object, hClosed⟩, h.begun, h.scope, h.texts, h.tag⟩
    have hDrain := u.drain s₁.stack.isEmpty hNamed.stands hNamed.scope
    refine (ends_onAssembly (Q := fun _ s' => I s'.moment) hDrain).bind ?_
    rintro n s₂ ⟨hAlike, h₂⟩
    exact hNamed.alike hAlike h₂

/-- An element that is closed keeps up `I`. -/
theorem closeElement (u : Course setting S T I J E) {s : Construction H}
    (h : Begun S T I s) :
    Ends (Construct.closeElement setting) s (fun _ => Begun S T I) (Construction.FailsIn E) := by
  obtain ⟨a, stack, pending, root⟩ := s
  obtain ⟨hStands, -, hScope, hTexts, hTag⟩ := h
  refine .bind_get ?_
  cases stack with
  | nil => exact u.fault hStands _ trivial
  | cons e outer =>
    have hKept : ∀ content ∈ outer.filterMap OpenElement.text, T content := by
      intro content hMem
      refine hTexts content ?_
      rw [List.filterMap_cons]
      split
      · exact hMem
      · exact List.mem_cons_of_mem _ hMem
    refine .bind_set ?_
    refine (u.valueOf (s := ⟨a, outer, pending, root⟩) hStands).bind
      fun v s₁ ⟨hSame, hValue, hNone⟩ => ?_
    subst hSame
    have hClosed := u.closed _ e.enclosing (outer.map OpenElement.enclosing) e.identifier v hStands rfl
      hValue hNone
    have hEntry :
        .closed e.object e.identifier v ∈ (a.record (.closed e.object e.identifier v)).journal :=
      List.mem_cons_self ..
    have hHandOver := u.handOver
      (s := ⟨a.record (.closed e.object e.identifier v), outer, pending, root⟩)
      hClosed hScope hKept hTag hEntry
    -- That the element was closed is still in the journal when its identifier is declared.
    exact hHandOver.bind fun _ s₂ ⟨hJournal, hBegun⟩ =>
      u.declareIdentifier hBegun (hJournal.subset hEntry)

/-- The text in a tag is applied when the tag ends; then an element is closed. -/
theorem endTag (u : Course setting S T I J E) {s : Construction H} (h : Begun S T I s) :
    Ends (Construct.endTag setting) s (fun _ => Begun S T I) (Construction.FailsIn E) := by
  obtain ⟨a, stack, pending, root⟩ := s
  refine .bind_get ?_
  cases stack with
  | nil => exact u.fault h.stands _ trivial
  | cons e outer =>
    have hBegun :
        Begun S T I ⟨a, { e with property := none, text := none } :: outer, pending, root⟩ := by
      refine ⟨h.stands, .inl nofun, h.scope, fun content hMem => h.texts content ?_, h.tag⟩
      rw [List.filterMap_cons]
      split
      · exact hMem
      · exact List.mem_cons_of_mem _ hMem
    have hLast {s₁ : Construction H} (h₁ : Begun S T I s₁) :
        Ends (if e.property.isSome then pure () else Construct.closeElement setting) s₁
          (fun _ => Begun S T I) (Construction.FailsIn E) := by
      split
      · exact h₁
      · exact u.closeElement h₁
    refine .bind_set ?_
    cases hText : e.text with
    | none => exact hLast hBegun
    | some text =>
      have hTold : T text := h.texts text (by simp [hText])
      have hApply := u.applyText hBegun.stands hBegun.scope (e := e.enclosing) rfl e.receiver hTold
      exact hApply.bind fun _ s₁ ⟨hAlike, h₁⟩ => hLast (hBegun.alike hAlike h₁)

/-! ### Events -/

/-- What is kept up between events, where `rest` are the events to come: the invariant, and what the
scope and the texts are that the run will come to. -/
structure Upheld (S : NameScope → Prop) (T : String → Prop) (I : Moment H → Prop)
    (rest : List Markup.Event) (s : Construction H) : Prop where
  stands : I s.moment
  scope : S (s.scopeAfter rest)
  untold : ∀ content ∈ s.untold ++ Markup.values rest, T content

variable {rest : List Markup.Event} {s : Construction H}

omit [Hooks H] in
/-- At the start, `I` is to hold of nothing, `S` of the scope of the root, and `T` of all texts. -/
theorem Upheld.start {defaults : List String} (hStart : I .start)
    (hScope : S ((NameScope.ofDefaults defaults).declareAll (Markup.rootAttributes rest)))
    (hTexts : ∀ content ∈ Markup.values rest, T content) :
    Upheld S T I rest (.ofDefaults defaults) :=
  ⟨hStart, hScope, hTexts⟩

omit [Hooks H] in
/-- What is begun is upheld, whatever comes next. -/
theorem Begun.upheld (h : Begun S T I s) (hRest : ∀ content ∈ Markup.values rest, T content) :
    Upheld S T I rest s where
  stands := h.stands
  scope := by
    rw [Construction.scopeAfter_of_started h.begun]
    exact h.scope
  untold := by
    have hPending : s.untold = s.stack.filterMap OpenElement.text := by
      simp [Construction.untold, h.tag]
    rw [hPending]
    exact fun content hMem => (List.mem_append.1 hMem).elim (h.texts content) (hRest content)

omit [Hooks H] in
/-- What is upheld between tags is begun. -/
theorem Upheld.begun (h : Upheld S T I rest s) (hTag : s.tag = none) (hOpen : s.stack ≠ []) :
    Begun S T I s where
  stands := h.stands
  begun := .inl hOpen
  scope := by
    have hScope := h.scope
    rw [Construction.scopeAfter, List.isEmpty_eq_false_iff.2 hOpen] at hScope
    exact hScope
  texts content hMem := by
    refine h.untold content (List.mem_append_left _ ?_)
    exact List.mem_append_left _ hMem
  tag := hTag

omit [Hooks H] in
/-- The texts that come are those of which `T` holds. -/
theorem Upheld.coming (h : Upheld S T I rest s) : ∀ content ∈ Markup.values rest, T content :=
  fun content hMem => h.untold content (List.mem_append_right _ hMem)

/-- A start tag is complete when something else than an attribute comes. -/
theorem completeTag (u : Course setting S T I J E) (h : Upheld S T I rest s)
    (hRest : Markup.leadingAttributes rest = []) :
    Ends (Construct.completeTag setting) s (fun _ s' => Upheld S T I rest s' ∧ s'.tag = none)
      (Construction.FailsIn E) := by
  refine .bind_get ?_
  split
  · next hTag => exact ⟨h, hTag⟩
  · next t hTag =>
    have hScope := h.scope
    simp only [Construction.scopeAfter, hTag, hRest, List.append_nil] at hScope
    have hKept : ∀ content ∈ s.stack.filterMap OpenElement.text, T content := fun content hMem =>
      h.untold content (List.mem_append_left _ (List.mem_append_left _ hMem))
    have hTexts : ∀ a ∈ t.attributes, Name.isPlain a.1 = true → T a.2 := by
      intro a hMem hPlain
      refine h.untold a.2 (List.mem_append_left _ (List.mem_append_right _ ?_))
      rw [hTag, Option.toList_some, List.flatMap_singleton, Markup.values_attributeEvents]
      exact List.mem_map.2 ⟨a, List.mem_filter.2 ⟨hMem, hPlain⟩, rfl⟩
    have hOpen := u.openTag (s := { s with tag := none }) h.stands rfl hScope hKept hTexts
    exact .bind_set (hOpen.mono (fun _ s' hBegun => ⟨hBegun.upheld h.coming, hBegun.tag⟩)
      fun _ _ hError => hError)

/-- A text that is kept keeps up `I`. -/
theorem keepText (u : Course setting S T I J E) {text : String}
    (h : Upheld S T I (.text text :: rest) s) (hTag : s.tag = none) :
    Ends (Construct.keepText text) s (fun _ => Upheld S T I rest) (Construction.FailsIn E) := by
  have hText : T text := h.coming text (List.mem_cons_self ..)
  have hRest : ∀ content ∈ Markup.values rest, T content := fun content hMem =>
    h.coming content (List.mem_cons_of_mem _ hMem)
  obtain ⟨a, stack, pending, root⟩ := s
  refine .bind_get ?_
  cases stack with
  | nil => exact u.fault h.stands _ trivial
  | cons e outer =>
    have hBegun := h.begun hTag nofun
    simp only
    split
    · exact u.fault h.stands _ trivial
    · next hNone =>
      refine Begun.upheld (s := ⟨a, { e with text := some text } :: outer, pending, root⟩) ?_ hRest
      refine ⟨h.stands, .inl nofun, hBegun.scope, fun content hMem => ?_, hTag⟩
      rcases List.mem_cons.1 hMem with rfl | hMem
      · exact hText
      · refine hBegun.texts content ?_
        rw [List.filterMap_cons]
        split
        · exact hMem
        · exact List.mem_cons_of_mem _ hMem

/-- Each event keeps up what is kept up. -/
theorem feed (u : Course setting S T I J E) {event : Markup.Event}
    (h : Upheld S T I (event :: rest) s) :
    Ends (Construct.feed setting event) s (fun _ => Upheld S T I rest) (Construction.FailsIn E) := by
  cases event with
  | «attribute» name value =>
    refine .bind_get ?_
    split
    · exact u.fault h.stands _ trivial
    · next t hTag =>
      refine ⟨h.stands, ?_, fun content hMem => h.untold content ?_⟩
      · have hScope := h.scope
        rw [Construction.scopeAfter, hTag] at hScope
        rw [Construction.scopeAfter]
        simpa [Markup.leadingAttributes] using hScope
      · simp only [Construction.untold, hTag] at hMem ⊢
        simpa [Markup.values, Markup.attributeEvent, List.append_assoc] using hMem
  | start name =>
    refine (u.completeTag h rfl).bind ?_
    rintro _ s₁ ⟨h₁, hTag⟩
    refine ⟨h₁.stands, ?_, fun content hMem => h₁.untold content ?_⟩
    · have hScope := h₁.scope
      rw [Construction.scopeAfter, hTag] at hScope
      exact hScope
    · rw [Construction.untold, hTag]
      exact hMem
  | text text =>
    refine (u.completeTag h rfl).bind ?_
    rintro _ s₁ ⟨h₁, hTag⟩
    exact u.keepText h₁ hTag
  | finish =>
    refine (u.completeTag h rfl).bind ?_
    rintro _ s₁ ⟨h₁, hTag⟩
    by_cases hOpen : s₁.stack = []
    · refine .bind_get ?_
      rw [hOpen]
      exact u.fault h₁.stands _ trivial
    · exact (u.endTag (h₁.begun hTag hOpen)).mono (fun _ s' hBegun => hBegun.upheld h₁.coming)
        fun _ _ hError => hError

/-! ### Runs -/

/-- Feeding events keeps what was to come ahead of what still is, and fails only as the course says
a run may. -/
theorem feedEvents (u : Course setting S T I J E) {events : List Markup.Event}
    (h : Upheld S T I (events ++ rest) s) :
    Ends (Construct.feedEvents setting events) s (fun _ => Upheld S T I rest)
      (Construction.FailsIn E) := by
  induction events generalizing s with
  | nil => exact h
  | cons event events ih => exact (u.feed h).bind fun _ s₁ h₁ => ih h₁

/-- A stream is fed up to its end, its first fault, or the moment at which the run is cancelled. -/
theorem feedAll (u : Course setting S T I J E) (settings : Settings) (n : Nat)
    {items : List (Except Markup.Fault Markup.Event)}
    (h : Upheld S T I (items.filterMap Except.toOption) s) :
    Ends (Compiler.feedAll settings setting n items) s (fun _ => Upheld S T I [])
      (Construction.FailsIn E) := by
  have hCancel : Construction.FailsIn E .cancelled s := u.refuse h.stands .cancelled trivial
  induction items generalizing n s with
  | nil =>
    unfold Compiler.feedAll
    split
    · exact hCancel
    · exact h
  | cons item items ih =>
    unfold Compiler.feedAll
    split
    · exact hCancel
    · cases item with
      | error fault => exact u.refuse h.stands (.markup fault) trivial
      | ok event =>
        refine (u.feed h).bind fun _ s₁ h₁ => ih (n + 1) h₁ ?_
        exact u.refuse h₁.stands .cancelled trivial

/-- What asks nothing of the scope and of the texts is kept up from the first moment on. -/
theorem stands_of_feedEvents (u : Course setting (fun _ => True) (fun _ => True) I J E)
    (hStart : I .start) {defaults : List String} {events : List Markup.Event}
    (hFed : Construct.feedEvents setting events (.ofDefaults defaults) = .ok () s) : I s.moment := by
  have hUpheld : Upheld (fun _ => True) (fun _ => True) I (events ++ [])
      (.ofDefaults defaults : Construction H) :=
    .start hStart trivial fun _ _ => trivial
  exact ((u.feedEvents hUpheld).of_ok hFed).stands

/-- At the end of a document, what still waits is evaluated a last time, and what waits then is
reported. -/
theorem finish (u : Course setting S T I J E) (h : Upheld S T I [] s)
    (hReport : ∀ (a : Assembly H) root, I (a.moment [] root []) →
      a.FailsIn E root (.unresolvedReferences a.missing.toList)) :
    Ends (Construct.finish setting) s (fun _ s' => I s'.moment) (Construction.FailsIn E) := by
  refine (u.completeTag h rfl).bind ?_
  rintro - s₁ ⟨h₁, hTag⟩
  refine .bind_get ?_
  split
  · exact u.fault h₁.stands _ trivial
  · next hStack =>
    split
    · exact u.fault h₁.stands _ trivial
    · next root hRoot =>
      have hStands : I (s₁.assembly.moment [] s₁.root []) := by
        have hStands := h₁.stands
        rw [Construction.moment, Construction.holding, Construction.path, hStack] at hStands
        exact hStands
      have hScope := h₁.scope
      rw [Construction.scopeAfter, hRoot, Option.isNone_some, Bool.and_false] at hScope
      have hSettle : Ends (Assemble.settle setting.vocabulary) s₁.assembly
          (fun _ a' => I (a'.moment [] s₁.root [])) (Assembly.FailsIn E s₁.root) := by
        refine (u.drain true hStands hScope).bind ?_
        rintro n a₁ ⟨-, hDrained⟩
        refine .bind_get ?_
        split
        · exact hDrained
        · exact hReport a₁ s₁.root hDrained
      have hLast : Ends (Construct.onAssembly (Assemble.settle setting.vocabulary)) s₁
          (fun _ s' => I s'.moment) (Construction.FailsIn E) := by
        refine .within (hSettle.mono (fun _ a' hI => ?_) fun _ _ hError => hError)
        rw [Construction.moment, Construction.holding, Construction.path, hStack]
        exact hI
      exact hLast.bind fun _ s₂ hI => .of_pure hI

/-- A run from a state to the end of the stream keeps up what the state has. -/
theorem run (u : Course setting S T I J E) (settings : Settings) (n : Nat)
    {items : List (Except Markup.Fault Markup.Event)}
    (h : Upheld S T I (items.filterMap Except.toOption) s)
    (hReport : ∀ (a : Assembly H) root, I (a.moment [] root []) →
      a.FailsIn E root (.unresolvedReferences a.missing.toList)) :
    Ends (Compiler.run settings setting n items) s (fun _ s' => I s'.moment) (Construction.FailsIn E) :=
  (u.feedAll settings n h).bind fun _ _ h₁ => u.finish h₁ hReport

/-- A run over a whole stream keeps up what its first moment has. -/
theorem construct {c : Compiler H} {dataContext : Option Value}
    (u : Course (c.setting dataContext) S T I J E) {items : List (Except Markup.Fault Markup.Event)}
    (h : Upheld S T I (items.filterMap Except.toOption) s)
    (hReport : ∀ (a : Assembly H) root, I (a.moment [] root []) →
      a.FailsIn E root (.unresolvedReferences a.missing.toList)) :
    Ends (c.construct items dataContext) s (fun _ s' => I s'.moment) (Construction.FailsIn E) := by
  rw [Compiler.construct_eq_run]
  exact u.run c.settings 0 h hReport

end Course

end ObjectMarkup
