import ObjectMarkup.Proofs.Acting
import ObjectMarkup.Proofs.Failing
import ObjectMarkup.Proofs.Run
import ObjectMarkup.Proofs.Texts

/-!
# What has to be shown of a step

An invariant of runs speaks of a moment: of the elements that are open, of the bindings that are not
settled, and of what was made so far. `Course` lists what has to be shown of it, one step of a run at
a time, and says what is to hold where a step fails. A text that was evaluated is in hand until its
value is assigned or it waits, and a second predicate speaks of the moments between. From that follows
here what holds when a value was assigned, when bindings were evaluated again, and when a text or an
attribute was applied, whether that succeeds or fails.
-/

set_option autoImplicit false

namespace ObjectMarkup

open Operation

variable {H : Host}

/-! ### Moments -/

/-- What stands at a moment of a run. -/
structure Moment (H : Host) where
  /-- The elements that are open, from the inside out. -/
  path : List (Enclosing H)
  /-- What the root stands for, once it is over. -/
  root : Option Value
  /-- The bindings that are not settled: those that a drain holds, and those that wait. -/
  bindings : List Binding
  graph : ObjectGraph H
  names : NameTable
  /-- The number of the next occurrence. -/
  occurrences : Nat
  journal : List Entry

/-- The moment before anything is made. -/
def Moment.start : Moment H := ⟨[], none, [], .empty, .empty, 0, []⟩

/-- The moment of an assembly, with what is open, the root, and the bindings that a drain holds. -/
def Assembly.moment (a : Assembly H) (path : List (Enclosing H)) (root : Option Value)
    (held : List Binding) : Moment H :=
  ⟨path, root, held ++ a.waiting, a.graph, a.names, a.occurrences, a.journal⟩

/-- The data context of what is evaluated at a moment. -/
def Moment.dataContext (m : Moment H) (setting : Setting H) : Option Value :=
  (m.path.findSome? fun e =>
    (m.graph.property? e.object e.type.dataContextProperty).filter fun v =>
      !v.isNull).or setting.dataContext

/-- What is to hold where a run fails, of the assembly that it leaves. -/
abbrev Assembly.FailsIn (E : Failure → Moment H → Prop) (root : Option Value) (failure : Failure)
    (a : Assembly H) : Prop :=
  E failure (a.moment [] root [])

namespace Construction

/-- The open elements, from the inside out. -/
def path (s : Construction H) : List (Enclosing H) := s.stack.map OpenElement.enclosing

/-- The moment of a construction, with the bindings that a drain holds. -/
def holding (s : Construction H) (held : List Binding) : Moment H :=
  s.assembly.moment s.path s.root held

/-- The moment of a construction between two steps. -/
def moment (s : Construction H) : Moment H := s.holding []

/-- The start tag of the root is complete. -/
def Started (s : Construction H) : Prop := s.stack ≠ [] ∨ s.root.isSome = true

/-- The scope in which the texts of the construction and of the events to come are evaluated. -/
def scopeAfter (s : Construction H) (rest : List Markup.Event) : NameScope :=
  if s.stack.isEmpty && s.root.isNone then
    s.assembly.scope.declareAll <|
      match s.tag with
      | some t => t.attributes ++ Markup.leadingAttributes rest
      | none => Markup.rootAttributes rest
  else s.assembly.scope

/-- No tag but that of the root changes the scope. -/
theorem scopeAfter_of_started {s : Construction H} (h : s.Started) (rest : List Markup.Event) :
    s.scopeAfter rest = s.assembly.scope := by
  have hFinal : (s.stack.isEmpty && s.root.isNone) = false := by
    rcases h with hOpen | hOver
    · rw [List.isEmpty_eq_false_iff.2 hOpen, Bool.false_and]
    · rw [Option.isNone_eq_false_iff.2 hOver, Bool.and_false]
  rw [scopeAfter, hFinal]
  rfl

/-- The texts that were told and are not applied yet. -/
def untold (s : Construction H) : List String :=
  s.stack.filterMap OpenElement.text ++
    Markup.values (s.tag.toList.flatMap fun t => t.attributes.map Markup.attributeEvent)

/-- What is to hold where a run fails, of the construction that it leaves. -/
abbrev FailsIn (E : Failure → Moment H → Prop) (failure : Failure) (s : Construction H) : Prop :=
  s.assembly.FailsIn E s.root failure

/-- `s'` has the open elements of `s`, perhaps with other metadata. -/
structure Alike (s s' : Construction H) : Prop where
  path : s'.path = s.path
  texts : s'.stack.filterMap OpenElement.text = s.stack.filterMap OpenElement.text
  tag : s'.tag = s.tag
  root : s'.root = s.root
  scope : s'.assembly.scope = s.assembly.scope

namespace Alike

/-- A construction is like itself. -/
theorem refl (s : Construction H) : s.Alike s := ⟨rfl, rfl, rfl, rfl, rfl⟩

/-- What is alike twice is alike. -/
theorem trans {s₁ s₂ s₃ : Construction H} (h : s₁.Alike s₂) (h' : s₂.Alike s₃) : s₁.Alike s₃ where
  path := h'.path.trans h.path
  texts := h'.texts.trans h.texts
  tag := h'.tag.trans h.tag
  root := h'.root.trans h.root
  scope := h'.scope.trans h.scope

end Alike

end Construction

/-- What is evaluated for a binding. -/
def Binding.reading (b : Binding) : Target × String :=
  (⟨b.target, b.property, b.dataContext, true⟩, b.expression)

/-- What a text is bound to that is given at a moment, for the innermost element. -/
structure Moment.Applies (setting : Setting H) (m : Moment H) (b : Binding) : Prop where
  target : ∃ e ∈ m.path.head?, b.target = e.object
  dataContext : b.dataContext = m.dataContext setting
  number : b.occurrence = m.occurrences
  required : b.required = .empty

/-- Something may be put into an object: it is the innermost open one, or that of the text in hand. -/
inductive Course.Aims (I : Moment H → Prop) (J : Binding → Outcome → Moment H → Prop) (m : Moment H) :
    ObjectId → Prop where
  | element (e : Enclosing H) (stands : I m) (top : e ∈ m.path.head?) : Course.Aims I J m e.object
  | text (b : Binding) (value : Value) (inHand : J b (.value value) m) : Course.Aims I J m b.target

variable [Hooks H]

/-- An accessor or a factory refuses an object: the accessor does not take what became of a value,
in the graph that the conversions leave, or the factory of the innermost element has no product. -/
inductive Moment.Refuses (vocabulary : Vocabulary H) (m : Moment H) :
    ObjectId → ObjectGraph H → Prop where
  | write (value : Value) (w : Write) (g : ObjectGraph H)
      (stored : w.Stored vocabulary value m.graph g) (fails : g.put? w = none) :
      m.Refuses vocabulary w.object g
  | product (e : Enclosing H) (top : e ∈ m.path.head?) (factory : e.type.isFactory = true)
      (fails : (m.graph.object? e.object).bind e.type.produce = none) :
      m.Refuses vocabulary e.object m.graph

/-- What has to be shown for a run to keep up `I` at each of its moments, and to end in `E` if it
fails. `J` is what holds while a text is in hand: it was evaluated, and no step is done about its
outcome. Evaluations happen in scopes of which `S` holds and read texts of which `T` holds. -/
structure Course (setting : Setting H) (S : NameScope → Prop) (T : String → Prop)
    (I : Moment H → Prop) (J : Binding → Outcome → Moment H → Prop)
    (E : Failure → Moment H → Prop) : Prop where
  told : ∀ m, I m → ∀ b ∈ m.bindings, T b.expression
  sorted : ∀ m bindings, I m → bindings.Perm m.bindings → I { m with bindings }
  made : ∀ m type fresh, I m → setting.vocabulary.Knows type → type.fresh = some fresh →
    I { m with
      path := ⟨type, m.graph.nextId⟩ :: m.path
      graph := m.graph.insert type fresh
      journal := .opened m.graph.nextId :: m.journal }
  applied : ∀ m scope b outcome, I m → S scope → T b.expression → m.Applies setting b →
    evaluate setting.vocabulary ⟨scope, m.graph, m.names⟩ b.reading.1 b.expression = .ok outcome →
      J b outcome { m with
        occurrences := m.occurrences + 1
        journal := .evaluated b.occurrence b.reading.1 outcome :: m.journal }
  reapplied : ∀ m scope b rest outcome, I m → S scope → m.bindings = b :: rest →
    b.isReady m.names = true →
    evaluate setting.vocabulary ⟨scope, m.graph, m.names⟩ b.reading.1 b.expression = .ok outcome →
      J b outcome { m with
        bindings := rest
        journal := .evaluated b.occurrence b.reading.1 outcome :: m.journal }
  waits : ∀ m b required, J b (.deferred required) m →
    I { m with bindings := m.bindings ++ [{ b with required }] }
  skipped : ∀ m b, J b .nothing m → I m
  assigned : ∀ m b g o w value, J b (.value value) m → w.origin = .occurrence b.occurrence →
    w.object = b.target → w.property = b.property →
      w.Stored setting.vocabulary value m.graph g → g.put? w = some o →
        I { m with graph := g.replace w.object o, journal := .wrote w g.size :: m.journal }
  placed : ∀ m child e g o w value, I m → e ∈ m.path.head? →
    (∃ id, .closed child id value ∈ m.journal) → w.origin = .element child →
      w.object = e.object → w.Stored setting.vocabulary value m.graph g → g.put? w = some o →
        I { m with graph := g.replace w.object o, journal := .wrote w g.size :: m.journal }
  closed : ∀ m e path id value, I m → m.path = e :: path → e.type.StandsFor m.graph e.object value →
    (e.type.isFactory = true → ∀ b ∈ m.bindings, b.target ≠ e.object) →
      I { m with path, journal := .closed e.object id value :: m.journal }
  rooted : ∀ m value, I m → m.path = [] → (∃ object id, .closed object id value ∈ m.journal) →
    I { m with root := some value }
  named : ∀ m id value names, I m → m.names.register id value = .ok names →
    (∃ object, .closed object (some id) value ∈ m.journal) → I { m with names }
  unapplied : ∀ m scope b failure, I m → S scope → T b.expression → m.Applies setting b →
    evaluate setting.vocabulary ⟨scope, m.graph, m.names⟩ b.reading.1 b.expression = .error failure →
      E failure { m with occurrences := m.occurrences + 1 }
  faulted : ∀ m scope b rest failure, I m → S scope → m.bindings = b :: rest →
    b.isReady m.names = true →
    evaluate setting.vocabulary ⟨scope, m.graph, m.names⟩ b.reading.1 b.expression = .error failure →
      E failure { m with bindings := rest }
  refused : ∀ m graph failure, (I m ∨ ∃ b outcome, J b outcome m) → m.graph.Extends graph →
    failure.IsRefusal → E failure { m with graph }
  unknown : ∀ m object, Course.Aims I J m object → m.graph.type? object = none →
    E (.structural (.unknownObject object)) m
  mismatched : ∀ m graph owner object, Course.Aims I J m object → m.graph.Extends graph →
    m.Refuses setting.vocabulary object graph → E (.instanceMismatch owner object) { m with graph }
  lost : ∀ failure m path bindings, E failure m → bindings ⊆ m.bindings →
    E failure { m with path, bindings }

namespace Course

variable {setting : Setting H} {S : NameScope → Prop} {T : String → Prop}
  {I : Moment H → Prop} {J : Binding → Outcome → Moment H → Prop} {E : Failure → Moment H → Prop}
  {path : List (Enclosing H)} {root : Option Value}

/-! ### Assembling -/

/-- A run that fails leaves an assembly; what is open and the bindings that are held are lost. -/
theorem left (u : Course setting S T I J E) {a : Assembly H} {held : List Binding} {failure : Failure}
    (h : E failure (a.moment path root held)) : a.FailsIn E root failure :=
  u.lost failure _ [] a.waiting h (List.subset_append_right held a.waiting)

/-- Where a run refuses something, it leaves what is to hold of failures. -/
theorem refuse (u : Course setting S T I J E) {a : Assembly H} {held : List Binding}
    (h : I (a.moment path root held)) (failure : Failure) (hRefusal : failure.IsRefusal) :
    a.FailsIn E root failure :=
  u.left (u.refused _ a.graph failure (.inl h) (.refl _) hRefusal)

/-- A value goes where it may go, and `I` holds when it is there. -/
theorem assign (u : Course setting S T I J E) {a : Assembly H} {held : List Binding}
    {origin : Origin} {object : ObjectId} {name : String} {value : Value}
    (hAims : Course.Aims I J (a.moment path root held) object)
    (hNext : ∀ w g o, w.origin = origin → w.object = object → w.property = name →
      w.Stored setting.vocabulary value a.graph g → g.put? w = some o →
        I { a.moment path root held with
          graph := g.replace w.object o, journal := .wrote w g.size :: a.journal })
    (key : Option String) :
    Ends (Assemble.assign setting.vocabulary origin object name value key) a
      (fun _ a' => a'.scope = a.scope ∧ a.journal <:+ a'.journal ∧ I (a'.moment path root held))
      (Assembly.FailsIn E root) := by
  have hStands : I (a.moment path root held) ∨ ∃ b outcome, J b outcome (a.moment path root held) := by
    cases hAims with
    | element e stands top => exact .inl stands
    | text b value inHand => exact .inr ⟨b, .value value, inHand⟩
  refine .of_runs (fun _ a' hRun => ?_) fun failure a' hRun => ?_
  · obtain ⟨w, hOrigin, rfl, hName, g, o, hStored, hPut, rfl⟩ := Assemble.assigns_of_assign hRun
    exact ⟨rfl, List.suffix_cons .., hNext w g o hOrigin rfl hName hStored hPut⟩
  · cases Assemble.balks_of_assign hRun with
    | refused failure a' enlarged refusal =>
      obtain ⟨g, hExtends, rfl⟩ := enlarged
      exact u.left (u.refused _ g failure hStands hExtends refusal)
    | unknown absent => exact u.left (u.unknown _ object hAims absent)
    | mismatched owner w g aimed stored fails =>
      subst aimed
      refine u.left (u.mismatched _ g owner w.object hAims stored.extends ?_)
      exact .write value w g stored fails

/-- The value of a text goes into the property that the text is for. -/
theorem assignText (u : Course setting S T I J E) {a : Assembly H} {held : List Binding} {b : Binding}
    {value : Value} (h : J b (.value value) (a.moment path root held)) :
    Ends (Assemble.assign setting.vocabulary (.occurrence b.occurrence) b.target b.property value none)
      a (fun _ a' => a'.scope = a.scope ∧ I (a'.moment path root held)) (Assembly.FailsIn E root) := by
  refine (u.assign (.text b value h) (fun w g o hOrigin hObject hName hStored hPut => ?_) none).mono
    (fun _ a' ⟨hScope, _, h'⟩ => ⟨hScope, h'⟩) fun _ _ hError => hError
  exact u.assigned _ b g o w value h hOrigin hObject hName hStored hPut

/-- A text in hand waits from now on. -/
theorem enqueue (u : Course setting S T I J E) {a : Assembly H} {held : List Binding} {b : Binding}
    {required : Identifiers} (h : J b (.deferred required) (a.moment path root held)) :
    I ((a.enqueue { b with required }).moment path root held) := by
  have hWaits := u.waits _ b required h
  rw [Assembly.moment] at hWaits ⊢
  rw [Assembly.enqueue, ← List.append_assoc]
  exact hWaits

/-- What is done about the outcome of a binding that was evaluated again. -/
theorem rerun (u : Course setting S T I J E) (complete : Bool) {a : Assembly H} {b : Binding}
    {held : List Binding} (h : I (a.moment path root (b :: held))) (hScope : S a.scope)
    (hReady : b.isReady a.names = true) :
    Ends (Assemble.rerun setting.vocabulary complete b) a
      (fun _ a' => a'.scope = a.scope ∧ I (a'.moment path root held))
      (Assembly.FailsIn E root) := by
  have hEvaluate : Ends (Assemble.evaluate setting.vocabulary b.occurrence
        ⟨b.target, b.property, b.dataContext, true⟩ b.expression) a
      (fun outcome a' => a'.scope = a.scope ∧ J b outcome (a'.moment path root held))
      (Assembly.FailsIn E root) := by
    refine .of_runs (fun outcome a' hRun => ?_) fun failure a' hRun => ?_
    · obtain ⟨hOutcome, rfl⟩ := Assemble.evaluate_eq_ok.1 hRun
      exact ⟨rfl, u.reapplied _ a.scope b (held ++ a.waiting) outcome h hScope rfl hReady hOutcome⟩
    · obtain ⟨hFault, rfl⟩ := Assemble.evaluate_eq_error.1 hRun
      have hFails : E failure (a.moment path root held) :=
        u.faulted _ a.scope b (held ++ a.waiting) failure h hScope rfl hReady hFault
      exact u.left hFails
  refine hEvaluate.bind fun outcome a₁ ⟨hSame, h₁⟩ => ?_
  cases outcome with
  | value v =>
    exact (u.assignText h₁).mono (fun _ a' ⟨hScope', h'⟩ => ⟨hScope'.trans hSame, h'⟩)
      fun _ _ hError => hError
  | nothing => exact ⟨hSame, u.skipped _ b h₁⟩
  | deferred required =>
    refine .bind_get ?_
    split
    · exact u.left (u.refused _ a₁.graph (.deferredAfterEnd b.expression) (.inr ⟨b, _, h₁⟩) (.refl _)
        trivial)
    · exact ⟨hSame, u.enqueue h₁⟩

/-- Bindings that are ready stay so while others are evaluated again. -/
theorem rerunAll (u : Course setting S T I J E) (complete : Bool) {a : Assembly H}
    {held : List Binding} (h : I (a.moment path root held)) (hScope : S a.scope)
    (hReady : ∀ b ∈ held, b.isReady a.names = true) :
    Ends (Assemble.rerunAll setting.vocabulary complete held) a
      (fun _ a' => a'.scope = a.scope ∧ I (a'.moment path root []))
      (Assembly.FailsIn E root) := by
  induction held generalizing a with
  | nil => exact ⟨rfl, h⟩
  | cons b rest ih =>
    obtain ⟨hFirst, hOthers⟩ := List.forall_mem_cons.1 hReady
    refine (u.rerun complete h hScope hFirst).with_run.bind fun _ a₁ ⟨hRun, hSame, h₁⟩ => ?_
    have hNames := (Assemble.reran_of_rerun hRun).names_eq
    have hRest := ih h₁ (by rw [hSame]; exact hScope) (by rw [hNames]; exact hOthers)
    exact hRest.mono (fun _ a' ⟨hSame', h'⟩ => ⟨hSame'.trans hSame, h'⟩) fun _ _ hError => hError

/-- A drain keeps up `I`, and bindings that are ready are evaluated in the order of the queue. -/
theorem drain (u : Course setting S T I J E) (complete : Bool) {a : Assembly H}
    (h : I (a.moment path root [])) (hScope : S a.scope) :
    Ends (Assemble.drain setting.vocabulary complete) a
      (fun _ a' => a'.scope = a.scope ∧ I (a'.moment path root []))
      (Assembly.FailsIn E root) := by
  have hTaken : Ends (Assemble.takeReady : Assemble H (List Binding)) a
      (fun held a' => a'.scope = a.scope ∧ I (a'.moment path root held) ∧
        ∀ b ∈ held, b.isReady a'.names = true)
      (Assembly.FailsIn E root) := by
    unfold Ends
    rw [Assemble.takeReady_run]
    refine ⟨rfl, u.sorted _ _ h ?_, fun b hMem => (List.mem_filter.1 hMem).2⟩
    exact List.filter_append_perm (·.isReady a.names) a.waiting
  refine hTaken.bind fun ready a₁ ⟨hSame, h₁, hReady⟩ => ?_
  refine (u.rerunAll complete h₁ (by rw [hSame]; exact hScope) hReady).bind
    fun _ a₂ ⟨hSame', h₂⟩ => ?_
  exact ⟨hSame'.trans hSame, h₂⟩

/-! ### Attributes and texts -/

omit [Hooks H] in
/-- An operation on the assembly that leaves the scope leaves the construction alike. -/
theorem ends_onAssembly {α : Type} {act : Assemble H α} {s : Construction H}
    {Q : α → Construction H → Prop}
    (h : Ends act s.assembly
      (fun x a' => a'.scope = s.assembly.scope ∧ Q x { s with assembly := a' })
      (Assembly.FailsIn E s.root)) :
    Ends (Construct.onAssembly act) s (fun x s' => s.Alike s' ∧ Q x s') (Construction.FailsIn E) :=
  .within (h.mono (fun _ _ ⟨hScope, hQ⟩ => ⟨⟨rfl, rfl, rfl, rfl, hScope⟩, hQ⟩) fun _ _ hError => hError)

omit [Hooks H] in
/-- An operation on the assembly that leaves it leaves the construction. -/
theorem ends_onAssembly_same {α : Type} {act : Assemble H α} {s : Construction H}
    (h : Ends act s.assembly (fun _ a' => a' = s.assembly) (Assembly.FailsIn E s.root)) :
    Ends (Construct.onAssembly act) s (fun _ s' => s' = s) (Construction.FailsIn E) := by
  refine .within (h.mono (fun _ a' hSame => ?_) fun _ _ hError => hError)
  rw [hSame]

omit [Hooks H] in
/-- The data context of a construction is that of its moment. -/
theorem dataContext_eq (s : Construction H) :
    Construct.effectiveDataContext setting s = s.moment.dataContext setting :=
  Construct.effectiveDataContext_eq setting s

/-- A text that is applied to the innermost element keeps up `I`. -/
theorem applyText (u : Course setting S T I J E) {s : Construction H} (h : I s.moment)
    (hScope : S s.assembly.scope) {e : Enclosing H} {path : List (Enclosing H)}
    (hPath : s.path = e :: path) (name : String) {text : String} (hText : T text) :
    Ends (Construct.applyText setting e.object name text) s
      (fun _ s' => s.Alike s' ∧ I s'.moment)
      (Construction.FailsIn E) := by
  have hTop : e ∈ s.moment.path.head? := congrArg List.head? hPath
  have hType : Ends (Assemble.typeOf e.object) s.assembly (fun _ a' => a' = s.assembly)
      (Assembly.FailsIn E s.root) :=
    (Assemble.ends_typeOf fun hNone => u.left (u.unknown _ e.object (.element e h hTop) hNone)).mono
      (fun _ _ hFound => hFound.1) fun _ _ hLeft => hLeft
  have hProperty (type : ElementType H) :
      Ends (Assemble.propertyOf type name) s.assembly (fun _ a' => a' = s.assembly)
        (Assembly.FailsIn E s.root) :=
    (Assemble.ends_propertyOf fun _ => u.refuse h (.propertyNotFound type.key.name name) trivial).mono
      (fun _ _ hFound => hFound.1) fun _ _ hLeft => hLeft
  refine (ends_onAssembly_same hType).bind fun type s₁ hSame => ?_
  subst hSame
  refine (ends_onAssembly_same (hProperty type)).bind fun _ s₁ hSame => .bind_get ?_
  subst hSame
  rw [dataContext_eq]
  -- From here on the text is bound, with the number that it gets.
  obtain ⟨a, stack, tag, root⟩ := s₁
  generalize hContext : Moment.dataContext _ setting = dataContext
  have hApplies : Moment.Applies setting _ ⟨a.occurrences, text, e.object, name, dataContext, .empty⟩ :=
    ⟨⟨e, hTop, rfl⟩, hContext.symm, rfl, rfl⟩
  have hEvaluate : Ends (Assemble.evaluate setting.vocabulary a.occurrences
        ⟨e.object, name, dataContext, true⟩ text) { a with occurrences := a.occurrences + 1 }
      (fun outcome a' => a'.scope = a.scope ∧
        J ⟨a.occurrences, text, e.object, name, dataContext, .empty⟩ outcome
          (a'.moment (stack.map OpenElement.enclosing) root []))
      (Assembly.FailsIn E root) := by
    refine .of_runs (fun outcome a' hRun => ?_) fun failure a' hRun => ?_
    · obtain ⟨hOutcome, rfl⟩ := Assemble.evaluate_eq_ok.1 hRun
      exact ⟨rfl, u.applied _ a.scope _ outcome h hScope hText hApplies hOutcome⟩
    · obtain ⟨hFault, rfl⟩ := Assemble.evaluate_eq_error.1 hRun
      have hFails : E failure (Assembly.moment { a with occurrences := a.occurrences + 1 }
          (stack.map OpenElement.enclosing) root []) :=
        u.unapplied _ a.scope _ failure h hScope hText hApplies hFault
      exact u.left hFails
  refine Ends.bind (R := fun n s' => n = a.occurrences ∧
    s' = ⟨{ a with occurrences := a.occurrences + 1 }, stack, tag, root⟩) ⟨rfl, rfl⟩ ?_
  rintro _ _ ⟨rfl, rfl⟩
  refine (ends_onAssembly (Q := fun outcome s' =>
    J ⟨a.occurrences, text, e.object, name, dataContext, .empty⟩ outcome s'.moment) hEvaluate).bind ?_
  rintro outcome s₂ ⟨hLater, h₂⟩
  have hAlike : Construction.Alike ⟨a, stack, tag, root⟩ s₂ :=
    ⟨hLater.path, hLater.texts, hLater.tag, hLater.root, hLater.scope⟩
  cases outcome with
  | value v =>
    refine (ends_onAssembly (Q := fun _ s' => I s'.moment) (u.assignText h₂)).mono ?_
      fun _ _ hError => hError
    exact fun _ s₃ ⟨hAlike', h₃⟩ => ⟨hAlike.trans hAlike', h₃⟩
  | nothing => exact ⟨hAlike, u.skipped _ _ h₂⟩
  | deferred required => exact ⟨hAlike.trans ⟨rfl, rfl, rfl, rfl, rfl⟩, u.enqueue h₂⟩

/-- A construction that does not take an event refuses it. -/
theorem fault (u : Course setting S T I J E) {s : Construction H} (h : I s.moment) {α : Type}
    {Q : α → Construction H → Prop} (fault : StructureFault)
    (hFault : (Failure.structural fault).IsRefusal) :
    Ends (Construct.refuse fault) s Q (Construction.FailsIn E) :=
  u.refuse h (.structural fault) hFault

/-- What the innermost element is told about its key and its identifier keeps up `I`. -/
theorem modifyTop (u : Course setting S T I J E) {s : Construction H} (h : I s.moment)
    {f : OpenElement H → OpenElement H}
    (hSame : ∀ e, (f e).enclosing = e.enclosing ∧ (f e).text = e.text) :
    Ends (Construct.modifyTop f) s (fun _ s' => s.Alike s' ∧ I s'.moment) (Construction.FailsIn E) := by
  obtain ⟨a, stack, tag, root⟩ := s
  cases stack with
  | nil => exact u.refuse h (.structural .strayEnd) trivial
  | cons e outer =>
    have hAlike : Construction.Alike ⟨a, e :: outer, tag, root⟩ ⟨a, f e :: outer, tag, root⟩ := by
      refine ⟨?_, ?_, rfl, rfl, rfl⟩
      · simp [Construction.path, (hSame e).1]
      · rw [List.filterMap_cons, List.filterMap_cons, (hSame e).2]
    refine ⟨hAlike, ?_⟩
    rw [Construction.moment, Construction.holding, hAlike.path]
    exact h

/-- A text is put into the innermost element. -/
theorem applyToTop (u : Course setting S T I J E) {s : Construction H} (h : I s.moment)
    (hScope : S s.assembly.scope) {e : Enclosing H} {path : List (Enclosing H)}
    (hPath : s.path = e :: path) (name : String) {text : String} (hText : T text) :
    Ends (Construct.applyToTop setting name text) s
      (fun _ s' => s.Alike s' ∧ I s'.moment) (Construction.FailsIn E) := by
  obtain ⟨a, stack, tag, root⟩ := s
  cases stack with
  | nil => cases hPath
  | cons inner outer =>
    obtain ⟨rfl, rfl⟩ := List.cons.inj hPath
    exact u.applyText h hScope rfl name hText

/-- An attribute that is not metadata is a text. -/
theorem applyAttribute (u : Course setting S T I J E) {s : Construction H} (h : I s.moment)
    (hScope : S s.assembly.scope) {e : Enclosing H} {path : List (Enclosing H)}
    (hPath : s.path = e :: path) (name value : String)
    (hText : (Name.splitQualifier name).1 = none → T value) :
    Ends (Construct.applyAttribute setting name value) s
      (fun _ s' => s.Alike s' ∧ I s'.moment) (Construction.FailsIn E) := by
  unfold Construct.applyAttribute
  rcases hSplit : Name.splitQualifier name with ⟨_ | qualifier, rest⟩
  · exact u.applyToTop h hScope hPath name (hText (by rw [hSplit]))
  · refine .bind_get ?_
    have hSpace : Ends (Operation.ofExcept (s.assembly.scope.spaceOf qualifier)) s
        (fun _ s' => s' = s) (Construction.FailsIn E) := by
      refine .of_ofExcept (fun _ _ => rfl) fun failure hError => u.refuse h failure ?_
      exact Failure.isRefusal_of_typeResolution (NameScope.kind_of_spaceOf hError)
    refine hSpace.bind fun space s₁ hSame => ?_
    subst hSame
    split
    · exact u.fault h _ trivial
    · split
      · exact u.modifyTop h fun _ => ⟨rfl, rfl⟩
      · split
        · exact u.modifyTop h fun _ => ⟨rfl, rfl⟩
        · split
          · exact u.fault h _ trivial
          · exact ⟨.refl _, h⟩

/-- Attributes that are applied keep up `I`. -/
theorem applyAttributes (u : Course setting S T I J E) {s : Construction H}
    (h : I s.moment) (hScope : S s.assembly.scope) {e : Enclosing H} {path : List (Enclosing H)}
    (hPath : s.path = e :: path) (attributes : List (String × String))
    (hTexts : ∀ a ∈ attributes, (Name.splitQualifier a.1).1 = none → T a.2) :
    Ends (Construct.applyAttributes setting attributes) s
      (fun _ s' => s.Alike s' ∧ I s'.moment) (Construction.FailsIn E) := by
  induction attributes generalizing s with
  | nil => exact ⟨.refl s, h⟩
  | cons first rest ih =>
    have hFirst :=
      u.applyAttribute h hScope hPath first.1 first.2 (hTexts first (List.mem_cons_self ..))
    refine hFirst.bind fun _ s₁ ⟨hAlike, h₁⟩ => ?_
    have hRest := ih h₁ (by rwa [hAlike.scope]) (hAlike.path.trans hPath) fun a hMem =>
      hTexts a (List.mem_cons_of_mem first hMem)
    exact hRest.mono (fun _ s' ⟨hAlike', h'⟩ => ⟨hAlike.trans hAlike', h'⟩) fun _ _ hError => hError

end Course

end ObjectMarkup
