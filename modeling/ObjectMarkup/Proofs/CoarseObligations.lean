import ObjectMarkup.Proofs.RunInvariants

/-!
# What has to be shown of coarser steps

Most invariants do not mind in which order bindings are evaluated again, nor how often. For these
`Upkeep` lists what has to be shown, with coarser steps than those of a `Course`: any binding may be
evaluated at any moment, bindings may be forgotten at any moment, and a text is a binding as soon as it
has its number. What is kept up in this sense is kept up in the course of every run (`Upkeep.course`).
-/

set_option autoImplicit false

namespace ObjectMarkup

variable {H : Host}

/-- Whether something may be put into an object: it is the innermost open one, or a binding is for
it. -/
def Moment.Admits (m : Moment H) (object : ObjectId) : Prop :=
  (∃ b ∈ m.bindings, b.target = object) ∨ ∃ e ∈ m.path.head?, e.object = object

/-- The journal tells where a value comes from: a text gave it, or an element stands for it. -/
def Origin.Supplies (origin : Origin) (journal : List Entry) (value : Value) : Prop :=
  match origin with
  | .occurrence n => ∃ target, .evaluated n target (.value value) ∈ journal
  | .element child => ∃ id, .closed child id value ∈ journal

variable [Hooks H]

/-- What has to be shown for a run to keep up `I` at each of its moments, and to end in `E` if it
fails. Evaluations happen in scopes of which `S` holds and read texts of which `T` holds. -/
structure Upkeep (setting : Setting H) (S : NameScope → Prop) (T : String → Prop)
    (I : Moment H → Prop) (E : Failure → Moment H → Prop) : Prop where
  told : ∀ m, I m → ∀ b ∈ m.bindings, T b.expression
  fewer : ∀ m bindings, I m → bindings ⊆ m.bindings → I { m with bindings }
  made : ∀ m type fresh, I m → setting.vocabulary.Knows type → type.fresh = some fresh →
    I { m with
      path := ⟨type, m.graph.nextId⟩ :: m.path
      graph := m.graph.insert type fresh
      journal := .opened m.graph.nextId :: m.journal }
  bound : ∀ m e path b, I m → m.path = e :: path → b.target = e.object → T b.expression →
    b.dataContext = m.dataContext setting → b.occurrence = m.occurrences →
      I { m with bindings := b :: m.bindings, occurrences := m.occurrences + 1 }
  evaluated : ∀ m scope b target outcome, I m → S scope → b ∈ m.bindings →
    target = ⟨b.target, b.property, b.dataContext, true⟩ →
      evaluate setting.vocabulary ⟨scope, m.graph, m.names⟩ target b.expression = .ok outcome →
        I { m with journal := .evaluated b.occurrence target outcome :: m.journal }
  again : ∀ m b required, I m → b ∈ m.bindings →
    I { m with bindings := { b with required } :: m.bindings }
  assigned : ∀ m object g o w value, I m → m.Admits object → m.graph.Extends g →
    w.object = object → w.Stored setting.vocabulary value m.graph g →
      w.origin.Supplies m.journal value → g.put? w = some o →
        I { m with graph := g.replace object o, journal := .wrote w g.size :: m.journal }
  closed : ∀ m e path id value, I m → m.path = e :: path → e.type.StandsFor m.graph e.object value →
    (e.type.isFactory = true → ∀ b ∈ m.bindings, b.target ≠ e.object) →
      I { m with path, journal := .closed e.object id value :: m.journal }
  rooted : ∀ m value, I m → m.path = [] → (∃ object id, .closed object id value ∈ m.journal) →
    I { m with root := some value }
  named : ∀ m id value names, I m → m.names.register id value = .ok names →
    (∃ object, .closed object (some id) value ∈ m.journal) → I { m with names }
  faulted : ∀ m scope target text failure, I m → S scope → T text → target.canDefer = true →
    evaluate setting.vocabulary ⟨scope, m.graph, m.names⟩ target text = .error failure →
      E failure m
  refused : ∀ m graph failure, I m → m.graph.Extends graph → failure.IsRefusal →
    E failure { m with graph }
  unknown : ∀ m object, I m → m.Admits object → m.graph.type? object = none →
    E (.structural (.unknownObject object)) m
  mismatched : ∀ m graph owner object, I m → m.Admits object → m.graph.Extends graph →
    m.Refuses setting.vocabulary object graph → E (.instanceMismatch owner object) { m with graph }
  lost : ∀ failure m path bindings, E failure m → bindings ⊆ m.bindings →
    E failure { m with path, bindings }

namespace Upkeep

variable {setting : Setting H} {S : NameScope → Prop} {T : String → Prop}
  {I : Moment H → Prop} {E : Failure → Moment H → Prop}

/-- A text in hand is a binding yet, and the journal tells what it came to. -/
def InHand (I : Moment H → Prop) (b : Binding) (outcome : Outcome) (m : Moment H) : Prop :=
  I { m with bindings := b :: m.bindings } ∧ .evaluated b.occurrence b.reading.1 outcome ∈ m.journal

/-- The invariant does not hang on a binding that was held. -/
theorem forget (u : Upkeep setting S T I E) {m : Moment H} {b : Binding}
    (h : I { m with bindings := b :: m.bindings }) : I m :=
  u.fewer { m with bindings := b :: m.bindings } m.bindings h (List.subset_cons_self ..)

/-- What is known of a failure does not hang on a binding that was held. -/
theorem forget_failed (u : Upkeep setting S T I E) {m : Moment H} {b : Binding} {failure : Failure}
    (h : E failure { m with bindings := b :: m.bindings }) : E failure m :=
  u.lost failure { m with bindings := b :: m.bindings } m.path m.bindings h
    (List.subset_cons_self ..)

/-- A text that is given is a binding from then on. -/
theorem applies (u : Upkeep setting S T I E) {m : Moment H} {b : Binding} (h : I m)
    (hText : T b.expression) (hApplies : m.Applies setting b) :
    I { m with bindings := b :: m.bindings, occurrences := m.occurrences + 1 } := by
  obtain ⟨e, hTop, hTarget⟩ := hApplies.target
  obtain ⟨path, hPath⟩ := List.head?_eq_some_iff.1 hTop
  exact u.bound m e path b h hPath hTarget hText hApplies.dataContext hApplies.number

/-- What is kept up step by step is kept up in the course of a run. -/
theorem course (u : Upkeep setting S T I E) : Course setting S T I (InHand I) E where
  told := u.told
  sorted m bindings h hPerm := u.fewer m bindings h hPerm.subset
  made := u.made
  applied m scope b outcome h hScope hText hApplies hOutcome :=
    ⟨u.evaluated _ scope b _ outcome (u.applies h hText hApplies) hScope (List.mem_cons_self ..) rfl
      hOutcome, List.mem_cons_self ..⟩
  reapplied m scope b rest outcome h hScope hBindings _ hOutcome := by
    obtain ⟨path, root, bindings, g, names, occurrences, journal⟩ := m
    cases hBindings
    exact ⟨u.evaluated _ scope b _ outcome h hScope (List.mem_cons_self ..) rfl hOutcome,
      List.mem_cons_self ..⟩
  waits m b required h := by
    refine u.fewer { m with bindings := { b with required } :: b :: m.bindings } _
      (u.again _ b required h.1 (List.mem_cons_self ..)) fun b' hMem => ?_
    rcases List.mem_append.1 hMem with hMem | hMem
    · exact List.mem_cons_of_mem _ (List.mem_cons_of_mem _ hMem)
    · rw [List.mem_singleton.1 hMem]
      exact List.mem_cons_self ..
  skipped m b h := u.forget h.1
  assigned m b g o w value h hOrigin hObject _ hStored hPut := by
    have hSupplies : w.origin.Supplies m.journal value := by
      rw [hOrigin]
      exact ⟨_, h.2⟩
    exact u.forget (u.assigned _ w.object g o w value h.1
      (.inl ⟨b, List.mem_cons_self .., hObject.symm⟩) hStored.extends rfl hStored hSupplies hPut)
  placed m child e g o w value h hTop hClosed hOrigin hObject hStored hPut := by
    have hSupplies : w.origin.Supplies m.journal value := by
      rw [hOrigin]
      exact hClosed
    exact u.assigned _ w.object g o w value h (.inr ⟨e, hTop, hObject.symm⟩) hStored.extends rfl hStored
      hSupplies hPut
  closed := u.closed
  rooted := u.rooted
  named := u.named
  unapplied m scope b failure h hScope hText hApplies hFault :=
    u.forget_failed (u.faulted _ scope _ b.expression failure (u.applies h hText hApplies) hScope hText
      rfl hFault)
  faulted m scope b rest failure h hScope hBindings _ hFault := by
    obtain ⟨path, root, bindings, g, names, occurrences, journal⟩ := m
    cases hBindings
    have hText := u.told _ h b (List.mem_cons_self ..)
    exact u.forget_failed (u.faulted _ scope _ b.expression failure h hScope hText rfl hFault)
  refused m graph failure h hExtends hRefusal := by
    rcases h with h | ⟨b, outcome, h, -⟩
    · exact u.refused m graph failure h hExtends hRefusal
    · exact u.forget_failed (u.refused _ graph failure h hExtends hRefusal)
  unknown m object hAims hAbsent := by
    cases hAims with
    | element e stands top => exact u.unknown m _ stands (.inr ⟨e, top, rfl⟩) hAbsent
    | text b value inHand =>
      exact u.forget_failed (u.unknown { m with bindings := b :: m.bindings } _ inHand.1
        (.inl ⟨b, List.mem_cons_self .., rfl⟩) hAbsent)
  mismatched m graph owner object hAims hExtends hRefuses := by
    have hMore (b : Binding) :
        Moment.Refuses setting.vocabulary { m with bindings := b :: m.bindings } object graph := by
      cases hRefuses with
      | write value w g stored fails => exact .write value w graph stored fails
      | product e top factory fails => exact .product e top factory fails
    cases hAims with
    | element e stands top =>
      exact u.mismatched m graph owner _ stands (.inr ⟨e, top, rfl⟩) hExtends hRefuses
    | text b value inHand =>
      exact u.forget_failed (u.mismatched _ graph owner _ inHand.1
        (.inl ⟨b, List.mem_cons_self .., rfl⟩) hExtends (hMore b))
  lost := u.lost

end Upkeep

end ObjectMarkup
