import ObjectMarkup.Proofs.ObjectTree

/-!
# The texts of trees

Events tell texts for properties: the values of plain attributes, and runs of text. A tree uses each
text that its events tell, once (`ObjectTree.values_events`). Only the order differs: what stands
directly in an element or a property is used after all else in it.
-/

set_option autoImplicit false

namespace ObjectMarkup

open ObjectNode

variable {H : Host}

/-! ### The texts that events tell -/

namespace Markup

/-- Whether an event tells a text for a property. -/
def Event.isValue : Event → Bool
  | .attribute name _ => Name.isPlain name
  | .text _ => true
  | _ => false

/-- The text that an event tells for a property. -/
def Event.value? : Event → Option String
  | .attribute name value => if Name.isPlain name then some value else none
  | .text content => some content
  | _ => none

/-- The texts that events tell for properties, in order. -/
def values (events : List Event) : List String := events.filterMap Event.value?

/-- No events give no texts. -/
@[simp] theorem values_nil : values [] = [] := rfl

/-- The start of a tag gives no text for a property. -/
@[simp] theorem values_start (tag : String) (rest : List Event) :
    values (.start tag :: rest) = values rest := rfl

/-- The end of a tag gives no text for a property. -/
@[simp] theorem values_finish (rest : List Event) : values (.finish :: rest) = values rest := rfl

/-- A run of text is the first text. -/
@[simp] theorem values_text (content : String) (rest : List Event) :
    values (.text content :: rest) = content :: values rest := rfl

/-- Events that follow each other give their texts in order. -/
@[simp] theorem values_append (events later : List Event) :
    values (events ++ later) = values events ++ values later :=
  List.filterMap_append

/-- Attributes give the texts of those that are plain. -/
theorem values_attributeEvents (attributes : List (String × String)) :
    values (attributes.map attributeEvent) =
      (attributes.filter fun a => Name.isPlain a.1).map Prod.snd := by
  induction attributes with
  | nil => rfl
  | cons first rest ih =>
    unfold values at ih ⊢
    rw [List.map_cons, List.filterMap_cons, List.filter_cons, ih]
    cases h : Name.isPlain first.1 <;> simp [attributeEvent, Event.value?, h]

/-- There are as many events with texts as texts. -/
theorem countP_isValue (events : List Event) :
    events.countP Event.isValue = (values events).length := by
  induction events with
  | nil => rfl
  | cons event rest ih =>
    unfold values at ih ⊢
    rw [List.countP_cons, List.filterMap_cons, ih]
    cases event with
    | «attribute» name value =>
      cases h : Name.isPlain name <;> simp [Event.isValue, Event.value?, h]
    | _ => rfl

end Markup

/-! ### The texts that trees use -/

open Markup (values)

namespace Use

/-- The texts that uses give, in order. -/
def contents (uses : List Use) : List String := (texts uses).map TextUse.content

/-- The texts of uses that follow each other follow each other. -/
@[simp] theorem contents_append (uses later : List Use) :
    contents (uses ++ later) = contents uses ++ contents later := by
  rw [contents, texts_append, List.map_append]
  rfl

/-- Texts that are used for a property are those. -/
@[simp] theorem contents_textUses (object : ObjectId) (property : String) (content : List String) :
    contents (textUses object property content) = content := by
  induction content with
  | nil => rfl
  | cons first rest ih => exact congrArg (first :: ·) ih

/-- Attributes use the texts of those that are plain. -/
@[simp] theorem contents_attributeUses (object : ObjectId) (attributes : List (String × String)) :
    contents (ElementHead.attributeUses object attributes) =
      (attributes.filter fun a => Name.isPlain a.1).map Prod.snd := by
  unfold ElementHead.attributeUses
  induction attributes.filter fun a => Name.isPlain a.1 with
  | nil => rfl
  | cons first rest ih => exact congrArg (first.2 :: ·) ih

/-- The text of a use is among the texts. -/
theorem mem_contents {uses : List Use} {u : Use} {content : String} (hMem : u ∈ uses)
    (hText : u.source = .text content) : content ∈ contents uses := by
  obtain ⟨object, property, source⟩ := u
  cases hText
  refine List.mem_map.2 ⟨⟨object, property, content⟩, ?_, rfl⟩
  exact List.mem_filterMap.2 ⟨_, hMem, rfl⟩

end Use

/-- `DoesAll.invariant` for what holds of the uses so far. A step may rely on the scope, and on what
holds of all texts that are used. -/
theorem DoesAll.invariant_of_texts [Hooks H] {vocabulary : Vocabulary H} {scope : NameScope}
    {T : String → Prop} {P : List Use → Assembly H → Prop}
    (step : ∀ uses a d a', (∀ content ∈ Use.contents (uses ++ Deed.uses [d]), T content) →
      a.scope = scope → P uses a → Does vocabulary a d a' → P (uses ++ Deed.uses [d]) a')
    {ds : List (Deed H)} {a : Assembly H} (start : P [] (.start scope))
    (run : DoesAll vocabulary (.start scope) ds a)
    (texts : ∀ content ∈ Use.contents (Deed.uses ds), T content) : P (Deed.uses ds) a := by
  have hDone : a.scope = scope ∧
      ((∀ content ∈ Use.contents (Deed.uses ds), T content) → P (Deed.uses ds) a) := by
    refine invariant (P := fun done a => a.scope = scope ∧
      ((∀ content ∈ Use.contents (Deed.uses done), T content) → P (Deed.uses done) a))
      ?_ ⟨rfl, fun _ => start⟩ run
    rintro done a₁ d a₂ ⟨hScope, hBefore⟩ hDoes
    rw [Deed.uses_append]
    refine ⟨hDoes.grows.scope.trans hScope, fun hTexts => ?_⟩
    refine step (Deed.uses done) a₁ d a₂ hTexts hScope (hBefore fun content hMem => ?_) hDoes
    refine hTexts content ?_
    rw [Use.contents_append]
    exact List.mem_append_left _ hMem
  exact hDone.2 texts

open Use (contents)

/-- The events of a start tag give the texts that it uses. -/
theorem ElementHead.values_events (e : ElementHead H) : values e.events = contents e.uses := by
  rw [events, Markup.values_start, Markup.values_attributeEvents, uses, Use.contents_attributeUses]

namespace ObjectNode

mutual

/-- Content tells the texts that it uses, and what it is itself, if it is a text. -/
theorem values_events (object : ObjectId) (receiver : String) (node : ObjectNode H) :
    (values node.markup.events).Perm
      (contents (node.uses object receiver) ++ node.content?.toList) := by
  match node with
  | .text content => exact .refl _
  | .property tag owner name split children =>
    have ih := values_eventsOf object name children
    rw [eventsOf] at ih
    simpa [markup, Markup.Node.events, uses, content?] using ih
  | .element head whole children =>
    have ih := values_eventsOf head.object head.type.contentProperty children
    have hHead := head.values_events
    rw [eventsOf] at ih
    rw [ElementHead.events, Markup.values_start] at hHead
    have hChild : contents [⟨object, receiver, .element head.object⟩] = [] := rfl
    simp only [markup, Markup.Node.events, uses, content?, Markup.values_start, Markup.values_append,
      Markup.values_finish, Markup.values_nil, Use.contents_append, Use.contents_textUses, hHead, hChild,
      Option.toList_none, List.append_nil, List.append_assoc]
    exact ih.append_left _

/-- The events of content give the texts that it uses, and those that stand directly in it. -/
theorem values_eventsOf (object : ObjectId) (receiver : String) (nodes : List (ObjectNode H)) :
    (values (eventsOf nodes)).Perm
      (contents (usesOf object receiver nodes) ++ textsOf nodes) := by
  match nodes with
  | [] => exact .refl _
  | node :: rest =>
    have hNode := values_events object receiver node
    have ih := values_eventsOf object receiver rest
    have hText : textsOf (node :: rest) = node.content?.toList ++ textsOf rest := by
      rw [textsOf, List.filterMap_cons]
      cases node.content? <;> rfl
    rw [eventsOf] at ih
    rw [eventsOf, markupOf, Markup.Node.eventsOf_cons, Markup.values_append, usesOf, hText,
      Use.contents_append]
    refine (hNode.append ih).trans ?_
    rw [List.append_assoc, List.append_assoc]
    exact (List.perm_append_comm_assoc ..).append_left _

end

end ObjectNode

/-- A tree uses the texts that its events tell. -/
theorem ObjectTree.values_events (t : ObjectTree H) : (values t.events).Perm (contents t.uses) := by
  have hContent := ObjectNode.values_eventsOf t.head.object t.head.type.contentProperty t.children
  have hHead := t.head.values_events
  rw [eventsOf] at hContent
  rw [ElementHead.events, Markup.values_start] at hHead
  simp only [events, Markup.Node.events, uses, Markup.values_start, Markup.values_append,
    Markup.values_finish, Markup.values_nil, Use.contents_append, Use.contents_textUses, hHead,
    List.append_nil]
  exact hContent.append_left _

end ObjectMarkup
