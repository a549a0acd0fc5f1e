import Mathlib.Data.List.Chain
import ObjectMarkup.Markup.Reader
import ObjectMarkup.Proofs.Scanning
import ObjectMarkup.Proofs.Tree

/-!
# What a reader hands out

A document is tags, and between them text. Text, character data and references between two tags run
together, and what says nothing does not divide them. In normal form a document is the events of its
tags, and between two tags the trimmed text, if something is left of it.

A reader is asked for one event at a time and looks at no more tokens than it needs. Asked again and
again it hands out the normal form and then nothing any more (`Reader.hands_out_normal_form`). If
there is a fault, it hands out what stands up to the last tag before the fault, then the fault, and
nothing ever after.
-/

set_option autoImplicit false

namespace ObjectMarkup

namespace Markup

/-! ### What tokens say -/

/-- What a token says, its references replaced. -/
inductive Part where
  | opening (name : String) (attributes : List (String × String))
  | selfClosing (name : String) (attributes : List (String × String))
  | closing
  | text (content : String)
  /-- Nothing, like a comment. -/
  | silence

namespace Part

/-- Whether a part is a tag and divides the text around it. -/
def isTag : Part → Bool
  | .opening _ _ => true
  | .selfClosing _ _ => true
  | .closing => true
  | .text _ => false
  | .silence => false

/-- The events of a tag. -/
def events : Part → List Event
  | .opening name attributes => .start name :: attributes.map attributeEvent
  | .selfClosing name attributes => .start name :: (attributes.map attributeEvent ++ [.finish])
  | .closing => [.finish]
  | .text _ => []
  | .silence => []

/-- A tag has events. -/
theorem events_ne_nil {p : Part} (h : p.isTag = true) : p.events ≠ [] := by
  cases p with
  | opening name attributes => exact List.cons_ne_nil _ _
  | selfClosing name attributes => exact List.cons_ne_nil _ _
  | closing => exact List.cons_ne_nil _ _
  | text content => cases h
  | silence => cases h

/-- What a part adds to the text between two tags. -/
def content : Part → String
  | .text content => content
  | _ => ""

/-- The text of parts that follow each other. -/
def contentOf (parts : List Part) : String := String.join (parts.map content)

end Part

/-- The attributes of a tag with the references in their values replaced, or what is wrong first. -/
def Tag.values (t : Tag) : Except String (List (String × String)) := do
  let values ← t.attributes.items.mapM fun a =>
    ((Reference.replaceInValue a.value).mapError Reference.ValueFault.message).map fun value =>
      (a.name, value)
  match t.attributes.fault with
  | some fault => .error fault.message
  | none => return values

/-- What a token says, or what is wrong with it. -/
def Token.part : Token → Except String Part
  | .opening t => t.values.map (.opening t.name)
  | .selfClosing t => t.values.map (.selfClosing t.name)
  | .closing => .ok .closing
  | .text content => .ok (.text content)
  | .cdata content => .ok (.text content)
  | .reference body =>
    match Reference.inText body with
    | .ok c => .ok (.text (String.singleton c))
    | .error fault => .error fault.message
  | .other => .ok .silence

/-- What tokens say up to the first one that is wrong, and what is wrong there. The place of a fault
is where its token stops. -/
def sayings (broken : Option Token.Fault) : List PlacedToken → Scan Part (String × Nat)
  | [] => ⟨[], broken.map fun fault => (fault.cause.message, fault.offset)⟩
  | t :: rest =>
    match t.token.part with
    | .ok part => (sayings broken rest).prepend [part]
    | .error message => ⟨[], some (message, t.stop)⟩

/-! ### The normal form -/

/-- The text between two tags is one event without the blanks around it, if some character of it is
no blank. -/
def textBetween (text : String) : List Event :=
  if text.toList.all isBlank then [] else [.text (trimText text)]

/-- Parts of a document, divided at its tags: what stands before the first tag, and each tag with
what stands between it and the next one. -/
structure Division where
  lead : List Part
  passages : List (Part × List Part)
  lead_plain : ∀ p ∈ lead, p.isTag = false
  tags : ∀ passage ∈ passages, passage.1.isTag = true
  plain : ∀ passage ∈ passages, ∀ p ∈ passage.2, p.isTag = false

namespace Division

/-- The parts that were divided. -/
def parts (d : Division) : List Part :=
  d.lead ++ d.passages.flatMap fun passage => passage.1 :: passage.2

/-- The events of the tags, and between them the text. -/
def events (d : Division) : List Event :=
  textBetween (Part.contentOf d.lead) ++
    d.passages.flatMap fun passage =>
      passage.1.events ++ textBetween (Part.contentOf passage.2)

/-- Nothing, divided. -/
def nil : Division := ⟨[], [], nofun, nofun, nofun⟩

/-- One more part in front. -/
def cons (p : Part) (d : Division) : Division :=
  if hTag : p.isTag = true then
    ⟨[], (p, d.lead) :: d.passages, nofun, List.forall_mem_cons.2 ⟨hTag, d.tags⟩,
      List.forall_mem_cons.2 ⟨d.lead_plain, d.plain⟩⟩
  else
    ⟨p :: d.lead, d.passages, List.forall_mem_cons.2 ⟨by simpa using hTag, d.lead_plain⟩, d.tags,
      d.plain⟩

end Division

/-- Divides parts at their tags. -/
def divide (parts : List Part) : Division := parts.foldr Division.cons .nil

/-- Dividing parts loses none of them and leaves their order. -/
theorem parts_divide (parts : List Part) : (divide parts).parts = parts := by
  induction parts with
  | nil => rfl
  | cons p rest ih =>
    have hCons : divide (p :: rest) = (divide rest).cons p := rfl
    unfold Division.parts at ih ⊢
    rw [hCons, Division.cons]
    split
    · simpa using ih
    · simpa using ih

/-- The events of parts. -/
def normalForm (parts : List Part) : List Event := (divide parts).events

/-- The parts up to the last tag. -/
def upToLastTag : List Part → List Part
  | [] => []
  | p :: rest => if p.isTag || !(upToLastTag rest).isEmpty then p :: upToLastTag rest else []

/-- What is handed out of parts: their events, or, if a fault follows them, those up to the last tag,
and then the fault. -/
def handedOut (source : String) (s : Scan Part (String × Nat)) : List (Except Fault Event) :=
  match s.fault with
  | none => (normalForm s.items).map .ok
  | some (message, offset) =>
    (normalForm (upToLastTag s.items)).map .ok ++ [.error ⟨message, .ofOffset source offset⟩]

section Equations

/-!
Text that is already read is one more part in front. So what is said here of the parts before the
first tag also tells how a run of text grows.
-/

variable (run : String) {p : Part} (rest : List Part)

/-- The text of the first part comes first. -/
theorem contentOf_cons (p : Part) : Part.contentOf (p :: rest) = p.content ++ Part.contentOf rest := by
  simp [Part.contentOf, String.join_cons]

/-- A tag in front has its events in front. -/
theorem normalForm_cons_tag (h : p.isTag = true) :
    normalForm (p :: rest) = p.events ++ normalForm rest := by
  have hDivide : divide (p :: rest) = (divide rest).cons p := rfl
  simp [normalForm, hDivide, Division.cons, h, Division.events, Part.contentOf, textBetween]

/-- What stands before the first tag adds to the text there. -/
theorem normalForm_cons_between (h : p.isTag = false) :
    normalForm (p :: rest) =
      textBetween (p.content ++ Part.contentOf (divide rest).lead) ++
        (divide rest).passages.flatMap fun passage =>
          passage.1.events ++ textBetween (Part.contentOf passage.2) := by
  have hDivide : divide (p :: rest) = (divide rest).cons p := rfl
  simp [normalForm, hDivide, Division.cons, h, Division.events, contentOf_cons]

/-- No text in front changes nothing. -/
theorem normalForm_empty : normalForm (.text "" :: rest) = normalForm rest := by
  rw [normalForm_cons_between rest rfl, Part.content, String.empty_append]
  rfl

/-- A document of text is the event of its text. -/
theorem normalForm_text : normalForm [.text run] = textBetween run := by
  rw [normalForm_cons_between [] rfl]
  simp [Part.content, Part.contentOf, divide, Division.nil]

/-- A tag ends the text before it. -/
theorem normalForm_text_tag (h : p.isTag = true) :
    normalForm (.text run :: p :: rest) = textBetween run ++ (p.events ++ normalForm rest) := by
  have hDivide : divide (p :: rest) = (divide rest).cons p := rfl
  rw [normalForm_cons_between _ rfl, hDivide]
  simp [normalForm, Division.cons, h, Division.events, Part.content, Part.contentOf]

/-- What stands between tags adds to the text. -/
theorem normalForm_text_between (h : p.isTag = false) :
    normalForm (.text run :: p :: rest) = normalForm (.text (run ++ p.content) :: rest) := by
  have hDivide : divide (p :: rest) = (divide rest).cons p := rfl
  rw [normalForm_cons_between _ rfl, normalForm_cons_between _ rfl, hDivide]
  simp [Division.cons, h, Part.content, contentOf_cons, String.append_assoc]

/-- A tag is kept. -/
theorem upToLastTag_tag (h : p.isTag = true) : upToLastTag (p :: rest) = p :: upToLastTag rest := by
  rw [upToLastTag, h, Bool.true_or, if_pos rfl]

/-- What stands between tags is kept if a tag follows. -/
theorem upToLastTag_between (h : p.isTag = false) :
    upToLastTag (p :: rest) =
      if (upToLastTag rest).isEmpty then [] else p :: upToLastTag rest := by
  rw [upToLastTag, h, Bool.false_or]
  cases (upToLastTag rest).isEmpty <;> rfl

variable (source : String) (s : Scan Part (String × Nat))

/-- No text in front changes nothing of what is handed out. -/
theorem handedOut_empty : handedOut source (s.prepend [.text ""]) = handedOut source s := by
  obtain ⟨items, fault⟩ := s
  have hClosed : normalForm (upToLastTag (.text "" :: items)) = normalForm (upToLastTag items) := by
    rw [upToLastTag_between items rfl]
    cases upToLastTag items with
    | nil => rfl
    | cons q later => exact normalForm_empty (q :: later)
  cases fault with
  | none => simp [handedOut, Scan.prepend, normalForm_empty]
  | some fault => simp [handedOut, Scan.prepend, hClosed]

/-- Where a tag comes, the text before it and its events are handed out. -/
theorem handedOut_tag (h : p.isTag = true) :
    handedOut source (s.prepend [.text run, p]) =
      (textBetween run ++ p.events).map .ok ++ handedOut source s := by
  obtain ⟨items, fault⟩ := s
  have hClosed : upToLastTag (.text run :: p :: items) = .text run :: p :: upToLastTag items := by
    rw [upToLastTag_between _ rfl, upToLastTag_tag items h]
    rfl
  cases fault with
  | none => simp [handedOut, Scan.prepend, normalForm_text_tag run _ h]
  | some fault => simp [handedOut, Scan.prepend, hClosed, normalForm_text_tag run _ h]

/-- What stands between tags adds to the text that is handed out. -/
theorem handedOut_between (h : p.isTag = false) :
    handedOut source (s.prepend [.text run, p]) =
      handedOut source (s.prepend [.text (run ++ p.content)]) := by
  obtain ⟨items, fault⟩ := s
  have hClosed : normalForm (upToLastTag (.text run :: p :: items)) =
      normalForm (upToLastTag (.text (run ++ p.content) :: items)) := by
    rw [upToLastTag_between _ rfl, upToLastTag_between items h, upToLastTag_between items rfl]
    cases upToLastTag items with
    | nil => rfl
    | cons q later => exact normalForm_text_between run (q :: later) h
  cases fault with
  | none => simp [handedOut, Scan.prepend, normalForm_text_between run _ h]
  | some fault => simp [handedOut, Scan.prepend, hClosed]

end Equations

/-! ### What is normal about it -/

/-- Whether an event is a text. -/
def Event.isText : Event → Bool
  | .text _ => true
  | _ => false

/-- Texts are trimmed and not empty, and no two of them are next to each other. -/
structure IsNormal (events : List Event) : Prop where
  trimmed : ∀ content, .text content ∈ events → content ≠ "" ∧ trimText content = content
  apart : events.IsChain fun x y => x.isText = true → y.isText = false

/-- A trimmed text has nothing to trim. -/
theorem trimText_trimText (text : String) : trimText (trimText text) = trimText text := by
  have hStarts : StartsSolid (trim text.toList) := by
    intro c hHead
    obtain ⟨blanks, hSplit⟩ := trimRight_isPrefix (trimLeft text.toList)
    refine startsSolid_trimLeft text.toList c ?_
    rw [← hSplit, List.head?_append]
    exact Option.mem_def.2 (Option.or_eq_some_iff.2 (.inl hHead))
  have hSame := trim_eq_self_iff.2 ⟨hStarts, endsSolid_trimRight (trimLeft text.toList)⟩
  rw [trimText, trimText, String.toList_ofList, hSame]

/-- Nothing is left of a text if all of it is blank. -/
theorem trimText_eq_empty_iff {text : String} :
    trimText text = "" ↔ text.toList.all isBlank = true := by
  rw [trimText, String.ofList_eq_empty_iff, trim, List.all_eq_true]
  constructor
  · intro hNone
    have hLeft : ∀ c ∈ trimLeft text.toList, isBlank c = true := List.rdropWhile_eq_nil_iff.1 hNone
    cases hSplit : trimLeft text.toList with
    | nil => exact List.dropWhile_eq_nil_iff.1 hSplit
    | cons c rest =>
      have hSolid := startsSolid_trimLeft text.toList c (by rw [hSplit]; rfl)
      rw [hSplit] at hLeft
      rw [hLeft c List.mem_cons_self] at hSolid
      cases hSolid
  · intro hBlank
    rw [trimLeft, List.dropWhile_eq_nil_iff.2 hBlank]
    rfl

/-- A text has no event if nothing of it is left. -/
theorem textBetween_eq_nil_iff {text : String} : textBetween text = [] ↔ trimText text = "" := by
  rw [trimText_eq_empty_iff, textBetween]
  split <;> simp_all

/-- The event of a text is the trimmed text. -/
theorem mem_textBetween {text : String} {event : Event} (h : event ∈ textBetween text) :
    event = .text (trimText text) ∧ trimText text ≠ "" := by
  refine ⟨?_, fun hNone => ?_⟩
  · unfold textBetween at h
    split at h
    · cases h
    · exact List.mem_singleton.1 h
  · rw [textBetween_eq_nil_iff.2 hNone] at h
    cases h

/-- The reader makes the same event of a run of text. -/
theorem Reader.textEvents_eq (run : String) : textEvents run = textBetween run := by
  rw [textEvents, textBetween]
  by_cases hNone : trimText run = ""
  · rw [if_pos (by simp [hNone]), if_pos (trimText_eq_empty_iff.1 hNone)]
  · rw [if_neg (by simpa using hNone), if_neg fun hBlank => hNone (trimText_eq_empty_iff.2 hBlank)]

/-- The events of a tag are no texts. -/
theorem Part.isText_of_mem_events {p : Part} {event : Event} (h : event ∈ p.events) :
    event.isText = false := by
  have hAttribute {attributes : List (String × String)}
      (hMem : event ∈ attributes.map attributeEvent) : event.isText = false := by
    obtain ⟨a, -, rfl⟩ := List.mem_map.1 hMem
    rfl
  cases p with
  | opening name attributes =>
    rcases List.mem_cons.1 h with rfl | h
    · rfl
    · exact hAttribute h
  | selfClosing name attributes =>
    rcases List.mem_cons.1 h with rfl | h
    · rfl
    · rcases List.mem_append.1 h with h | h
      · exact hAttribute h
      · rw [List.mem_singleton.1 h]
        rfl
  | closing =>
    rw [List.mem_singleton.1 h]
    rfl
  | text content => cases h
  | silence => cases h

namespace IsNormal

/-- The event of one text is normal. -/
theorem textBetween (text : String) : IsNormal (textBetween text) where
  trimmed content h := by
    obtain ⟨hSame, hSome⟩ := mem_textBetween h
    cases hSame
    exact ⟨hSome, trimText_trimText text⟩
  apart := by
    unfold Markup.textBetween
    split
    · exact .nil
    · exact List.isChain_singleton _

/-- The events of one tag are normal. -/
theorem partEvents (p : Part) : IsNormal p.events where
  trimmed content h := by
    have hText := Part.isText_of_mem_events h
    cases hText
  apart := by
    refine (List.pairwise_of_forall_mem_list fun x _ y hy _ => ?_).isChain
    exact Part.isText_of_mem_events hy

/-- What follows is not divided from what stands before it by a text on both sides. -/
theorem append {events later : List Event} (h : IsNormal events) (h' : IsNormal later)
    (hApart : ∀ x ∈ events.getLast?, ∀ y ∈ later.head?, x.isText = true → y.isText = false) :
    IsNormal (events ++ later) where
  trimmed content hMem := by
    rcases List.mem_append.1 hMem with hMem | hMem
    · exact h.trimmed content hMem
    · exact h'.trimmed content hMem
  apart := List.isChain_append.2 ⟨h.apart, h'.apart, hApart⟩

/-- A normal form is normal, whatever text is already read. -/
theorem afterText (run : String) (parts : List Part) :
    IsNormal (normalForm (.text run :: parts)) := by
  induction parts generalizing run with
  | nil =>
    rw [normalForm_text]
    exact .textBetween run
  | cons p rest ih =>
    cases hTag : p.isTag with
    | false =>
      rw [normalForm_text_between run rest hTag]
      exact ih _
    | true =>
      have hRest := ih ""
      rw [normalForm_empty] at hRest
      rw [normalForm_text_tag run rest hTag]
      refine (textBetween run).append ((partEvents p).append hRest ?_) ?_
      · intro x hx y _ hText
        rw [Part.isText_of_mem_events (List.mem_of_getLast? hx)] at hText
        cases hText
      · intro x _ y hy _
        have hFirst : y ∈ p.events.head? := by
          rwa [List.head?_append_of_ne_nil _ (Part.events_ne_nil hTag)] at hy
        exact Part.isText_of_mem_events (List.mem_of_head? hFirst)

/-- A normal form is normal. -/
theorem normalForm (parts : List Part) : IsNormal (normalForm parts) := by
  rw [← normalForm_empty]
  exact .afterText "" parts

end IsNormal

/-- What comes after some parts may be exchanged for what gives the same events after every text. -/
theorem normalForm_append_congr {later later' : List Part}
    (h : ∀ run, normalForm (.text run :: later) = normalForm (.text run :: later'))
    (first : List Part) : normalForm (first ++ later) = normalForm (first ++ later') := by
  have hAfter : ∀ run, normalForm (.text run :: (first ++ later)) =
      normalForm (.text run :: (first ++ later')) := by
    induction first with
    | nil => exact h
    | cons p rest ih =>
      intro run
      rw [List.cons_append, List.cons_append]
      cases hTag : p.isTag with
      | false => rw [normalForm_text_between run _ hTag, normalForm_text_between run _ hTag, ih]
      | true =>
        have hRest := ih ""
        rw [normalForm_empty, normalForm_empty] at hRest
        rw [normalForm_text_tag run _ hTag, normalForm_text_tag run _ hTag, hRest]
  rw [← normalForm_empty (first ++ later), hAfter, normalForm_empty]

/-- A self-closing tag is a start tag and an end tag. -/
theorem normalForm_selfClosing (first later : List Part) (name : String)
    (attributes : List (String × String)) :
    normalForm (first ++ .selfClosing name attributes :: later) =
      normalForm (first ++ .opening name attributes :: .closing :: later) := by
  refine normalForm_append_congr (fun run => ?_) first
  rw [normalForm_text_tag run _ rfl, normalForm_text_tag run _ rfl, normalForm_cons_tag _ rfl]
  simp [Part.events]

/-- What says nothing divides nothing. -/
theorem normalForm_silence (first later : List Part) :
    normalForm (first ++ .silence :: later) = normalForm (first ++ later) := by
  refine normalForm_append_congr (fun run => ?_) first
  rw [normalForm_text_between run _ rfl]
  simp [Part.content]

/-! ### One token -/

namespace Reader

/-- The values of attributes are replaced one by one, and the first fault ends it. -/
theorem attributeEvents_eq (attributes : List Attribute.Raw) :
    attributeEvents attributes =
      (attributes.mapM fun a =>
        ((Reference.replaceInValue a.value).mapError Reference.ValueFault.message).map fun value =>
          (a.name, value)).map (List.map attributeEvent) := by
  induction attributes with
  | nil => rfl
  | cons a rest ih =>
    rw [attributeEvents, List.mapM_cons, ih]
    cases Reference.replaceInValue a.value with
    | error fault => rfl
    | ok value =>
      cases rest.mapM fun a =>
          ((Reference.replaceInValue a.value).mapError Reference.ValueFault.message).map fun value =>
            (a.name, value) with
      | error message => rfl
      | ok values => rfl

/-- A start tag gives its start and one event for each attribute. -/
theorem tagEvents_eq (t : Tag) :
    tagEvents t = t.values.map fun attributes => .start t.name :: attributes.map attributeEvent := by
  rw [tagEvents, Tag.values, attributeEvents_eq]
  cases t.attributes.items.mapM fun a =>
      ((Reference.replaceInValue a.value).mapError Reference.ValueFault.message).map fun value =>
        (a.name, value) with
  | error message => rfl
  | ok values =>
    cases t.attributes.fault with
    | some fault => rfl
    | none => rfl

/-- What a token adds is the events of a tag after the text before it, or more text. -/
theorem tokenEvents_eq (run : String) (t : Token) :
    tokenEvents run t = t.part.map fun p =>
      if p.isTag then (textBetween run ++ p.events, "") else ([], run ++ p.content) := by
  rw [← textEvents_eq]
  cases t with
  | opening t =>
    rw [tokenEvents, tagEvents_eq, Token.part]
    cases t.values <;> rfl
  | selfClosing t =>
    rw [tokenEvents, tagEvents_eq, Token.part]
    cases t.values with
    | error message => rfl
    | ok attributes => simp [Except.map, bind, Except.bind, pure, Except.pure, Part.isTag, Part.events]
  | closing => rfl
  | text content => rfl
  | cdata content => rfl
  | reference body =>
    rw [tokenEvents, Token.part]
    cases Reference.inText body with
    | error fault => rfl
    | ok c =>
      show Except.ok ([], run.push c) = Except.ok ([], run ++ String.singleton c)
      rw [String.push_eq_append]
  | other => simp [tokenEvents, Token.part, Except.map, Part.isTag, Part.content]

/-! ### Asking again and again -/

/-- A reader after it was asked `n` times. -/
def after (r : Reader) : Nat → Reader
  | 0 => r
  | n + 1 => r.next.2.after n

/-- What a reader answers after it was asked `n` times. -/
def answer (r : Reader) (n : Nat) : Option (Except Fault Event) := (r.after n).next.1

/-- Asked again and again, a reader hands out `items` and then nothing any more. -/
def HandsOut (r : Reader) (items : List (Except Fault Event)) : Prop :=
  ∀ n, r.answer n = items[n]?

namespace HandsOut

variable {r r' : Reader} {item : Except Fault Event} {items : List (Except Fault Event)}

/-- What is handed out now comes before what is handed out later. -/
theorem cons (h : r.next = (some item, r')) (h' : r'.HandsOut items) : r.HandsOut (item :: items) := by
  intro n
  cases n with
  | zero => simp [answer, after, h]
  | succ n =>
    have hRest := h' n
    simpa [answer, after, h] using hRest

/-- A reader that has nothing and leaves it at that. -/
theorem nil (h : r.next = (none, r')) (h' : r'.next = (none, r')) : r.HandsOut [] := by
  have hStays : ∀ n, (r'.after n).next = (none, r') := by
    intro n
    induction n with
    | zero => exact h'
    | succ n ih => rw [after, h']; exact ih
  intro n
  cases n with
  | zero => simp [answer, after, h]
  | succ n => simp [answer, after, h, hStays]

/-- Readers that answer alike now hand out the same. -/
theorem congr (h : r.next = r'.next) (h' : r'.HandsOut items) : r.HandsOut items := by
  intro n
  have hRest := h' n
  cases n with
  | zero => simpa [answer, after, h] using hRest
  | succ n => simpa [answer, after, h] using hRest

/-- Events that wait come first. -/
theorem queued (h : ({ r with queue := [] } : Reader).HandsOut items) (events : List Event) :
    ({ r with queue := events } : Reader).HandsOut (events.map .ok ++ items) := by
  induction events with
  | nil => exact h
  | cons event rest ih => exact cons rfl ih

/-- What is handed out is all that a drain gives. -/
theorem drain_eq (h : r.HandsOut items) : r.drain.1 = items := by
  induction items generalizing r with
  | nil =>
    have hFirst : r.next.1 = none := h 0
    rw [drain]
    split
    · rfl
    · next hNext =>
      rw [hNext] at hFirst
      cases hFirst
  | cons item items ih =>
    have hFirst : r.next.1 = some item := h 0
    have hRest : r.next.2.HandsOut items := fun n => h (n + 1)
    rw [drain]
    split
    · next hNext =>
      rw [hNext] at hFirst
      cases hFirst
    · next item' r' hNext =>
      rw [hNext] at hFirst hRest
      cases hFirst
      show item :: r'.drain.1 = item :: items
      rw [ih hRest]

end HandsOut

/-- A reader that has stopped has nothing more. -/
theorem next_stop (r : Reader) : r.stop.next = (none, r.stop) := rfl

/-- A fault ends it. -/
theorem handsOut_fault {r : Reader} {fault : Fault} (h : r.next = (some (.error fault), r.stop)) :
    r.HandsOut [.error fault] :=
  .cons h (.nil r.next_stop r.next_stop)

section Reading

variable (source : String) (broken : Option Token.Fault)

/-- A reader before these tokens, with the text that it read since the last tag. -/
def before (tokens : List PlacedToken) (run : String) : Reader :=
  ⟨source, tokens, broken, [], run, false⟩

/-- Behind the last token the text is handed out that is still there, or the fault. -/
theorem handsOut_end (run : String) :
    (before source broken [] run).HandsOut
      (handedOut source ((sayings broken []).prepend [.text run])) := by
  cases broken with
  | some fault => exact handsOut_fault rfl
  | none =>
    have hTold : handedOut source ((sayings none []).prepend [.text run]) =
        (textEvents run).map .ok := by
      simp [handedOut, sayings, Scan.prepend, normalForm_text, textEvents_eq]
    have hLength := length_textEvents_le run
    rw [hTold]
    cases hText : textEvents run with
    | nil =>
      have hNext : (before source none [] run).next = (none, (before source none [] run).stop) := by
        simp [before, next, refill, hText]
      exact .nil hNext rfl
    | cons event rest =>
      have hNext : (before source none [] run).next =
          (some (.ok event), (before source none [] run).stop) := by
        simp [before, next, refill, hText]
      rw [hText] at hLength
      obtain rfl : rest = [] := by simpa using hLength
      exact .cons hNext (.nil (next_stop _) (next_stop _))

/-- The invariant of a reader: what it is still going to hand out is told by the text it read and the
tokens it has left. -/
theorem handsOut_before (tokens : List PlacedToken) (run : String) :
    (before source broken tokens run).HandsOut
      (handedOut source ((sayings broken tokens).prepend [.text run])) := by
  induction tokens generalizing run with
  | nil => exact handsOut_end source broken run
  | cons t rest ih =>
    have hToken := tokenEvents_eq run t.token
    cases hSays : t.token.part with
    | error message =>
      have hTold : handedOut source ((sayings broken (t :: rest)).prepend [.text run]) =
          [.error ⟨message, .ofOffset source t.stop⟩] := by
        rw [sayings, hSays]
        rfl
      rw [hTold]
      refine handsOut_fault ?_
      simp [before, next, refill, hToken, hSays, Except.map, faultAt]
    | ok p =>
      have hSayings : sayings broken (t :: rest) = (sayings broken rest).prepend [p] := by
        rw [sayings, hSays]
      rw [hSayings, Scan.prepend_prepend, List.singleton_append]
      cases hTag : p.isTag with
      | false =>
        rw [handedOut_between run source _ hTag]
        refine .congr ?_ (ih (run ++ p.content))
        simp [before, next, refill, hToken, hSays, Except.map, hTag, stop, faultAt]
      | true =>
        have hRest := ih ""
        rw [handedOut_empty] at hRest
        rw [handedOut_tag run source _ hTag]
        obtain ⟨first, more, hEvents⟩ := List.exists_cons_of_ne_nil
          (List.append_ne_nil_of_right_ne_nil (textBetween run) (Part.events_ne_nil hTag))
        have hNext : (before source broken (t :: rest) run).next =
            (some (.ok first), { before source broken rest "" with queue := more }) := by
          simp [before, next, refill, hToken, hSays, Except.map, hTag, hEvents]
        rw [hEvents]
        exact .cons hNext (.queued hRest more)

end Reading

/-- Read to the end, tokens give what is handed out of what they say. -/
theorem drain_ofTokens (source : String) (tokens : Scan PlacedToken Token.Fault) :
    (ofTokens source tokens).drain.1 = handedOut source (sayings tokens.fault tokens.items) := by
  have h := handsOut_before source tokens.fault tokens.items ""
  rw [handedOut_empty] at h
  exact h.drain_eq

end Reader

/-! ### Whole documents -/

/-- Events have no fault among them. -/
theorem firstFault_map_ok (events : List Event) : firstFault (events.map .ok) = .ok events := by
  induction events with
  | nil => rfl
  | cons event rest ih =>
    rw [List.map_cons, firstFault, ih]
    rfl

/-- The fault behind events is the first one. -/
theorem firstFault_append_error (events : List Event) (fault : Fault)
    (later : List (Except Fault Event)) :
    firstFault (events.map .ok ++ .error fault :: later) = .error fault := by
  induction events with
  | nil => rfl
  | cons event rest ih =>
    rw [List.map_cons, List.cons_append, firstFault, ih]
    rfl

/-- Tokens with no fault behind them say something together if each of them says something. -/
theorem complete_sayings (tokens : List PlacedToken) :
    (sayings none tokens).complete.toOption =
      ((tokens.map PlacedToken.token).mapM Token.part).toOption := by
  induction tokens with
  | nil => rfl
  | cons t rest ih =>
    rw [sayings, List.map_cons, List.mapM_cons]
    cases t.token.part with
    | error message => rfl
    | ok p =>
      have hFirst : ((sayings none rest).prepend [p]).complete.toOption =
          (sayings none rest).complete.toOption.map (p :: ·) := by
        obtain ⟨items, fault⟩ := sayings none rest
        cases fault <;> rfl
      rw [hFirst, ih]
      cases (rest.map PlacedToken.token).mapM Token.part <;> rfl

/-- A document whose tokens are all there is read if each of them says something. -/
theorem readAll_of_scan {source : String} {tokens : List PlacedToken}
    (h : Token.scan source = ⟨tokens, none⟩) :
    (readAll source).toOption =
      ((tokens.map PlacedToken.token).mapM Token.part).toOption.map normalForm := by
  rw [readAll, Reader.ofSource, Reader.drain_ofTokens, h, ← complete_sayings]
  obtain ⟨items, fault⟩ := sayings none tokens
  cases fault with
  | none =>
    simp only [handedOut, firstFault_map_ok]
    rfl
  | some fault =>
    simp only [handedOut, firstFault_append_error]
    rfl

/-- A reader hands out the normal form of its tokens, one event each time it is asked, and then
nothing any more. If there is a fault, the events up to the last tag before it come first, then the
fault once, and then nothing any more. In normal form, the parts of a document are divided at its
tags and nowhere else, texts are trimmed, not empty and apart from each other, a self-closing tag is
a start tag and an end tag, and what says nothing leaves no mark. -/
theorem Reader.hands_out_normal_form (source : String) (tokens : Scan PlacedToken Token.Fault) :
    (Reader.ofTokens source tokens).HandsOut
        (handedOut source (sayings tokens.fault tokens.items)) ∧
      (∀ parts, (divide parts).parts = parts) ∧
      (∀ parts, IsNormal (normalForm parts)) ∧
      (∀ first later name attributes,
        normalForm (first ++ .selfClosing name attributes :: later) =
          normalForm (first ++ .opening name attributes :: .closing :: later)) ∧
      ∀ first later, normalForm (first ++ .silence :: later) = normalForm (first ++ later) := by
  refine ⟨?_, parts_divide, IsNormal.normalForm, normalForm_selfClosing, normalForm_silence⟩
  rw [← handedOut_empty]
  exact handsOut_before source tokens.fault tokens.items ""

end Markup

end ObjectMarkup
