import ObjectMarkup.Markup.Event
import ObjectMarkup.Markup.Token

/-!
# Reading events

A reader turns tokens into events, one at a time. Text, character data and references run together
into one text until a tag or the end of the document; that text is trimmed, and it is no event if
nothing is left of it. Tokens that carry nothing leave the run unbroken.

The first fault ends the stream: it is handed out once, and whatever text or events were waiting are
dropped. After a fault or the end nothing follows.
-/

set_option autoImplicit false

namespace ObjectMarkup

namespace Markup

/-- A document being read. -/
structure Reader where
  /-- The whole document, for the places of faults. -/
  source : String
  /-- The tokens not yet looked at. -/
  tokens : List PlacedToken
  /-- The fault behind the last token, if the division into tokens broke off. -/
  broken : Option Token.Fault
  /-- Events that wait to be handed out. -/
  queue : List Event
  /-- The text read since the last tag. -/
  text : String
  finished : Bool

namespace Reader

/-- A reader at the start of the document with these tokens. -/
def ofTokens (source : String) (tokens : Scan PlacedToken Token.Fault) : Reader :=
  ⟨source, tokens.items, tokens.fault, [], "", false⟩

/-- A reader in front of the tokens of a source. -/
def ofSource (source : String) : Reader :=
  ofTokens source (Token.scan source)

/-- The text event of a run, if something is left of it. -/
def textEvents (run : String) : List Event :=
  let trimmed := trimText run
  if trimmed.isEmpty then [] else [.text trimmed]

/-- Replaces the references in the attributes of a tag, one after the other. -/
def attributeEvents : List Attribute.Raw → Except String (List Event)
  | [] => .ok []
  | a :: rest => do
    let value ← (Reference.replaceInValue a.value).mapError Reference.ValueFault.message
    let events ← attributeEvents rest
    return .attribute a.name value :: events

/-- The events of a start tag. What is wrong with an attribute is found in the order of the tag, the
shape of an attribute before its references. -/
def tagEvents (t : Tag) : Except String (List Event) := do
  let attributes := t.attributes
  let events ← attributeEvents attributes.items
  match attributes.fault with
  | some fault => .error fault.message
  | none => return .start t.name :: events

/-- What one token adds: the events to hand out, and the run of text after it. -/
def tokenEvents (run : String) : Token → Except String (List Event × String)
  | .opening t => do
    let events ← tagEvents t
    return (textEvents run ++ events, "")
  | .selfClosing t => do
    let events ← tagEvents t
    return (textEvents run ++ events ++ [.finish], "")
  | .closing => .ok (textEvents run ++ [.finish], "")
  | .text content => .ok ([], run ++ content)
  | .cdata content => .ok ([], run ++ content)
  | .reference body =>
    match Reference.inText body with
    | .ok c => .ok ([], run.push c)
    | .error fault => .error fault.message
  | .other => .ok ([], run)

/-- What happens when events are needed and `tokens` are left: tokens are read until one of them
gives events, or none is left. -/
inductive Refill where
  /-- These events wait now, these tokens are left, and the run of text is empty. -/
  | events (first : Event) (more : List Event) (tokens : List PlacedToken)
  /-- A token is wrong. -/
  | fault (message : String) (stop : Nat)
  /-- No token is left after this run of text. -/
  | ended (run : String)

/-- Reads tokens until one of them gives events. -/
def refill (run : String) : List PlacedToken → Refill
  | [] => .ended run
  | t :: rest =>
    match tokenEvents run t.token with
    | .error message => .fault message t.stop
    | .ok (first :: more, _) => .events first more rest
    | .ok ([], run') => refill run' rest

/-- A reader that hands out nothing any more. -/
def stop (r : Reader) : Reader :=
  { r with tokens := [], broken := none, queue := [], text := "", finished := true }

/-- The fault at byte `offset` of the document. -/
def faultAt (r : Reader) (message : String) (offset : Nat) : Fault :=
  ⟨message, .ofOffset r.source offset⟩

/-- Hands out the next event, or the fault that ends the stream. -/
def next (r : Reader) : Option (Except Fault Event) × Reader :=
  match r.queue with
  | event :: rest => (some (.ok event), { r with queue := rest })
  | [] =>
    if r.finished then (none, r)
    else
      match refill r.text r.tokens with
      | .events first more tokens =>
        (some (.ok first), { r with tokens, queue := more, text := "" })
      | .fault message offset => (some (.error (r.faultAt message offset)), r.stop)
      | .ended run =>
        match r.broken with
        | some fault => (some (.error (r.faultAt fault.cause.message fault.offset)), r.stop)
        | none =>
          match textEvents run with
          | [] => (none, r.stop)
          | event :: _ => (some (.ok event), r.stop)

/-! ### Reading to the end -/

/-- A run gives at most one event. -/
theorem length_textEvents_le (run : String) : (textEvents run).length ≤ 1 := by
  unfold textEvents
  dsimp only
  split <;> simp

/-- Every attribute gives one event. -/
theorem length_attributeEvents {attributes : List Attribute.Raw} {events : List Event}
    (h : attributeEvents attributes = .ok events) : events.length = attributes.length := by
  induction attributes generalizing events with
  | nil => cases h; rfl
  | cons a rest ih =>
    rw [attributeEvents] at h
    cases hv : (Reference.replaceInValue a.value).mapError Reference.ValueFault.message with
    | error e => rw [hv] at h; cases h
    | ok value =>
      cases hr : attributeEvents rest with
      | error e => rw [hv, hr] at h; cases h
      | ok tail =>
        rw [hv, hr] at h
        cases h
        simp [ih hr]

/-- A tag gives one event for its start and one for every attribute. -/
theorem length_tagEvents {t : Tag} {events : List Event} (h : tagEvents t = .ok events) :
    events.length = t.attributes.items.length + 1 := by
  rw [tagEvents] at h
  cases he : attributeEvents t.attributes.items with
  | error e => rw [he] at h; cases h
  | ok tail =>
    rw [he] at h
    cases hf : t.attributes.fault with
    | some fault => simp [hf, bind, Except.bind] at h
    | none =>
      simp [hf, bind, Except.bind, pure, Except.pure] at h
      rw [← h]
      simp [length_attributeEvents he]

/-- More than the number of events that a token can give. -/
def weight : Token → Nat
  | .opening t => t.attributes.items.length + 4
  | .selfClosing t => t.attributes.items.length + 4
  | _ => 3

/-- A token gives fewer events than it weighs. -/
theorem length_tokenEvents_lt {run : String} {t : Token} {result : List Event × String}
    (h : tokenEvents run t = .ok result) : result.1.length < weight t := by
  have hrun := length_textEvents_le run
  cases t with
  | opening t =>
    rw [tokenEvents] at h
    cases he : tagEvents t with
    | error e =>
      rw [he] at h
      exact absurd h (by simp [bind, Except.bind])
    | ok events =>
      rw [he] at h
      change Except.ok _ = Except.ok result at h
      rw [Except.ok.injEq] at h
      subst h
      have := length_tagEvents he
      simp [weight]
      omega
  | selfClosing t =>
    rw [tokenEvents] at h
    cases he : tagEvents t with
    | error e =>
      rw [he] at h
      exact absurd h (by simp [bind, Except.bind])
    | ok events =>
      rw [he] at h
      change Except.ok _ = Except.ok result at h
      rw [Except.ok.injEq] at h
      subst h
      have := length_tagEvents he
      simp [weight]
      omega
  | closing =>
    rw [tokenEvents, Except.ok.injEq] at h
    subst h
    simp [weight]
    omega
  | text content =>
    rw [tokenEvents, Except.ok.injEq] at h
    subst h
    simp [weight]
  | cdata content =>
    rw [tokenEvents, Except.ok.injEq] at h
    subst h
    simp [weight]
  | reference body =>
    rw [tokenEvents] at h
    split at h
    · rw [Except.ok.injEq] at h
      subst h
      simp [weight]
    · exact absurd h (by simp)
  | other =>
    rw [tokenEvents, Except.ok.injEq] at h
    subst h
    simp [weight]

/-- More than the number of events that tokens can give. -/
def totalWeight : List PlacedToken → Nat
  | [] => 0
  | t :: rest => weight t.token + totalWeight rest

/-- The events that a refill gives weigh less than the tokens it takes. -/
theorem length_refill_lt {run : String} {tokens rest : List PlacedToken} {first : Event}
    {more : List Event} (h : refill run tokens = .events first more rest) :
    more.length + 1 + totalWeight rest < totalWeight tokens := by
  induction tokens generalizing run with
  | nil => cases h
  | cons t tail ih =>
    rw [refill] at h
    rw [totalWeight]
    split at h
    · cases h
    · next hok =>
      cases h
      have := length_tokenEvents_lt hok
      simp at this
      omega
    · next hok =>
      have := ih h
      omega

/-- A bound on how often a reader can still be asked with success. -/
def unread (r : Reader) : Nat :=
  r.queue.length + totalWeight r.tokens + if r.finished then 0 else 2

/-- A reader that gives something has less left to read. -/
theorem unread_next_lt {r : Reader} {item : Except Fault Event} {r' : Reader}
    (h : r.next = (some item, r')) : r'.unread < r.unread := by
  unfold next at h
  split at h
  · next event rest hq =>
    cases h
    simp [unread, hq]
  · next hq =>
    split at h
    · cases h
    · next hf =>
      split at h
      · next hr =>
        cases h
        have := length_refill_lt hr
        simp [unread, hq, hf]
        omega
      · cases h
        simp [unread, stop, hq, hf, totalWeight]
      · split at h
        · cases h
          simp [unread, stop, hq, hf, totalWeight]
        · split at h
          · cases h
          · cases h
            simp [unread, stop, hq, hf, totalWeight]

/-- Everything that a reader hands out until it has no more, in order, and the reader after that. -/
def drain (r : Reader) : List (Except Fault Event) × Reader :=
  match _h : r.next with
  | (none, r') => ([], r')
  | (some item, r') =>
    let (items, last) := r'.drain
    (item :: items, last)
termination_by r.unread
decreasing_by exact unread_next_lt _h

end Reader

/-- All items of a sequence, or the first fault among them. -/
def firstFault : List (Except Fault Event) → Except Fault (List Event)
  | [] => .ok []
  | item :: rest => do
    let event ← item
    let events ← firstFault rest
    return event :: events

/-- The events of a whole document, or its first fault. -/
def readAll (source : String) : Except Fault (List Event) :=
  firstFault (Reader.ofSource source).drain.1

end Markup

end ObjectMarkup
