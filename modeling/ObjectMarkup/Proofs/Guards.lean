import ObjectMarkup.Proofs.Nesting
import ObjectMarkup.Proofs.Reading
import ObjectMarkup.Proofs.Release

/-!
# Documents that are read meet no guard

The division of a document into tokens lets no end tag pass that ends nothing, and a tag hands out
its attributes right after its start. So the events of a document that is read are in order
(`Markup.InOrder`), whatever the document is: at no place there are more ends than starts, and each
attribute follows a start or an attribute. The machine keeps open what the starts exceed the ends by,
and its guards against other streams never come up (`Compiler.meets_no_guard`).
-/

set_option autoImplicit false

namespace ObjectMarkup

open Operation

namespace Markup

/-! ### Depth -/

/-- How many tags are open after an event, unless it ends one when none is open. -/
def Event.depth (n : Nat) : Event → Option Nat
  | .start _ => some (n + 1)
  | .finish => if n = 0 then none else some (n - 1)
  | _ => some n

/-- How many tags are open after some events, unless one of them ends a tag when none is open. -/
def depthAfter (n : Nat) (events : List Event) : Option Nat :=
  events.foldlM Event.depth n

/-- How many tags are open after what a token says. -/
def Part.depth (n : Nat) (p : Part) : Option Nat := depthAfter n p.events

/-- How many tags are open after a token. -/
def Token.depth (n : Nat) : Token → Option Nat
  | .opening _ => some (n + 1)
  | .closing => if n = 0 then none else some (n - 1)
  | _ => some n

/-- Each end tag of these tokens ends an element that a tag before it opened. -/
def Token.EndsMatch (tokens : List PlacedToken) : Prop :=
  ∃ n, tokens.foldlM (fun n t => t.token.depth n) 0 = some n

/-- What can be counted through can be counted through up to any place. -/
theorem foldlM_prefix {α : Type} {f : Nat → α → Option Nat} {xs ys : List α} {n m : Nat}
    (h : xs <+: ys) (hRun : ys.foldlM f n = some m) : ∃ k, xs.foldlM f n = some k := by
  obtain ⟨rest, rfl⟩ := h
  rw [List.foldlM_append] at hRun
  obtain ⟨k, hFirst, -⟩ := Option.bind_eq_some_iff.1 hRun
  exact ⟨k, hFirst⟩

/-- The depth after events that follow each other is that of the later ones, from where the first
ones lead. -/
theorem depthAfter_append (n : Nat) (events later : List Event) :
    depthAfter n (events ++ later) = (depthAfter n events).bind fun m => depthAfter m later :=
  List.foldlM_append

/-- Where the depth is defined at the end, it is at each place before. -/
theorem depthAfter_prefix {events later : List Event} {n m : Nat} (h : events <+: later)
    (hDepth : depthAfter n later = some m) : ∃ k, depthAfter n events = some k :=
  foldlM_prefix h hDepth

/-- Events that are neither starts nor ends leave open what is open. -/
theorem depthAfter_flat {events : List Event}
    (h : ∀ event ∈ events, event.isStart = false ∧ event.isFinish = false) (n : Nat) :
    depthAfter n events = some n := by
  induction events with
  | nil => rfl
  | cons event rest ih =>
    have hFirst : event.depth n = some n := by
      have hFlat := h event List.mem_cons_self
      cases event with
      | start name => cases hFlat.1
      | finish => cases hFlat.2
      | «attribute» name value => rfl
      | text content => rfl
    rw [depthAfter, List.foldlM_cons, hFirst]
    exact ih fun event hMem => h event (List.mem_cons_of_mem _ hMem)

/-- What is open is what the starts exceed the ends by. -/
theorem starts_of_depthAfter {events : List Event} {n m : Nat} (h : depthAfter n events = some m) :
    n + starts events = m + finishes events := by
  induction events generalizing n with
  | nil =>
    cases h
    rfl
  | cons event rest ih =>
    rw [depthAfter, List.foldlM_cons] at h
    obtain ⟨k, hFirst, hRest⟩ := Option.bind_eq_some_iff.1 h
    have hSame := ih hRest
    rw [starts_cons, finishes_cons]
    cases event with
    | start name =>
      cases hFirst
      simp only [Event.isStart, Event.isFinish, if_true, Bool.false_eq_true, if_false]
      omega
    | finish =>
      have hOpen : (if n = 0 then none else some (n - 1)) = some k := hFirst
      split at hOpen
      · cases hOpen
      · cases hOpen
        simp only [Event.isStart, Event.isFinish, if_true, Bool.false_eq_true, if_false]
        omega
    | «attribute» name value =>
      cases hFirst
      simpa [Event.isStart, Event.isFinish] using hSame
    | text content =>
      cases hFirst
      simpa [Event.isStart, Event.isFinish] using hSame

/-- A text leaves open what is open. -/
theorem depthAfter_textBetween (n : Nat) (text : String) :
    depthAfter n (textBetween text) = some n := by
  refine depthAfter_flat (fun event hMem => ?_) n
  rw [(mem_textBetween hMem).1]
  exact ⟨rfl, rfl⟩

/-- What stands between tags leaves open what is open. -/
theorem Part.depth_between {p : Part} (h : p.isTag = false) (n : Nat) : p.depth n = some n := by
  cases p with
  | text content => rfl
  | silence => rfl
  | opening name attributes => cases h
  | selfClosing name attributes => cases h
  | closing => cases h

/-- The normal form opens and ends what its parts do, whatever text is already read. -/
theorem depthAfter_afterText (n : Nat) (run : String) (parts : List Part) :
    depthAfter n (normalForm (.text run :: parts)) = parts.foldlM (fun n p => p.depth n) n := by
  induction parts generalizing n run with
  | nil =>
    rw [normalForm_text, depthAfter_textBetween]
    rfl
  | cons p rest ih =>
    rw [List.foldlM_cons]
    cases hTag : p.isTag with
    | false =>
      rw [normalForm_text_between run rest hTag, Part.depth_between hTag, ih]
      rfl
    | true =>
      have hRest m := ih m ""
      rw [normalForm_empty] at hRest
      rw [normalForm_text_tag run rest hTag, depthAfter_append, depthAfter_textBetween]
      show depthAfter n (p.events ++ normalForm rest) = _
      rw [depthAfter_append]
      exact congrArg (Option.bind _) (funext hRest)

/-- The normal form opens and ends what its parts do. -/
theorem depthAfter_normalForm (n : Nat) (parts : List Part) :
    depthAfter n (normalForm parts) = parts.foldlM (fun n p => p.depth n) n := by
  rw [← normalForm_empty]
  exact depthAfter_afterText n "" parts

/-! ### Depth of tokens -/

/-- Attributes leave open what is open. -/
theorem depthAfter_attributes (n : Nat) (attributes : List (String × String)) :
    depthAfter n (attributes.map attributeEvent) = some n :=
  depthAfter_flat (Node.flat_attributes attributes) n

/-- A part is as deep as the token that says it. -/
theorem Token.depth_of_part {t : Token} {p : Part} (h : t.part = .ok p) (n : Nat) :
    p.depth n = t.depth n := by
  cases t with
  | opening t =>
    obtain ⟨attributes, -, rfl⟩ := except_map_eq_ok_iff.1 h
    exact depthAfter_attributes (n + 1) attributes
  | selfClosing t =>
    obtain ⟨attributes, -, rfl⟩ := except_map_eq_ok_iff.1 h
    show depthAfter (n + 1) (attributes.map attributeEvent ++ [.finish]) = some n
    rw [depthAfter_append, depthAfter_attributes]
    rfl
  | closing =>
    cases h
    cases n <;> rfl
  | text content =>
    cases h
    rfl
  | cdata content =>
    cases h
    rfl
  | reference body =>
    rw [part] at h
    split at h
    · cases h
      rfl
    · cases h
  | other =>
    cases h
    rfl

/-- Parts are as deep as the tokens that say them. -/
theorem depth_sayings (broken : Option Token.Fault) {tokens : List PlacedToken} {n m : Nat}
    (h : tokens.foldlM (fun n t => t.token.depth n) n = some m) :
    ∃ k, (sayings broken tokens).items.foldlM (fun n p => p.depth n) n = some k := by
  induction tokens generalizing n with
  | nil => exact ⟨n, rfl⟩
  | cons t rest ih =>
    rw [List.foldlM_cons] at h
    obtain ⟨k, hFirst, hRest⟩ := Option.bind_eq_some_iff.1 h
    obtain ⟨k', hItems⟩ := ih hRest
    rw [sayings]
    cases hSays : t.token.part with
    | error message => exact ⟨n, rfl⟩
    | ok p =>
      refine ⟨k', ?_⟩
      rw [← Token.depth_of_part hSays] at hFirst
      show (p :: (sayings broken rest).items).foldlM (fun n p => p.depth n) n = some k'
      rw [List.foldlM_cons, hFirst]
      exact hItems

namespace Token

/-! ### Depth of a scan -/

/-- How deep a step of a scan leads: as deep as the elements are that are open after it. -/
def KeepsDepth (names : List String) : Step → Prop
  | .ok (items, s') =>
    items.foldlM (fun n t => t.token.depth n) names.length = some s'.names.length
  | .error _ => True

/-- Text leaves open what is open. -/
theorem depth_textToken (taken : List Char) (stop n : Nat) :
    (textToken taken stop).foldlM (fun n t => t.token.depth n) n = some n := by
  unfold textToken
  split <;> rfl

/-- The end of a tag opens or ends what the tag does, if its name matches. -/
theorem keepsDepth_tagEnd (names : List String) (start stop : Nat) (content : List Char) :
    KeepsDepth names (tagEnd names start stop content) := by
  unfold tagEnd
  split
  · cases names with
    | nil => trivial
    | cons expected outer =>
      dsimp only
      split
      · rfl
      · trivial
  · split
    · rfl
    · rfl

/-- A step without tokens leaves open what is open. -/
theorem KeepsDepth.silent (names : List String) (mode : Mode) :
    KeepsDepth names (.ok ([], ⟨mode, names⟩)) := rfl

/-- A step with a token that is no tag leaves open what is open. -/
theorem KeepsDepth.ended {names : List String} {token : Token} (stop : Nat) (mode : Mode)
    (h : ∀ n, token.depth n = some n) :
    KeepsDepth names (.ok ([⟨token, stop⟩], ⟨mode, names⟩)) := by
  show (token.depth names.length).bind some = some names.length
  rw [h]
  rfl

/-- A character in a tag may end it. -/
theorem keepsDepth_tagStep (names : List String) (start : Nat) (taken : List Char)
    (quote : Option Char) (offset : Nat) (c : Char) :
    KeepsDepth names (tagStep names start taken quote offset c) := by
  unfold tagStep
  split
  · exact keepsDepth_tagEnd _ _ _ _
  · exact .silent _ _

/-- The end of a declaration leaves open what is open. -/
theorem keepsDepth_doctypeEnd (names : List String) (start offset : Nat) (content : List Char) :
    KeepsDepth names (doctypeEnd names start offset content) := by
  unfold doctypeEnd
  split
  · trivial
  · split
    · trivial
    · exact .ended _ _ fun _ => rfl

/-- Each step opens and ends what its tokens do. -/
theorem keepsDepth_step (s : State) (offset : Nat) (c : Char) :
    KeepsDepth s.names (step s offset c) := by
  obtain ⟨mode, names⟩ := s
  cases mode with
  | text taken =>
    show KeepsDepth names (if c = '<' then _ else _)
    split
    · exact depth_textToken _ _ _
    · split
      · exact depth_textToken _ _ _
      · exact .silent _ _
  | reference start taken =>
    show KeepsDepth names (if c = ';' then _ else _)
    split
    · exact .ended _ _ fun _ => rfl
    · split
      · trivial
      · exact .silent _ _
  | opened start =>
    show KeepsDepth names (if c = '!' then _ else _)
    split
    · exact .silent _ _
    · split
      · exact .silent _ _
      · exact keepsDepth_tagStep _ _ _ _ _ _
  | tag start taken quote => exact keepsDepth_tagStep _ _ _ _ _ _
  | declared start =>
    show KeepsDepth names (if c = '[' then _ else _)
    split
    · exact .silent _ _
    · split
      · exact .silent _ _
      · split
        · exact .silent _ _
        · trivial
  | comment start taken =>
    show KeepsDepth names (if c = '>' && closes 5 '-' taken then _ else _)
    split
    · split
      · exact .ended _ _ fun _ => rfl
      · trivial
    · exact .silent _ _
  | cdata start taken =>
    show KeepsDepth names (if c = '>' && closes 2 ']' taken then _ else _)
    split
    · split
      · exact .ended _ _ fun _ => rfl
      · trivial
    · exact .silent _ _
  | doctype start taken inside =>
    show KeepsDepth names (if c = '>' && inside.canEnd then _ else _)
    split
    · exact keepsDepth_doctypeEnd _ _ _ _
    · exact .silent _ _
  | instruction start taken =>
    show KeepsDepth names (if c = '>' && taken.head? = some '?' then _ else _)
    split
    · split
      · trivial
      · exact .ended _ _ fun _ => rfl
    · exact .silent _ _

/-- The tokens at the end of a source leave open what is open. -/
theorem depth_finish {s : State} {offset : Nat} {items : List PlacedToken}
    (h : finish s offset = .ok items) (n : Nat) :
    items.foldlM (fun n t => t.token.depth n) n = some n := by
  obtain ⟨mode, names⟩ := s
  cases mode with
  | text taken =>
    cases h
    exact depth_textToken _ _ _
  | tag start taken quote => cases quote <;> cases h
  | instruction start taken =>
    unfold finish at h
    dsimp only at h
    split at h <;> cases h
  | _ => cases h

/-- The tokens of a scan never end more than is open. -/
theorem depth_run (s : State) (offset : Nat) (text : List Char) :
    ∃ n, (scanner.run s offset text).items.foldlM (fun n t => t.token.depth n) s.names.length =
      some n := by
  induction text generalizing s offset with
  | nil =>
    rw [Scanner.run]
    cases hFinish : scanner.finish s offset with
    | error fault => exact ⟨s.names.length, rfl⟩
    | ok items => exact ⟨s.names.length, depth_finish hFinish _⟩
  | cons c rest ih =>
    rw [Scanner.run]
    have hKeeps := keepsDepth_step s offset c
    cases hStep : step s offset c with
    | error fault =>
      have hScanner : scanner.step s offset c = .error fault := hStep
      rw [hScanner]
      exact ⟨s.names.length, rfl⟩
    | ok next =>
      obtain ⟨items, s'⟩ := next
      have hScanner : scanner.step s offset c = .ok (items, s') := hStep
      rw [hStep] at hKeeps
      obtain ⟨n, hRest⟩ := ih s' (offset + c.utf8Size)
      refine ⟨n, ?_⟩
      rw [hScanner]
      show (items ++ (scanner.run s' (offset + c.utf8Size) rest).items).foldlM
        (fun n t => t.token.depth n) s.names.length = some n
      rw [List.foldlM_append]
      exact (congrArg (Option.bind · _) hKeeps).trans hRest

/-- No end tag of the scan ends an element that no tag before it opened. -/
theorem endsMatch_scan (source : String) : EndsMatch (scan source).items :=
  depth_run ⟨.text [], []⟩ 0 _

end Token

/-! ### Events in order -/

/-- The events that a reader hands out before a fault. -/
def Reader.events (r : Reader) : List Event :=
  r.drain.1.filterMap Except.toOption

/-- The events of a document that is read, up to its first fault. -/
def eventsOf (source : String) : List Event :=
  (Reader.ofSource source).events

/-- At no place there are more ends than starts, each attribute follows a start or an attribute, and
texts are trimmed and not empty. Tags may be open in the end. -/
structure InOrder (events : List Event) : Prop where
  prefixes : ∀ k, finishes (events.take k) ≤ starts (events.take k)
  attributes : ∀ before name value after, events = before ++ .attribute name value :: after →
    ∃ event, before.getLast? = some event ∧ (event.isStart = true ∨ event.isAttribute = true)
  texts : ∀ content, .text content ∈ events → content ≠ "" ∧ trimText content = content

/-- The parts up to the last tag are the first ones. -/
theorem upToLastTag_prefix (parts : List Part) : upToLastTag parts <+: parts := by
  induction parts with
  | nil => exact List.nil_prefix
  | cons p rest ih =>
    rw [upToLastTag]
    split
    · exact (List.prefix_cons_inj p).2 ih
    · exact List.nil_prefix

/-- The events of tokens are the normal form of what the tokens say, up to some place. -/
theorem Reader.exists_events_eq (source : String) (tokens : Scan PlacedToken Token.Fault) :
    ∃ parts, parts <+: (sayings tokens.fault tokens.items).items ∧
      (ofTokens source tokens).events = normalForm parts := by
  rw [events, drain_ofTokens]
  obtain ⟨items, fault⟩ := sayings tokens.fault tokens.items
  cases fault with
  | none => exact ⟨items, List.prefix_refl _, filterMap_map_ok _⟩
  | some fault =>
    refine ⟨upToLastTag items, upToLastTag_prefix items, ?_⟩
    rw [handedOut, List.filterMap_append, filterMap_map_ok]
    exact List.append_nil _

/-- The first event of a tag is no attribute. -/
theorem head?_partEvents {p : Part} {event : Event} (h : event ∈ p.events.head?) :
    event.isAttribute = false := by
  cases p <;> cases h <;> rfl

/-- The attributes of a tag follow its start. -/
theorem chain_partEvents (p : Part) : p.events.IsChain Event.Precedes := by
  cases p with
  | opening name attributes => exact Node.chain_tag name attributes
  | selfClosing name attributes =>
    exact Node.chain_append (Node.chain_tag name attributes) (List.isChain_singleton _)
      (by simp [Event.isAttribute])
  | closing => exact List.isChain_singleton _
  | text content => exact .nil
  | silence => exact .nil

/-- The event of a text is no attribute. -/
theorem chain_textBetween (text : String) : (textBetween text).IsChain Event.Precedes := by
  refine (List.pairwise_of_forall_mem_list fun x _ y hy hAttribute => ?_).isChain
  rw [(mem_textBetween hy).1] at hAttribute
  cases hAttribute

/-- The attributes follow their tags, whatever text is already read. -/
theorem chain_afterText (run : String) (parts : List Part) :
    (normalForm (.text run :: parts)).IsChain Event.Precedes ∧
      ∀ event ∈ (normalForm (.text run :: parts)).head?, event.isAttribute = false := by
  have hText {run : String} {event : Event} (h : event ∈ (textBetween run).head?) :
      event.isAttribute = false := by
    rw [(mem_textBetween (List.mem_of_head? h)).1]
    rfl
  induction parts generalizing run with
  | nil =>
    rw [normalForm_text]
    exact ⟨chain_textBetween run, fun event => hText⟩
  | cons p rest ih =>
    cases hTag : p.isTag with
    | false =>
      rw [normalForm_text_between run rest hTag]
      exact ih _
    | true =>
      rw [normalForm_text_tag run rest hTag]
      have hHead : ∀ event ∈ (p.events ++ normalForm rest).head?, event.isAttribute = false := by
        intro event h
        rw [List.head?_append_of_ne_nil _ (Part.events_ne_nil hTag)] at h
        exact head?_partEvents h
      have hRest := ih ""
      rw [normalForm_empty] at hRest
      obtain ⟨hChain, hFirst⟩ := hRest
      refine ⟨Node.chain_append (chain_textBetween run)
        (Node.chain_append (chain_partEvents p) hChain hFirst) hHead, fun event h => ?_⟩
      rw [List.head?_append] at h
      rcases Option.or_eq_some_iff.1 h with h | ⟨-, h⟩
      · exact hText h
      · exact hHead event h

/-- The attributes of a normal form follow their tags, and no attribute stands first. -/
theorem chain_normalForm (parts : List Part) :
    (normalForm parts).IsChain Event.Precedes ∧
      ∀ event ∈ (normalForm parts).head?, event.isAttribute = false := by
  rw [← normalForm_empty]
  exact chain_afterText "" parts

/-- Whoever divides a document into tokens, the events are in order if the end tags match. -/
theorem Reader.inOrder_events (source : String) {tokens : Scan PlacedToken Token.Fault}
    (h : Token.EndsMatch tokens.items) : InOrder (ofTokens source tokens).events := by
  obtain ⟨parts, hPrefix, hEvents⟩ := exists_events_eq source tokens
  obtain ⟨n, hMatch⟩ := h
  obtain ⟨m, hParts⟩ := depth_sayings tokens.fault hMatch
  obtain ⟨k, hDepth⟩ := foldlM_prefix hPrefix hParts
  rw [← depthAfter_normalForm 0 parts] at hDepth
  obtain ⟨hChain, hFirst⟩ := chain_normalForm parts
  rw [hEvents]
  constructor
  · intro i
    obtain ⟨j, hTaken⟩ := depthAfter_prefix (List.take_prefix i (normalForm parts)) hDepth
    have hCount := starts_of_depthAfter hTaken
    omega
  · intro before name value after hSplit
    rw [hSplit] at hChain hFirst
    cases hLast : before.getLast? with
    | none =>
      rw [List.getLast?_eq_none_iff.1 hLast] at hFirst
      have hNone := hFirst _ rfl
      cases hNone
    | some event => exact ⟨event, rfl, (List.isChain_append.1 hChain).2.2 event hLast _ rfl rfl⟩
  · exact (IsNormal.normalForm parts).trimmed

/-- Whatever a document is, its events are in order. -/
theorem inOrder_eventsOf (source : String) : InOrder (eventsOf source) :=
  Reader.inOrder_events source (Token.endsMatch_scan source)

end Markup

/-! ### Guards -/

variable {H : Host} [Hooks H]

/-- No guard gives the failure, unless an extension of the host itself gives it. -/
def Vocabulary.Unguarded (vocabulary : Vocabulary H) (failure : Failure) : Prop :=
  ∀ fault : StructureFault, fault.isGuard = true → failure = .structural fault →
    vocabulary.Raises failure

/-- The failures that no guard gives are admitted. -/
theorem Vocabulary.admits_unguarded (vocabulary : Vocabulary H) :
    vocabulary.Admits vocabulary.Unguarded where
  ordinary := by
    rintro failure hOrdinary fault hGuard rfl
    have hNone : fault.isGuard = false := hOrdinary
    rw [hGuard] at hNone
    cases hNone
  evaluated around target text failure hDefer hError := by
    rintro fault - rfl
    rcases evaluate_eq_error hDefer hError with hFault | hRaises
    · rcases hFault with hKind | hKind <;> cases hKind
    · exact hRaises
  waited := by
    rintro around target text required - - - fault - hWaits
    cases hWaits

namespace Construct

variable {setting : Setting H}

/-- After a start or an attribute, a start tag is pending. -/
theorem tag_of_feed {event : Markup.Event} {s s' : Construction H}
    (hEvent : event.isStart = true ∨ event.isAttribute = true)
    (hFeed : feed setting event s = .ok () s') : s'.tag ≠ none := by
  cases event with
  | start name =>
    obtain ⟨_, s₁, -, hStart⟩ := bind_eq_ok.1 hFeed
    cases hStart
    nofun
  | «attribute» name value =>
    obtain ⟨a, stack, tag, root⟩ := s
    cases tag with
    | none => cases hFeed
    | some t =>
      cases hFeed
      nofun
  | text content => rcases hEvent with h | h <;> cases h
  | finish => rcases hEvent with h | h <;> cases h

/-- No event trips a guard where the events before it and the event are in order. -/
theorem not_trips {before later : List Markup.Event} {event : Markup.Event}
    (hOrder : Markup.InOrder (before ++ event :: later)) {defaults : List String}
    {s : Construction H} (hFed : feedEvents setting before (.ofDefaults defaults) = .ok () s)
    (failure : Failure) : ¬Trips setting event s failure := by
  intro hTrips
  cases event with
  | «attribute» name value =>
    obtain ⟨previous, hLast, hEvent⟩ := hOrder.attributes before name value later rfl
    obtain ⟨first, rfl⟩ := List.getLast?_eq_some_iff.1 hLast
    rw [← outcome_eq_ok, outcome_feedEvents_append] at hFed
    obtain ⟨⟨_, s₁⟩, -, hPrevious⟩ := except_bind_eq_ok_iff.1 hFed
    obtain ⟨_, s₂, hFeed, hRest⟩ := bind_eq_ok.1 (outcome_eq_ok.1 hPrevious)
    cases hRest
    exact tag_of_feed hEvent hFeed hTrips.1
  | finish =>
    obtain ⟨-, s₁, hComplete, hStack⟩ := hTrips
    obtain ⟨o, ds, hTraced⟩ := traced_of_feedEvents hFed
    obtain ⟨o₁, new, scope, hTag, hTraced₁, -⟩ := hTraced.completeTag (outcome_eq_ok.2 hComplete)
    have hOpen := hTraced₁.starts_events
    have hNone : s₁.tag = none := hTraced₁.tag.trans hTag
    have hPrefix := hOrder.prefixes (before.length + 1)
    have hTake : (before ++ .finish :: later).take (before.length + 1) = before ++ [.finish] := by
      rw [List.take_append, List.take_of_length_le (Nat.le_succ _)]
      simp
    rw [hTake, Markup.starts_append, Markup.finishes_append] at hPrefix
    have hStart : Markup.starts [.finish] = 0 := rfl
    have hFinish : Markup.finishes [.finish] = 1 := rfl
    simp only [hStack, hNone, Construction.openProperties, List.length_nil, List.countP_nil,
      Option.isSome_none, Bool.false_eq_true, if_false] at hOpen
    omega
  | start name => exact hTrips
  | text content => exact hTrips

end Construct

/-- A document that is read meets no guard of the machine, whatever the document and the vocabulary
are. Its events are in order, none of them trips a guard when the machine has taken those before it,
and the compilation does not fail as the guards do, unless an extension of the host itself says so. -/
theorem Compiler.meets_no_guard (c : Compiler H) (dataContext : Option Value) (source : String) :
    Markup.InOrder (Markup.eventsOf source) ∧
      (∀ before event later s, Markup.eventsOf source = before ++ event :: later →
        Construct.feedEvents (c.setting dataContext) before (.ofDefaults c.settings.defaults) =
          .ok () s →
        ∀ failure, ¬Construct.Trips (c.setting dataContext) event s failure) ∧
      ∀ fault, fault.isGuard = true →
        c.compile source dataContext = .error (.structural fault) →
          c.vocabulary.Raises (.structural fault) := by
  have hOrder := Markup.inOrder_eventsOf source
  refine ⟨hOrder, fun before event later s hEvents hFed failure => ?_, ?_⟩
  · rw [hEvents] at hOrder
    exact Construct.not_trips hOrder hFed failure
  · intro fault hGuard hCompile
    rcases Compiler.of_compileEvents_error c.vocabulary.admits_unguarded hCompile with
      hUnguarded | ⟨before, event, later, s, hItems, hFed, hTrips⟩
    · exact hUnguarded fault hGuard rfl
    · rw [Markup.eventsOf, Markup.Reader.events, hItems, List.filterMap_append, Markup.filterMap_map_ok] at hOrder
      exact absurd hTrips (Construct.not_trips hOrder hFed _)

/-- The extensions of the library give no failures of their own. -/
theorem Vocabulary.not_raises_builtIn (failure : Failure) :
    ¬(builtIn : Vocabulary H).Raises failure := by
  rintro ⟨type, hMem, name, e, -, -, -, hExtension, -⟩
  rcases List.mem_append.1 hMem with hMem | hMem
  · rw [ElementType.extension_of_mem_boxes hMem] at hExtension
    cases hExtension
  · simp only [ElementType.builtInExtensions, List.mem_cons, List.not_mem_nil, or_false] at hMem
    rcases hMem with rfl | rfl | rfl <;> cases hExtension

namespace Cards

/-- No extension of the cards gives a failure. -/
theorem not_raises (failure : Failure) : ¬compiler.vocabulary.Raises failure := by
  rintro ⟨type, hMem, name, e, arguments, provide, site, hExtension, hRaised⟩
  rcases List.mem_append.1 hMem with hMem | hMem
  · exact Vocabulary.not_raises_builtIn failure
      ⟨type, hMem, name, e, arguments, provide, site, hExtension, hRaised⟩
  · rw [List.mem_singleton.1 hMem, extension_type] at hExtension
    cases hExtension

/-- A card with a property tag, which takes a start and an end but no place on the stack. -/
def titled : String := "<Card><Card.Title>first</Card.Title></Card>"

/-- The events of the card with a title. -/
theorem eventsOf_titled :
    Markup.eventsOf titled =
      [.start "Card", .start "Card.Title", .text "first"] ++ .finish :: [.finish] := by
  rw [Markup.eventsOf, Markup.Reader.events, Markup.Reader.ofSource, Markup.Reader.drain_ofTokens]
  decide +kernel

/-- The machine takes the events of the card up to the text of the title. -/
theorem exists_titled :
    ∃ s, Construct.feedEvents (compiler.setting none)
      [.start "Card", .start "Card.Title", .text "first"] (.ofDefaults ["urn:cards"]) = .ok () s := by
  have hFed : (outcome (Construct.feedEvents (compiler.setting none)
      [.start "Card", .start "Card.Title", .text "first"]) (.ofDefaults ["urn:cards"])).isOk = true := by
    decide +kernel
  obtain ⟨⟨_, s⟩, hRun⟩ := except_exists_of_isOk hFed
  exact ⟨s, outcome_eq_ok.1 hRun⟩

end Cards

/-- The end of a property tag trips no guard, and nothing in the document gives the failure of one. -/
theorem titled_card_meets_no_guard :
    Markup.InOrder (Markup.eventsOf Cards.titled) ∧
      (∃ s, Construct.feedEvents (Cards.compiler.setting none)
          [.start "Card", .start "Card.Title", .text "first"] (.ofDefaults ["urn:cards"]) = .ok () s ∧
        ¬Construct.Trips (Cards.compiler.setting none) .finish s (.structural .strayEnd)) ∧
      StructureFault.strayEnd.isGuard = true ∧
      Cards.compiler.compile Cards.titled none ≠ .error (.structural .strayEnd) := by
  obtain ⟨hOrder, hPlaces, hFailures⟩ := Compiler.meets_no_guard Cards.compiler none Cards.titled
  obtain ⟨s, hFed⟩ := Cards.exists_titled
  refine ⟨hOrder, ⟨s, hFed, hPlaces _ _ _ s Cards.eventsOf_titled hFed _⟩, rfl, fun hFails => ?_⟩
  exact Cards.not_raises _ (hFailures .strayEnd rfl hFails)

end ObjectMarkup
