import ObjectMarkup.Proofs.QualifiedTags

/-!
# Start tags of elements

An element has one start tag: the tag that was pending, its attributes complete, when the element was opened
(`Compiler.StartsWith`). As the element is opened then, the graph grows, and no other tag is pending for the
same object (`Compiler.StartsWith.unique`). What the attributes of the tag tell as a key is the key of the
element (`Compiler.TellsKey`).
-/

set_option autoImplicit false

namespace ObjectMarkup

open Operation

variable {H : Host} [Hooks H]

/-! ### Steps of a run -/

namespace Compiler.Reaches

variable {c : Compiler H} {dataContext : Option Value}
  {items : List (Except Markup.Fault Markup.Event)} {n m : Nat} {s s' : Construction H}

/-- A run starts with nothing. -/
theorem start (c : Compiler H) (dataContext : Option Value)
    (items : List (Except Markup.Fault Markup.Event)) :
    c.Reaches dataContext items 0 (.ofDefaults c.settings.defaults) :=
  ⟨fun _ hLess => absurd hLess (Nat.not_lt_zero _), [], rfl, rfl, rfl⟩

/-- The next event of a run leads to its next state. -/
theorem step (h : c.Reaches dataContext items n s) {event : Markup.Event}
    (hItem : items[n]? = some (.ok event)) (hQuiet : c.settings.isCancelled n = false)
    (hFeed : Construct.feed (c.setting dataContext) event s = .ok () s') :
    c.Reaches dataContext items (n + 1) s' := by
  obtain ⟨hBefore, events, hTake, hLength, hFed⟩ := h
  refine ⟨fun look hLess => ?_, events ++ [event], ?_, by simp [hLength], ?_⟩
  · rcases Nat.lt_succ_iff_lt_or_eq.1 hLess with hLess | rfl
    · exact hBefore look hLess
    · exact hQuiet
  · rw [List.take_add_one, hTake, hItem, List.map_append]
    rfl
  · rw [← outcome_eq_ok, Construct.outcome_feedEvents_append, outcome_eq_ok.2 hFed]
    exact outcome_eq_ok.2 (bind_eq_ok.2 ⟨(), s', hFeed, rfl⟩)

/-- Each later state of a run comes of the one before it, by an event. -/
theorem of_succ (h : c.Reaches dataContext items (n + 1) s') :
    ∃ s event, c.Reaches dataContext items n s ∧ items[n]? = some (.ok event) ∧
      Construct.feed (c.setting dataContext) event s = .ok () s' := by
  obtain ⟨hQuiet, events, hTake, hLength, hFed⟩ := h
  obtain ⟨before, event, rfl⟩ : ∃ before event, events = before ++ [event] := by
    rcases List.eq_nil_or_concat' events with rfl | ⟨before, event, rfl⟩
    · cases hLength
    · exact ⟨before, event, rfl⟩
  have hBefore : before.length = n := by simpa using hLength
  have hItems : items.take n = before.map .ok ∧ items[n]? = some (.ok event) := by
    have hFirst := congrArg (List.take n) hTake
    have hLast := congrArg (·[n]?) hTake
    rw [List.take_take, Nat.min_eq_left (Nat.le_succ n), ← List.map_take, ← hBefore,
      List.take_left] at hFirst
    rw [List.getElem?_take_of_lt (Nat.lt_succ_self n), List.getElem?_map, ← hBefore,
      List.getElem?_concat_length] at hLast
    rw [← hBefore]
    exact ⟨hFirst, hLast⟩
  rw [← outcome_eq_ok, Construct.outcome_feedEvents_append] at hFed
  obtain ⟨⟨_, s⟩, hFirst, hLast⟩ := except_bind_eq_ok_iff.1 hFed
  obtain ⟨_, s₁, hFeed, hDone⟩ := bind_eq_ok.1 (outcome_eq_ok.1 hLast)
  cases hDone
  exact ⟨s, event, ⟨fun look hLess => hQuiet look (Nat.lt_succ_of_lt hLess), before, hItems.1, hBefore,
    outcome_eq_ok.1 hFirst⟩, hItems.2, hFeed⟩

/-- A run has a state after fewer events. -/
theorem of_le (h : c.Reaches dataContext items m s') (hLe : n ≤ m) :
    ∃ s, c.Reaches dataContext items n s := by
  induction hLe generalizing s' with
  | refl => exact ⟨s', h⟩
  | step _ ih =>
    obtain ⟨s, -, h₁, -⟩ := h.of_succ
    exact ih h₁

/-- A run has one state after the same events. -/
theorem unique (h : c.Reaches dataContext items n s) (h' : c.Reaches dataContext items n s') :
    s = s' := by
  obtain ⟨-, events, hTake, -, hFed⟩ := h
  obtain ⟨-, events', hTake', -, hFed'⟩ := h'
  have hSame : events = events' :=
    List.map_injective_iff.2 (fun _ _ e => Except.ok.inj e) (hTake.symm.trans hTake')
  subst hSame
  rw [hFed] at hFed'
  cases hFed'
  rfl

/-- There are not fewer objects later. -/
theorem size_le (h : c.Reaches dataContext items n s) (h' : c.Reaches dataContext items m s')
    (hLe : n ≤ m) : s.assembly.graph.size ≤ s'.assembly.graph.size := by
  obtain ⟨more, hMore⟩ := h.feedEvents h' hLe
  obtain ⟨-, events, -, -, hFed⟩ := h
  obtain ⟨o, ds, hTraced⟩ := traced_of_feedEvents hFed
  exact ObjectGraph.size_le_of_types_prefix ((hTraced.grows_feedEvents more).of_ok hMore).objects

end Compiler.Reaches

/-! ### Start tags -/

namespace Construct

variable {setting : Setting H} {s : Construction H}

/-- Whatever event but an attribute comes, the object of the element is made that the pending tag opens. -/
theorem grows_feed_of_opens {type : ElementType H} (h : s.Opens setting type) {event : Markup.Event}
    (hOther : event.isAttribute = false) :
    Ends (feed setting event) s (fun _ s' => s.assembly.graph.size < s'.assembly.graph.size)
      fun _ _ => True := by
  have hRest {act : Construct H Unit} (hAdds : Adds Construction.assembly act) :
      Ends (do completeTag setting; act) s
        (fun _ s' => s.assembly.graph.size < s'.assembly.graph.size) fun _ _ => True := by
    refine ((grows_of_opens h).mono (fun _ _ hMore => hMore) fun _ _ _ => trivial).bind ?_
    intro _ s₁ hMore
    refine (hAdds.ends s₁).mono (fun _ s' hGrows => ?_) fun _ _ _ => trivial
    exact Nat.lt_of_lt_of_le hMore
      (ObjectGraph.size_le_of_types_prefix hGrows.graph.types_prefix)
  cases event with
  | «attribute» name value => cases hOther
  | start name => exact hRest ⟨fun s₁ => .refl s₁.assembly⟩
  | text text => exact hRest (adds_keepText text)
  | finish => exact hRest adds_endTag

end Construct

namespace Compiler

variable {c : Compiler H} {dataContext : Option Value}
  {items : List (Except Markup.Fault Markup.Event)} {n m : Nat} {s s' : Construction H}
  {object : ObjectId} {t t' : StartTag}

/-- The start tag of the element of an object: at some moment of a run the tag is pending, its attributes
complete, and what it opens is the object. It is the tag that the events end with by then. -/
def StartsWith (c : Compiler H) (dataContext : Option Value)
    (items : List (Except Markup.Fault Markup.Event)) (object : ObjectId) (t : StartTag) : Prop :=
  ∃ n s type before, c.Pending dataContext items n s t ∧
    items.take n = (before ++ t.events).map .ok ∧ s.Opens (c.setting dataContext) type ∧
    s.assembly.graph.nextId = object

/-- A tag that is pending is what the events so far end with. -/
theorem Pending.told (h : c.Pending dataContext items n s t) :
    ∃ before, items.take n = (before ++ t.events).map .ok := by
  obtain ⟨-, events, hTake, -, hFed⟩ := h.reaches
  obtain ⟨o, ds, hTraced⟩ := traced_of_feedEvents hFed
  refine ⟨o.root.toList.flatMap ObjectTree.events ++ o.path.reverse.flatMap OpenNode.events, ?_⟩
  rw [hTake, ← hTraced.told, Outline.events, ← hTraced.tag, h.tag, List.append_assoc]
  simp

/-- After a tag opened an element there are more objects. -/
theorem Pending.size_lt (h : c.Pending dataContext items n s t) {type : ElementType H}
    (hOpens : s.Opens (c.setting dataContext) type) (h' : c.Reaches dataContext items m s')
    (hLess : n < m) : s.assembly.graph.size < s'.assembly.graph.size := by
  obtain ⟨s₁, h₁⟩ := h'.of_le hLess
  obtain ⟨s₀, event, h₀, hItem, hFeed⟩ := h₁.of_succ
  have hSame := h₀.unique h.reaches
  subst hSame
  obtain ⟨_, hEvent, hOther⟩ := h.complete _ hItem
  cases hEvent
  have hMore := (Construct.grows_feed_of_opens hOpens hOther).of_ok hFeed
  exact Nat.lt_of_lt_of_le hMore (h₁.size_le h' hLess)

/-- An element has one start tag. -/
theorem StartsWith.unique (h : c.StartsWith dataContext items object t)
    (h' : c.StartsWith dataContext items object t') : t = t' := by
  obtain ⟨n, s, type, -, hPending, -, hOpens, hObject⟩ := h
  obtain ⟨m, s', type', -, hPending', -, hOpens', hObject'⟩ := h'
  have hSize : s.assembly.graph.size = s'.assembly.graph.size :=
    congrArg ObjectId.index (hObject.trans hObject'.symm)
  rcases Nat.lt_trichotomy n m with hLess | rfl | hLess
  · exact absurd hSize (Nat.ne_of_lt (hPending.size_lt hOpens hPending'.reaches hLess))
  · have hSame := hPending.reaches.unique hPending'.reaches
    subst hSame
    exact Option.some.inj (hPending.tag.symm.trans hPending'.tag)
  · exact absurd hSize.symm (Nat.ne_of_lt (hPending'.size_lt hOpens' hPending.reaches hLess))

/-- The key of the element of an object: what the attributes of its start tag tell, the last one that
does, in the scope of the run. -/
def TellsKey (c : Compiler H) (dataContext : Option Value)
    (items : List (Except Markup.Fault Markup.Event)) (object : ObjectId) (key : Option String) : Prop :=
  ∃ t, c.StartsWith dataContext items object t ∧ (c.scopeOf items).keyOf t.attributes = key

/-- An element has one key at most. -/
theorem TellsKey.unique {key key' : Option String} (h : c.TellsKey dataContext items object key)
    (h' : c.TellsKey dataContext items object key') : key = key' := by
  obtain ⟨t, hStarts, rfl⟩ := h
  obtain ⟨t', hStarts', rfl⟩ := h'
  rw [hStarts.unique hStarts']

end Compiler

end ObjectMarkup
