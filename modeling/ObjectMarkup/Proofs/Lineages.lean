import ObjectMarkup.Proofs.Compiled

/-!
# Lineages

The lineage of an element is the element itself and those around it, from the inside out, each by its
object. A tree with its objects tells the lineages of its elements, and so does an outline. The journal
tells which elements are open: those that were opened and not closed (`Entry.openObjects`). Elements
start and end in the journal as they do in the document, so what is open at any moment is the lineage of
one of its elements (`Traced.follows`).
-/

set_option autoImplicit false

namespace ObjectMarkup

variable {H : Host}

/-! ### Boundaries -/

/-- What is open after a boundary, from the inside out. -/
def Boundary.after (around : List ObjectId) : Boundary → List ObjectId
  | .start object => object :: around
  | .finish _ => around.tail

/-- What is open after boundaries, in the places of which `around` is open before. -/
def Boundary.openAfter (around : List ObjectId) (boundaries : List Boundary) : List ObjectId :=
  boundaries.foldl Boundary.after around

/-- At each place between boundaries what is open is `around`, as it is at both ends, or one of some
lineages. -/
structure Boundary.Spans (around : List ObjectId) (lineages : List (List ObjectId))
    (boundaries : List Boundary) : Prop where
  even : openAfter around boundaries = around
  inside : ∀ before, before <+: boundaries →
    openAfter around before = around ∨ openAfter around before ∈ lineages

/-- A prefix of two lists is one of the first, or the first with one of the second. -/
theorem prefix_append_cases {α : Type} {before first rest : List α} (h : before <+: first ++ rest) :
    before <+: first ∨ ∃ more, before = first ++ more ∧ more <+: rest := by
  obtain ⟨later, hLater⟩ := h
  rcases List.append_eq_append_iff.1 hLater with ⟨more, hFirst, -⟩ | ⟨more, hBefore, hRest⟩
  · exact .inl ⟨more, hFirst.symm⟩
  · exact .inr ⟨more, hBefore, later, hRest.symm⟩

namespace Boundary

/-- What is open behind two stretches of boundaries is what the second makes of what the first left
open. -/
theorem openAfter_append (around : List ObjectId) (boundaries later : List Boundary) :
    openAfter around (boundaries ++ later) = openAfter (openAfter around boundaries) later :=
  List.foldl_append

namespace Spans

variable {around : List ObjectId} {lineages lineages' : List (List ObjectId)}
  {boundaries later : List Boundary}

/-- No boundaries span no lineages. -/
theorem nil (around : List ObjectId) : Spans around [] [] where
  even := rfl
  inside before hPrefix := by
    rw [List.prefix_nil.1 hPrefix]
    exact .inl rfl

/-- Two spans one behind the other. -/
theorem append (h : Spans around lineages boundaries) (h' : Spans around lineages' later) :
    Spans around (lineages ++ lineages') (boundaries ++ later) where
  even := by rw [openAfter_append, h.even, h'.even]
  inside before hPrefix := by
    rcases prefix_append_cases hPrefix with hFirst | ⟨more, rfl, hMore⟩
    · exact (h.inside before hFirst).imp_right (List.mem_append_left lineages')
    · rw [openAfter_append, h.even]
      exact (h'.inside more hMore).imp_right (List.mem_append_right lineages)

/-- Content of an element that has started, and not ended yet. -/
theorem opened {object : ObjectId} (h : Spans (object :: around) lineages boundaries) :
    openAfter around (.start object :: boundaries) = object :: around ∧
      ∀ before, before <+: .start object :: boundaries → openAfter around before = around ∨
        openAfter around before ∈ (object :: around) :: lineages := by
  refine ⟨h.even, fun before hPrefix => ?_⟩
  rcases List.prefix_cons_iff.1 hPrefix with rfl | ⟨more, rfl, hMore⟩
  · exact .inl rfl
  · refine .inr ?_
    rcases h.inside more hMore with hSame | hMem
    · exact List.mem_cons.2 (.inl hSame)
    · exact List.mem_cons_of_mem _ hMem

/-- An element starts, has its content, and ends. -/
theorem element {object : ObjectId} (h : Spans (object :: around) lineages boundaries) :
    Spans around ((object :: around) :: lineages)
      (.start object :: (boundaries ++ [.finish object])) := by
  obtain ⟨hEven, hInside⟩ := h.opened
  have hEnd : openAfter around ((.start object :: boundaries) ++ [.finish object]) = around := by
    rw [openAfter_append, hEven]
    rfl
  refine ⟨hEnd, fun before hPrefix => ?_⟩
  rw [← List.cons_append] at hPrefix
  rcases List.prefix_concat_iff.1 hPrefix with rfl | hBefore
  · exact .inl hEnd
  · exact hInside before hBefore

end Spans

end Boundary

/-! ### Trees and outlines -/

namespace ObjectNode

mutual

/-- The lineages of the elements in a piece of content, which is inside of `around`. -/
def lineages (around : List ObjectId) : ObjectNode H → List (List ObjectId)
  | .text _ => []
  | .property _ _ _ _ children => lineagesOf around children
  | .element head _ children =>
    (head.object :: around) :: lineagesOf (head.object :: around) children

/-- The lineages of the elements in pieces of content. -/
def lineagesOf (around : List ObjectId) : List (ObjectNode H) → List (List ObjectId)
  | [] => []
  | node :: rest => node.lineages around ++ lineagesOf around rest

end

mutual

/-- The boundaries of a node span its lineages. -/
theorem spans_boundaries (around : List ObjectId) (node : ObjectNode H) :
    Boundary.Spans around (node.lineages around) node.boundaries := by
  match node with
  | .text content =>
    rw [lineages, boundaries]
    exact .nil around
  | .property tag owner name split children =>
    rw [lineages, boundaries]
    exact spans_boundariesOf around children
  | .element head whole children =>
    rw [lineages, boundaries]
    exact (spans_boundariesOf (head.object :: around) children).element

/-- The boundaries of the nodes of a content span their lineages. -/
theorem spans_boundariesOf (around : List ObjectId) (nodes : List (ObjectNode H)) :
    Boundary.Spans around (lineagesOf around nodes) (boundariesOf nodes) := by
  match nodes with
  | [] =>
    rw [lineagesOf, boundariesOf]
    exact .nil around
  | node :: rest =>
    rw [lineagesOf, boundariesOf]
    exact (spans_boundaries around node).append (spans_boundariesOf around rest)

end

end ObjectNode

/-- The lineages of the elements of a document. -/
def ObjectTree.lineages (t : ObjectTree H) : List (List ObjectId) :=
  [t.head.object] :: ObjectNode.lineagesOf [t.head.object] t.children

/-- The boundaries of a whole tree span its lineages, with nothing open around it. -/
theorem ObjectTree.spans_boundaries (t : ObjectTree H) :
    Boundary.Spans [] t.lineages t.boundaries :=
  (ObjectNode.spans_boundariesOf [t.head.object] t.children).element

namespace OpenNode

/-- The content of an open element so far, in and around the tag of a property that is open. -/
def pieces (n : OpenNode H) : List (ObjectNode H) :=
  n.content ++ n.inner.toList.flatMap OpenProperty.content

/-- An open node starts its own object and then has the boundaries of its pieces. -/
theorem boundaries_eq (n : OpenNode H) :
    n.boundaries = .start n.head.object :: ObjectNode.boundariesOf n.pieces := by
  rw [boundaries, pieces, ObjectNode.boundariesOf_append]
  cases n.inner <;> simp

/-- The lineages of an open element and of the elements in it so far. -/
def lineages (around : List ObjectId) (n : OpenNode H) : List (List ObjectId) :=
  (n.head.object :: around) :: ObjectNode.lineagesOf (n.head.object :: around) n.pieces

/-- The lineages of the elements of a path so far, which is told from the inside out. -/
def lineagesOf : List (OpenNode H) → List (List ObjectId)
  | [] => []
  | n :: outer => lineagesOf outer ++ n.lineages (outer.map fun m => m.head.object)

/-- What a path opens is open at its end, and before that what is open is one of its lineages. -/
theorem of_boundaries_path (path : List (OpenNode H)) :
    Boundary.openAfter [] (path.reverse.flatMap boundaries) = path.map (fun n => n.head.object) ∧
      ∀ before, before <+: path.reverse.flatMap boundaries →
        Boundary.openAfter [] before = [] ∨ Boundary.openAfter [] before ∈ lineagesOf path := by
  induction path with
  | nil => exact ⟨rfl, (Boundary.Spans.nil []).inside⟩
  | cons n outer ih =>
    obtain ⟨hOuter, hBefore⟩ := ih
    have hSpans := ObjectNode.spans_boundariesOf
      (n.head.object :: outer.map fun m => m.head.object) n.pieces
    obtain ⟨hEven, hInside⟩ := hSpans.opened
    rw [← n.boundaries_eq] at hEven hInside
    rw [List.reverse_cons, List.flatMap_append, List.flatMap_singleton]
    refine ⟨?_, fun before hPrefix => ?_⟩
    · rw [Boundary.openAfter_append, hOuter]
      exact hEven
    · rcases prefix_append_cases hPrefix with hFirst | ⟨more, rfl, hMore⟩
      · exact (hBefore before hFirst).imp_right (List.mem_append_left _)
      · rw [Boundary.openAfter_append, hOuter]
        rcases hInside more hMore with hSame | hMem
        · -- Nothing of this element has started: what is open is what the path around it opened.
          rw [hSame, ← hOuter]
          exact (hBefore _ (List.prefix_refl _)).imp_right (List.mem_append_left _)
        · exact .inr (List.mem_append_right _ hMem)

end OpenNode

/-- The lineages of the elements so far. -/
def Outline.lineages (o : Outline H) : List (List ObjectId) :=
  o.root.toList.flatMap ObjectTree.lineages ++ OpenNode.lineagesOf o.path

/-- In whatever part of an outline's boundaries has been met, either nothing is open or what is open
is one of its lineages. -/
theorem Outline.of_boundaries (o : Outline H) {before : List Boundary}
    (h : before <+: o.boundaries) :
    Boundary.openAfter [] before = [] ∨ Boundary.openAfter [] before ∈ o.lineages := by
  have hRoot : Boundary.Spans [] (o.root.toList.flatMap ObjectTree.lineages)
      (o.root.toList.flatMap ObjectTree.boundaries) := by
    cases o.root with
    | none => exact .nil []
    | some t =>
      rw [Option.toList_some, List.flatMap_singleton, List.flatMap_singleton]
      exact t.spans_boundaries
  rcases prefix_append_cases h with hFirst | ⟨more, rfl, hMore⟩
  · exact (hRoot.inside before hFirst).imp_right (List.mem_append_left _)
  · rw [Boundary.openAfter_append, hRoot.even]
    exact ((OpenNode.of_boundaries_path o.path).2 more hMore).imp_right (List.mem_append_right _)

/-! ### Journals -/

namespace Entry

/-- Where an element starts or ends, if an entry tells so. -/
def boundary? : Entry → Option Boundary
  | .opened object => some (.start object)
  | .closed object _ _ => some (.finish object)
  | _ => none

/-- The objects of the elements that are open after the entries of a journal, from the inside out. -/
def openObjects : List Entry → List ObjectId
  | [] => []
  | .opened object :: earlier => object :: openObjects earlier
  | .closed _ _ _ :: earlier => (openObjects earlier).tail
  | _ :: earlier => openObjects earlier

/-- The objects a journal leaves open are those its boundaries leave open. -/
theorem openObjects_eq (journal : List Entry) :
    openObjects journal = Boundary.openAfter [] (journal.filterMap boundary?).reverse := by
  induction journal with
  | nil => rfl
  | cons entry earlier ih =>
    cases entry with
    | opened object =>
      show _ = Boundary.openAfter [] (Boundary.start object :: earlier.filterMap boundary?).reverse
      rw [openObjects, ih, List.reverse_cons, Boundary.openAfter_append]
      rfl
    | closed object id value =>
      show _ = Boundary.openAfter [] (Boundary.finish object :: earlier.filterMap boundary?).reverse
      rw [openObjects, ih, List.reverse_cons, Boundary.openAfter_append]
      rfl
    | evaluated n target outcome => exact ih
    | wrote w extent => exact ih

/-- An element that is open was opened. -/
theorem opened_of_mem_openObjects {journal : List Entry} {object : ObjectId}
    (h : object ∈ openObjects journal) : .opened object ∈ journal := by
  induction journal with
  | nil => cases h
  | cons entry earlier ih =>
    cases entry with
    | opened other =>
      rcases List.mem_cons.1 h with rfl | hMem
      · exact List.mem_cons_self ..
      · exact List.mem_cons_of_mem _ (ih hMem)
    | closed other id value => exact List.mem_cons_of_mem _ (ih (List.mem_of_mem_tail h))
    | evaluated n target outcome => exact List.mem_cons_of_mem _ (ih h)
    | wrote w extent => exact List.mem_cons_of_mem _ (ih h)

/-- Whenever something is open in a journal, it is one of some lineages. -/
def Follows (lineages : List (List ObjectId)) (journal : List Entry) : Prop :=
  ∀ earlier, earlier <:+ journal → openObjects earlier = [] ∨ openObjects earlier ∈ lineages

/-- A journal follows the lineages when every beginning of its boundaries leaves open nothing or one
of them. -/
theorem follows {lineages : List (List ObjectId)} {journal : List Entry}
    (h : ∀ before, before <+: (journal.filterMap boundary?).reverse →
      Boundary.openAfter [] before = [] ∨ Boundary.openAfter [] before ∈ lineages) :
    Follows lineages journal := by
  intro earlier hSuffix
  rw [openObjects_eq]
  exact h _ (List.reverse_prefix.2 (hSuffix.filterMap _))

end Entry

variable [Hooks H] {vocabulary : Vocabulary H}

/-- Elements start and end in the journal as deeds say. -/
theorem DoesAll.boundaries {scope : NameScope} {ds : List (Deed H)} {a : Assembly H}
    (h : DoesAll vocabulary (.start scope) ds a) :
    (a.journal.filterMap Entry.boundary?).reverse = Deed.boundaries ds := by
  refine invariant (P := fun ds a => (a.journal.filterMap Entry.boundary?).reverse = Deed.boundaries ds)
    (fun done a d a' hDone hDoes => ?_) rfl h
  rw [Deed.boundaries_append, ← hDone]
  cases hDoes with
  | make type fresh known constructible => exact List.reverse_cons ..
  | text object name text dataContext a' evaluated =>
    rw [evaluated.filterMap_journal (fun _ _ _ => rfl) fun _ _ => rfl]
    exact (List.append_nil _).symm
  | close type object id value stands => exact List.reverse_cons ..
  | place child object name value w a' ended assigned =>
    obtain ⟨⟨extent, hJournal⟩, -⟩ := assigned.rest
    rw [hJournal]
    exact (List.append_nil _).symm
  | declare id value complete names n a' registered hDrain =>
    rw [Assemble.filterMap_journal_of_drain (fun _ _ _ => rfl) (fun _ _ => rfl) hDrain]
    exact (List.append_nil _).symm

/-- Whatever is open at a moment of a run is an element so far with those around it. -/
theorem Traced.follows {defaults : List String} {events : List Markup.Event} {o : Outline H}
    {ds : List (Deed H)} {s : Construction H} (h : Traced vocabulary defaults events o ds s) :
    Entry.Follows o.lineages s.assembly.journal := by
  refine Entry.follows fun before hPrefix => o.of_boundaries ?_
  rwa [h.done.boundaries, h.boundaries] at hPrefix

/-- Whatever was open when a document was constructed is an element of its tree with those around it. -/
theorem Constructed.follows {c : Compiler H} {items : List (Except Markup.Fault Markup.Event)}
    {t : ObjectTree H} {ds : List (Deed H)} {a a' : Assembly H} (h : Constructed c items t ds a a') :
    Entry.Follows t.lineages a'.journal := by
  obtain ⟨n, hDrain⟩ := h.drained
  refine Entry.follows fun before hPrefix => t.spans_boundaries.inside before ?_
  rwa [Assemble.filterMap_journal_of_drain (fun _ _ _ => rfl) (fun _ _ => rfl) hDrain,
    h.done.boundaries, h.boundaries] at hPrefix

end ObjectMarkup
