import Mathlib.Data.List.Nodup
import ObjectMarkup.Proofs.Finality

/-!
# The name table is what is declared

An element declares what it stands for under its identifier, which the last of its metadata attributes
for that tells. In a document that compiles, the identifiers of the elements are distinct, and the
name table holds them and no others, each with what its element stands for: the product of a factory,
or the object itself (`Compiler.names_declared`). The same value went into the property that the
element stands for, by one write, or it is that of the document.
-/

set_option autoImplicit false

namespace ObjectMarkup

open Operation

variable {H : Host}

/-! ### Names -/

/-- A name means what stands with it in the table. -/
theorem NameTable.get?_eq_some_iff (t : NameTable) (id : String) (value : Value) :
    t.get? id = some value ↔ (id, value) ∈ t.entries := by
  refine ⟨fun hFound => ?_, lookup_of_mem t.distinct⟩
  obtain ⟨before, after, hEntries, -⟩ := List.lookup_eq_some_iff.1 hFound
  rw [hEntries]
  exact List.mem_append_right before (List.mem_cons_self ..)

variable [Hooks H]

namespace Built

variable {c : Compiler H} {t : ObjectTree H} {ds : List (Deed H)} {a a' : Assembly H}

/-- The names are those of the elements that were closed. -/
theorem get?_eq_some_iff (h : Built c t ds a) (hElements : Elements ds a') (id : String)
    (value : Value) :
    a'.names.get? id = some value ↔
      ∃ closing ∈ Deed.closed ds, closing.identifier = some id ∧ closing.value = value := by
  rw [NameTable.get?_eq_some_iff, hElements.names, List.mem_reverse, h.declared, List.mem_filterMap]
  refine exists_congr fun closing => and_congr_right fun _ => ?_
  rw [Closing.named?, Option.map_eq_some_iff]
  constructor
  · rintro ⟨_, hIdentifier, hSame⟩
    cases hSame
    exact ⟨hIdentifier, rfl⟩
  · rintro ⟨hIdentifier, rfl⟩
    exact ⟨id, hIdentifier, rfl⟩

/-- A name is declared if it is the identifier of an element. -/
theorem contains_iff (h : Built c t ds a) (hElements : Elements ds a') (id : String) :
    a'.names.contains id = true ↔
      ∃ e ∈ t.heads, (c.rootScope t.head.attributes).identifierOf e.attributes = some id := by
  rw [NameTable.contains, Option.isSome_iff_exists]
  constructor
  · rintro ⟨value, hFound⟩
    obtain ⟨closing, hClosed, hIdentifier, -⟩ := (h.get?_eq_some_iff hElements id value).1 hFound
    obtain ⟨e, hHead, -, -, hSame⟩ := h.exists_head hClosed
    exact ⟨e, hHead, hSame.trans hIdentifier⟩
  · rintro ⟨e, hHead, hIdentifier⟩
    obtain ⟨value, hClosed⟩ := h.exists_closing hHead
    exact ⟨value, (h.get?_eq_some_iff hElements id value).2 ⟨_, hClosed, hIdentifier, rfl⟩⟩

/-- No two elements have the same identifier. -/
theorem distinct_identifiers (h : Built c t ds a) (hElements : Elements ds a') :
    (t.heads.filterMap fun e =>
      (c.rootScope t.head.attributes).identifierOf e.attributes).Nodup := by
  have hNames := a'.names.distinct
  rw [hElements.names, h.declared, List.map_reverse, (List.reverse_perm _).nodup_iff,
    List.map_filterMap] at hNames
  have hClosed : (fun closing : Closing H => closing.named?.map Prod.fst) = Closing.identifier := by
    funext closing
    rw [Closing.named?, Option.map_map]
    exact Option.map_id'
  have hPerm := h.closed.filterMap fun x => x.2.2
  rw [List.filterMap_map, List.filterMap_map] at hPerm
  rw [hClosed] at hNames
  exact hPerm.nodup_iff.1 hNames

end Built

/-! ### Values of elements -/

/-- A write is of a value, as its property took it when the graph `g` held `extent` objects. -/
def Write.Carries (vocabulary : Vocabulary H) (w : Write) (extent : Nat) (value : Value)
    (g : ObjectGraph H) : Prop :=
  ∃ type property g₀ g₁, g.type? w.object = some type ∧ type.property? w.property = some property ∧
    property.store.Stores vocabulary value g₀ w g₁ ∧ g₁.size = extent ∧ g₁.Grows g

/-- A write carries the value it carried in every later graph. -/
theorem Write.Carries.grows {vocabulary : Vocabulary H} {w : Write} {extent : Nat} {value : Value}
    {g g' : ObjectGraph H} (h : w.Carries vocabulary extent value g) (hGrows : g.Grows g') :
    w.Carries vocabulary extent value g' := by
  obtain ⟨type, property, g₀, g₁, hType, hProperty, hStores, hExtent, hOlder⟩ := h
  exact ⟨type, property, g₀, g₁, hGrows _ _ hType, hProperty, hStores, hExtent, hOlder.trans hGrows⟩

/-- What was written of an element is what it stood for when it was closed. -/
def Assembly.HandsOver (vocabulary : Vocabulary H) (a : Assembly H) : Prop :=
  ∀ w extent child, .wrote w extent ∈ a.journal → w.origin = .element child →
    ∃ id value, .closed child id value ∈ a.journal ∧ w.Carries vocabulary extent value a.graph

namespace Assembly.HandsOver

variable {vocabulary : Vocabulary H} {a a' : Assembly H}

/-- Entries that write nothing of an element change nothing of that. -/
theorem grown (h : a.HandsOver vocabulary) (hGrows : a.Grows a') (new : List Entry)
    (hJournal : a'.journal = new ++ a.journal)
    (hNew : ∀ w extent, .wrote w extent ∈ new → ∀ child, w.origin ≠ .element child) :
    a'.HandsOver vocabulary := by
  intro w extent child hMem hOrigin
  rw [hJournal] at hMem ⊢
  rcases List.mem_append.1 hMem with hMem | hMem
  · exact absurd hOrigin (hNew w extent hMem child)
  · obtain ⟨id, value, hClosed, hCarries⟩ := h w extent child hMem hOrigin
    exact ⟨id, value, List.mem_append_right new hClosed, hCarries.grows hGrows.graph⟩

/-- Evaluations write texts. -/
theorem reran (h : a.HandsOver vocabulary) {complete : Bool} {b : Binding}
    (hReran : Assemble.Reran vocabulary complete b a a') : a'.HandsOver vocabulary := by
  have hGrows := hReran.grows
  cases hReran with
  | value v w a' evaluated assigned =>
    obtain ⟨⟨extent, hJournal⟩, -⟩ := assigned.rest
    refine h.grown hGrows [.wrote w extent, .evaluated b.occurrence
      ⟨b.target, b.property, b.dataContext, true⟩ (.value v)] hJournal ?_
    intro w' extent' hMem child hOrigin
    rcases List.mem_cons.1 hMem with hSame | hMem
    · cases hSame
      rw [assigned.origin_eq] at hOrigin
      cases hOrigin
    · cases List.mem_singleton.1 hMem
  | nothing evaluated => exact h.grown hGrows [_] rfl fun _ _ hMem => by cases List.mem_singleton.1 hMem
  | deferred required evaluated =>
    exact h.grown hGrows [_] rfl fun _ _ hMem => by cases List.mem_singleton.1 hMem

/-- A drain writes nothing of an element. -/
theorem drained (h : a.HandsOver vocabulary) {complete : Bool} {n : Nat}
    (hDrain : Assemble.drain vocabulary complete a = .ok n a') : a'.HandsOver vocabulary :=
  Assemble.drain_induction (P := fun _ a => a.HandsOver vocabulary)
    (fun _ _ _ _ hDone hReran => hDone.reran hReran) h hDrain

/-- An element that is placed was closed before. -/
theorem does (h : a.HandsOver vocabulary) {d : Deed H} (hDoes : Does vocabulary a d a') :
    a'.HandsOver vocabulary := by
  have hGrows := hDoes.grows
  cases hDoes with
  | make type fresh known constructible =>
    exact h.grown hGrows [.opened a.graph.nextId] rfl fun _ _ hMem => by
      cases List.mem_singleton.1 hMem
  | text object name text dataContext a' evaluated =>
    exact reran (a := { a with occurrences := a.occurrences + 1 }) h evaluated
  | close type object id value stands =>
    exact h.grown hGrows [.closed object id value] rfl fun _ _ hMem => by
      cases List.mem_singleton.1 hMem
  | place child object name value w a' ended assigned =>
    obtain ⟨id, hClosed⟩ := ended
    obtain ⟨g, o, ⟨type, property, hType, hProperty, hStores⟩, -, rfl⟩ := assigned.stored
    intro w' extent' child' hMem hOrigin
    rcases List.mem_cons.1 hMem with hSame | hMem
    · cases hSame
      rw [assigned.origin_eq, Origin.element.injEq] at hOrigin
      subst hOrigin
      exact ⟨id, value, List.mem_cons_of_mem _ hClosed, type, property, a.graph, g,
        hGrows.graph _ _ hType, hProperty, hStores, rfl, .replace g w.object o⟩
    · obtain ⟨id', value', hBefore, hCarries⟩ := h w' extent' child' hMem hOrigin
      exact ⟨id', value', List.mem_cons_of_mem _ hBefore, hCarries.grows hGrows.graph⟩
  | declare id value complete names n a' registered hDrain =>
    exact drained (a := { a with names }) h hDrain

/-- After the deeds of a run every write of an element carries what that stood for. -/
theorem doesAll {scope : NameScope} {ds : List (Deed H)}
    (h : DoesAll vocabulary (.start scope) ds a) : a.HandsOver vocabulary :=
  DoesAll.invariant (P := fun _ a => a.HandsOver vocabulary)
    (fun _ _ _ _ hDone hDoes => hDone.does hDoes)
    (fun _ _ _ hMem => absurd hMem List.not_mem_nil) h

end Assembly.HandsOver

/-! ### Elements in properties -/

/-- The element that a use is of, by its object. -/
def Use.child? (u : Use) : Option ObjectId :=
  match u.source with
  | .text _ => none
  | .element child => some child

/-- The elements that uses are of, in order. -/
def Use.children (uses : List Use) : List ObjectId := uses.filterMap child?

section Children

omit [Hooks H]

/-- The children of two lists of uses, one behind the other. -/
theorem Use.children_append (uses later : List Use) :
    children (uses ++ later) = children uses ++ children later :=
  List.filterMap_append

/-- No attribute hands over a child. -/
theorem Use.children_attributeUses (object : ObjectId) (attributes : List (String × String)) :
    children (ElementHead.attributeUses object attributes) = [] := by
  simp [children, ElementHead.attributeUses, List.filterMap_map, Function.comp_def, child?]

/-- No text hands over a child. -/
theorem Use.children_textUses (object : ObjectId) (property : String) (texts : List String) :
    children (ObjectNode.textUses object property texts) = [] := by
  simp [children, ObjectNode.textUses, List.filterMap_map, Function.comp_def, child?]

open Use in
mutual

/-- Content gives each element in it for a property, once. -/
theorem ObjectNode.children_uses (object : ObjectId) (receiver : String) (node : ObjectNode H) :
    (children (node.uses object receiver)).Perm (node.heads.map ElementHead.object) := by
  match node with
  | .text content => exact .refl _
  | .property tag owner name split inner =>
    have ih := children_usesOf object name inner
    rw [uses, heads, children_append, children_textUses, List.append_nil]
    exact ih
  | .element head whole inner =>
    have ih := children_usesOf head.object head.type.contentProperty inner
    rw [uses, heads, children_append, children_append, children_append, children_textUses,
      ElementHead.uses, children_attributeUses, List.nil_append, List.append_nil, List.map_cons]
    exact (List.perm_append_singleton ..).trans (ih.cons _)

/-- The children a node hands over are the objects that stand in it, each once. -/
theorem ObjectNode.children_usesOf (object : ObjectId) (receiver : String)
    (nodes : List (ObjectNode H)) :
    (children (usesOf object receiver nodes)).Perm ((headsOf nodes).map ElementHead.object) := by
  match nodes with
  | [] =>
    rw [usesOf_nil, headsOf_nil]
    exact .refl _
  | node :: rest =>
    rw [usesOf, headsOf, children_append, List.map_append]
    exact (children_uses object receiver node).append (children_usesOf object receiver rest)

end

/-- A document gives each of its elements but the root for a property, once. -/
theorem ObjectTree.children_uses (t : ObjectTree H) :
    (Use.children t.uses).Perm ((ObjectNode.headsOf t.children).map ElementHead.object) := by
  rw [uses, Use.children_append, Use.children_append, Use.children_textUses, ElementHead.uses,
    Use.children_attributeUses, List.nil_append, List.append_nil]
  exact ObjectNode.children_usesOf _ _ _

/-- For each use of an element, one thing is due. -/
theorem countP_duesFrom_element (child : ObjectId) (n : Nat) (uses : List Use) :
    (duesFrom n uses).countP (fun d => d.origin == .element child) =
      (Use.children uses).count child := by
  induction uses generalizing n with
  | nil => rfl
  | cons u rest ih =>
    obtain ⟨object, property, content | other⟩ := u
    · rw [duesFrom, List.countP_cons_of_neg (by simp), ih]
      rfl
    · rw [duesFrom, List.countP_cons, ih]
      show _ = (other :: Use.children rest).count child
      rw [List.count_cons]
      simp

/-- A use that hands over an element is among the dues as it stands, whatever number the texts start
at. -/
theorem mem_duesFrom_element {uses : List Use} {u : Use} {child : ObjectId} (hMem : u ∈ uses)
    (hChild : u.source = .element child) (n : Nat) :
    ⟨.element child, u.object, u.property⟩ ∈ duesFrom n uses := by
  induction uses generalizing n with
  | nil => cases hMem
  | cons first rest ih =>
    rcases List.mem_cons.1 hMem with rfl | hLater
    · obtain ⟨object, property, source⟩ := u
      cases hChild
      exact List.mem_cons_self ..
    · obtain ⟨object, property, content | other⟩ := first
      · exact List.mem_cons_of_mem _ (ih hLater (n + 1))
      · exact List.mem_cons_of_mem _ (ih hLater n)

/-- When nothing waits, an element that is used once was written once, where it was used. -/
theorem Accounted.written_element {uses : List Use} {a : Assembly H} (h : Accounted uses [] a)
    (hWaiting : a.waiting = []) {u : Use} {child : ObjectId} (hMem : u ∈ uses)
    (hChild : u.source = .element child) (hDistinct : (Use.children uses).Nodup) :
    ∃ w, (Entry.writes a.journal).filter (fun w => w.origin == .element child) = [w] ∧
      w.object = u.object ∧ w.property = u.property := by
  have hLength := h.length_filter_writes_le fun d => d.origin == .element child
  rw [countP_duesFrom_element] at hLength
  have hOnce := Nat.le_trans hLength (List.nodup_iff_count_le_one.1 hDistinct child)
  rcases h.settled hWaiting (mem_duesFrom_element hMem hChild 0) with
    ⟨w, hWrite, hDue⟩ | ⟨n, target, -, hSkip⟩
  · obtain ⟨hOrigin, hRest⟩ := Due.mk.inj hDue
    obtain ⟨hObject, hProperty⟩ := hRest
    refine ⟨w, eq_singleton_of_mem (List.mem_filter.2 ⟨hWrite, ?_⟩) hOnce, hObject, hProperty⟩
    exact beq_iff_eq.2 hOrigin
  · cases hSkip

end Children

/-! ### Documents -/

namespace Document

/-- The writes of the value of an element, by its object, in order. -/
def writesFrom (d : Document H) (child : ObjectId) : List Write :=
  (Entry.writes d.journal).filter fun w => w.origin == .element child

/-- The value of an element went into a property, by one write. -/
def HandsOver (d : Document H) (vocabulary : Vocabulary H) (u : Use) (child : ObjectId)
    (value : Value) : Prop :=
  ∃ w extent, d.writesFrom child = [w] ∧ .wrote w extent ∈ d.journal ∧ w.object = u.object ∧
    w.property = u.property ∧ w.Carries vocabulary extent value d.graph

/-- The name table of a document is what its elements declare: their identifiers are distinct, they
are the names, and a name means the value of its element. That is what the element stands for, the
product of its object if it is a factory's, and the same value went into a property around it, or
is that of the document. -/
structure NamesElements (d : Document H) (c : Compiler H) (t : ObjectTree H) : Prop where
  distinct : (t.heads.filterMap fun e =>
    (c.rootScope t.head.attributes).identifierOf e.attributes).Nodup
  lookup : ∀ id v, d.lookup id = some v ↔
    ∃ e ∈ t.heads, (c.rootScope t.head.attributes).identifierOf e.attributes = some id ∧
      d.product? e.object = some v
  stands : ∀ e ∈ t.heads, ∃ v, d.product? e.object = some v ∧ e.type.StandsFor d.graph e.object v
  root : d.product? t.head.object = some d.root
  nested : ∀ e ∈ ObjectNode.headsOf t.children, ∃ u ∈ t.uses, u.source = .element e.object ∧
    ∃ v, d.product? e.object = some v ∧ d.HandsOver c.vocabulary u e.object v

end Document

namespace Constructed

variable {c : Compiler H} {items : List (Except Markup.Fault Markup.Event)} {t : ObjectTree H}
  {ds : List (Deed H)} {a a' : Assembly H}

/-- So does every write of an element in a constructed document. -/
theorem handsOver (h : Constructed c items t ds a a') : a'.HandsOver c.vocabulary := by
  obtain ⟨n, hDrain⟩ := h.drained
  exact (Assembly.HandsOver.doesAll h.done).drained hDrain

/-- No object of a constructed document is handed over twice. -/
theorem distinct_children (h : Constructed c items t ds a a') : (Use.children t.uses).Nodup := by
  have hObjects := h.elements.distinct
  rw [h.objects, t.objects_eq, ObjectTree.heads, List.map_cons, List.map_cons, List.nodup_cons,
    List.map_map] at hObjects
  exact t.children_uses.nodup_iff.2 hObjects.2

/-- An element inside of another one was handed over once, with what it stands for. -/
theorem handed (h : Constructed c items t ds a a') (root : Value) {e : ElementHead H}
    (hMem : e ∈ ObjectNode.headsOf t.children) :
    ∃ u ∈ t.uses, u.source = .element e.object ∧
      ∃ v, (Document.mk a'.graph root a'.names a'.journal.reverse).product? e.object = some v ∧
        (Document.mk a'.graph root a'.names a'.journal.reverse).HandsOver c.vocabulary u e.object
          v := by
  obtain ⟨u, hUse, hChild⟩ := List.mem_filterMap.1
    (t.children_uses.mem_iff.2 (List.mem_map.2 ⟨e, hMem, rfl⟩))
  have hSource : u.source = .element e.object := by
    obtain ⟨object, property, content | child⟩ := u
    · cases hChild
    · exact congrArg Source.element (Option.some.inj hChild)
  obtain ⟨w, hOnce, hObject, hProperty⟩ :=
    h.accounted.written_element h.waiting hUse hSource h.distinct_children
  obtain ⟨hWrite, hOrigin⟩ := List.mem_filter.1 (hOnce ▸ List.mem_singleton_self w)
  obtain ⟨extent, hEntry⟩ := Entry.mem_writes_iff.1 hWrite
  obtain ⟨id, v, hClosed, hCarries⟩ := h.handsOver w extent e.object hEntry (beq_iff_eq.1 hOrigin)
  refine ⟨u, hUse, hSource, v, h.product?_of_mem root hClosed, w, extent, ?_,
    List.mem_reverse.2 hEntry, hObject, hProperty, hCarries⟩
  rw [Document.writesFrom, Entry.writes, List.filterMap_reverse, List.filter_reverse]
  exact congrArg List.reverse hOnce

end Constructed

/-- The name table of a document that compiles is what its elements declare, and what an element
declares is what it stands for and what it hands over. -/
theorem Compiler.names_declared (c : Compiler H) (dataContext : Option Value)
    (items : List (Except Markup.Fault Markup.Event)) (d : Document H)
    (hCompile : c.compileEvents items dataContext = .ok d) :
    ∃ t : ObjectTree H, Document.Tells items t d ∧ d.NamesElements c t := by
  obtain ⟨root, s, hConstruct, rfl⟩ := Compiler.of_compileEvents hCompile
  obtain ⟨t, ds, a, hBuilt, id, hRoot⟩ := exists_constructed hConstruct
  have hElements := hBuilt.elements
  have hSealed := ((Finality.ends_construct c dataContext items).of_ok hConstruct).sealed
  refine ⟨t, hBuilt.tells root, hBuilt.distinct_identifiers hElements, fun id v => ?_, fun e hHead => ?_,
    hBuilt.product?_of_closed root hRoot, fun e hHead => hBuilt.handed root hHead⟩
  · refine (hBuilt.get?_eq_some_iff hElements id v).trans ⟨?_, ?_⟩
    · rintro ⟨closing, hClosed, hIdentifier, rfl⟩
      obtain ⟨e, hHead, -, hObject, hSame⟩ := hBuilt.exists_head hClosed
      refine ⟨e, hHead, hSame.trans hIdentifier, ?_⟩
      rw [hObject]
      exact hBuilt.product?_of_closed root hClosed
    · rintro ⟨e, hHead, hIdentifier, hProduct⟩
      obtain ⟨v', hClosed⟩ := hBuilt.exists_closing hHead
      have hStands := hBuilt.product?_of_closed root hClosed
      rw [hProduct, Option.some.injEq] at hStands
      exact ⟨_, hClosed, hIdentifier, hStands.symm⟩
  · obtain ⟨v, hClosed⟩ := hBuilt.exists_closing hHead
    obtain ⟨type, hType, hStands⟩ := hSealed.stands _ _ _ (hElements.mem_journal hClosed)
    have hOwn := hElements.types e.made (by
      rw [hBuilt.objects, t.objects_eq]
      exact List.mem_map.2 ⟨e, hHead, rfl⟩)
    have hSame : type = e.type := Option.some.inj (hType.symm.trans hOwn)
    subst hSame
    exact ⟨v, hBuilt.product?_of_closed root hClosed, hStands⟩

namespace Cards

/-- A card with a number in it, which has two identifiers, and with another card. -/
def named : List Markup.Event :=
  [ .start "Card", .attribute "xmlns:x" "urn:kiln:metadata", .attribute "x:Id" "a",
    .start "int", .attribute "x:Id" "m", .attribute "x:Id" "n", .text "5", .finish,
    .start "Card", .attribute "x:Id" "b", .finish, .finish ]

/-- Of two identifiers of an element only the last is declared. -/
theorem exists_named :
    ∃ d, compiler.compileEvents (named.map .ok) none = .ok d ∧ d.lookup "m" = none ∧
      (d.lookup "n").isSome = true := by
  have hRun : (compiler.compileEvents (named.map .ok) none).toOption.any (fun d =>
      (d.lookup "m").isNone && (d.lookup "n").isSome) = true := by
    decide +kernel
  obtain ⟨d, hCompiled, hNames⟩ := except_exists_of_any hRun
  obtain ⟨hFirst, hLast⟩ := Bool.and_eq_true_iff.1 hNames
  exact ⟨d, hCompiled, Option.isNone_iff_eq_none.1 hFirst, hLast⟩

end Cards

/-- Of two identifiers of the number, the last one names it. -/
theorem cards_names_declared :
    ∃ d, Cards.compiler.compileEvents (Cards.named.map .ok) none = .ok d ∧ d.lookup "m" = none ∧
      (d.lookup "n").isSome = true ∧
        ∃ t : ObjectTree Record.host, Document.Tells (Cards.named.map .ok) t d ∧
          d.NamesElements Cards.compiler t := by
  obtain ⟨d, hCompiled, hFirst, hLast⟩ := Cards.exists_named
  exact ⟨d, hCompiled, hFirst, hLast,
    Compiler.names_declared Cards.compiler none (Cards.named.map .ok) d hCompiled⟩

end ObjectMarkup
