/-!
# Sets of identifiers

The identifiers that something waits for, as a strictly increasing list, by code point. The list is
the set: two sets with the same members are equal.
-/

set_option autoImplicit false

namespace ObjectMarkup

/-- A finite set of identifiers. -/
structure Identifiers where
  toList : List String
  increasing : toList.Pairwise (· < ·)
deriving DecidableEq

namespace Identifiers

/-- A list with `x` put before the first greater member, unless it is a member. -/
def insertInto (x : String) : List String → List String
  | [] => [x]
  | y :: rest =>
    if x < y then x :: y :: rest
    else if x = y then y :: rest
    else y :: insertInto x rest

/-- An insertion adds the inserted member and no other. -/
theorem mem_insertInto {x z : String} {l : List String} :
    z ∈ insertInto x l ↔ z = x ∨ z ∈ l := by
  induction l with
  | nil => simp [insertInto]
  | cons y rest ih =>
    unfold insertInto
    split
    · simp
    · split
      · next h => subst h; simp
      · simp [ih]
        grind

/-- An insertion keeps a list increasing. -/
theorem increasing_insertInto {x : String} {l : List String} (h : l.Pairwise (· < ·)) :
    (insertInto x l).Pairwise (· < ·) := by
  induction l with
  | nil => simp [insertInto]
  | cons y rest ih =>
    rw [List.pairwise_cons] at h
    unfold insertInto
    split
    · next hlt =>
      refine List.pairwise_cons.2 ⟨?_, List.pairwise_cons.2 h⟩
      intro z hz
      rcases List.mem_cons.1 hz with rfl | hz
      · exact hlt
      · exact String.lt_trans hlt (h.1 z hz)
    · split
      · exact List.pairwise_cons.2 h
      · next hlt hne =>
        refine List.pairwise_cons.2 ⟨?_, ih h.2⟩
        intro z hz
        rcases mem_insertInto.1 hz with rfl | hz
        · exact Std.lt_of_le_of_ne (Std.not_lt.1 hlt) (fun e => hne e.symm)
        · exact h.1 z hz

/-- No identifiers. -/
def empty : Identifiers := ⟨[], List.Pairwise.nil⟩

/-- A set with one more identifier. -/
def insert (s : Identifiers) (x : String) : Identifiers :=
  ⟨insertInto x s.toList, increasing_insertInto s.increasing⟩

/-- The set of the identifiers of a list, in whatever order and however often it has them. -/
def ofList (xs : List String) : Identifiers :=
  xs.foldl insert empty

/-- The identifiers of two sets. -/
def union (s t : Identifiers) : Identifiers :=
  t.toList.foldl insert s

/-- Whether there are no identifiers. -/
def isEmpty (s : Identifiers) : Bool := s.toList.isEmpty

/-- An identifier is in a set when it is in its list. -/
instance : Membership String Identifiers := ⟨fun s x => x ∈ s.toList⟩

/-- Membership in a set is that in its list. -/
theorem mem_def {s : Identifiers} {x : String} : x ∈ s ↔ x ∈ s.toList := Iff.rfl

/-- Nothing is in the empty set. -/
theorem not_mem_empty (x : String) : ¬ x ∈ empty := by
  simp [mem_def, empty]

/-- An insertion adds the inserted identifier and no other. -/
theorem mem_insert {s : Identifiers} {x y : String} : y ∈ s.insert x ↔ y = x ∨ y ∈ s :=
  mem_insertInto

/-- Inserting the identifiers of a list one after the other adds these and no others. -/
theorem mem_foldl_insert {xs : List String} {s : Identifiers} {y : String} :
    y ∈ xs.foldl insert s ↔ y ∈ xs ∨ y ∈ s := by
  induction xs generalizing s with
  | nil => simp
  | cons x rest ih => rw [List.foldl_cons, ih, mem_insert, List.mem_cons]; grind

/-- The set of a list has the members of the list. -/
theorem mem_ofList {xs : List String} {y : String} : y ∈ ofList xs ↔ y ∈ xs := by
  simp [ofList, mem_foldl_insert, not_mem_empty]

/-- A union has the members of both sets. -/
theorem mem_union {s t : Identifiers} {y : String} : y ∈ s.union t ↔ y ∈ s ∨ y ∈ t := by
  rw [union, mem_foldl_insert, mem_def (s := t)]
  exact Or.comm

/-- A set is empty when nothing is in it. -/
theorem isEmpty_iff {s : Identifiers} : s.isEmpty = true ↔ ∀ x, ¬ x ∈ s := by
  rw [isEmpty, List.isEmpty_iff, List.eq_nil_iff_forall_not_mem]
  rfl

/-- Two strictly increasing lists with the same members are equal. -/
theorem eq_of_increasing {l m : List String} (hl : l.Pairwise (· < ·)) (hm : m.Pairwise (· < ·))
    (h : ∀ x, x ∈ l ↔ x ∈ m) : l = m := by
  induction l generalizing m with
  | nil =>
    cases m with
    | nil => rfl
    | cons y rest => exact absurd ((h y).2 (List.mem_cons_self ..)) (by simp)
  | cons x l' ih =>
    cases m with
    | nil => exact absurd ((h x).1 (List.mem_cons_self ..)) (by simp)
    | cons y m' =>
      rw [List.pairwise_cons] at hl hm
      have hxy : x = y := by
        rcases List.mem_cons.1 ((h x).1 (List.mem_cons_self ..)) with e | hx
        · exact e
        · rcases List.mem_cons.1 ((h y).2 (List.mem_cons_self ..)) with e | hy
          · exact e.symm
          · exact absurd (String.lt_trans (hm.1 x hx) (hl.1 y hy)) (String.lt_irrefl y)
      subst hxy
      congr 1
      refine ih hl.2 hm.2 fun z => ⟨fun hz => ?_, fun hz => ?_⟩
      · rcases List.mem_cons.1 ((h z).1 (List.mem_cons_of_mem _ hz)) with e | hz'
        · subst e
          exact absurd (hl.1 z hz) (String.lt_irrefl z)
        · exact hz'
      · rcases List.mem_cons.1 ((h z).2 (List.mem_cons_of_mem _ hz)) with e | hz'
        · subst e
          exact absurd (hm.1 z hz) (String.lt_irrefl z)
        · exact hz'

/-- A set is its members. -/
theorem ext {s t : Identifiers} (h : ∀ x, x ∈ s ↔ x ∈ t) : s = t := by
  have : s.toList = t.toList := eq_of_increasing s.increasing t.increasing h
  cases s
  cases t
  cases this
  rfl

end Identifiers

end ObjectMarkup
