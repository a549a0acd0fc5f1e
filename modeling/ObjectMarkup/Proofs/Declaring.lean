import Mathlib.Data.List.Nodup
import ObjectMarkup.Record.Data
import ObjectMarkup.Vocabulary.Declaration

/-!
# Repeated declarations

What a list of declarations is about, counted by subject, and what `ElementType.declare` makes of
it. A subject that is declared twice is reported, with one exception: of several products the last
one counts, and nobody hears of the others. A type that is declared without repetition holds what
was declared and nothing else, so that only the bases depend on the order of the declarations.
-/

set_option autoImplicit false

namespace ObjectMarkup

variable {H : Host} {α : Type}

namespace Declaration

/-- Something that a type should have only one of. -/
inductive Subject where
  | contentProperty
  | dataContextProperty
  | converter
  | extension
  | product
  | property (name : String)
deriving DecidableEq

/-- What a declaration is about. Constructors are left to the host, and there may be any number of
bases. -/
def subject? : Declaration H α → Option Subject
  | .constructor _ => none
  | .scalar name _ _ => some (.property name)
  | .readable name _ _ _ => some (.property name)
  | .collection name _ _ => some (.property name)
  | .list name _ => some (.property name)
  | .map name _ _ _ => some (.property name)
  | .assignableTo _ => none
  | .contentProperty _ => some .contentProperty
  | .dataContextProperty _ => some .dataContextProperty
  | .converter _ => some .converter
  | .extension _ _ => some .extension
  | .product _ => some .product

namespace Subject

/-- A failure's words for a subject. -/
def words : Subject → String
  | contentProperty => "content property"
  | dataContextProperty => "data-context property"
  | converter => "converter"
  | extension => "extension name"
  | product => "value factory"
  | property name => s!"property `{name}`"

/-- How many declarations are about a subject. -/
def count (s : Subject) (ds : List (Declaration H α)) : Nat :=
  ds.countP fun d => d.subject? == some s

/-- Declared more than once. -/
def Repeated (s : Subject) (ds : List (Declaration H α)) : Prop := 1 < s.count ds

/-- Whether something is declared repeatedly can be decided. -/
instance (s : Subject) (ds : List (Declaration H α)) : Decidable (s.Repeated ds) :=
  inferInstanceAs (Decidable (_ < _))

/-- How often something is declared does not depend on the order. -/
theorem count_perm {s : Subject} {ds ds' : List (Declaration H α)} (h : ds.Perm ds') :
    s.count ds = s.count ds' :=
  h.countP_eq _

/-- The declarations about a subject, found by their contents. -/
theorem length_filterMap {β : Type} {s : Subject} {find : Declaration H α → Option β}
    (h : ∀ d, (find d).isSome = (d.subject? == some s)) (ds : List (Declaration H α)) :
    (ds.filterMap find).length = s.count ds := by
  rw [List.length_filterMap_eq_countP, count]
  exact List.countP_congr fun d _ => by rw [h]

end Subject

variable {v : View H α} {ds : List (Declaration H α)}

/-! ### Properties and their names -/

/-- The declaration of a property is about that property. -/
theorem subject?_of_property? {d : Declaration H α} {p : Property H} (h : d.property? v = some p) :
    d.subject? = some (.property p.name) := by
  cases d <;> cases h <;> rfl

/-- What declares no property is about none. -/
theorem subject?_ne_of_property? {d : Declaration H α} (h : d.property? v = none) (name : String) :
    d.subject? ≠ some (.property name) := by
  cases d <;> cases h <;> simp [subject?]

/-- A name is declared as often as it is the name of a property. -/
theorem count_names (name : String) :
    ((ds.filterMap (property? v)).map Property.name).count name =
      (Subject.property name).count ds := by
  induction ds with
  | nil => rfl
  | cons d ds ih =>
    rw [Subject.count, List.countP_cons, ← Subject.count, ← ih]
    cases hProperty : d.property? v with
    | none =>
      have hOther : (d.subject? == some (Subject.property name)) = false :=
        beq_false_of_ne (subject?_ne_of_property? hProperty name)
      rw [List.filterMap_cons_none hProperty, hOther]
      rfl
    | some p =>
      rw [List.filterMap_cons_some hProperty, List.map_cons, List.count_cons,
        subject?_of_property? hProperty]
      simp

/-- No name is repeated if all are distinct, and none was seen before. -/
theorem firstRepeated_eq_none_iff {names : List String} :
    ∀ {seen : List String}, firstRepeated seen names = none ↔
      names.Nodup ∧ ∀ name ∈ names, name ∉ seen := by
  induction names with
  | nil => simp [firstRepeated]
  | cons name rest ih =>
    intro seen
    unfold firstRepeated
    by_cases hSeen : name ∈ seen
    · simp [hSeen]
    · have hFresh : (∀ other ∈ rest, other ∉ name :: seen) ↔
          name ∉ rest ∧ ∀ other ∈ rest, other ∉ seen := by
        constructor
        · intro h
          exact ⟨fun hName => h name hName List.mem_cons_self,
            fun other hOther hMem => h other hOther (List.mem_cons_of_mem _ hMem)⟩
        · rintro ⟨hName, h⟩ other hOther hMem
          rcases List.mem_cons.1 hMem with rfl | hMem
          · exact hName hOther
          · exact h other hOther hMem
      rw [if_neg (by simpa using hSeen), ih, hFresh, List.nodup_cons, List.forall_mem_cons]
      constructor
      · rintro ⟨hNodup, hName, h⟩
        exact ⟨⟨hName, hNodup⟩, hSeen, h⟩
      · rintro ⟨⟨hName, hNodup⟩, -, h⟩
        exact ⟨hNodup, hName, h⟩

/-- A name that is reported was seen before, or comes twice. -/
theorem of_firstRepeated {names : List String} {name : String} :
    ∀ {seen : List String}, firstRepeated seen names = some name →
      name ∈ names ∧ name ∈ seen ∨ 1 < names.count name := by
  induction names with
  | nil => intro seen h; cases h
  | cons first rest ih =>
    intro seen h
    unfold firstRepeated at h
    split at h
    · next hSeen =>
      cases h
      exact .inl ⟨List.mem_cons_self, by simpa using hSeen⟩
    · rcases ih h with ⟨hRest, hMem⟩ | hTwice
      · rcases List.mem_cons.1 hMem with rfl | hMem
        · refine .inr ?_
          rw [List.count_cons_self]
          have := List.count_pos_iff.2 hRest
          omega
        · exact .inl ⟨List.mem_cons_of_mem _ hRest, hMem⟩
      · exact .inr (Nat.lt_of_lt_of_le hTwice List.count_le_count_cons)

/-! ### What is found repeated -/

/-- The search for something repeated, with the declarations counted by subject. -/
theorem repeated?_eq : repeated? v ds =
    if Subject.contentProperty.Repeated ds then some Subject.contentProperty.words
    else if Subject.dataContextProperty.Repeated ds then some Subject.dataContextProperty.words
    else if Subject.converter.Repeated ds then some Subject.converter.words
    else if Subject.extension.Repeated ds then some Subject.extension.words
    else (firstRepeated [] ((ds.filterMap (property? v)).map Property.name)).map fun name =>
      (Subject.property name).words := by
  unfold repeated? Subject.Repeated
  rw [Subject.length_filterMap (s := .contentProperty) (by intro d; cases d <;> rfl),
    Subject.length_filterMap (s := .dataContextProperty) (by intro d; cases d <;> rfl),
    Subject.length_filterMap (s := .converter) (by intro d; cases d <;> rfl),
    Subject.length_filterMap (s := .extension) (by intro d; cases d <;> rfl)]
  rfl

/-- Whatever is reported is declared more than once, and it is no product. -/
theorem of_repeated? {what : String} (h : repeated? v ds = some what) :
    ∃ s : Subject, s ≠ .product ∧ s.Repeated ds ∧ what = s.words := by
  rw [repeated?_eq] at h
  split at h
  · next hContent => exact ⟨.contentProperty, nofun, hContent, (Option.some.inj h).symm⟩
  split at h
  · next hContext => exact ⟨.dataContextProperty, nofun, hContext, (Option.some.inj h).symm⟩
  split at h
  · next hConverter => exact ⟨.converter, nofun, hConverter, (Option.some.inj h).symm⟩
  split at h
  · next hExtension => exact ⟨.extension, nofun, hExtension, (Option.some.inj h).symm⟩
  obtain ⟨name, hFirst, rfl⟩ := Option.map_eq_some_iff.1 h
  rcases of_firstRepeated hFirst with ⟨-, hSeen⟩ | hTwice
  · cases hSeen
  · refine ⟨.property name, nofun, ?_, rfl⟩
    rwa [Subject.Repeated, ← count_names (v := v)]

/-- The properties have distinct names if none is declared repeatedly. -/
theorem nodup_names_iff : ((ds.filterMap (property? v)).map Property.name).Nodup ↔
    ∀ name, ¬ (Subject.property name).Repeated ds := by
  rw [List.nodup_iff_count_le_one]
  refine forall_congr' fun name => ?_
  rw [count_names, Subject.Repeated, Nat.not_lt]

/-- Nothing is reported exactly if nothing is declared more than once but products. -/
theorem repeated?_eq_none_iff :
    repeated? v ds = none ↔ ∀ s : Subject, s ≠ .product → ¬ s.Repeated ds := by
  constructor
  · intro h s hNotProduct hRepeated
    rw [repeated?_eq] at h
    split at h
    · cases h
    split at h
    · cases h
    split at h
    · cases h
    split at h
    · cases h
    have hNodup := nodup_names_iff.1 (firstRepeated_eq_none_iff.1 (Option.map_eq_none_iff.1 h)).1
    cases s with
    | product => exact hNotProduct rfl
    | property name => exact hNodup name hRepeated
    | contentProperty | dataContextProperty | converter | extension => contradiction
  · intro h
    cases hRepeated : repeated? v ds with
    | none => rfl
    | some what =>
      obtain ⟨s, hNotProduct, hTwice, -⟩ := of_repeated? hRepeated
      exact absurd hTwice (h s hNotProduct)

/-! ### What is declared -/

/-- A constructor is declared as such. -/
theorem constructor?_eq_some_iff {d : Declaration H α} {a : α} :
    d.constructor? = some a ↔ d = .constructor a := by
  cases d <;> simp [constructor?]

/-- A content property is declared as such. -/
theorem contentProperty?_eq_some_iff {d : Declaration H α} {name : String} :
    d.contentProperty? = some name ↔ d = .contentProperty name := by
  cases d <;> simp [contentProperty?]

/-- A property for the data context is declared as such. -/
theorem dataContextProperty?_eq_some_iff {d : Declaration H α} {name : String} :
    d.dataContextProperty? = some name ↔ d = .dataContextProperty name := by
  cases d <;> simp [dataContextProperty?]

/-- A converter is declared as such. -/
theorem converter?_eq_some_iff {d : Declaration H α} {c : H.Converter} :
    d.converter? = some c ↔ d = .converter c := by
  cases d <;> simp [converter?]

/-- An extension is declared as such. -/
theorem extension?_eq_some_iff {d : Declaration H α} {name : String} {e : Extension H} :
    d.extension? = some (name, e) ↔ d = .extension name e := by
  cases d <;> simp [extension?]

/-- A product is declared as such. -/
theorem product?_eq_some_iff {d : Declaration H α} {produce : α → Value} :
    d.product? = some produce ↔ d = .product produce := by
  cases d <;> simp [product?]

/-- What is declared at most once is the head of what is found, if and only if it is declared. -/
theorem head?_filterMap_eq_some_iff {β : Type} {find : Declaration H α → Option β}
    {make : β → Declaration H α} (hFind : ∀ d b, find d = some b ↔ d = make b)
    (hOnce : (ds.filterMap find).length ≤ 1) {b : β} :
    (ds.filterMap find).head? = some b ↔ make b ∈ ds := by
  have hMem : b ∈ ds.filterMap find ↔ make b ∈ ds := by
    simp [List.mem_filterMap, hFind]
  rw [← hMem]
  match ds.filterMap find, hOnce with
  | [], _ => simp
  | [only], _ => simp [eq_comm]

/-- The last of the products that are declared. -/
theorem getLast?_products_eq_some_iff {produce : α → Value} :
    (ds.filterMap product?).getLast? = some produce ↔
      ∃ before after, ds = before ++ .product produce :: after ∧
        Subject.product.count after = 0 := by
  have hCount (ds : List (Declaration H α)) :
      (ds.filterMap product?).length = Subject.product.count ds :=
    Subject.length_filterMap (by intro d; cases d <;> rfl) ds
  rw [List.getLast?_eq_some_iff]
  constructor
  · rintro ⟨earlier, hLast⟩
    obtain ⟨ds₁, ds₂, rfl, -, hFound⟩ := List.filterMap_eq_append_iff.1 hLast
    obtain ⟨between, d, after, rfl, -, hProduct, hAfter⟩ := List.filterMap_eq_cons_iff.1 hFound
    rw [product?_eq_some_iff.1 hProduct]
    refine ⟨ds₁ ++ between, after, (List.append_assoc ..).symm, ?_⟩
    rw [← hCount, hAfter]
    rfl
  · rintro ⟨before, after, rfl, hAfter⟩
    have hNone : after.filterMap product? = [] :=
      List.eq_nil_of_length_eq_zero ((hCount after).trans hAfter)
    refine ⟨before.filterMap product?, ?_⟩
    have hSome : product? (.product produce : Declaration H α) = some produce := rfl
    rw [List.filterMap_append, List.filterMap_cons_some hSome, hNone]

end Declaration

namespace ElementType

open Declaration (Subject)

/-- A type that holds what declarations about a class say, and nothing else. -/
structure Holds (v : View H α) (key : TypeName) (ds : List (Declaration H α))
    (t : ElementType H) : Prop where
  key_eq : t.key = key
  fresh : ∀ object, t.fresh = some object ↔ ∃ a, .constructor a ∈ ds ∧ object = v.wrap a
  properties : ∀ p, p ∈ t.properties ↔ ∃ d ∈ ds, d.property? v = some p
  /-- No two properties have one name. -/
  distinct : (t.properties.map Property.name).Nodup
  bases : t.bases = ds.filterMap Declaration.base?
  contentName : ∀ name, t.contentName = some name ↔ .contentProperty name ∈ ds
  dataContextName : ∀ name, t.dataContextName = some name ↔ .dataContextProperty name ∈ ds
  converter : ∀ c, t.converter = some c ↔ .converter c ∈ ds
  extension : ∀ name e, t.extension = some (name, e) ↔ .extension name e ∈ ds
  /-- Of several products it holds the last. -/
  product : ∀ stands, t.product = some stands ↔
    ∃ before produce after, ds = before ++ .product produce :: after ∧
      Subject.product.count after = 0 ∧ stands = Declaration.liftRead v produce

/-- Two types that differ at most in the order of their properties and bases, and in what their
instances stand for. -/
structure Reorders (t t' : ElementType H) : Prop where
  key : t'.key = t.key
  fresh : t'.fresh = t.fresh
  properties : t.properties.Perm t'.properties
  property? : ∀ name, t'.property? name = t.property? name
  bases : t.bases.Perm t'.bases
  contentName : t'.contentName = t.contentName
  dataContextName : t'.dataContextName = t.dataContextName
  converter : t'.converter = t.converter
  extension : t'.extension = t.extension

variable {v : View H α} {key : TypeName} {ds : List (Declaration H α)} {t : ElementType H}

/-- A type that is declared is assembled from the declarations. -/
theorem eq_assemble_of_declare (h : declare v key ds = .ok t) : t = assemble v key ds := by
  unfold declare at h
  split at h
  · cases h
  · exact (Except.ok.inj h).symm

/-- A property is found by its name, when no two have one. -/
theorem property?_eq_some_iff (hDistinct : (t.properties.map Property.name).Nodup) {name : String}
    {p : Property H} : t.property? name = some p ↔ p ∈ t.properties ∧ p.name = name := by
  unfold property?
  constructor
  · intro h
    exact ⟨List.mem_of_find?_eq_some h, by simpa using List.find?_some h⟩
  · rintro ⟨hMem, rfl⟩
    cases hFind : t.properties.find? fun q => q.name == p.name with
    | none => exact absurd (List.find?_eq_none.1 hFind p hMem) (by simp)
    | some q =>
      have hName : q.name = p.name := by simpa using List.find?_some hFind
      rw [List.inj_on_of_nodup_map hDistinct (List.mem_of_find?_eq_some hFind) hMem hName]

/-- What is declared without repetition is what the assembled type holds. -/
theorem holds_assemble (hOnce : (ds.filterMap Declaration.constructor?).length ≤ 1)
    (h : ∀ s : Subject, s ≠ .product → ¬ s.Repeated ds) : (assemble v key ds).Holds v key ds := by
  have hLength {β : Type} {s : Subject} {find : Declaration H α → Option β} (hOther : s ≠ .product)
      (hFind : ∀ d, (find d).isSome = (d.subject? == some s)) : (ds.filterMap find).length ≤ 1 := by
    rw [Subject.length_filterMap hFind]
    exact Nat.not_lt.1 (h s hOther)
  refine
    { key_eq := rfl
      fresh := fun object => ?_
      properties := fun p => List.mem_filterMap
      distinct := Declaration.nodup_names_iff.2 fun name => h (.property name) nofun
      bases := rfl
      contentName := fun name => ?_
      dataContextName := fun name => ?_
      converter := fun c => ?_
      extension := fun name e => ?_
      product := fun stands => ?_ }
  · have hLast : (ds.filterMap Declaration.constructor?).getLast? =
        (ds.filterMap Declaration.constructor?).head? := by
      match ds.filterMap Declaration.constructor?, hOnce with
      | [], _ => rfl
      | [_], _ => rfl
    have hHead (a : α) : (ds.filterMap Declaration.constructor?).head? = some a ↔
        .constructor a ∈ ds :=
      Declaration.head?_filterMap_eq_some_iff
        (fun d b => Declaration.constructor?_eq_some_iff) hOnce
    simp only [assemble, hLast, Option.map_eq_some_iff, hHead]
    exact exists_congr fun a => and_congr_right fun _ => eq_comm
  · exact Declaration.head?_filterMap_eq_some_iff
      (fun d b => Declaration.contentProperty?_eq_some_iff)
      (hLength (s := .contentProperty) nofun (by intro d; cases d <;> rfl))
  · exact Declaration.head?_filterMap_eq_some_iff
      (fun d b => Declaration.dataContextProperty?_eq_some_iff)
      (hLength (s := .dataContextProperty) nofun (by intro d; cases d <;> rfl))
  · exact Declaration.head?_filterMap_eq_some_iff
      (fun d b => Declaration.converter?_eq_some_iff)
      (hLength (s := .converter) nofun (by intro d; cases d <;> rfl))
  · have hFind (d : Declaration H α) (b : String × Extension H) :
        d.extension? = some b ↔ d = .extension b.1 b.2 := Declaration.extension?_eq_some_iff
    exact Declaration.head?_filterMap_eq_some_iff (b := (name, e)) hFind
      (hLength (s := .extension) nofun (by intro d; cases d <;> rfl))
  · simp only [assemble, Option.map_eq_some_iff, Declaration.getLast?_products_eq_some_iff]
    constructor
    · rintro ⟨produce, ⟨before, after, hSplit, hAfter⟩, rfl⟩
      exact ⟨before, produce, after, hSplit, hAfter, rfl⟩
    · rintro ⟨before, produce, after, hSplit, hAfter, rfl⟩
      exact ⟨produce, ⟨before, after, hSplit, hAfter⟩, rfl⟩

/-- A product that is not repeated is what instances stand for. -/
theorem Holds.product_iff (h : t.Holds v key ds) (hOnce : ¬ Subject.product.Repeated ds)
    (stands : Instance H → Option Value) :
    t.product = some stands ↔
      ∃ produce, .product produce ∈ ds ∧ stands = Declaration.liftRead v produce := by
  rw [h.product]
  constructor
  · rintro ⟨before, produce, after, rfl, -, hStands⟩
    exact ⟨produce, by simp, hStands⟩
  · rintro ⟨produce, hMem, hStands⟩
    obtain ⟨before, after, rfl⟩ := List.append_of_mem hMem
    refine ⟨before, produce, after, rfl, ?_, hStands⟩
    have hCount : Subject.product.count (before ++ .product produce :: after) =
        Subject.product.count before + (Subject.product.count after + 1) := by
      rw [Subject.count, List.countP_append, List.countP_cons]
      rfl
    rw [Subject.Repeated, hCount] at hOnce
    omega

/-- Types that hold what is declared in different orders. -/
theorem Holds.reorders {ds' : List (Declaration H α)} {t' : ElementType H} (h : t.Holds v key ds)
    (h' : t'.Holds v key ds') (hPerm : ds.Perm ds') : t.Reorders t' := by
  have hSame (p : Property H) : p ∈ t'.properties ↔ p ∈ t.properties := by
    rw [h'.properties, h.properties]
    simp only [hPerm.mem_iff]
  constructor
  case key => rw [h.key_eq, h'.key_eq]
  case fresh =>
    refine Option.ext fun object => ?_
    rw [h.fresh, h'.fresh]
    simp only [hPerm.mem_iff]
  case properties =>
    exact (List.perm_ext_iff_of_nodup h.distinct.of_map h'.distinct.of_map).2
      fun p => (hSame p).symm
  case property? =>
    refine fun name => Option.ext fun p => ?_
    rw [property?_eq_some_iff h.distinct, property?_eq_some_iff h'.distinct, hSame]
  case bases =>
    rw [h.bases, h'.bases]
    exact hPerm.filterMap _
  case contentName =>
    exact Option.ext fun name => by rw [h.contentName, h'.contentName, hPerm.mem_iff]
  case dataContextName =>
    exact Option.ext fun name => by rw [h.dataContextName, h'.dataContextName, hPerm.mem_iff]
  case converter =>
    exact Option.ext fun c => by rw [h.converter, h'.converter, hPerm.mem_iff]
  case extension =>
    exact Option.ext fun e => by rw [h.extension e.1 e.2, h'.extension e.1 e.2, hPerm.mem_iff]

/-- **Repeated declarations are reported, products apart.** For a class with at most one
constructor, declaring fails exactly if something other than a product is declared more than once,
and the failure names such a subject. A type that is declared holds what was declared: of several
products the last, of everything else all. Declared in another order it fails or not as before, and
it is the same type up to the order of its bases, if no product was declared twice. -/
theorem declare_accounts {v : View H α} {key : TypeName} {ds : List (Declaration H α)}
    (hOnce : (ds.filterMap Declaration.constructor?).length ≤ 1) :
    ((∃ failure, declare v key ds = .error failure) ↔
      ∃ s : Subject, s ≠ .product ∧ s.Repeated ds) ∧
    (∀ failure, declare v key ds = .error failure →
      ∃ s : Subject, s ≠ .product ∧ s.Repeated ds ∧
        failure = .ambiguousMetadata key.name s.words) ∧
    (∀ t, declare v key ds = .ok t → t.Holds v key ds ∧
      (¬ Subject.product.Repeated ds → ∀ stands, t.product = some stands ↔
        ∃ produce, .product produce ∈ ds ∧ stands = Declaration.liftRead v produce)) ∧
    ∀ ds', ds.Perm ds' →
      ((∃ failure, declare v key ds' = .error failure) ↔
        ∃ failure, declare v key ds = .error failure) ∧
      ∀ t t', declare v key ds = .ok t → declare v key ds' = .ok t' →
        t.Reorders t' ∧ (¬ Subject.product.Repeated ds → t'.product = t.product) := by
  have hFails (ds : List (Declaration H α)) (failure : Failure)
      (h : declare v key ds = .error failure) :
      ∃ s : Subject, s ≠ .product ∧ s.Repeated ds ∧
        failure = .ambiguousMetadata key.name s.words := by
    unfold declare at h
    split at h
    · next what hRepeated =>
      obtain ⟨s, hOther, hTwice, rfl⟩ := Declaration.of_repeated? hRepeated
      exact ⟨s, hOther, hTwice, (Except.error.inj h).symm⟩
    · cases h
  have hFails_iff (ds : List (Declaration H α)) :
      (∃ failure, declare v key ds = .error failure) ↔
        ∃ s : Subject, s ≠ .product ∧ s.Repeated ds := by
    constructor
    · rintro ⟨failure, h⟩
      obtain ⟨s, hOther, hTwice, -⟩ := hFails ds failure h
      exact ⟨s, hOther, hTwice⟩
    · rintro ⟨s, hOther, hTwice⟩
      unfold declare
      split
      · exact ⟨_, rfl⟩
      · next hNone => exact absurd hTwice (Declaration.repeated?_eq_none_iff.1 hNone s hOther)
  have hHolds (ds : List (Declaration H α)) (t : ElementType H)
      (hOnce : (ds.filterMap Declaration.constructor?).length ≤ 1)
      (h : declare v key ds = .ok t) : t.Holds v key ds := by
    have hNone : ∀ s : Subject, s ≠ .product → ¬ s.Repeated ds := by
      intro s hOther hTwice
      obtain ⟨failure, hError⟩ := (hFails_iff ds).2 ⟨s, hOther, hTwice⟩
      rw [hError] at h
      cases h
    rw [eq_assemble_of_declare h]
    exact holds_assemble hOnce hNone
  refine ⟨hFails_iff ds, hFails ds, fun t h => ⟨hHolds ds t hOnce h, fun hProduct =>
    (hHolds ds t hOnce h).product_iff hProduct⟩, fun ds' hPerm => ⟨?_, fun t t' h h' => ?_⟩⟩
  · simp only [hFails_iff, Subject.Repeated, Subject.count_perm hPerm]
  · have hOnce' : (ds'.filterMap Declaration.constructor?).length ≤ 1 :=
      (hPerm.filterMap Declaration.constructor?).length_eq ▸ hOnce
    have hHolds₁ := hHolds ds t hOnce h
    have hHolds₂ := hHolds ds' t' hOnce' h'
    refine ⟨hHolds₁.reorders hHolds₂ hPerm, fun hProduct => Option.ext fun stands => ?_⟩
    have hProduct' : ¬ Subject.product.Repeated ds' := by
      rwa [Subject.Repeated, ← Subject.count_perm hPerm]
    rw [hHolds₁.product_iff hProduct, hHolds₂.product_iff hProduct']
    simp only [hPerm.mem_iff]

/-- A box with a content property and two products is no failure: it stands for the second. With a
second content property it is one, which names the content property. -/
theorem declare_accounts_box :
    (∃ t : ElementType Record.host,
      declare View.box ⟨"urn:a", "Box"⟩ [.product fun _ => .null, .contentProperty "Content",
        .constructor none, .product fun _ => .bool true] = .ok t ∧
      t.contentName = some "Content" ∧ t.produce (.box none) = some (.bool true)) ∧
    ∃ failure, declare (H := Record.host) View.box ⟨"urn:a", "Box"⟩
      [.contentProperty "Content", .constructor none, .contentProperty "Text"] = .error failure ∧
        failure.message = "type `Box` declares more than one content property" := by
  constructor
  · have hHolds := ((@declare_accounts Record.host _ View.box ⟨"urn:a", "Box"⟩
      [.product fun _ => .null, .contentProperty "Content", .constructor none,
        .product fun _ => .bool true] (by decide)).2.2.1 _ rfl).1
    refine ⟨_, rfl, (hHolds.contentName "Content").2 (by simp), ?_⟩
    rw [produce, (hHolds.product _).2 ⟨[.product fun _ => .null, .contentProperty "Content",
      .constructor none], fun _ => .bool true, [], rfl, rfl, rfl⟩]
    rfl
  · obtain ⟨hIff, -⟩ := @declare_accounts Record.host _ View.box ⟨"urn:a", "Box"⟩
      [.contentProperty "Content", .constructor none, .contentProperty "Text"] (by decide)
    obtain ⟨failure, hFails⟩ := hIff.2 ⟨.contentProperty, by decide, by decide⟩
    refine ⟨failure, hFails, ?_⟩
    cases hFails
    decide

/-- Not all repetitions are reported: a second product is accepted. -/
theorem exists_repeated_product : ¬ ∀ ds : List (Declaration Record.host (Option Value)),
    (ds.filterMap Declaration.constructor?).length ≤ 1 →
      ((∃ failure, declare View.box ⟨"urn:a", "Box"⟩ ds = .error failure) ↔
        ∃ s : Subject, s.Repeated ds) := by
  intro h
  obtain ⟨failure, hFails⟩ := (h [.product fun _ => .null, .product fun _ => .bool true]
    (by decide)).2 ⟨.product, by decide⟩
  cases hFails

end ElementType

end ObjectMarkup
