import ObjectMarkup.Markup.Name

/-!
# Names put together

Raw names split where they were put together: a qualified name at the colon, if there is none in the
qualifier, and the name of a property tag at the full stop, if there is none in the property.
-/

set_option autoImplicit false

namespace ObjectMarkup

/-! ### Splitting characters -/

/-- There is no split where the mark does not occur. -/
theorem splitFirst_eq_none_iff {mark : Char} {cs : List Char} :
    splitFirst mark cs = none ↔ mark ∉ cs := by
  induction cs with
  | nil => simp [splitFirst]
  | cons c rest ih =>
    rw [splitFirst, List.mem_cons, not_or, ← ih]
    by_cases hMark : c = mark
    · simp [hMark]
    · simp [hMark, Ne.symm hMark]

/-- The split is at the first mark. -/
theorem splitFirst_append {mark : Char} {before : List Char} (h : mark ∉ before)
    (after : List Char) : splitFirst mark (before ++ mark :: after) = some (before, after) := by
  induction before with
  | nil => simp [splitFirst]
  | cons c rest ih =>
    rw [List.mem_cons, not_or] at h
    obtain ⟨hFirst, hRest⟩ := h
    rw [List.cons_append, splitFirst, if_neg (Ne.symm hFirst), ih hRest]
    rfl

/-- A split at the first mark puts together what it splits. -/
theorem splitFirst_eq_some_iff {mark : Char} {cs before after : List Char} :
    splitFirst mark cs = some (before, after) ↔ cs = before ++ mark :: after ∧ mark ∉ before := by
  constructor
  · intro h
    induction cs generalizing before with
    | nil => cases h
    | cons c rest ih =>
      rw [splitFirst] at h
      split at h
      · next hMark =>
        cases h
        exact ⟨by rw [hMark, List.nil_append], List.not_mem_nil⟩
      · next hMark =>
        obtain ⟨⟨earlier, later⟩, hRest, hSame⟩ := Option.map_eq_some_iff.1 h
        cases hSame
        obtain ⟨rfl, hBefore⟩ := ih hRest
        refine ⟨rfl, fun hMem => ?_⟩
        rcases List.mem_cons.1 hMem with rfl | hMem
        · exact hMark rfl
        · exact hBefore hMem
  · rintro ⟨rfl, hBefore⟩
    exact splitFirst_append hBefore after

namespace Name

/-! ### Qualified names -/

/-- A name under a qualifier. -/
def qualify (qualifier name : String) : String := qualifier ++ ":" ++ name

/-- A qualified name splits where its parts were put together, if the qualifier has no colon. -/
theorem splitQualifier_qualify {qualifier : String} (h : ':' ∉ qualifier.toList) (name : String) :
    splitQualifier (qualify qualifier name) = (some qualifier, name) := by
  have hList : (qualify qualifier name).toList = qualifier.toList ++ ':' :: name.toList := by
    simp [qualify]
  rw [splitQualifier, hList, splitFirst_append h]
  simp

/-- A name without a colon is not qualified. -/
theorem splitQualifier_of_notMem {name : String} (h : ':' ∉ name.toList) :
    splitQualifier name = (none, name) := by
  rw [splitQualifier, splitFirst_eq_none_iff.mpr h]

/-- A name without a colon declares nothing, unless it is the namespace attribute. -/
theorem declaredQualifier_of_notMem {name : String} (h : ':' ∉ name.toList)
    (hOther : name ≠ namespaceAttribute) : declaredQualifier name = none := by
  rw [declaredQualifier, splitQualifier_of_notMem h]
  exact if_neg hOther

/-- A name is qualified, by what stands before its first colon, or has no colon. -/
theorem qualify_or_notMem (name : String) :
    (∃ qualifier rest, ':' ∉ qualifier.toList ∧ name = qualify qualifier rest) ∨
      ':' ∉ name.toList := by
  cases hSplit : splitFirst ':' name.toList with
  | none => exact .inr (splitFirst_eq_none_iff.1 hSplit)
  | some parts =>
    obtain ⟨hList, hBefore⟩ := splitFirst_eq_some_iff.1 hSplit
    refine .inl ⟨String.ofList parts.1, String.ofList parts.2, by simpa using hBefore, ?_⟩
    rw [← String.toList_inj, hList]
    simp [qualify]

/-! ### Names of property tags -/

/-- Only a name with a full stop is one of a property tag. -/
theorem splitProperty_eq_none_iff {name : String} :
    splitProperty name = none ↔ '.' ∉ name.toList := by
  rw [splitProperty, Option.map_eq_none_iff, splitLast, Option.map_eq_none_iff,
    splitFirst_eq_none_iff, List.mem_reverse]

/-- The name of the tag of a property, in an element with this tag. -/
def ofProperty (tag property : String) : String := tag ++ "." ++ property

/-- A property tag splits where its parts were put together, if the property has no full stop in
it. -/
theorem splitProperty_ofProperty (tag : String) {property : String} (h : '.' ∉ property.toList) :
    splitProperty (ofProperty tag property) = some (tag, property) := by
  have hReverse : (ofProperty tag property).toList.reverse =
      property.toList.reverse ++ '.' :: tag.toList.reverse := by
    simp [ofProperty]
  rw [splitProperty, splitLast, hReverse, splitFirst_append (by simpa using h)]
  simp

end Name

end ObjectMarkup
