import ObjectMarkup.Proofs.Assignment
import ObjectMarkup.Proofs.Failing
import ObjectMarkup.Proofs.Handles
import ObjectMarkup.Proofs.Typing

/-!
# Conversions repeated

What a conversion looks at, objects that are made later do not change: whether a type takes a value, what
the value is as a source, and which converter is to be used. So if converters do the same where there are
more objects, up to the handles of those that they make, a conversion that is made twice gives the same
twice; and what it gave, converted again, stays what it is (`convert_twice`).

The handles that a second conversion gives are those of the first, moved behind what the first one made
(`ObjectId.shift`). What that does to an object is up to the host: `renumber` tells it.
-/

set_option autoImplicit false

namespace ObjectMarkup

open Operation

variable {H : Host}

/-! ### Handles that move -/

/-- The handle of an object when `count` objects are put in before it: those below `base` stay in place. -/
def ObjectId.shift (base count : Nat) (id : ObjectId) : ObjectId :=
  if id.index < base then id else ⟨id.index + count⟩

/-- A value with another handle, if it is one. -/
def Value.rename (σ : ObjectId → ObjectId) : Value → Value
  | .object id => .object (σ id)
  | v => v

/-- The objects below the base keep their numbers. -/
theorem ObjectId.shift_of_lt {base count : Nat} {id : ObjectId} (h : id.index < base) :
    id.shift base count = id :=
  if_pos h

/-- The objects from the base on get higher numbers. -/
theorem ObjectId.shift_of_le {base count : Nat} {id : ObjectId} (h : base ≤ id.index) :
    id.shift base count = ⟨id.index + count⟩ :=
  if_neg (Nat.not_lt_of_le h)

/-- A shift by nothing leaves all numbers. -/
theorem ObjectId.shift_zero (base : Nat) (id : ObjectId) : id.shift base 0 = id := by
  by_cases h : id.index < base
  · exact shift_of_lt h
  · exact shift_of_le (Nat.le_of_not_lt h)

/-- A value with handles below the base is not changed by a shift. -/
theorem Value.rename_of_validIn {v : Value} {g : ObjectGraph H} (h : v.ValidIn g) (count : Nat) :
    v.rename (ObjectId.shift g.size count) = v := by
  cases v with
  | object id => rw [rename, ObjectId.shift_of_lt (h id rfl)]
  | _ => rfl

/-- A shift by nothing leaves all values. -/
theorem Value.rename_shift_zero (base : Nat) (v : Value) : v.rename (ObjectId.shift base 0) = v := by
  cases v with
  | object id => rw [rename, ObjectId.shift_zero]
  | _ => rfl

/-- `g'` is `g` with `count` objects put in at `base`. The objects before them are the same, and those
behind them are the same up to the handles, which `renumber` moves in an object. -/
structure ObjectGraph.Shifts (renumber : (ObjectId → ObjectId) → Instance H → Instance H)
    (base count : Nat) (g g' : ObjectGraph H) : Prop where
  base_le : base ≤ g.size
  size : g'.size = g.size + count
  old : ∀ id : ObjectId, id.index < base → g'.slot? id = g.slot? id
  new : ∀ id : ObjectId, base ≤ id.index → g'.slot? (id.shift base count) =
    (g.slot? id).map fun slot => { slot with object := renumber (ObjectId.shift base count) slot.object }

namespace ObjectGraph.Shifts

variable {renumber : (ObjectId → ObjectId) → Instance H → Instance H} {base count : Nat}
  {g g' : ObjectGraph H}

/-- A graph with more objects is one with these put in at the end. -/
theorem of_appends {vocabulary : Vocabulary H} (h : g.Appends vocabulary g') :
    g.Shifts renumber g.size (g'.size - g.size) g' where
  base_le := Nat.le_refl _
  size := (Nat.add_sub_cancel' h.size_le).symm
  old _ hOld := h.slot?_eq hOld
  new id hNew := by
    have hSize := h.size_le
    rw [ObjectId.shift_of_le hNew, (g.slot?_eq_none_iff id).2 hNew, Option.map_none, slot?_eq_none_iff]
    show g'.size ≤ id.index + (g'.size - g.size)
    omega

/-- The objects that were shifted have the same types. -/
theorem type?_shift (h : g.Shifts renumber base count g') (id : ObjectId) :
    g'.type? (id.shift base count) = g.type? id := by
  by_cases hOld : id.index < base
  · rw [ObjectId.shift_of_lt hOld, type?, h.old id hOld, type?]
  · rw [type?, h.new id (Nat.le_of_not_lt hOld), type?, Option.map_map]
    rfl

/-- The next object is shifted too. -/
theorem nextId (h : g.Shifts renumber base count g') : g'.nextId = g.nextId.shift base count := by
  have hLe : base ≤ g.nextId.index := h.base_le
  rw [ObjectId.shift_of_le hLe]
  show (⟨g'.size⟩ : ObjectId) = ⟨g.size + count⟩
  rw [h.size]

/-- Graphs that are shifted stay so when both get the object. -/
theorem insert (h : g.Shifts renumber base count g') (type : ElementType H) (object : Instance H) :
    (g.insert type object).Shifts renumber base count
      (g'.insert type (renumber (ObjectId.shift base count) object)) where
  base_le := by
    rw [size_insert]
    exact Nat.le_succ_of_le h.base_le
  size := by
    rw [size_insert, size_insert, h.size, Nat.add_right_comm]
  old id hOld := by
    have hBase := h.base_le
    have hSize := h.size
    rw [slot?_insert_of_lt _ _ _ (by omega), slot?_insert_of_lt _ _ _ (by omega), h.old id hOld]
  new id hNew := by
    have hMoved := h.new id hNew
    have hSize := h.size
    rw [ObjectId.shift_of_le hNew] at hMoved ⊢
    rcases Nat.lt_trichotomy id.index g.size with hLess | hLast | hMore
    · rw [slot?_insert_of_lt _ _ _ hLess, ← hMoved]
      exact slot?_insert_of_lt _ _ _ (by rw [hSize]; exact Nat.add_lt_add_right hLess count)
    · obtain rfl : id = g.nextId := by
        cases id
        cases hLast
        rfl
      have hNext : (⟨g.nextId.index + count⟩ : ObjectId) = g'.nextId := by
        rw [h.nextId, ObjectId.shift_of_le hNew]
      rw [hNext, slot?_insert_nextId, slot?_insert_nextId]
      rfl
    · have hNone : (g.insert type object).slot? id = none := by
        rw [slot?_eq_none_iff, size_insert]
        exact hMore
      rw [hNone, Option.map_none, slot?_eq_none_iff, size_insert, hSize]
      show g.size + count + 1 ≤ id.index + count
      omega

/-- A type takes a value where it takes the moved one. -/
theorem accepts_rename (h : g.Shifts renumber base count g') (target : ValueType) (v : Value) :
    Conversion.accepts g' target (v.rename (ObjectId.shift base count)) =
      Conversion.accepts g target v := by
  cases v with
  | object id =>
    cases target with
    | object key => rw [Value.rename, Conversion.accepts_object, Conversion.accepts_object, h.type?_shift]
    | _ => rfl
  | _ => cases target <;> rfl

end ObjectGraph.Shifts

/-! ### Converters in larger graphs -/

/-- A converter does the same in two graphs, of which one has `count` more objects, put in at `base`: it
asks for objects of the same types, and these and what it gives are the same up to the handles of new
objects. All that it looks at is the value it converts, the type it converts to, and the objects before
`base` and behind those that were put in. -/
inductive ConverterRun.Agrees (renumber : (ObjectId → ObjectId) → Instance H → Instance H)
    (base count : Nat) : ConverterRun H → ConverterRun H → Prop where
  | fails (reason reason' : String) :
      Agrees renumber base count (.done (.error reason)) (.done (.error reason'))
  | gives (v : Value) :
      Agrees renumber base count (.done (.ok v)) (.done (.ok (v.rename (ObjectId.shift base count))))
  | creates (key : TypeName) (object : Instance H)
      (next next' : Except String Value → ObjectGraph H → ConverterRun H)
      (refused : ∀ reason g g', g.Shifts renumber base count g' →
        Agrees renumber base count (next (.error reason) g) (next' (.error reason) g'))
      (made : ∀ id g g', base ≤ id.index → g.Shifts renumber base count g' →
        Agrees renumber base count (next (.ok (.object id)) g)
          (next' (.ok (.object (id.shift base count))) g')) :
      Agrees renumber base count (.create key object next)
        (.create key (renumber (ObjectId.shift base count) object) next')

/-- Two conversions come to the same: both fail, or both give values that are the same up to the handles of
new objects. -/
inductive Conversion.Alike (base count : Nat) :
    Except String Value → Except String Value → Prop where
  | fails (reason reason' : String) : Alike base count (.error reason) (.error reason')
  | gives (v : Value) : Alike base count (.ok v) (.ok (v.rename (ObjectId.shift base count)))

/-- So carrying out what a converter asks for comes to the same. -/
theorem ConverterRun.Agrees.perform {renumber : (ObjectId → ObjectId) → Instance H → Instance H}
    {base count : Nat} {run run' : ConverterRun H} (h : run.Agrees renumber base count run')
    (vocabulary : Vocabulary H) {g g' : ObjectGraph H} (hShifts : g.Shifts renumber base count g') :
    Conversion.Alike base count (run.perform vocabulary g).1 (run'.perform vocabulary g').1 ∧
      (run.perform vocabulary g).2.Shifts renumber base count (run'.perform vocabulary g').2 := by
  induction h generalizing g g' with
  | fails reason reason' => exact ⟨.fails reason reason', hShifts⟩
  | gives v => exact ⟨.gives v, hShifts⟩
  | creates key object next next' refused made ihRefused ihMade =>
    rw [ConverterRun.perform, ConverterRun.perform]
    cases vocabulary.describe key with
    | none => exact ihRefused _ g g' hShifts hShifts
    | some type =>
      simp only
      rw [hShifts.nextId]
      have hMore := hShifts.insert type object
      exact ihMade g.nextId _ _ hShifts.base_le hMore hMore

/-! ### What does not change -/

namespace Conversion

variable {vocabulary : Vocabulary H} {g g' : ObjectGraph H} {value : Value}

section Stages

variable (hSame : ∀ id, value = .object id → g'.type? id = g.type? id)

include hSame

/-- Graphs in which a handle has the same type accept the same. -/
theorem accepts_congr (target : ValueType) : accepts g' target value = accepts g target value := by
  cases value with
  | object id =>
    cases target with
    | object key => rw [accepts_object, accepts_object, hSame id rfl]
    | _ => rfl
  | _ => cases target <;> rfl

/-- Graphs in which a handle has the same type tell the same type of a value. -/
theorem sourceType_congr : sourceType g' value = sourceType g value := by
  cases value with
  | object id => rw [sourceType, sourceType, hSame id rfl]
  | _ => rfl

/-- Graphs in which a handle has the same type choose the same converter. -/
theorem choice_congr [Hooks H] (target : ValueType) :
    choice vocabulary g' target value = choice vocabulary g target value := by
  have hSource : sourceChoice g' target value = sourceChoice g target value := by
    cases value with
    | object id => rw [sourceChoice, sourceChoice, hSame id rfl]
    | _ => rfl
  have hTarget : targetChoice vocabulary g' target value = targetChoice vocabulary g target value := by
    cases target with
    | object key => rw [targetChoice, targetChoice, sourceType_congr hSame]
    | _ => rfl
  rw [choice, choice, hSource, hTarget]

end Stages

/-- A valid handle keeps its type when objects are appended. -/
theorem type?_of_validIn (hValue : value.ValidIn g) (h : g.Appends vocabulary g') (id : ObjectId)
    (hHandle : value = .object id) : g'.type? id = g.type? id := by
  rw [ObjectGraph.type?, h.slot?_eq (hValue id hHandle), ObjectGraph.type?]

end Conversion

/-! ### Conversions made twice -/

variable [Hooks H]

/-- The converters that are used around a graph give only what the type that they convert to takes, and do
the same where there are more objects. -/
structure Vocabulary.ConvertsSteadily (renumber : (ObjectId → ObjectId) → Instance H → Instance H)
    (vocabulary : Vocabulary H) (g : ObjectGraph H) : Prop where
  sound : ∀ (target : ValueType) (value v : Value) (c : Conversion.Choice H) (g' : ObjectGraph H),
    value.ValidIn g → Conversion.choice vocabulary g target value = some c →
      Conversion.convertBy vocabulary c target value g = .ok v g' →
        Conversion.accepts g' target v = true
  steady : ∀ (target : ValueType) (value : Value) (c : Conversion.Choice H) (g' : ObjectGraph H),
    value.ValidIn g → Conversion.choice vocabulary g target value = some c →
      g.Appends vocabulary g' →
        (Hooks.convert c.converter value target g).Agrees renumber g.size (g'.size - g.size)
          (Hooks.convert c.converter value target g')

/-- A conversion is made twice, in a graph and in the one that this leaves. Both times it fails with the
same kind of failure; or it gives the same both times, and makes the same objects, up to the handles of
these, and what it gave is converted to itself and leaves the graph. -/
inductive Conversion.Repeats (renumber : (ObjectId → ObjectId) → Instance H → Instance H)
    (vocabulary : Vocabulary H) (target : ValueType) (value : Value) (g : ObjectGraph H) : Prop where
  | fails (failure failure' : Failure) (g₁ g₂ : ObjectGraph H)
      (first : convert vocabulary target value g = .error failure g₁)
      (second : convert vocabulary target value g₁ = .error failure' g₂)
      (kind_eq : failure.kind = failure'.kind) : Repeats renumber vocabulary target value g
  | succeeds (w w' : Value) (g₁ g₂ : ObjectGraph H)
      (first : convert vocabulary target value g = .ok w g₁)
      (second : convert vocabulary target value g₁ = .ok w' g₂)
      (result : w' = w.rename (ObjectId.shift g.size (g₁.size - g.size)))
      (objects : g₁.Shifts renumber g.size (g₁.size - g.size) g₂)
      (stays : convert vocabulary target w g₁ = .ok w g₁)
      (stays' : convert vocabulary target w' g₂ = .ok w' g₂) :
      Repeats renumber vocabulary target value g

section Stages

variable {vocabulary : Vocabulary H} {g : ObjectGraph H} {target : ValueType} {value : Value}

/-- A value that is accepted is converted to itself. -/
theorem convert_of_accepts (h : Conversion.accepts g target value = true) :
    convert vocabulary target value g = .ok value g := by
  rw [convert, if_pos h]

/-- A text that spells a value is converted to it, and the graph stays. -/
theorem convert_of_text {result : Except Failure Value} (h : Conversion.accepts g target value ≠ true)
    (hText : Conversion.ofValueText target value = some result) :
    convert vocabulary target value g = Operation.ofExcept result g := by
  rw [convert, if_neg h, hText]
  cases result <;> rfl

/-- What is neither accepted nor spelled is converted by the converter that is chosen. -/
theorem convert_of_choice {c : Conversion.Choice H} (h : Conversion.accepts g target value ≠ true)
    (hText : Conversion.ofValueText target value = none)
    (hChoice : Conversion.choice vocabulary g target value = some c) :
    convert vocabulary target value g = Conversion.convertBy vocabulary c target value g := by
  rw [convert, if_neg h, hText, hChoice]

omit [Hooks H] in
/-- What a text spells is accepted. -/
theorem Conversion.accepts_of_ofValueText {w : Value}
    (h : ofValueText target value = some (.ok w)) : accepts g target w = true := by
  cases value with
  | string text => exact accepts_of_ofText g h
  | _ => cases h

variable {renumber : (ObjectId → ObjectId) → Instance H → Instance H}

/-- A conversion that makes no object is the same when it is made again. -/
theorem Conversion.Repeats.of_same {w : Value} (h : convert vocabulary target value g = .ok w g)
    (hAccepts : accepts g target w = true) : Repeats renumber vocabulary target value g := by
  have hStays : convert vocabulary target w g = .ok w g := convert_of_accepts hAccepts
  have hSame : g.Appends vocabulary g := .refl g
  refine .succeeds w w g g h h ?_ (.of_appends hSame) hStays hStays
  rw [Nat.sub_self, Value.rename_shift_zero]

/-- A conversion by a converter is the same when it is made again. -/
theorem Conversion.Repeats.of_choice {c : Conversion.Choice H}
    (h : vocabulary.ConvertsSteadily renumber g) (hValue : value.ValidIn g)
    (hAccepts : accepts g target value ≠ true) (hText : ofValueText target value = none)
    (hChoice : choice vocabulary g target value = some c) :
    Repeats renumber vocabulary target value g := by
  have hFirst := convert_of_choice hAccepts hText hChoice
  have hAppends := (Hooks.convert c.converter value target g).appends_perform vocabulary g
  generalize hRun : (Hooks.convert c.converter value target g).perform vocabulary g = run at hAppends
  obtain ⟨result, g₁⟩ := run
  -- The second time, there are more objects, and all stages decide as they did the first time.
  have hSame := type?_of_validIn hValue hAppends
  have hSecond : convert vocabulary target value g₁ = convertBy vocabulary c target value g₁ := by
    refine convert_of_choice ?_ hText ?_
    · rw [accepts_congr hSame]
      exact hAccepts
    · rw [choice_congr hSame]
      exact hChoice
  have hAgrees := (h.steady target value c g₁ hValue hChoice hAppends).perform vocabulary
    (.of_appends hAppends)
  rw [hRun] at hAgrees
  generalize hRun' : (Hooks.convert c.converter value target g₁).perform vocabulary g₁ = run' at hAgrees
  obtain ⟨result', g₂⟩ := run'
  obtain ⟨hAlike, hObjects⟩ := hAgrees
  rw [convertBy, hRun] at hFirst
  rw [convertBy, hRun'] at hSecond
  cases hAlike with
  | fails reason reason' => exact .fails _ _ g₁ g₂ hFirst hSecond rfl
  | gives w =>
    have hGiven : convertBy vocabulary c target value g = .ok w g₁ := by
      rw [convertBy, hRun]
    have hStays := h.sound target value w c g₁ hValue hChoice hGiven
    have hStays' := hStays
    rw [← hObjects.accepts_rename] at hStays'
    exact .succeeds _ _ g₁ g₂ hFirst hSecond rfl hObjects (convert_of_accepts hStays)
      (convert_of_accepts hStays')

end Stages

/-- Conversions can be repeated, if the converters that are used do the same where there are more objects
and give what is asked for: a value with a good handle is converted to the same a second time, up to the
handles of new objects, or fails in the same way; and what it is converted to, it stays. -/
theorem convert_twice {vocabulary : Vocabulary H} {g : ObjectGraph H}
    (renumber : (ObjectId → ObjectId) → Instance H → Instance H)
    (h : vocabulary.ConvertsSteadily renumber g) {value : Value} (hValue : value.ValidIn g)
    (target : ValueType) : Conversion.Repeats renumber vocabulary target value g := by
  by_cases hAccepts : Conversion.accepts g target value = true
  · exact .of_same (convert_of_accepts hAccepts) hAccepts
  cases hText : Conversion.ofValueText target value with
  | some result =>
    have hRun : convert vocabulary target value g = Operation.ofExcept result g :=
      convert_of_text hAccepts hText
    cases result with
    | ok w => exact .of_same hRun (Conversion.accepts_of_ofValueText hText)
    | error failure => exact .fails failure failure g g hRun hRun rfl
  | none =>
    cases hChoice : Conversion.choice vocabulary g target value with
    | some c => exact .of_choice h hValue hAccepts hText hChoice
    | none =>
      have hRun : convert vocabulary target value g =
          .error (.unsupportedConversion value (Conversion.sourceType g value) target) g := by
        rw [convert, if_neg hAccepts, hText, hChoice]
      exact .fails _ _ g g hRun hRun rfl

namespace Record

/-- A record with other handles. -/
def Fields.rename (σ : ObjectId → ObjectId) (fields : Fields) : Fields where
  initial := fields.initial.map fun x => (x.1, x.2.rename σ)
  log := fields.log.map fun a => ⟨a.property, a.key.map (Value.rename σ), a.value.rename σ⟩

/-- An object of this host with other handles. -/
def renumber (σ : ObjectId → ObjectId) : Instance host → Instance host
  | .box content => .box (content.map (Value.rename σ))
  | .host (.fields fields) => .host (.fields (fields.rename σ))
  | .host .foreign => .host .foreign

end Record

namespace Labels

/-- The converter of labels does the same where there are more objects. -/
theorem convertsSteadily {g : ObjectGraph Record.host} (hKnown : g.Known compiler.vocabulary) :
    compiler.vocabulary.ConvertsSteadily Record.renumber g where
  sound target value v c g' _ hChoice hRun :=
    convertsSoundly g g' target value v c (Conversion.mem_types_of_choice hKnown hChoice) hChoice hRun
  steady target value c g' hValue hChoice _ := by
    have hMem := Conversion.mem_types_of_choice hKnown hChoice
    obtain ⟨hConverter, -⟩ := Conversion.of_choice hChoice
    obtain hBuiltIn | hType := List.mem_append.mp hMem
    · rw [Vocabulary.converter_of_mem_builtIn hBuiltIn] at hConverter
      cases hConverter
    obtain ⟨owner, converter⟩ := c
    obtain rfl : owner = type := List.mem_singleton.mp hType
    obtain rfl : _ = converter := Option.some.inj hConverter
    -- The new label holds the value, whose handle is an old one.
    have hObject : Record.renumber (ObjectId.shift g.size (g'.size - g.size))
        (Record.view.wrap (.ofInitial [("Text", value)])) =
          Record.view.wrap (.ofInitial [("Text", value)]) := by
      show Record.view.wrap ⟨[("Text", value.rename _)], []⟩ = _
      rw [Value.rename_of_validIn hValue]
      rfl
    have hAgrees : ConverterRun.Agrees Record.renumber g.size (g'.size - g.size)
        (Record.createFields ⟨"urn:labels", "Label"⟩ [("Text", value)])
        (.create ⟨"urn:labels", "Label"⟩ (Record.renumber _ (Record.view.wrap
          (.ofInitial [("Text", value)]))) fun result _ => .done result) :=
      .creates _ _ _ _ (fun reason _ _ _ => .fails reason reason)
        fun id _ _ _ _ => .gives (.object id)
    rw [hObject] at hAgrees
    exact hAgrees

/-- A graph of one label. -/
def single : ObjectGraph Record.host := ObjectGraph.empty.insert type (Record.view.wrap (.ofInitial []))

/-- The graph of one object has a known type. -/
theorem known_single : single.Known compiler.vocabulary := by
  have hEmpty : (ObjectGraph.empty : ObjectGraph Record.host).Known compiler.vocabulary := by
    intro id t hType
    cases hType
  exact hEmpty.insert (.inr (List.mem_append_right _ (List.mem_singleton_self _))) _

end Labels

/-- A text that is converted twice becomes the second label, and then the third. -/
theorem label_converted_twice :
    Labels.compiler.vocabulary.ConvertsSteadily Record.renumber Labels.single ∧
      (Value.string "a").ValidIn Labels.single ∧
      Conversion.Repeats Record.renumber Labels.compiler.vocabulary (.object ⟨"urn:labels", "Label"⟩)
        (.string "a") Labels.single ∧
      ∃ g₁ g₂,
        convert Labels.compiler.vocabulary (.object ⟨"urn:labels", "Label"⟩) (.string "a")
          Labels.single = .ok (.object ⟨1⟩) g₁ ∧
        convert Labels.compiler.vocabulary (.object ⟨"urn:labels", "Label"⟩) (.string "a") g₁ =
          .ok (.object ⟨2⟩) g₂ := by
  have hSteady := Labels.convertsSteadily Labels.known_single
  have hValue : (Value.string "a").ValidIn Labels.single := by
    intro id hHandle
    cases hHandle
  exact ⟨hSteady, hValue, convert_twice Record.renumber hSteady hValue _, _, _, rfl, rfl⟩

end ObjectMarkup
