import Mathlib.Tactic.SplitIfs
import ObjectMarkup.Proofs.Stability
import ObjectMarkup.Proofs.CoarseObligations
import ObjectMarkup.Record.Behavior

/-!
# What is written fits

A conversion to a type gives a value that the type takes, provided that the converters do: the type
takes the value as it is, or a text names or spells a value of the type, or a converter is used
(`accepts_of_convert`). Whatever goes into a property is converted to the type that the property
declares, so it fits at the moment at which it is written, and as objects keep their types, it fits
ever after (`Compiler.writes_fit`).

The journal tells how many objects there were at a write. What a type takes depends on the types of
objects only, and these never change. So the graph of that moment is, as far as types see it, the
first objects of any later graph (`ObjectGraph.Grows.type?_upTo_size`).
-/

set_option autoImplicit false

namespace ObjectMarkup

open Operation

variable {H : Host}

/-! ### Earlier graphs -/

namespace ObjectGraph

/-- The first `n` objects of a graph. -/
def upTo (g : ObjectGraph H) (n : Nat) : ObjectGraph H := ⟨g.slots.take n⟩

/-- The first objects of a graph have their places, and the others none. -/
theorem slot?_upTo (g : ObjectGraph H) (n : Nat) (id : ObjectId) :
    (g.upTo n).slot? id = if id.index < n then g.slot? id else none := by
  simp only [slot?, upTo, Array.take_eq_extract, Array.getElem?_extract, Nat.sub_zero, Nat.zero_add]
  by_cases hIndex : id.index < n
  · rw [if_pos hIndex]
    by_cases hSize : id.index < g.slots.size
    · rw [if_pos (Nat.lt_min.mpr ⟨hIndex, hSize⟩)]
    · rw [if_neg (fun h => hSize (Nat.lt_min.mp h).2),
        Array.getElem?_eq_none (Nat.le_of_not_lt hSize)]
  · rw [if_neg hIndex, if_neg (fun h => hIndex (Nat.lt_min.mp h).1)]

/-- The first objects of a graph have their types, and the others none. -/
theorem type?_upTo (g : ObjectGraph H) (n : Nat) (id : ObjectId) :
    (g.upTo n).type? id = if id.index < n then g.type? id else none := by
  rw [type?, slot?_upTo]
  by_cases hIndex : id.index < n
  · rw [if_pos hIndex, if_pos hIndex, type?]
  · rw [if_neg hIndex, if_neg hIndex, Option.map_none]

/-- The first objects of a graph are among more of them. -/
theorem upTo_grows_upTo (g : ObjectGraph H) {m n : Nat} (h : m ≤ n) :
    (g.upTo m).Grows (g.upTo n) := by
  intro id type hType
  rw [type?_upTo] at hType ⊢
  by_cases hIndex : id.index < m
  · rw [if_pos hIndex] at hType
    rw [if_pos (by omega)]
    exact hType
  · rw [if_neg hIndex] at hType
    cases hType

namespace Grows

variable {g g' : ObjectGraph H}

/-- Where a graph has grown, its first objects are the same. -/
theorem upTo (h : g.Grows g') (n : Nat) : (g.upTo n).Grows (g'.upTo n) := by
  intro id type hType
  rw [type?_upTo] at hType ⊢
  by_cases hIndex : id.index < n
  · rw [if_pos hIndex] at hType ⊢
    exact h id type hType
  · rw [if_neg hIndex] at hType
    cases hType

/-- As many first objects of a later graph as there were have the types that there were. -/
theorem type?_upTo_size (h : g.Grows g') (id : ObjectId) :
    (g'.upTo g.size).type? id = g.type? id := by
  rw [type?_upTo]
  by_cases hIndex : id.index < g.size
  · rw [if_pos hIndex]
    have hSome : g.slot? id ≠ none := by
      rw [Ne, slot?_eq_none_iff]
      omega
    obtain ⟨slot, hSlot⟩ := Option.ne_none_iff_exists'.mp hSome
    have hType : g.type? id = some slot.type := by
      rw [type?, hSlot]
      rfl
    rw [hType]
    exact h id slot.type hType
  · have hNone : g.slot? id = none := by
      rw [slot?_eq_none_iff]
      omega
    rw [if_neg hIndex, type?, hNone]
    rfl

/-- A graph that has grown is not smaller. -/
theorem size_le (h : g.Grows g') : g.size ≤ g'.size := by
  apply Nat.le_of_not_lt
  intro hLess
  have hNone : g'.type? ⟨g'.size⟩ = none := by
    rw [type?, (g'.slot?_eq_none_iff ⟨g'.size⟩).mpr (Nat.le_refl g'.size)]
    rfl
  obtain ⟨slot, hSlot⟩ : ∃ slot, g.slot? ⟨g'.size⟩ = some slot := by
    apply Option.ne_none_iff_exists'.mp
    rw [Ne, slot?_eq_none_iff]
    exact Nat.not_le_of_lt hLess
  have hType := h ⟨g'.size⟩ slot.type (by rw [type?, hSlot]; rfl)
  rw [hNone] at hType
  cases hType

end Grows

/-- All objects are of types that markup can name. -/
def Known (g : ObjectGraph H) (vocabulary : Vocabulary H) : Prop :=
  ∀ id type, g.type? id = some type → vocabulary.Knows type

namespace Known

variable {g : ObjectGraph H} {vocabulary : Vocabulary H}

/-- An instance that is exchanged leaves the types known. -/
theorem replace (h : g.Known vocabulary) (id : ObjectId) (object : Instance H) :
    (g.replace id object).Known vocabulary := by
  intro other type hType
  rw [type?_replace] at hType
  exact h other type hType

/-- An object of a known type leaves the types known. -/
theorem insert (h : g.Known vocabulary) {type : ElementType H} (hNew : vocabulary.Knows type)
    (object : Instance H) : (g.insert type object).Known vocabulary := by
  intro id t hType
  rcases of_type?_insert hType with hOld | rfl
  · exact h id t hOld
  · exact hNew

end Known

end ObjectGraph

/-! ### Conversions -/

/-- A converter makes objects of registered types only. -/
theorem ConverterRun.known_perform {vocabulary : Vocabulary H} (run : ConverterRun H)
    {g : ObjectGraph H} (h : g.Known vocabulary) : (run.perform vocabulary g).2.Known vocabulary := by
  induction run generalizing g with
  | done result => exact h
  | create key object next ih =>
    rw [perform]
    cases hDescribe : vocabulary.describe key with
    | none => exact ih _ g h
    | some type =>
      have hKnows : vocabulary.Knows type := .inr (Vocabulary.mem_of_describe hDescribe)
      exact ih _ _ (h.insert hKnows object)

namespace Conversion

/-- A literal of truth is taken where such values are. -/
theorem accepts_of_bool {g : ObjectGraph H} {text : String} {v : Value}
    (h : Literal.bool text = .ok v) : accepts g .bool v = true := by
  unfold Literal.bool at h
  dsimp only at h
  split_ifs at h <;> cases h <;> rfl

/-- A literal of an integer is taken where such values are, also where there may be none. -/
theorem accepts_of_int {g : ObjectGraph H} {text : String} {v : Value}
    (h : Literal.int text = .ok v) : accepts g .int v = true ∧ accepts g .nullableInt v = true := by
  unfold Literal.int at h
  split at h <;> cases h
  exact ⟨rfl, rfl⟩

/-- A literal of a character is taken where such values are, also where there may be none. -/
theorem accepts_of_char {g : ObjectGraph H} {text : String} {v : Value}
    (h : Literal.char text = .ok v) :
    accepts g .char v = true ∧ accepts g .nullableChar v = true := by
  unfold Literal.char at h
  split at h <;> cases h
  exact ⟨rfl, rfl⟩

/-- What a text spells for a type, the type takes. -/
theorem accepts_of_read (g : ObjectGraph H) {target : ValueType} {text : String} {v : Value}
    (h : Literal.read text target = some (.ok v)) : accepts g target v = true := by
  cases target with
  | bool => exact accepts_of_bool (Option.some.inj h)
  | int => exact (accepts_of_int (Option.some.inj h)).1
  | nullableInt =>
    have hRead := Option.some.inj h
    split at hRead
    · cases hRead
      rfl
    · exact (accepts_of_int hRead).2
  | double =>
    have hRead := Option.some.inj h
    unfold Literal.double at hRead
    split at hRead <;> cases hRead
    rfl
  | float =>
    have hRead := Option.some.inj h
    unfold Literal.float at hRead
    split at hRead <;> cases hRead
    rfl
  | char => exact (accepts_of_char (Option.some.inj h)).1
  | nullableChar =>
    have hRead := Option.some.inj h
    split at hRead
    · cases hRead
      rfl
    · exact (accepts_of_char hRead).2
  | _ => cases h

/-- What a text names or spells for a type, the type takes. -/
theorem accepts_of_ofText (g : ObjectGraph H) {target : ValueType} {text : String} {v : Value}
    (h : ofText target text = some (.ok v)) : accepts g target v = true := by
  have hSpelled (hRead : (Literal.read text target).map
      (fun r => r.mapError (Failure.invalidLiteral text target)) = some (.ok v)) :
      accepts g target v = true := by
    obtain ⟨result, hResult, hSame⟩ := Option.map_eq_some_iff.mp hRead
    cases result with
    | error reason => cases hSame
    | ok spelled =>
      cases hSame
      exact accepts_of_read g hResult
  cases target with
  | enumeration e =>
    simp only [ofText, Enumeration.member?] at h
    split_ifs at h
    · cases h
      simp [accepts]
    · cases h
  | _ => exact hSpelled h

variable [Hooks H] {vocabulary : Vocabulary H}

/-- Only registered types have converters that are used. -/
theorem mem_types_of_choice {g : ObjectGraph H} (hKnown : g.Known vocabulary) {target : ValueType}
    {value : Value} {c : Choice H} (h : choice vocabulary g target value = some c) :
    c.owner ∈ vocabulary.types := by
  obtain ⟨hConverter, ⟨id, -, hType, -⟩ | ⟨key, -, hDescribe, -⟩⟩ := of_choice h
  · refine (hKnown id c.owner hType).resolve_left ?_
    intro hBox
    rw [ElementType.converter_of_mem_boxes hBox] at hConverter
    cases hConverter
  · exact Vocabulary.mem_of_describe hDescribe

end Conversion

variable [Hooks H]

/-- The converters of a vocabulary give only what the type they convert to takes, in the graph that
they leave. It is asked of a converter only where it is used. -/
def Vocabulary.ConvertsSoundly (vocabulary : Vocabulary H) : Prop :=
  ∀ (g g' : ObjectGraph H) (target : ValueType) (value v : Value) (c : Conversion.Choice H),
    c.owner ∈ vocabulary.types → Conversion.choice vocabulary g target value = some c →
      Conversion.convertBy vocabulary c target value g = .ok v g' →
        Conversion.accepts g' target v = true

section Converting

variable {vocabulary : Vocabulary H} {g g' : ObjectGraph H} {target : ValueType} {value v : Value}

/-- The type that a value is converted to takes what comes out. -/
theorem accepts_of_convert (hSound : vocabulary.ConvertsSoundly) (hKnown : g.Known vocabulary)
    (h : convert vocabulary target value g = .ok v g') :
    Conversion.accepts g' target v = true := by
  unfold convert at h
  split at h
  · next hAccepts =>
    cases h
    exact hAccepts
  · split at h
    · next converted hText =>
      cases h
      unfold Conversion.ofValueText at hText
      split at hText
      · exact Conversion.accepts_of_ofText g hText
      · cases hText
    · cases h
    · split at h
      · next c hChoice =>
        exact hSound g g' target value v c (Conversion.mem_types_of_choice hKnown hChoice) hChoice h
      · cases h

/-- Conversions make objects of known types only. -/
theorem known_of_convert (hKnown : g.Known vocabulary)
    (h : convert vocabulary target value g = .ok v g') : g'.Known vocabulary := by
  unfold convert at h
  split at h
  · cases h
    exact hKnown
  · split at h
    · cases h
      exact hKnown
    · cases h
    · split at h
      · next c hChoice =>
        have hPerform := ConverterRun.known_perform (Hooks.convert c.converter value target g) hKnown
        unfold Conversion.convertBy at h
        split at h
        · next hRun =>
          cases h
          rw [hRun] at hPerform
          exact hPerform
        · cases h
      · cases h

end Converting

/-! ### Writes -/

/-- What a property declares is what a write puts into it; a list declares nothing. -/
def Store.Accepts (store : Store H) (g : ObjectGraph H) (w : Write) : Prop :=
  match store with
  | .scalar target _ => Conversion.accepts g target w.value = true
  | .collection target _ => Conversion.accepts g target w.value = true
  | .list _ => True
  | .map keyTarget target _ => ∃ key, w.key = some key ∧
      Conversion.accepts g keyTarget key = true ∧ Conversion.accepts g target w.value = true

omit [Hooks H] in
/-- What a property takes it takes when the graph has grown. -/
theorem Store.Accepts.grows {store : Store H} {g g' : ObjectGraph H} {w : Write}
    (h : store.Accepts g w) (hGrows : g.Grows g') : store.Accepts g' w := by
  cases store with
  | scalar target set => exact Conversion.accepts_of_grows hGrows h
  | collection target push => exact Conversion.accepts_of_grows hGrows h
  | list push => trivial
  | map keyTarget target insert =>
    obtain ⟨key, hKey, hFirst, hSecond⟩ := h
    exact ⟨key, hKey, Conversion.accepts_of_grows hGrows hFirst,
      Conversion.accepts_of_grows hGrows hSecond⟩

/-- What a property is given after conversion fits into it. -/
theorem Store.Stores.accepts {vocabulary : Vocabulary H} (hSound : vocabulary.ConvertsSoundly)
    {store : Store H} {value : Value} {g g' : ObjectGraph H} {w : Write}
    (hKnown : g.Known vocabulary) (h : store.Stores vocabulary value g w g') :
    store.Accepts g' w := by
  cases store with
  | scalar target set => exact accepts_of_convert hSound hKnown h.2
  | collection target push => exact accepts_of_convert hSound hKnown h.2
  | list push => trivial
  | map keyTarget target insert =>
    obtain ⟨text, key, g₁, hKey, hConvertKey, hConvert⟩ := h
    have hKnown₁ := known_of_convert hKnown hConvertKey
    -- The conversion of the value may make objects; the key fits into the larger graph as well.
    have hGrows : g₁.Grows g' := ((ends_convert ..).of_ok hConvert).grows
    have hFirst := Conversion.accepts_of_grows hGrows (accepts_of_convert hSound hKnown hConvertKey)
    exact ⟨key, hKey, hFirst, accepts_of_convert hSound hKnown₁ hConvert⟩

/-- Conversions before a write make objects of known types only. -/
theorem Store.Stores.known {vocabulary : Vocabulary H} {store : Store H} {value : Value}
    {g g' : ObjectGraph H} {w : Write} (hKnown : g.Known vocabulary)
    (h : store.Stores vocabulary value g w g') : g'.Known vocabulary := by
  cases store with
  | scalar target set => exact known_of_convert hKnown h.2
  | collection target push => exact known_of_convert hKnown h.2
  | list push =>
    obtain ⟨-, -, rfl⟩ := h
    exact hKnown
  | map keyTarget target insert =>
    obtain ⟨text, key, g₁, hKey, hConvertKey, hConvert⟩ := h
    exact known_of_convert (known_of_convert hKnown hConvertKey) hConvert

/-- A write puts into a property what the property declares, as far as a graph tells. -/
def Write.Fits (w : Write) (g : ObjectGraph H) : Prop :=
  ∃ type property, g.type? w.object = some type ∧ type.property? w.property = some property ∧
    property.store.Accepts g w

omit [Hooks H] in
/-- What fits goes on to fit. -/
theorem Write.Fits.grows {w : Write} {g g' : ObjectGraph H} (h : w.Fits g) (hGrows : g.Grows g') :
    w.Fits g' := by
  obtain ⟨type, property, hType, hProperty, hAccepts⟩ := h
  exact ⟨type, property, hGrows _ _ hType, hProperty, hAccepts.grows hGrows⟩

/-- What is stored by sound converters fits, and all types stay known. -/
theorem Write.Stored.fits {vocabulary : Vocabulary H} (hSound : vocabulary.ConvertsSoundly)
    {w : Write} {value : Value} {g g' : ObjectGraph H} (hKnown : g.Known vocabulary)
    (h : w.Stored vocabulary value g g') : w.Fits g' ∧ g'.Known vocabulary := by
  have hGrows := h.extends.grows
  obtain ⟨type, property, hType, hProperty, hStores⟩ := h
  exact ⟨⟨type, property, hGrows _ _ hType, hProperty, hStores.accepts hSound hKnown⟩,
    hStores.known hKnown⟩

/-- Every write in a journal fits, in the graph of the moment of the write and in all later ones up
to `g`. -/
def WritesFit (g : ObjectGraph H) (journal : List Entry) : Prop :=
  ∀ w extent, .wrote w extent ∈ journal →
    extent ≤ g.size ∧ ∀ n, extent ≤ n → w.Fits (g.upTo n)

namespace WritesFit

variable {g g' : ObjectGraph H} {journal : List Entry}

omit [Hooks H] in
/-- Writes that fit do so when the graph has grown. -/
theorem grows (h : WritesFit g journal) (hGrows : g.Grows g') : WritesFit g' journal := by
  intro w extent hMem
  obtain ⟨hExtent, hFits⟩ := h w extent hMem
  refine ⟨Nat.le_trans hExtent hGrows.size_le, ?_⟩
  intro n hLater
  exact (hFits n hLater).grows (hGrows.upTo n)

omit [Hooks H] in
/-- An entry about something else than a write changes nothing. -/
theorem record (h : WritesFit g journal) {entry : Entry}
    (hOther : ∀ w extent, entry ≠ .wrote w extent) : WritesFit g (entry :: journal) := by
  intro w extent hMem
  rcases List.mem_cons.mp hMem with hSame | hMem
  · exact absurd hSame.symm (hOther w extent)
  · exact h w extent hMem

omit [Hooks H] in
/-- A write that fits into the graph that it finds fits ever after. -/
theorem wrote (h : WritesFit g journal) {w : Write} (hFits : w.Fits g) (object : Instance H) :
    WritesFit (g.replace w.object object) (.wrote w g.size :: journal) := by
  have hGrows : g.Grows (g.replace w.object object) := .replace g w.object object
  intro w' extent hMem
  rcases List.mem_cons.mp hMem with hSame | hMem
  · cases hSame
    refine ⟨hGrows.size_le, ?_⟩
    intro n hLater
    have hThen : g.Grows ((g.replace w.object object).upTo g.size) := by
      intro id type hType
      rw [hGrows.type?_upTo_size]
      exact hType
    exact hFits.grows (hThen.trans ((g.replace w.object object).upTo_grows_upTo hLater))
  · exact h.grows hGrows w' extent hMem

end WritesFit

/-! ### Runs -/

/-- Objects are of types that markup can name, and what was written fits. -/
structure Typing (vocabulary : Vocabulary H) (m : Moment H) : Prop where
  known : m.graph.Known vocabulary
  fits : WritesFit m.graph m.journal

namespace Typing

variable {vocabulary : Vocabulary H}

/-- Every step of a run writes only what fits. -/
theorem upkeep {setting : Setting H} (hSound : setting.vocabulary.ConvertsSoundly) :
    Upkeep setting (fun _ => True) (fun _ => True) (Typing setting.vocabulary)
      (fun _ m => WritesFit m.graph m.journal) where
  told _ _ _ _ := trivial
  fewer _ _ h _ := ⟨h.known, h.fits⟩
  made m type fresh h hKnows _ := by
    have hFits := h.fits.grows (.insert m.graph type fresh)
    exact ⟨h.known.insert hKnows fresh, hFits.record (by rintro _ _ ⟨⟩)⟩
  bound _ _ _ _ h _ _ _ _ _ := ⟨h.known, h.fits⟩
  evaluated _ _ _ _ _ h _ _ _ _ := ⟨h.known, h.fits.record (by rintro _ _ ⟨⟩)⟩
  again _ _ _ h _ := ⟨h.known, h.fits⟩
  assigned m object g o w value h _ hExtends hObject hStored _ _ := by
    subst hObject
    obtain ⟨hFits, hKnown⟩ := hStored.fits hSound h.known
    exact ⟨hKnown.replace w.object o, (h.fits.grows hExtends.grows).wrote hFits o⟩
  closed _ _ _ _ _ h _ _ _ := ⟨h.known, h.fits.record (by rintro _ _ ⟨⟩)⟩
  rooted _ _ h _ _ := ⟨h.known, h.fits⟩
  named _ _ _ _ h _ _ := ⟨h.known, h.fits⟩
  faulted _ _ _ _ _ h _ _ _ _ := h.fits
  refused _ _ _ h hExtends _ := h.fits.grows hExtends.grows
  unknown _ _ h _ _ := h.fits
  mismatched _ _ _ _ h _ hExtends _ := h.fits.grows hExtends.grows
  lost _ _ _ _ h _ := h

omit [Hooks H] in
/-- Before anything is made, everything fits. -/
theorem start : Typing vocabulary (.start : Moment H) where
  known := by
    intro id type hType
    cases hType
  fits := by
    intro w extent hMem
    cases hMem

omit [Hooks H] in
/-- A run starts with everything fitting. -/
theorem upheld (defaults : List String) (events : List Markup.Event) :
    Course.Upheld (fun _ => True) (fun _ => True) (Typing vocabulary) events
      (.ofDefaults defaults : Construction H) :=
  .start start trivial fun _ _ => trivial

/-- However a document ends, what was written fits. -/
theorem ends_construct {c : Compiler H} (hSound : c.vocabulary.ConvertsSoundly)
    (dataContext : Option Value) (items : List (Except Markup.Fault Markup.Event)) :
    Ends (c.construct items dataContext) (.ofDefaults c.settings.defaults)
      (fun _ s => Typing c.vocabulary s.moment)
      (Construction.FailsIn fun _ m => WritesFit m.graph m.journal) := by
  have u : Upkeep (c.setting dataContext) _ _ _ _ := upkeep hSound
  exact u.course.construct (upheld ..) fun _ _ h => h.fits

end Typing

/-- If the converters convert soundly, then whatever a run writes fits into the property: at the
moment of the write, and in every graph of the run from then on. This is so between any two events,
and however the run ends. -/
theorem Compiler.writes_fit (c : Compiler H) (dataContext : Option Value)
    (hSound : c.vocabulary.ConvertsSoundly) :
    (∀ events s,
      Construct.feedEvents (c.setting dataContext) events (.ofDefaults c.settings.defaults) =
          .ok () s →
        WritesFit s.assembly.graph s.assembly.journal) ∧
    (∀ items root s,
      c.construct items dataContext (.ofDefaults c.settings.defaults) = .ok root s →
        WritesFit s.assembly.graph s.assembly.journal) ∧
    ∀ items failure s,
      c.construct items dataContext (.ofDefaults c.settings.defaults) = .error failure s →
        WritesFit s.assembly.graph s.assembly.journal := by
  have hEnds := Typing.ends_construct hSound dataContext
  refine ⟨?_, ?_, ?_⟩
  · intro events s hFeed
    have u : Upkeep (c.setting dataContext) _ _ _ _ := Typing.upkeep hSound
    have hFed := u.course.feedEvents (Typing.upheld c.settings.defaults (events ++ []))
    exact (hFed.of_ok hFeed).stands.fits
  · intro items root s hRun
    exact ((hEnds items).of_ok hRun).fits
  · intro items failure s hRun
    exact (hEnds items).of_error hRun

namespace Labels

/-- Has a text, another label, and labels under numbers; a text is turned into a label. -/
def type : ElementType Record.host :=
  .assemble Record.view ⟨"urn:labels", "Label"⟩
    [.constructor (.ofInitial []),
      .scalar "Text" .string (Record.Fields.put "Text"),
      .scalar "Next" (.object ⟨"urn:labels", "Label"⟩) (Record.Fields.put "Next"),
      .map "Marks" .int (.object ⟨"urn:labels", "Label"⟩) (Record.Fields.putAt "Marks"),
      .contentProperty "Marks",
      .converter ⟨⟨"urn:labels", "Label"⟩, ["String"], [], .wrap ⟨"urn:labels", "Label"⟩ "Text"⟩]

/-- A compiler for labels. -/
def compiler : Compiler Record.host :=
  ⟨Vocabulary.builtIn.register type, ⟨["urn:labels"], true, none⟩⟩

/-- A label that is followed by a text, with another label under a number. -/
def numbered : List Markup.Event :=
  [.start "Label", .attribute "xmlns:x" "urn:kiln:metadata", .attribute "Next" "second",
    .start "Label", .attribute "x:Key" "5", .finish, .finish]

/-- A text that is converted to a label becomes the text of a new one. -/
theorem convertsSoundly : compiler.vocabulary.ConvertsSoundly := by
  intro g g' target value v c hMem hChoice hRun
  obtain ⟨hConverter, hUse⟩ := Conversion.of_choice hChoice
  obtain hBuiltIn | hType := List.mem_append.mp hMem
  · rw [Vocabulary.converter_of_mem_builtIn hBuiltIn] at hConverter
    cases hConverter
  obtain ⟨owner, converter⟩ := c
  obtain rfl : owner = type := List.mem_singleton.mp hType
  obtain rfl : _ = converter := Option.some.inj hConverter
  obtain ⟨id, -, -, hTarget⟩ | ⟨key, rfl, hDescribe, -⟩ := hUse
  · cases hTarget
  · have hKey : type.key = key := Vocabulary.key_of_describe hDescribe
    -- The converter asks for one object, which is made at once, whatever the graph.
    have hMade : (.ok (.object g.nextId)
        (g.insert type (Record.view.wrap (.ofInitial [("Text", value)]))) :
          EStateM.Result Failure (ObjectGraph Record.host) Value) = .ok v g' := hRun
    cases hMade
    rw [Conversion.accepts_object, ObjectGraph.type?, ObjectGraph.slot?_insert_nextId]
    simp [ElementType.isAssignableTo, hKey]

/-- What is written into the property `Next`: the label that the converter makes. -/
def followed : Write := ⟨.occurrence 0, ⟨0⟩, "Next", none, .object ⟨1⟩⟩

/-- After four events the attribute is applied, and there are two labels. -/
theorem exists_followed :
    ∃ s, Construct.feedEvents (compiler.setting none) (numbered.take 4)
        (.ofDefaults ["urn:labels"]) = .ok () s ∧ .wrote followed 2 ∈ s.assembly.journal := by
  have hFed : (outcome (Construct.feedEvents (compiler.setting none) (numbered.take 4))
      (.ofDefaults ["urn:labels"])).toOption.any (fun p =>
        p.2.assembly.journal.contains (.wrote followed 2)) = true := by
    decide +kernel
  obtain ⟨⟨_, s⟩, hRun, hWrote⟩ := except_exists_of_any hFed
  exact ⟨s, outcome_eq_ok.mp hRun, List.contains_iff_mem.mp hWrote⟩

/-- The document of a label with a number is constructed. -/
theorem exists_numbered :
    ∃ root s, compiler.construct (numbered.map .ok) none (.ofDefaults ["urn:labels"]) =
      .ok root s := by
  have hRun : (outcome (compiler.construct (numbered.map .ok) none)
      (.ofDefaults ["urn:labels"])).isOk = true := by
    decide +kernel
  obtain ⟨⟨root, s⟩, hRun⟩ := except_exists_of_isOk hRun
  exact ⟨root, s, outcome_eq_ok.mp hRun⟩

/-- Without its last event, the document is not over. -/
theorem exists_broken :
    ∃ failure s, compiler.construct ((numbered.take 6).map .ok) none (.ofDefaults ["urn:labels"]) =
      .error failure s := by
  have hRun : (outcome (compiler.construct ((numbered.take 6).map .ok) none)
      (.ofDefaults ["urn:labels"])).isOk = false := by
    decide +kernel
  obtain ⟨failure, hRun⟩ := except_exists_of_not_isOk hRun
  exact ⟨failure, outcome_eq_error.mp hRun⟩

end Labels

/-- A text that became a label, and a label under a number, are written as what they were converted
to, in a document that is complete and in one that breaks off. -/
theorem numbered_labels_fit :
    Labels.compiler.vocabulary.ConvertsSoundly ∧
      (∃ s, Construct.feedEvents (Labels.compiler.setting none) (Labels.numbered.take 4)
          (.ofDefaults ["urn:labels"]) = .ok () s ∧
        .wrote Labels.followed 2 ∈ s.assembly.journal ∧
          ∀ n, 2 ≤ n → Labels.followed.Fits (s.assembly.graph.upTo n)) ∧
      (∃ root s, Labels.compiler.construct (Labels.numbered.map .ok) none
          (.ofDefaults ["urn:labels"]) = .ok root s ∧
        WritesFit s.assembly.graph s.assembly.journal) ∧
      ∃ failure s, Labels.compiler.construct ((Labels.numbered.take 6).map .ok) none
          (.ofDefaults ["urn:labels"]) = .error failure s ∧
        WritesFit s.assembly.graph s.assembly.journal := by
  obtain ⟨hFed, hOk, hError⟩ := Compiler.writes_fit Labels.compiler none Labels.convertsSoundly
  obtain ⟨s, hFeed, hWrote⟩ := Labels.exists_followed
  obtain ⟨root, s₁, hRun⟩ := Labels.exists_numbered
  obtain ⟨failure, s₂, hBroken⟩ := Labels.exists_broken
  have hFits := (hFed _ s hFeed Labels.followed 2 hWrote).2
  exact ⟨Labels.convertsSoundly, ⟨s, hFeed, hWrote, hFits⟩,
    ⟨root, s₁, hRun, hOk _ root s₁ hRun⟩, failure, s₂, hBroken, hError _ failure s₂ hBroken⟩

end ObjectMarkup
