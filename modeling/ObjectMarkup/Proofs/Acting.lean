import ObjectMarkup.Proofs.Interpretation
import ObjectMarkup.Proofs.ObjectTree
import ObjectMarkup.Proofs.Scope

/-!
# The deeds of interpretations

Each step of an interpretation that succeeds is a deed or a few: making an element, applying its
attributes and its text, and declaring it. The other steps leave the assembly as it is, but for the
namespace declarations of the root, which come before all deeds.
-/

set_option autoImplicit false

namespace ObjectMarkup

open Operation

variable {H : Host}

namespace NameScope

/-- The scope that the namespace declarations among attributes make of a scope. -/
def declareAll (scope : NameScope) : List (String × String) → NameScope
  | [] => scope
  | (name, value) :: rest =>
    match Name.declaredQualifier name with
    | none => scope.declareAll rest
    | some qualifier =>
      (if qualifier.isEmpty then scope.addDefault value
        else scope.declare qualifier value).declareAll rest

end NameScope

namespace Deed

/-- The deeds of the attributes of an object. -/
def ofAttributes (object : ObjectId) (attributes : List (String × String)) : List (Deed H) :=
  (attributes.filter fun a => Name.isPlain a.1).map fun a => .text object a.1 a.2

/-- Namespace declarations among attributes are no deeds. -/
theorem ofAttributes_undeclared (object : ObjectId) (attributes : List (String × String)) :
    (ofAttributes object (attributes.filter fun a => (Name.declaredQualifier a.1).isNone) :
      List (Deed H)) = ofAttributes object attributes := by
  unfold ofAttributes
  rw [List.filter_filter]
  congr 2
  funext a
  cases h : (Name.declaredQualifier a.1).isNone <;> simp [Name.isPlain, h]

/-- The deeds of runs of text that stand for a property. -/
def ofTexts (object : ObjectId) (property : String) (texts : List String) : List (Deed H) :=
  texts.map fun content => .text object property content

/-- Attributes use their plain values. -/
@[simp] theorem uses_ofAttributes (object : ObjectId) (attributes : List (String × String)) :
    uses (ofAttributes object attributes : List (Deed H)) =
      ElementHead.attributeUses object attributes := by
  simp [uses, ofAttributes, ElementHead.attributeUses, List.filterMap_map, Function.comp_def, use?]

/-- Attributes make no object of an element. -/
@[simp] theorem objects_ofAttributes (object : ObjectId) (attributes : List (String × String)) :
    objects (ofAttributes object attributes : List (Deed H)) = [] := by
  simp [objects, ofAttributes, List.filterMap_map, Function.comp_def, made?]

/-- Attributes close no element. -/
@[simp] theorem closed_ofAttributes (object : ObjectId) (attributes : List (String × String)) :
    closed (ofAttributes object attributes : List (Deed H)) = [] := by
  simp [closed, ofAttributes, List.filterMap_map, Function.comp_def, closed?]

/-- Attributes declare nothing yet. -/
@[simp] theorem declared_ofAttributes (object : ObjectId) (attributes : List (String × String)) :
    declared (ofAttributes object attributes : List (Deed H)) = [] := by
  simp [declared, ofAttributes, List.filterMap_map, Function.comp_def, declared?]

/-- Attributes are inside of an element. -/
@[simp] theorem boundaries_ofAttributes (object : ObjectId) (attributes : List (String × String)) :
    boundaries (ofAttributes object attributes : List (Deed H)) = [] := by
  simp [boundaries, ofAttributes, List.filterMap_map, Function.comp_def, boundary?]

/-- Texts are used for the property that they are put into. -/
@[simp] theorem uses_ofTexts (object : ObjectId) (property : String) (texts : List String) :
    uses (ofTexts object property texts : List (Deed H)) =
      ObjectNode.textUses object property texts := by
  simp [uses, ofTexts, ObjectNode.textUses, List.filterMap_map, Function.comp_def, use?]

/-- Texts make no object of an element. -/
@[simp] theorem objects_ofTexts (object : ObjectId) (property : String) (texts : List String) :
    objects (ofTexts object property texts : List (Deed H)) = [] := by
  simp [objects, ofTexts, List.filterMap_map, Function.comp_def, made?]

/-- Texts close no element. -/
@[simp] theorem closed_ofTexts (object : ObjectId) (property : String) (texts : List String) :
    closed (ofTexts object property texts : List (Deed H)) = [] := by
  simp [closed, ofTexts, List.filterMap_map, Function.comp_def, closed?]

/-- Texts declare nothing. -/
@[simp] theorem declared_ofTexts (object : ObjectId) (property : String) (texts : List String) :
    declared (ofTexts object property texts : List (Deed H)) = [] := by
  simp [declared, ofTexts, List.filterMap_map, Function.comp_def, declared?]

/-- Texts are inside of an element. -/
@[simp] theorem boundaries_ofTexts (object : ObjectId) (property : String) (texts : List String) :
    boundaries (ofTexts object property texts : List (Deed H)) = [] := by
  simp [boundaries, ofTexts, List.filterMap_map, Function.comp_def, boundary?]

/-- The deed of an element that declares what it stands for, if it has an identifier. -/
def ofIdentifier (id : Option String) (value : Value) : List (Deed H) :=
  id.toList.map fun id => .declare id value

/-- Declaring an identifier, if there is one, uses nothing. -/
@[simp] theorem uses_ofIdentifier (id : Option String) (value : Value) :
    uses (ofIdentifier id value : List (Deed H)) = [] := by
  cases id <;> rfl

/-- Declaring an identifier, if there is one, makes no object of an element. -/
@[simp] theorem objects_ofIdentifier (id : Option String) (value : Value) :
    objects (ofIdentifier id value : List (Deed H)) = [] := by
  cases id <;> rfl

/-- Declaring an identifier, if there is one, closes no element. -/
@[simp] theorem closed_ofIdentifier (id : Option String) (value : Value) :
    closed (ofIdentifier id value : List (Deed H)) = [] := by
  cases id <;> rfl

/-- Declaring an identifier, if there is one, is outside of the element. -/
@[simp] theorem boundaries_ofIdentifier (id : Option String) (value : Value) :
    boundaries (ofIdentifier id value : List (Deed H)) = [] := by
  cases id <;> rfl

/-- An identifier is declared if there is one. -/
@[simp] theorem declared_ofIdentifier (id : Option String) (value : Value) :
    declared (ofIdentifier id value : List (Deed H)) = (id.map fun id => (id, value)).toList := by
  cases id <;> rfl

end Deed

namespace Interpret

variable {setting : Setting H}

/-- A type that a tag names is known. -/
theorem knows_of_typeNamed {name : String} {a a' : Assembly H} {type : ElementType H}
    (h : typeNamed setting name a = .ok type a') : setting.vocabulary.Knows type ∧ a' = a := by
  unfold typeNamed at h
  cases hBox : (ElementType.box? name : Option (ElementType H)) with
  | some box =>
    rw [hBox] at h
    cases h
    exact ⟨.inl (List.mem_of_find?_eq_some hBox), rfl⟩
  | none =>
    rw [hBox] at h
    obtain ⟨_, _, hGet, h⟩ := bind_eq_ok.1 h
    cases hGet
    obtain ⟨hFind, rfl⟩ := ofExcept_eq_ok.1 h
    exact ⟨.inr (NameScope.mem_types_of_findType hFind), rfl⟩

/-- A property tag that passes its check has no attributes, and stands where no property is open and
no text before it. -/
theorem of_checkPropertyTag {p : ContentPlace H} {text : Option String} {tag owner name : String}
    {attributes : List (String × String)} {a a' : Assembly H}
    (h : checkPropertyTag setting p text tag owner name attributes a = .ok () a') :
    p.property = none ∧ text = none ∧ attributes = [] ∧ a' = a := by
  unfold checkPropertyTag at h
  split at h
  · cases h
  · next hEmpty =>
    obtain ⟨type, _, hType, hRest⟩ := bind_eq_ok.1 h
    obtain ⟨-, rfl⟩ := knows_of_typeNamed hType
    cases hProperty : p.property with
    | some property =>
      rw [hProperty] at hRest
      cases hRest
    | none =>
      rw [hProperty] at hRest
      cases text with
      | some text => cases hRest
      | none =>
        refine ⟨rfl, rfl, by simpa using hEmpty, ?_⟩
        simp only [Option.isSome_none, Bool.false_eq_true, if_false] at hRest
        split at hRest
        · cases hRest
        · split at hRest
          · cases hRest
          · cases hRest
            rfl

/-- Below the root, attributes that pass declare no namespaces. -/
theorem of_forbidDeclarations {tag : String} {attributes : List (String × String)}
    {a a' : Assembly H} (h : forbidDeclarations tag attributes a = .ok () a') :
    a' = a ∧ ∀ x ∈ attributes, Name.declaredQualifier x.1 = none := by
  induction attributes with
  | nil =>
    cases h
    exact ⟨rfl, fun x hx => nomatch hx⟩
  | cons first rest ih =>
    unfold forbidDeclarations at h
    split at h
    · cases h
    · next hNone =>
      obtain ⟨hSame, hRest⟩ := ih h
      refine ⟨hSame, fun x hx => ?_⟩
      rcases List.mem_cons.1 hx with rfl | hx
      · simpa using hNone
      · exact hRest x hx

/-- The root keeps the attributes that declare nothing, and the scope declares the others. -/
theorem of_declareNamespaces {attributes others : List (String × String)} {a a' : Assembly H}
    (h : declareNamespaces attributes a = .ok others a') :
    others = attributes.filter (fun x => (Name.declaredQualifier x.1).isNone) ∧
      a' = { a with scope := a.scope.declareAll attributes } := by
  induction attributes generalizing a others with
  | nil =>
    cases h
    exact ⟨rfl, rfl⟩
  | cons first rest ih =>
    unfold declareNamespaces at h
    cases hDeclared : Name.declaredQualifier first.1 with
    | none =>
      rw [hDeclared] at h
      obtain ⟨others', _, hRest, h⟩ := bind_eq_ok.1 h
      cases h
      obtain ⟨rfl, rfl⟩ := ih hRest
      rw [List.filter_cons_of_pos (by simp [hDeclared]), NameScope.declareAll, hDeclared]
      exact ⟨rfl, rfl⟩
    | some qualifier =>
      rw [hDeclared] at h
      obtain ⟨_, _, hModify, h⟩ := bind_eq_ok.1 h
      cases hModify
      obtain ⟨rfl, rfl⟩ := ih h
      rw [List.filter_cons_of_neg (by simp [hDeclared]), NameScope.declareAll, hDeclared]
      exact ⟨rfl, rfl⟩

/-- A product leaves the assembly, and is what the object stands for. -/
theorem standsFor_of_product {e : Enclosing H} {value : Value} {a a' : Assembly H}
    (h : product e a = .ok value a') : a' = a ∧ e.type.StandsFor a.graph e.object value := by
  unfold product at h
  unfold ElementType.StandsFor
  split at h
  · next hFactory =>
    rw [if_pos hFactory]
    split at h
    · cases h
    · split at h
      · next hProduce =>
        cases h
        exact ⟨rfl, hProduce⟩
      · cases h
  · next hFactory =>
    cases h
    exact ⟨rfl, by rw [if_neg hFactory]⟩

variable [Hooks H]

/-- Putting a text into a property is one deed. -/
theorem does_of_putText {path : List (Enclosing H)} {object : ObjectId} {name text : String}
    {a a' : Assembly H} (h : putText setting path object name text a = .ok () a') :
    Does setting.vocabulary a (.text object name text) a' := by
  unfold putText at h
  obtain ⟨type, _, hType, h⟩ := bind_eq_ok.1 h
  obtain ⟨-, rfl⟩ := Assemble.typeOf_eq_ok.1 hType
  obtain ⟨property, _, hProperty, h⟩ := bind_eq_ok.1 h
  obtain ⟨-, rfl⟩ := Assemble.propertyOf_eq_ok.1 hProperty
  obtain ⟨_, _, hGet, h⟩ := bind_eq_ok.1 h
  cases hGet
  obtain ⟨n, _, hNumber, h⟩ := bind_eq_ok.1 h
  cases hNumber
  obtain ⟨outcome, _, hEvaluate, h⟩ := bind_eq_ok.1 h
  obtain ⟨hOutcome, rfl⟩ := Assemble.evaluate_eq_ok.1 hEvaluate
  refine .text a object name text (dataContext setting path a) a' ?_
  cases outcome with
  | value v =>
    obtain ⟨w, hAssigns⟩ := Assemble.assigns_of_assign h
    exact .value v w a' hOutcome hAssigns
  | nothing =>
    cases h
    exact .nothing hOutcome
  | deferred required =>
    cases h
    exact .deferred required hOutcome

/-- Putting a text that was kept is a deed, if there was one. -/
theorem doesAll_of_putRemembered {path : List (Enclosing H)} {object : ObjectId} {name : String}
    {text : Option String} {a a' : Assembly H}
    (h : putRemembered setting path object name text a = .ok () a') :
    DoesAll setting.vocabulary a (Deed.ofTexts object name text.toList) a' := by
  cases text with
  | none =>
    cases h
    exact .nil a
  | some text => exact .one (does_of_putText h)

/-- An attribute that declares nothing is a deed if it is plain; otherwise it leaves the assembly, and
may tell the identifier of the element. -/
theorem of_applyAttribute {path : List (Enclosing H)} {object : ObjectId} {m m' : Metadata}
    {name value : String} {a a' : Assembly H}
    (h : applyAttribute setting path object m name value a = .ok m' a')
    (hDeclared : Name.declaredQualifier name = none) :
    DoesAll setting.vocabulary a (Deed.ofAttributes object [(name, value)]) a' ∧
      m'.identifier =
        if a.scope.isMetadata identifierAttribute name then some value else m.identifier := by
  unfold applyAttribute at h
  unfold NameScope.isMetadata
  rcases hSplit : Name.splitQualifier name with ⟨_ | qualifier, rest⟩
  · rw [hSplit] at h
    obtain ⟨_, a₁, hPut, h⟩ := bind_eq_ok.1 h
    cases h
    have hPlain : Name.isPlain name = true := by simp [Name.isPlain, hDeclared, hSplit]
    rw [Deed.ofAttributes, List.filter_cons, if_pos hPlain]
    exact ⟨.one (does_of_putText hPut), by simp⟩
  · rw [hSplit] at h
    have hPlain : ¬ Name.isPlain name = true := by simp [Name.isPlain, hSplit]
    rw [Deed.ofAttributes, List.filter_cons, if_neg hPlain]
    obtain ⟨_, _, hGet, h⟩ := bind_eq_ok.1 h
    cases hGet
    obtain ⟨space, _, hSpace, hMeta⟩ := bind_eq_ok.1 h
    obtain ⟨hFound, rfl⟩ := ofExcept_eq_ok.1 hSpace
    simp only [hDeclared, Option.isNone_none, Bool.true_and, hFound, Except.toOption]
    split at hMeta
    · cases hMeta
    · next hSpace =>
      rw [not_not] at hSpace
      subst hSpace
      split at hMeta
      · next hKey =>
        cases hMeta
        subst hKey
        exact ⟨.nil a, by simp [keyAttribute, identifierAttribute]⟩
      · split at hMeta
        · next hIdentifier =>
          cases hMeta
          exact ⟨.nil a, by simp [hIdentifier]⟩
        · next hOther =>
          split at hMeta
          · cases hMeta
          · cases hMeta
            exact ⟨.nil a, by simp [hOther]⟩

/-- Applying attributes are the deeds of their plain values, and they tell the identifier. -/
theorem of_applyAttributes {path : List (Enclosing H)} {object : ObjectId} {m m' : Metadata}
    {attributes : List (String × String)} {a a' : Assembly H}
    (h : applyAttributes setting path object m attributes a = .ok m' a')
    (hDeclared : ∀ x ∈ attributes, Name.declaredQualifier x.1 = none) :
    DoesAll setting.vocabulary a (Deed.ofAttributes object attributes) a' ∧
      m'.identifier = (a.scope.identifierOf attributes).or m.identifier := by
  induction attributes generalizing m a with
  | nil =>
    cases h
    exact ⟨.nil _, rfl⟩
  | cons first rest ih =>
    unfold applyAttributes at h
    obtain ⟨m₁, a₁, hFirst, h⟩ := bind_eq_ok.1 h
    obtain ⟨hDoes, hTold⟩ := of_applyAttribute hFirst (hDeclared first (List.mem_cons_self ..))
    obtain ⟨hRest, hLater⟩ := ih h fun x hx => hDeclared x (List.mem_cons_of_mem first hx)
    have hSplit : (Deed.ofAttributes object (first :: rest) : List (Deed H)) =
        Deed.ofAttributes object [first] ++ Deed.ofAttributes object rest := by
      rw [Deed.ofAttributes, Deed.ofAttributes, Deed.ofAttributes, ← List.map_append,
        ← List.filter_append, List.singleton_append]
    refine ⟨?_, ?_⟩
    · rw [hSplit]
      exact hDoes.append hRest
    · rw [hLater, hTold, hDoes.grows.scope, NameScope.identifierOf, NameScope.identifierOf,
        NameScope.metadataOf_cons, Option.or_assoc]
      congr 1
      split <;> rfl

omit [Hooks H] in
/-- Making an element makes one object of the type that the tag names, at the end of the graph. -/
theorem of_make {tag : String} {e : Enclosing H} {a a' : Assembly H}
    (h : make setting tag a = .ok e a') :
    ∃ fresh, typeNamed setting tag a = .ok e.type a ∧ e.type.fresh = some fresh ∧
      e.object = a.graph.nextId ∧
      a' = Assembly.record { a with graph := a.graph.insert e.type fresh } (.opened a.graph.nextId) := by
  unfold make at h
  obtain ⟨type, a₁, hType, hMade⟩ := bind_eq_ok.1 h
  obtain ⟨-, rfl⟩ := knows_of_typeNamed hType
  cases hFresh : type.fresh with
  | none =>
    rw [hFresh] at hMade
    cases hMade
  | some fresh =>
    rw [hFresh] at hMade
    cases hMade
    exact ⟨fresh, hType, hFresh, rfl, rfl⟩

/-- Making the object of an element is one deed. -/
theorem does_of_make {tag : String} {e : Enclosing H} {a a' : Assembly H}
    (h : make setting tag a = .ok e a') : Does setting.vocabulary a (.make e.type e.object) a' := by
  obtain ⟨fresh, hType, hFresh, hObject, rfl⟩ := of_make h
  rw [hObject]
  exact .make a e.type fresh (knows_of_typeNamed hType).1 hFresh

/-- Declaring an identifier is a deed, if there is one. -/
theorem doesAll_of_identify {complete : Bool} {made : Finished} {a a' : Assembly H}
    (h : identify setting complete made a = .ok () a') :
    DoesAll setting.vocabulary a (Deed.ofIdentifier made.metadata.identifier made.value) a' := by
  unfold identify at h
  cases hId : made.metadata.identifier with
  | none =>
    rw [hId] at h
    cases h
    exact .nil a
  | some id =>
    rw [hId] at h
    obtain ⟨_, _, hGet, h⟩ := bind_eq_ok.1 h
    cases hGet
    obtain ⟨names, _, hRegister, hSettled⟩ := bind_eq_ok.1 h
    obtain ⟨hRegistered, rfl⟩ := ofExcept_eq_ok.1 hRegister
    obtain ⟨_, _, hSet, hSettled⟩ := bind_eq_ok.1 hSettled
    cases hSet
    obtain ⟨n, _, hDrain, hSettled⟩ := bind_eq_ok.1 hSettled
    cases hSettled
    exact .one (.declare a id made.value complete names n a' hRegistered hDrain)

end Interpret

end ObjectMarkup
