import ObjectMarkup.Proofs.Assembling

/-!
# What is done to an assembly

Whatever a document makes a construction do to its assembly is one of five deeds: an object is made
for an element, a text is applied to a property, an element is over, what it stands for goes into a
property of the element around it, and what it stands for is declared under its identifier. `Does`
says what each deed is; a run of the machine is a list of them (`DoesAll`). What holds of the state
that any list of deeds leaves is shown by one case for each deed (`DoesAll.invariant`).
-/

set_option autoImplicit false

namespace ObjectMarkup

open Operation

variable {H : Host}

/-- What markup gives for a property: a text, or an element by its object. -/
inductive Source where
  | text (content : String)
  | element (child : ObjectId)
deriving DecidableEq

/-- A property of an object that markup gives something for. -/
structure Use where
  object : ObjectId
  property : String
  source : Source
deriving DecidableEq

/-- A property of an object that markup gives a text for. -/
structure TextUse where
  object : ObjectId
  property : String
  content : String
deriving DecidableEq

namespace Use

/-- A use of a text, as one. -/
def text? (u : Use) : Option TextUse :=
  match u.source with
  | .text content => some ⟨u.object, u.property, content⟩
  | .element _ => none

/-- The texts among uses, in order. A text has its place here as its number. -/
def texts (uses : List Use) : List TextUse := uses.filterMap text?

/-- Where there are no uses, there are no texts. -/
@[simp] theorem texts_nil : texts [] = [] := rfl

/-- The use of a text is the first text. -/
@[simp] theorem texts_text (object : ObjectId) (property content : String) (rest : List Use) :
    texts (⟨object, property, .text content⟩ :: rest) =
      ⟨object, property, content⟩ :: texts rest := rfl

/-- The use of an element is no text. -/
@[simp] theorem texts_element (object child : ObjectId) (property : String) (rest : List Use) :
    texts (⟨object, property, .element child⟩ :: rest) = texts rest := rfl

/-- The texts of uses that follow each other follow each other. -/
@[simp] theorem texts_append (uses later : List Use) :
    texts (uses ++ later) = texts uses ++ texts later :=
  List.filterMap_append

end Use

/-- An element that is over: the identifier that its attributes tell, and what it stands for. -/
structure Closing (H : Host) where
  type : ElementType H
  object : ObjectId
  identifier : Option String
  value : Value

/-- What is to be declared when an element is over. -/
def Closing.named? {H : Host} (c : Closing H) : Option (String × Value) :=
  c.identifier.map fun id => (id, c.value)

/-- One element declares at most one name. -/
theorem Closing.named?_singleton {H : Host} (c : Closing H) :
    [c].filterMap named? = c.named?.toList := by
  rw [List.filterMap_cons]
  cases c.named? <;> rfl

/-- What the elements, the attributes and the text of a document make of an assembly. -/
inductive Deed (H : Host) where
  | make (type : ElementType H) (object : ObjectId)
  | text (object : ObjectId) (property text : String)
  | close (closing : Closing H)
  | place (child object : ObjectId) (property : String) (value : Value)
  | declare (id : String) (value : Value)

/-- The start or the end of an element, by its object. -/
inductive Boundary where
  | start (object : ObjectId)
  | finish (object : ObjectId)
deriving DecidableEq

namespace Deed

/-- The object that a deed makes, with its type. -/
def made? : Deed H → Option (ElementType H × ObjectId)
  | .make type object => some (type, object)
  | _ => none

/-- The element that a deed closes. -/
def closed? : Deed H → Option (Closing H)
  | .close closing => some closing
  | _ => none

/-- The identifier that a deed declares, with its value. -/
def declared? : Deed H → Option (String × Value)
  | .declare id value => some (id, value)
  | _ => none

/-- Where an element starts or ends. -/
def boundary? : Deed H → Option Boundary
  | .make _ object => some (.start object)
  | .close closing => some (.finish closing.object)
  | _ => none

/-- The property that a deed gives something for. -/
def use? : Deed H → Option Use
  | .text object property content => some ⟨object, property, .text content⟩
  | .place child object property _ => some ⟨object, property, .element child⟩
  | _ => none

/-- What deeds use, in order. -/
def uses (ds : List (Deed H)) : List Use := ds.filterMap use?

/-- The objects that deeds make with their types, in order. -/
def objects (ds : List (Deed H)) : List (ElementType H × ObjectId) := ds.filterMap made?

/-- The elements that deeds close, in order. -/
def closed (ds : List (Deed H)) : List (Closing H) := ds.filterMap closed?

/-- The identifiers that deeds declare with their values, in order. -/
def declared (ds : List (Deed H)) : List (String × Value) := ds.filterMap declared?

/-- Where the elements of deeds start and end, in order. -/
def boundaries (ds : List (Deed H)) : List Boundary := ds.filterMap boundary?

section Lists

variable (ds : List (Deed H)) (type : ElementType H) (object child : ObjectId)
  (property content id : String) (value : Value) (closing : Closing H)

/-- No deeds use nothing. -/
@[simp] theorem uses_nil : uses ([] : List (Deed H)) = [] := rfl

/-- Making an object uses nothing. -/
@[simp] theorem uses_make : uses (.make type object :: ds) = uses ds := rfl

/-- Applying a text uses it. -/
@[simp] theorem uses_text :
    uses (.text object property content :: ds) = ⟨object, property, .text content⟩ :: uses ds := rfl

/-- Closing an element uses nothing yet. -/
@[simp] theorem uses_close : uses (.close closing :: ds) = uses ds := rfl

/-- Placing what an element stands for uses the element. -/
@[simp] theorem uses_place :
    uses (.place child object property value :: ds) =
      ⟨object, property, .element child⟩ :: uses ds := rfl

/-- Declaring an identifier uses nothing. -/
@[simp] theorem uses_declare : uses (.declare id value :: ds) = uses ds := rfl

/-- Deeds that follow each other use what they use, in order. -/
@[simp] theorem uses_append (later : List (Deed H)) : uses (ds ++ later) = uses ds ++ uses later :=
  List.filterMap_append

/-- No deeds make no objects. -/
@[simp] theorem objects_nil : objects ([] : List (Deed H)) = [] := rfl

/-- The object that is made comes first. -/
@[simp] theorem objects_make :
    objects (.make type object :: ds) = (type, object) :: objects ds := rfl

/-- Applying a text makes no object of an element. -/
@[simp] theorem objects_text : objects (.text object property content :: ds) = objects ds := rfl

/-- Closing an element makes no object. -/
@[simp] theorem objects_close : objects (.close closing :: ds) = objects ds := rfl

/-- Placing what an element stands for makes no object. -/
@[simp] theorem objects_place :
    objects (.place child object property value :: ds) = objects ds := rfl

/-- Declaring an identifier makes no object. -/
@[simp] theorem objects_declare : objects (.declare id value :: ds) = objects ds := rfl

/-- Deeds that follow each other make their objects in order. -/
@[simp] theorem objects_append (later : List (Deed H)) :
    objects (ds ++ later) = objects ds ++ objects later :=
  List.filterMap_append

/-- No deeds close no element. -/
@[simp] theorem closed_nil : closed ([] : List (Deed H)) = [] := rfl

/-- Making an object closes no element. -/
@[simp] theorem closed_make : closed (.make type object :: ds) = closed ds := rfl

/-- Applying a text closes no element. -/
@[simp] theorem closed_text : closed (.text object property content :: ds) = closed ds := rfl

/-- The element that is closed comes first. -/
@[simp] theorem closed_close :
    closed (.close closing :: ds) = closing :: closed ds := rfl

/-- Placing what an element stands for closes no other one. -/
@[simp] theorem closed_place :
    closed (.place child object property value :: ds) = closed ds := rfl

/-- Declaring an identifier closes no element. -/
@[simp] theorem closed_declare : closed (.declare id value :: ds) = closed ds := rfl

/-- Deeds that follow each other close their elements in order. -/
@[simp] theorem closed_append (later : List (Deed H)) :
    closed (ds ++ later) = closed ds ++ closed later :=
  List.filterMap_append

/-- No deeds declare nothing. -/
@[simp] theorem declared_nil : declared ([] : List (Deed H)) = [] := rfl

/-- Making an object declares nothing. -/
@[simp] theorem declared_make : declared (.make type object :: ds) = declared ds := rfl

/-- Applying a text declares nothing. -/
@[simp] theorem declared_text : declared (.text object property content :: ds) = declared ds := rfl

/-- Closing an element declares nothing yet. -/
@[simp] theorem declared_close : declared (.close closing :: ds) = declared ds := rfl

/-- Placing what an element stands for declares nothing. -/
@[simp] theorem declared_place :
    declared (.place child object property value :: ds) = declared ds := rfl

/-- The identifier that is declared comes first. -/
@[simp] theorem declared_declare :
    declared (.declare id value :: ds) = (id, value) :: declared ds := rfl

/-- Deeds that follow each other declare in order. -/
@[simp] theorem declared_append (later : List (Deed H)) :
    declared (ds ++ later) = declared ds ++ declared later :=
  List.filterMap_append

/-- No deeds have no boundaries. -/
@[simp] theorem boundaries_nil : boundaries ([] : List (Deed H)) = [] := rfl

/-- An element starts where its object is made. -/
@[simp] theorem boundaries_make :
    boundaries (.make type object :: ds) = .start object :: boundaries ds := rfl

/-- Applying a text is inside of an element. -/
@[simp] theorem boundaries_text :
    boundaries (.text object property content :: ds) = boundaries ds := rfl

/-- An element ends where it is closed. -/
@[simp] theorem boundaries_close :
    boundaries (.close closing :: ds) = .finish closing.object :: boundaries ds := rfl

/-- What an element stands for is placed behind its end. -/
@[simp] theorem boundaries_place :
    boundaries (.place child object property value :: ds) = boundaries ds := rfl

/-- An identifier is declared behind the end of its element. -/
@[simp] theorem boundaries_declare : boundaries (.declare id value :: ds) = boundaries ds := rfl

/-- Deeds that follow each other have their boundaries in order. -/
@[simp] theorem boundaries_append (later : List (Deed H)) :
    boundaries (ds ++ later) = boundaries ds ++ boundaries later :=
  List.filterMap_append

end Lists

end Deed

/-- A type that markup can name: a box, or one of the vocabulary. -/
def Vocabulary.Knows (vocabulary : Vocabulary H) (type : ElementType H) : Prop :=
  type ∈ ElementType.boxes ∨ type ∈ vocabulary.types

/-- An assembly of nothing, in which names mean what they mean in a scope. -/
def Assembly.start (scope : NameScope) : Assembly H := ⟨scope, .empty, .empty, [], 0, []⟩

/-- What an object stands for: what its type makes of it, if it is a factory, or itself. -/
def ElementType.StandsFor (type : ElementType H) (g : ObjectGraph H) (object : ObjectId)
    (value : Value) : Prop :=
  if type.isFactory then (g.object? object).bind type.produce = some value
  else value = .object object

variable [Hooks H]

/-- What a deed makes of an assembly. -/
inductive Does (vocabulary : Vocabulary H) : Assembly H → Deed H → Assembly H → Prop where
  | make (a : Assembly H) (type : ElementType H) (fresh : Instance H)
      (known : vocabulary.Knows type) (constructible : type.fresh = some fresh) :
      Does vocabulary a (.make type a.graph.nextId)
        (Assembly.record { a with graph := a.graph.insert type fresh } (.opened a.graph.nextId))
  | text (a : Assembly H) (object : ObjectId) (name text : String) (dataContext : Option Value)
      (a' : Assembly H)
      (evaluated : Assemble.Reran vocabulary false
        ⟨a.occurrences, text, object, name, dataContext, .empty⟩
        { a with occurrences := a.occurrences + 1 } a') :
      Does vocabulary a (.text object name text) a'
  | close (a : Assembly H) (type : ElementType H) (object : ObjectId) (id : Option String)
      (value : Value) (stands : type.StandsFor a.graph object value) :
      Does vocabulary a (.close ⟨type, object, id, value⟩) (a.record (.closed object id value))
  | place (a : Assembly H) (child object : ObjectId) (name : String) (value : Value) (w : Write)
      (a' : Assembly H) (ended : ∃ id, .closed child id value ∈ a.journal)
      (assigned : a.Assigns vocabulary (.element child) object name value w a') :
      Does vocabulary a (.place child object name value) a'
  | declare (a : Assembly H) (id : String) (value : Value) (complete : Bool) (names : NameTable)
      (n : Nat) (a' : Assembly H) (registered : a.names.register id value = .ok names)
      (drained : Assemble.drain vocabulary complete { a with names } = .ok n a') :
      Does vocabulary a (.declare id value) a'

/-- What a list of deeds makes of an assembly. -/
inductive DoesAll (vocabulary : Vocabulary H) : Assembly H → List (Deed H) → Assembly H → Prop where
  | nil (a : Assembly H) : DoesAll vocabulary a [] a
  | cons (a a₁ a' : Assembly H) (d : Deed H) (ds : List (Deed H)) (first : Does vocabulary a d a₁)
      (rest : DoesAll vocabulary a₁ ds a') : DoesAll vocabulary a (d :: ds) a'

variable {vocabulary : Vocabulary H}

namespace DoesAll

/-- One deed is a list of deeds. -/
theorem one {a a' : Assembly H} {d : Deed H} (h : Does vocabulary a d a') :
    DoesAll vocabulary a [d] a' :=
  .cons a a' a' d [] h (.nil a')

/-- Deeds that are done one after the other are done together. -/
theorem append {a a₁ a' : Assembly H} {ds ds' : List (Deed H)} (h : DoesAll vocabulary a ds a₁)
    (h' : DoesAll vocabulary a₁ ds' a') : DoesAll vocabulary a (ds ++ ds') a' := by
  induction h with
  | nil _ => exact h'
  | cons a a₁ _ d ds first _ ih => exact .cons a a₁ a' d (ds ++ ds') first (ih h')

/-- What holds before any deed, and survives each, holds after all. -/
theorem invariant {P : List (Deed H) → Assembly H → Prop}
    (step : ∀ done a d a', P done a → Does vocabulary a d a' → P (done ++ [d]) a')
    {ds : List (Deed H)} {a a' : Assembly H} (h : P [] a) (run : DoesAll vocabulary a ds a') :
    P ds a' := by
  have onward : ∀ done, P done a → P (done ++ ds) a' := by
    clear h
    induction run with
    | nil _ =>
      intro done h
      rwa [List.append_nil]
    | cons a a₁ a' d ds first _ ih =>
      intro done h
      have := ih (done ++ [d]) (step done a d a₁ h first)
      rwa [List.append_assoc] at this
  exact onward [] h

end DoesAll

/-- No deed takes back what was made. -/
theorem Does.grows {a a' : Assembly H} {d : Deed H} (h : Does vocabulary a d a') : a.Grows a' := by
  cases h with
  | make type fresh _ _ => exact ⟨rfl, .insert a.graph type fresh, fun _ _ e => e, List.suffix_cons ..⟩
  | text object name text dataContext a' evaluated =>
    have hGrows := evaluated.grows
    exact ⟨hGrows.scope, hGrows.graph, hGrows.names, hGrows.journal⟩
  | close type object id value _ => exact .record a _
  | place child object name value w a' _ assigned => exact assigned.grows
  | declare id value complete names n a' registered drained =>
    have hGrows := Assemble.grows_of_drain drained
    refine ⟨hGrows.scope, hGrows.graph, fun id v e => ?_, hGrows.journal⟩
    exact hGrows.names id v (NameTable.grows_of_register registered id v e)

/-- No deeds take back what was made. -/
theorem DoesAll.grows {a a' : Assembly H} {ds : List (Deed H)} (h : DoesAll vocabulary a ds a') :
    a.Grows a' :=
  invariant (P := fun _ a₁ => a.Grows a₁)
    (fun _ _ _ _ hGrows hDoes => hGrows.trans hDoes.grows) (.refl a) h

end ObjectMarkup
