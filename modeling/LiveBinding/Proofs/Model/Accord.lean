/-
# LiveBinding.Proofs.Model.Accord -- what is kept and what is stored

A computed property keeps its value, and the model has a store beside that.  The two are
in accord (`Model.InAccord`) when every property that is not virtual has its value in
the store as well, and when under the name of a virtual one the store holds what it held
before, or nothing as before.

Three kinds of write touch the store.  What a client writes goes past computed names
(`InAccord.write`), a new value of a property is kept and stored at once
(`InAccord.adopt`), and the first values are all stored together (`inAccord_first`).
Values need not be scalars: a list or an object is kept anew even where the store has an
equal one, and then the two are equal, though not identical.
-/
import LiveBinding.Proofs.Model.Adopt

namespace LiveBinding

set_option autoImplicit false

variable {σ : Type}

def Json.Agrees (stored value : Json) : Prop :=
  stored = value ∨ Json.same stored value = true

namespace Attributes

variable {name : String} {value : Json} {store pending : Attributes}

def Has (name : String) (value : Json) (store : Attributes) : Prop :=
  ∃ stored, Fields.get? name store = some stored ∧ stored.Agrees value

theorem has_of_get? (found : Fields.get? name store = some value) : Has name value store :=
  ⟨value, found, Or.inl rfl⟩

theorem has_of_holds (held : holds name value store = true) : Has name value store := by
  unfold holds at held
  split at held
  · rename_i old found
    exact ⟨old, found, Or.inr held⟩
  · cases held

theorem Has.congr {store' : Attributes} (has : Has name value store)
    (same : Fields.get? name store' = Fields.get? name store) : Has name value store' := by
  obtain ⟨stored, found, agrees⟩ := has
  exact ⟨stored, same.trans found, agrees⟩

/-- What is written once is there. -/
theorem has_apply (written : (name, value) ∈ pending) (once : (Fields.keys pending).Nodup) :
    Has name value (apply store pending).1 := by
  induction pending generalizing store with
  | nil => cases written
  | cons entry rest ih =>
      obtain ⟨unrepeated, onceRest⟩ := List.nodup_cons.mp once
      rw [apply]
      rcases List.mem_cons.mp written with rfl | later
      · split
        · rename_i held
          exact (has_of_holds held).congr (get?_apply_of_unwritten unrepeated)
        · exact (has_of_get? (Fields.get?_set_self _ _ _)).congr
            (get?_apply_of_unwritten unrepeated)
      · split
        · exact ih later onceRest
        · exact ih later onceRest

end Attributes

namespace Model

variable {m m' : Model σ} {bound : Attributes}

/-- What properties keep is stored, unless they are virtual: under their names there is
what was `bound`. -/
structure InAccord (bound : Attributes) (m : Model σ) : Prop where
  stored : ∀ p ∈ m.properties, p.isVirtual = false → Attributes.Has p.name p.value m.store
  untouched : ∀ p ∈ m.properties, p.isVirtual = true →
    Fields.get? p.name m.store = Fields.get? p.name bound

theorem isComputed_of_mem {p : Property σ} (listed : p ∈ m.properties) :
    m.isComputed p.name = true := by
  rw [isComputed, property?, List.find?_isSome]
  exact ⟨p, listed, decide_eq_true rfl⟩

theorem InAccord.write {pending : Attributes} (accord : m.InAccord bound)
    (aside : ∀ name ∈ Fields.keys pending, m.isComputed name = false) :
    InAccord bound { m with store := (m.store.apply pending).1 } := by
  have same : ∀ p ∈ m.properties, Fields.get? p.name (m.store.apply pending).1 =
      Fields.get? p.name m.store := by
    intro p listed
    refine Attributes.get?_apply_of_unwritten fun written => ?_
    have none := aside p.name written
    rw [isComputed_of_mem listed] at none
    cases none
  exact ⟨fun p listed real => (accord.stored p listed real).congr (same p listed),
    fun p listed virtual => (same p listed).trans (accord.untouched p listed virtual)⟩

theorem InAccord.adopt {p : Property σ} (accord : m.InAccord bound)
    (distinct : (m.properties.map (·.name)).Nodup) (found : m.property? p.name = some p)
    (value : Json) : InAccord bound (m.adopt p value).1 := by
  -- a property has its new value, or it is one that the model had before
  have had : ∀ q ∈ (m.adopt p value).1.properties,
      q = { p with value := value } ∨ q.name ≠ p.name ∧ q ∈ m.properties := by
    intro q listed
    have distinct' : ((m.adopt p value).1.properties.map (·.name)).Nodup := by
      rw [(sameShape_adopt p value m).names]
      exact distinct
    have foundQ := property?_of_mem distinct' listed
    by_cases same : q.name = p.name
    · rw [same, property?_adopt_self found] at foundQ
      exact Or.inl (Option.some.inj foundQ).symm
    · rw [property?_adopt_ne same] at foundQ
      exact Or.inr ⟨same, mem_of_property? foundQ⟩
  constructor
  · intro q listed real
    rcases had q listed with rfl | ⟨other, old⟩
    · have kept : p.isVirtual = false := real
      simp only [Model.adopt, kept, Bool.false_eq_true, if_false]
      exact Attributes.has_apply List.mem_cons_self (by simp [Fields.keys])
    · exact (accord.stored q old real).congr (get?_adopt_ne other value m)
  · intro q listed virtual
    rcases had q listed with rfl | ⟨other, old⟩
    · have kept : p.isVirtual = true := virtual
      simp only [Model.adopt, kept, if_true]
      exact accord.untouched p (mem_of_property? found) kept
    · exact (get?_adopt_ne other value m).trans (accord.untouched q old virtual)

/-- The first values are stored all together, beside what was stored before. -/
theorem inAccord_first (distinct : (m.properties.map (·.name)).Nodup) :
    InAccord m.store { m with store := (m.store.apply m.initialWrites).1 } := by
  obtain ⟨once, writes⟩ := initialWrites_of_distinct distinct
  refine ⟨fun p listed real => Attributes.has_apply (mem_initialWrites distinct listed real) once,
    fun p listed virtual => Attributes.get?_apply_of_unwritten fun written => ?_⟩
  rw [writes, Fields.keys, List.map_map] at written
  obtain ⟨q, among, same⟩ := List.mem_map.mp written
  obtain ⟨listedQ, real⟩ := List.mem_filter.mp among
  have foundQ := property?_of_mem distinct listedQ
  rw [show q.name = p.name from same, property?_of_mem distinct listed] at foundQ
  cases foundQ
  rw [virtual] at real
  cases real

/-! ## Properties and their definitions -/

/-- The properties of the model are those that were defined, with their setters. -/
def Realizes (definitions : List (String × Definition σ)) (m : Model σ) : Prop :=
  m.properties.map (fun p => (p.name, p.setter)) =
    definitions.map fun entry => (entry.1, entry.2.setter)

end Model

/-- Definitions with names of their own, and with setters that map onto none of them. -/
structure Definition.AreOrderly (definitions : List (String × Definition σ)) : Prop where
  distinct : (definitions.map (·.1)).Nodup
  aside : ∀ entry ∈ definitions, ∀ setter, entry.2.setter = some setter →
    ∀ value client mapped client', setter value client = (.ok mapped, client') →
      ∀ name ∈ Fields.keys mapped, name ∉ definitions.map (·.1)

namespace Model

variable {m m' : Model σ} {definitions : List (String × Definition σ)}

theorem SameShape.realizes (same : m.SameShape m') (realizes : m.Realizes definitions) :
    m'.Realizes definitions := by
  have shapes := congrArg (List.map fun p => (p.name, p.setter)) same.2
  rw [List.map_map, List.map_map] at shapes
  exact Eq.trans shapes realizes

namespace Realizes

theorem names (realizes : m.Realizes definitions) :
    m.properties.map (·.name) = definitions.map (·.1) := by
  have names := congrArg (List.map Prod.fst) realizes
  rwa [List.map_map, List.map_map] at names

theorem distinct (realizes : m.Realizes definitions) (orderly : Definition.AreOrderly definitions) :
    (m.properties.map (·.name)).Nodup := by
  rw [realizes.names]
  exact orderly.distinct

theorem mapsAside (realizes : m.Realizes definitions)
    (orderly : Definition.AreOrderly definitions) : m.MapsAside := by
  intro p listed setter given value client mapped client' maps name among
  have defined : (p.name, p.setter) ∈ definitions.map fun entry => (entry.1, entry.2.setter) := by
    rw [← realizes]
    exact List.mem_map_of_mem listed
  obtain ⟨entry, listedEntry, same⟩ := List.mem_map.mp defined
  have unlisted := orderly.aside entry listedEntry setter
    ((congrArg Prod.snd same).trans given) value client mapped client' maps name among
  rw [← realizes.names] at unlisted
  rw [isComputed, Option.isSome_eq_false_iff, Option.isNone_iff_eq_none]
  refine Option.eq_none_iff_forall_not_mem.mpr fun q found => unlisted ?_
  exact List.mem_map.mpr ⟨q, mem_of_property? found, name_of_property? found⟩

end Realizes

/-- The model has no computed properties, or those that were planned: definitions, and
what was stored when they were bound, with which the model is in accord. -/
def IsAsPlanned (plan : List (String × Definition σ) → Attributes → Prop) (m : Model σ) : Prop :=
  m.properties = [] ∨ ∃ definitions bound, plan definitions bound ∧ m.Realizes definitions ∧
    m.InAccord bound

namespace IsAsPlanned

variable {plan : List (String × Definition σ) → Attributes → Prop}

theorem mono {plan' : List (String × Definition σ) → Attributes → Prop}
    (asPlanned : m.IsAsPlanned plan) (more : ∀ definitions bound, plan definitions bound →
      plan' definitions bound) : m.IsAsPlanned plan' :=
  asPlanned.imp_right fun ⟨definitions, bound, planned, rest⟩ =>
    ⟨definitions, bound, more definitions bound planned, rest⟩

variable (orderly : ∀ definitions bound, plan definitions bound → Definition.AreOrderly definitions)

include orderly

theorem mapsAside (asPlanned : m.IsAsPlanned plan) : m.MapsAside := by
  rcases asPlanned with none | ⟨definitions, bound, planned, realizes, -⟩
  · intro p listed
    rw [none] at listed
    cases listed
  · exact realizes.mapsAside (orderly definitions bound planned)

omit orderly in
theorem write {pending : Attributes} (asPlanned : m.IsAsPlanned plan)
    (aside : ∀ name ∈ Fields.keys pending, m.isComputed name = false) :
    IsAsPlanned plan { m with store := (m.store.apply pending).1 } :=
  asPlanned.imp_right fun ⟨definitions, bound, planned, realizes, accord⟩ =>
    ⟨definitions, bound, planned, realizes, accord.write aside⟩

theorem adopt {p : Property σ} (asPlanned : m.IsAsPlanned plan)
    (found : m.property? p.name = some p) (value : Json) :
    (m.adopt p value).1.IsAsPlanned plan := by
  rcases asPlanned with none | ⟨definitions, bound, planned, realizes, accord⟩
  · have listed := mem_of_property? found
    rw [none] at listed
    cases listed
  · exact Or.inr ⟨definitions, bound, planned, (sameShape_adopt p value m).realizes realizes,
      accord.adopt (realizes.distinct (orderly definitions bound planned)) found value⟩

end IsAsPlanned

end Model

end LiveBinding
