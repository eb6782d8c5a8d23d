/-
# LiveBinding.Proofs.Model.Basic -- models whose computed values can be kept

Between binding and releasing its properties a model keeps its shape: only the
store and the values of the properties change.  `IsRegular` and everything else
that is asked of the definitions is about the shape.

A property is fresh (`Property.IsFresh`) when the value it keeps is what its
getter gives for what the model reads as now.
-/
import LiveBinding.Model.Basic
import LiveBinding.Proofs.Model.Reading
import LiveBinding.Proofs.Model.Store

namespace LiveBinding

set_option autoImplicit false

variable {σ : Type}

/-! ## Shape -/

def Property.shape (p : Property σ) : Property σ :=
  { p with value := .null }

namespace Model

/-- The models have the same hub and, but for their values, the same properties. -/
def SameShape (m m' : Model σ) : Prop :=
  m'.hub = m.hub ∧ m'.properties.map Property.shape = m.properties.map Property.shape

namespace SameShape

variable {m m' m'' : Model σ}

theorem refl (m : Model σ) : SameShape m m := ⟨rfl, rfl⟩

theorem symm (same : SameShape m m') : SameShape m' m := ⟨same.1.symm, same.2.symm⟩

theorem trans (first : SameShape m m') (then_ : SameShape m' m'') : SameShape m m'' :=
  ⟨then_.1.trans first.1, then_.2.trans first.2⟩

theorem mem (same : SameShape m m') {p : Property σ} (listed : p ∈ m.properties) :
    ∃ p' ∈ m'.properties, p'.shape = p.shape := by
  have there : p.shape ∈ m'.properties.map Property.shape := by
    rw [same.2]
    exact List.mem_map_of_mem listed
  obtain ⟨p', listed', shape⟩ := List.mem_map.mp there
  exact ⟨p', listed', shape⟩

end SameShape

end Model

namespace Property

variable {p q : Property σ}

theorem name_of_shape (same : p.shape = q.shape) : p.name = q.name := by
  show p.shape.name = q.shape.name
  rw [same]

theorem getter_of_shape (same : p.shape = q.shape) : p.getter = q.getter := by
  show p.shape.getter = q.shape.getter
  rw [same]

theorem setter_of_shape (same : p.shape = q.shape) : p.setter = q.setter := by
  show p.shape.setter = q.shape.setter
  rw [same]

theorem dependencies_of_shape (same : p.shape = q.shape) : p.dependencies = q.dependencies := by
  show p.shape.dependencies = q.shape.dependencies
  rw [same]

theorem subscriptions_of_shape (same : p.shape = q.shape) : p.subscriptions = q.subscriptions := by
  show p.shape.subscriptions = q.shape.subscriptions
  rw [same]

end Property

namespace Model

variable {m m' : Model σ} {name : String}

theorem find?_of_shape {ps qs : List (Property σ)}
    (same : ps.map Property.shape = qs.map Property.shape) (name : String) :
    (ps.find? (·.name = name)).map Property.shape =
      (qs.find? (·.name = name)).map Property.shape := by
  have past : ∀ rs : List (Property σ), (rs.find? (·.name = name)).map Property.shape =
      (rs.map Property.shape).find? (·.name = name) := by
    intro rs
    rw [List.find?_map]
    rfl
  rw [past, past, same]

theorem SameShape.property? (same : SameShape m m') (name : String) :
    (m'.property? name).map Property.shape = (m.property? name).map Property.shape :=
  find?_of_shape same.2 name

theorem SameShape.isComputed (same : SameShape m m') (name : String) :
    m'.isComputed name = m.isComputed name := by
  have found := congrArg Option.isSome (same.property? name)
  simpa [Model.isComputed] using found

theorem mem_of_property? {p : Property σ} (found : m.property? name = some p) :
    p ∈ m.properties :=
  List.mem_of_find?_eq_some found

theorem name_of_property? {p : Property σ} (found : m.property? name = some p) :
    p.name = name := by
  have named := List.find?_some found
  simpa using named

/-- With names of their own, the listed properties are those that are found. -/
theorem property?_of_mem {p : Property σ} (distinct : (m.properties.map (·.name)).Nodup)
    (listed : p ∈ m.properties) : m.property? p.name = some p := by
  have search : ∀ ps : List (Property σ), (ps.map (·.name)).Nodup → p ∈ ps →
      ps.find? (·.name = p.name) = some p := by
    intro ps
    induction ps with
    | nil => exact fun _ none => absurd none List.not_mem_nil
    | cons q rest ih =>
        intro distinct listed
        obtain ⟨unrepeated, distinctRest⟩ := List.nodup_cons.mp distinct
        rcases List.mem_cons.mp listed with rfl | later
        · simp
        · have other : q.name ≠ p.name := by
            intro same
            apply unrepeated
            show q.name ∈ _
            rw [same]
            exact List.mem_map_of_mem later
          rw [List.find?_cons_of_neg (by simpa using other)]
          exact ih distinctRest later
  exact search _ distinct listed

/-- The property is the one that the model has under its name, if it has one. -/
def Admits (m : Model σ) (p : Property σ) : Prop :=
  ∀ q, m.property? p.name = some q → q = p

theorem admits_of_mem {p : Property σ} (distinct : (m.properties.map (·.name)).Nodup)
    (listed : p ∈ m.properties) : m.Admits p := by
  intro q found
  rw [property?_of_mem distinct listed] at found
  exact (Option.some.inj found).symm

theorem Admits.shape_of_property? {p p' : Property σ} (admits : m.Admits p) (same : SameShape m m')
    (found : m'.property? p.name = some p') : p'.shape = p.shape := by
  have shapes := same.property? p.name
  rw [found] at shapes
  obtain ⟨q, there, shape⟩ := Option.map_eq_some_iff.mp shapes.symm
  rw [← shape, admits q there]

/-- Under every name there is something that the model admits. -/
theorem exists_admits (m : Model σ) (p : Property σ) : ∃ q, m.Admits q ∧ q.name = p.name := by
  rcases found : m.property? p.name with _ | q
  · refine ⟨p, fun q there => ?_, rfl⟩
    rw [found] at there
    cases there
  · have named := name_of_property? found
    refine ⟨q, fun r there => ?_, named⟩
    rw [named, found] at there
    exact (Option.some.inj there).symm

/-! ## Changing the value of a property -/

theorem setValueOf_shape (name : String) (value : Json) (ps : List (Property σ)) :
    (setValueOf name value ps).map Property.shape = ps.map Property.shape := by
  induction ps with
  | nil => rfl
  | cons p rest ih =>
      rw [setValueOf]
      split
      · rfl
      · rw [List.map_cons, ih, List.map_cons]

theorem sameShape_setValue (name : String) (value : Json) (m : Model σ) :
    SameShape m (m.setValue name value) :=
  ⟨rfl, setValueOf_shape name value m.properties⟩

theorem sameShape_store (store : Attributes) (m : Model σ) :
    SameShape m { m with store := store } :=
  ⟨rfl, rfl⟩

theorem property?_setValue_self {p : Property σ} (found : m.property? name = some p)
    (value : Json) : (m.setValue name value).property? name = some { p with value := value } := by
  have search : ∀ ps : List (Property σ), ps.find? (·.name = name) = some p →
      (setValueOf name value ps).find? (·.name = name) = some { p with value := value } := by
    intro ps
    induction ps with
    | nil => exact fun none => nomatch none
    | cons q rest ih =>
        intro found
        rw [setValueOf]
        split
        · rename_i same
          rw [List.find?_cons_of_pos (by simpa using same)] at found ⊢
          cases found
          rfl
        · rename_i other
          rw [List.find?_cons_of_neg (by simpa using other)] at found ⊢
          exact ih found
  exact search _ found

theorem property?_setValue_ne {other : String} (distinct : other ≠ name) (value : Json)
    (m : Model σ) : (m.setValue name value).property? other = m.property? other := by
  have search : ∀ ps : List (Property σ),
      (setValueOf name value ps).find? (·.name = other) = ps.find? (·.name = other) := by
    intro ps
    induction ps with
    | nil => rfl
    | cons q rest ih =>
        rw [setValueOf]
        split
        · rename_i same
          have unlike : ¬ q.name = other := fun named => distinct (named.symm.trans same)
          rw [List.find?_cons_of_neg (by simpa using unlike),
            List.find?_cons_of_neg (by simpa using unlike)]
        · rw [List.find?_cons, List.find?_cons, ih]
  exact search _

/-! ## What a model reads as -/

/-- Storing attributes changes what reads differently only where it is reported. -/
theorem read_apply_of_unreported {pending : Attributes}
    (silent : ∀ change ∈ (m.store.apply pending).2, change.1 ≠ name) :
    ({ m with store := (m.store.apply pending).1 } : Model σ).read name = m.read name := by
  have stored := Attributes.get?_apply_of_unreported silent
  simp only [read, Attributes.read, stored]
  rfl

theorem read_of_property? {p : Property σ} (found : m.property? name = some p) :
    m.read name = p.value := by
  rw [read, found]

/-! ## First values -/

/-- With names of their own, the properties that are not virtual are written as they
are. -/
theorem initialWrites_of_distinct (distinct : (m.properties.map (·.name)).Nodup) :
    (Fields.keys m.initialWrites).Nodup ∧
      m.initialWrites = (m.properties.filter fun property => !property.isVirtual).map
        fun property => (property.name, property.value) := by
  have once : (Fields.keys ((m.properties.filter fun property => !property.isVirtual).map
      fun property => (property.name, property.value))).Nodup := by
    rw [Fields.keys, List.map_map]
    exact distinct.sublist (List.Sublist.map _ List.filter_sublist)
  have same := Fields.ofEntries_of_distinct once
  exact ⟨by rw [initialWrites, same]; exact once, same⟩

theorem mem_initialWrites (distinct : (m.properties.map (·.name)).Nodup) {p : Property σ}
    (listed : p ∈ m.properties) (real : p.isVirtual = false) :
    (p.name, p.value) ∈ m.initialWrites := by
  rw [(initialWrites_of_distinct distinct).2]
  exact List.mem_map.mpr ⟨p, List.mem_filter.mpr ⟨listed, by rw [real]; rfl⟩, rfl⟩

/-! ## Regular models -/

/-- The computed properties have names of their own, getters that ask for the
same names whatever they are answered and give scalars, and setters that map
onto attributes only. -/
structure IsRegular (m : Model σ) : Prop where
  distinct : (m.properties.map (·.name)).Nodup
  asks : ∀ p ∈ m.properties, ∃ names, p.getter.Asks names
  maps : ∀ p ∈ m.properties, ∀ setter, p.setter = some setter →
    ∀ value client mapped client', setter value client = (.ok mapped, client') →
      ∀ name ∈ Fields.keys mapped, m.isComputed name = false

def MapsAside (m : Model σ) : Prop :=
  ∀ p ∈ m.properties, ∀ setter, p.setter = some setter →
    ∀ value client mapped client', setter value client = (.ok mapped, client') →
      ∀ name ∈ Fields.keys mapped, m.isComputed name = false

/-- What the properties that are not virtual keep is in the store as well. -/
def StoresComputed (m : Model σ) : Prop :=
  ∀ p ∈ m.properties, p.isVirtual = false → m.store.holds p.name p.value = true

namespace SameShape

theorem names (same : SameShape m m') : m'.properties.map (·.name) = m.properties.map (·.name) := by
  have named := congrArg (List.map Property.name) same.2
  rwa [List.map_map, List.map_map] at named

theorem mapsAside (same : SameShape m m') (aside : m.MapsAside) : m'.MapsAside := by
  intro p listed setter given value client mapped client' maps name among
  obtain ⟨q, listed', shape⟩ := same.symm.mem listed
  rw [← Property.setter_of_shape shape] at given
  rw [same.isComputed]
  exact aside q listed' setter given value client mapped client' maps name among

theorem isRegular (same : SameShape m m') (regular : m.IsRegular) : m'.IsRegular where
  distinct := by
    rw [same.names]
    exact regular.distinct
  asks := by
    intro p listed
    obtain ⟨q, listed', shape⟩ := same.symm.mem listed
    rw [← Property.getter_of_shape shape]
    exact regular.asks q listed'
  maps := same.mapsAside regular.maps

end SameShape

end Model

/-- The value kept is what the getter gives for what the model reads as. -/
def Property.IsFresh (m : Model σ) (p : Property σ) : Prop :=
  ∃ asked value, p.getter.Gives m.read asked (.ok value) ∧ Json.same p.value value = true

/-- A property stays fresh while what it asks for reads the same. -/
theorem Property.IsFresh.congr {m m' : Model σ} {p p' : Property σ} {names : List String}
    (fresh : p.IsFresh m) (asks : p.getter.Asks names) (getter : p'.getter = p.getter)
    (value : p'.value = p.value) (same : ∀ name ∈ names, m'.read name = m.read name) :
    p'.IsFresh m' := by
  obtain ⟨asked, given, gives, keeps⟩ := fresh
  obtain ⟨asked', outcome, gives', exact_, -⟩ := asks m.read
  obtain ⟨rfl, rfl⟩ := gives.unique gives'
  refine ⟨asked, given, ?_, ?_⟩
  · rw [getter]
    exact gives.congr fun name among => same name ((exact_ name).mp among)
  · rw [value]
    exact keeps

end LiveBinding
