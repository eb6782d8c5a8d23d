/-
# LiveBinding.Model.Basic -- attributes, some of them computed

A model is a store of attributes, a hub that announces their changes, and
computed properties.  Reading a name finds the computed property of that name
before the stored attribute, and null when there is neither.

A computed property keeps its last value.  A virtual one is only broadcast; any
other is also written into the store.
-/
import LiveBinding.Model.Reading
import LiveBinding.Model.Store

namespace LiveBinding

set_option autoImplicit false

/-- How a computed property is derived. -/
structure Definition (σ : Type) where
  getter : Option (Getter σ)
  setter : Option (Setter σ)
  isVirtual : Bool
  /-- Dependencies that reading does not show. -/
  events : List Dependency

namespace Definition

variable {σ : Type}

def empty : Definition σ := ⟨none, none, false, []⟩

/-- A virtual property with a getter and no setter. -/
def ofGetter (getter : Getter σ) : Definition σ :=
  { empty with getter := some getter, isVirtual := true }

end Definition

/-- A computed property of a model. -/
structure Property (σ : Type) where
  name : String
  getter : Getter σ
  setter : Option (Setter σ)
  isVirtual : Bool
  value : Json
  dependencies : List Dependency
  subscriptions : List Subscription

/-- Attributes with a hub that announces their changes. -/
structure Model (σ : Type) where
  hub : Ref .hub
  store : Attributes
  properties : List (Property σ)

namespace Model

variable {σ : Type}

/-- The computed property of a name; the first one, should there be several. -/
def property? (m : Model σ) (name : String) : Option (Property σ) :=
  m.properties.find? (·.name = name)

def isComputed (m : Model σ) (name : String) : Bool :=
  (m.property? name).isSome

def read (m : Model σ) (name : String) : Json :=
  match m.property? name with
  | some property => property.value
  | none => m.store.read name

/-- The stored names, then the computed names that are not stored. -/
def names (m : Model σ) : List String :=
  m.properties.foldl
    (fun known property => if property.name ∈ known then known else known ++ [property.name])
    (Fields.keys m.store)

/-- The properties with the value of the first one called `name` replaced. -/
def setValueOf (name : String) (value : Json) : List (Property σ) → List (Property σ)
  | [] => []
  | property :: rest =>
      if property.name = name then { property with value := value } :: rest
      else property :: setValueOf name value rest

def setValue (name : String) (value : Json) (m : Model σ) : Model σ :=
  { m with properties := setValueOf name value m.properties }

/-- The names of the properties that depend on the change of `name`. -/
def dependentsOf (m : Model σ) (name : String) : List String :=
  (m.properties.filter fun candidate =>
    candidate.dependencies.any fun d => d.event = changeOf name && d.hub = m.hub).map (·.name)

/-- Each property with the properties that depend on it. -/
def dependents (m : Model σ) : List (String × List String) :=
  m.properties.map fun property => (property.name, m.dependentsOf property.name)

/-- The values to store once all properties are bound: those of the properties
that are not virtual. -/
def initialWrites (m : Model σ) : Attributes :=
  Fields.ofEntries
    ((m.properties.filter fun property => !property.isVirtual).map fun property =>
      (property.name, property.value))

end Model

end LiveBinding
