/-
# LiveBinding.Run.Write -- writing attributes of a model

A write is routed first: what is written to a computed property is replaced by
the attributes its setter maps the value to.  If some property has no setter,
or a setter fails, nothing is stored.  Then everything is stored, and then the
changes are announced: `change:name` for each changed entry in order, and
`change` once if there was any.
-/
import LiveBinding.Run.Basic

namespace LiveBinding.Run

set_option autoImplicit false

variable {σ : Type}

/-- Map an incoming value by a setter. -/
def applySetter (name : String) (setter : Setter σ) (value : Json) : Run σ Attributes := do
  let result := setter value (← get).client
  modify fun s => { s with client := result.2 }
  match result.1 with
  | .ok mapped => pure mapped
  | .error reason => fail (.computation name reason)

/-- Route entries, from the first to the last, onto what is routed already. -/
def route (model : Ref .model) : Attributes → Attributes → Run σ Attributes
  | [], routed => pure routed
  | (name, value) :: rest, routed => do
      match ((← world).models.get? model).bind (·.property? name) with
      | none => route model rest (Fields.set name value routed)
      | some property =>
          match property.setter with
          | none => fail (.noSetter name)
          | some setter =>
              let mapped ← applySetter name setter value
              route model rest (Fields.setAll mapped routed)

/-- Announce changes: each by its own event, then all of them by one. -/
def announce (fire : Fire σ) (hub : Ref .hub) (changes : List (String × Json)) : Run σ Unit := do
  changes.forM fun change => fire (.event hub ⟨changeOf change.1, change.2⟩)
  if !changes.isEmpty then fire (.event hub ⟨changeEvent, .null⟩)

/-- Store attributes and announce what changed. -/
def writeStore (fire : Fire σ) (model : Ref .model) (pending : Attributes) : Run σ Unit := do
  match (← world).models.get? model with
  | none => pure ()
  | some m =>
      let result := m.store.apply pending
      alter fun w =>
        { w with models := w.models.update model fun m => { m with store := result.1 } }
      announce fire m.hub result.2

def write (fire : Fire σ) (model : Ref .model) (attributes : Attributes) : Run σ Unit :=
  keeping (.model model) do
    writeStore fire model (← route model attributes [])

/-- Write the attribute that an accessor names.  An object is written as the
attributes it holds; a model that is gone is left alone. -/
def assign (fire : Fire σ) (a : Accessor) (value : Json) : Run σ Unit := do
  if ((← world).models.get? a.model).isSome then
    match value with
    | .object attributes => write fire a.model attributes
    | other => write fire a.model [(a.name, other)]

end LiveBinding.Run
