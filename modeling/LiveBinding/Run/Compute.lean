/-
# LiveBinding.Run.Compute -- binding and refreshing computed properties

A property is evaluated once when it is bound, and what its getter reads then
are its dependencies for good.  After that it is evaluated anew exactly when
one of them fires.

A new value that is no list and no object, and the same as the old one, goes
no further.  Any other is kept, and then broadcast (a virtual property) or
written into the store, which announces it (any other).

Definitions are bound all together.  When one of them cannot be evaluated, or
they depend on each other in a circle, all are released again.
-/
import LiveBinding.Model.Cycle
import LiveBinding.Run.Write

namespace LiveBinding.Run

set_option autoImplicit false

variable {σ : Type}

/-- Evaluate the getter of a property, capturing what it reads if asked to. -/
def evaluate (model : Ref .model) (name : String) (getter : Getter σ) (capturing : Bool) :
    Run σ (Json × Collector) := do
  alter (.happen (.evaluated model name))
  let s ← get
  let result := getter.run s.world.sight model capturing s.client .empty
  set { s with client := result.client }
  match result.outcome with
  | .ok value => pure (value, result.captured)
  | .error reason => fail (.computation name reason)

/-- Subscribe a property to its dependencies. -/
def subscribeProperty (model : Ref .model) (name : String) :
    List Dependency → Run σ (List Subscription)
  | [] => pure []
  | d :: rest => do
      let first ← produce (World.subscribe d.hub d.event (.refresh model name))
      let others ← subscribeProperty model name rest
      pure (first.toList ++ others)

/-- Evaluate a definition and subscribe to what it depends on. -/
def buildProperty (model : Ref .model) (name : String) (definition : Definition σ) :
    Run σ (Property σ) := do
  match definition.getter with
  | none => fail (.noGetter name)
  | some getter =>
      let result ← evaluate model name getter true
      let dependencies := Collector.recordAll definition.events result.2
      let subscriptions ← subscribeProperty model name dependencies
      alter (.report (.computedBound name (Collector.events dependencies) definition.isVirtual))
      pure ⟨name, getter, definition.setter, definition.isVirtual, result.1, dependencies,
        subscriptions⟩

/-- Bind definitions, from the first to the last. -/
def buildAll (model : Ref .model) : List (String × Definition σ) → Run σ Unit
  | [] => pure ()
  | (name, definition) :: rest => do
      let property ← buildProperty model name definition
      alter fun w =>
        { w with models := w.models.update model fun m =>
            { m with properties := m.properties ++ [property] } }
      buildAll model rest

/-- Bind definitions, and release all of them when one cannot be bound. -/
def buildAllOrNone (model : Ref .model) (definitions : List (String × Definition σ)) :
    Run σ Unit := do
  match ← attempt (buildAll model definitions) with
  | .ok _ => pure ()
  | .error error =>
      alter (.unbindComputed model)
      fail error

/-- Refuse computed properties that depend on each other in a circle. -/
def refuseCycle (model : Ref .model) : Run σ Unit := do
  match ((← world).models.get? model).bind fun m => Graph.findCycle m.dependents with
  | none => pure ()
  | some cycle =>
      alter (.report (.cycleDetected cycle))
      alter (.unbindComputed model)
      fail (.cyclicDependency cycle)

/-- Replace the computed properties of a model. -/
def bindComputed (fire : Fire σ) (model : Ref .model) (definitions : List (String × Definition σ)) :
    Run σ Unit :=
  keeping (.model model) do
    alter (.unbindComputed model)
    buildAllOrNone model definitions
    refuseCycle model
    match (← world).models.get? model with
    | none => pure ()
    | some m => writeStore fire model m.initialWrites

/-- The new value goes no further. -/
def isSettled (previous value : Json) : Bool :=
  previous.isScalar && value.isScalar && Json.same previous value

/-- Pass on the new value of a property. -/
def publish (fire : Fire σ) (model : Ref .model) (hub : Ref .hub) (property : Property σ)
    (value : Json) : Run σ Unit := do
  let message := Message.computedUpdated property.name property.isVirtual
  alter (.report message)
  within (message.span "computed_update") do
    if property.isVirtual then announce fire hub [(property.name, value)]
    else writeStore fire model [(property.name, value)]

/-- Evaluate a property anew after one of its dependencies fired. -/
def refresh (fire : Fire σ) (model : Ref .model) (name : String) : Run σ Unit := do
  match (← world).models.get? model with
  | none => pure ()
  | some m =>
      match m.property? name with
      | none => pure ()
      | some property =>
          keeping (.model model) do
            let result ← evaluate model name property.getter false
            if isSettled property.value result.1 then pure ()
            else
              alter fun w =>
                { w with models := w.models.update model (.setValue name result.1) }
              publish fire model m.hub property result.1

end LiveBinding.Run
