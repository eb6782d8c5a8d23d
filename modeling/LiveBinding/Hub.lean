/-
# LiveBinding.Hub -- events and who listens to them

A hub keeps its listeners in the order of their subscription.  Identifiers are
given out in ascending order and never twice, so a listener that was cancelled
never comes back.

What a listener does is data (`Reaction`); carrying it out is the business of
`LiveBinding.Run`.
-/
import LiveBinding.Json.Basic
import LiveBinding.Ref

namespace LiveBinding

set_option autoImplicit false

/-- An event with what it carries: the new value for the change of an
attribute, null for a change as such. -/
structure Event where
  name : String
  value : Json

/-- The event that announces that something changed. -/
def changeEvent : String := "change"

def changeOf (name : String) : String :=
  changeEvent ++ ":" ++ name

/-- What a listener does when it is called. -/
inductive Reaction where
  /-- Call back the client. -/
  | client (callback : Nat)
  /-- Evaluate a computed property anew. -/
  | refresh (model : Ref .model) (property : String)
  /-- Apply an operator of a binding anew. -/
  | reapply (binding : Ref .binding) (slot : Nat)
  /-- Write the value of an edited element back into its model. -/
  | push (binding : Ref .binding) (slot : Nat)
  deriving DecidableEq

/-- The listener is a client's own. -/
def Reaction.isClient : Reaction → Bool
  | .client _ => true
  | _ => false

/-- A listener for the events of one name. -/
structure Listener where
  id : Nat
  event : String
  reaction : Reaction
  deriving DecidableEq

structure Hub where
  nextId : Nat
  listeners : List Listener

namespace Hub

def empty : Hub := ⟨0, []⟩

/-- Listen to the events called `event`; the new listener comes last. -/
def subscribe (event : String) (reaction : Reaction) (hub : Hub) : Hub :=
  ⟨hub.nextId + 1, hub.listeners ++ [⟨hub.nextId, event, reaction⟩]⟩

def cancel (id : Nat) (hub : Hub) : Hub :=
  { hub with listeners := hub.listeners.filter (·.id ≠ id) }

/-- Stop listening, if the listener is a client's own. -/
def withdraw (id : Nat) (hub : Hub) : Hub :=
  { hub with listeners := hub.listeners.filter fun l => l.id ≠ id || !l.reaction.isClient }

def isRegistered (id : Nat) (hub : Hub) : Bool :=
  hub.listeners.any (·.id = id)

def listening (event : String) (hub : Hub) : List Listener :=
  hub.listeners.filter (·.event = event)

end Hub

/-- A listener as its owner holds it. -/
structure Subscription where
  hub : Ref .hub
  id : Nat
  event : String
  deriving DecidableEq

end LiveBinding
