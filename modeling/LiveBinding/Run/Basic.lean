/-
# LiveBinding.Run.Basic -- work that changes the state and may fail

The state is the world, the callbacks that clients subscribed, and the client's
own state.  Work on it changes the state and then ends well, fails, or runs out
of the depth to which dispatches may nest.  What was changed before a failure
stays changed.

Work that dispatches takes the dispatch as an argument (`Fire`), so only the
dispatch itself, in `LiveBinding.Run.Dispatch`, recurs.
-/
import LiveBinding.Run.Program

namespace LiveBinding

set_option autoImplicit false

/-- The world, the callbacks subscribed so far, and the client's state. -/
structure State (σ : Type) where
  world : World σ
  callbacks : List (Event → Program σ)
  client : σ

/-- Why work ended early. -/
inductive Halt where
  | failed (error : Error)
  /-- Dispatches nested deeper than allowed. -/
  | exhausted

/-- Work on the state. -/
abbrev Run (σ : Type) := ExceptT Halt (StateM (State σ))

/-- How to dispatch a signal. -/
abbrev Fire (σ : Type) := Signal → Run σ Unit

namespace Run

variable {σ α : Type}

def world : Run σ (World σ) := do
  return (← get).world

def alter (f : World σ → World σ) : Run σ Unit :=
  modify fun s => { s with world := f s.world }

/-- Change the world and get something out of it. -/
def produce (f : World σ → α × World σ) : Run σ α :=
  modifyGet fun s =>
    let result := f s.world
    (result.1, { s with world := result.2 })

def fail (error : Error) : Run σ α := do
  alter (.happen (.failed error))
  throw (.failed error)

def ofExcept : Except Error α → Run σ α
  | .ok value => pure value
  | .error error => fail error

/-- Do something last, however the work ends. -/
def lastly (work : Run σ α) (last : World σ → World σ) : Run σ α :=
  ExceptT.mk fun s =>
    let result := work.run s
    (result.1, { result.2 with world := last result.2.world })

/-- Work with a span around it. -/
def within (span : Span) (work : Run σ α) : Run σ α := do
  let spans := (← world).spans
  alter fun w => { w with spans := spans ++ [span] }
  work.lastly fun w => { w with spans := spans }

/-- Work while holding on to something. -/
def keeping (handle : Handle) (work : Run σ α) : Run σ α := do
  alter (.hold handle)
  work.lastly (.release handle)

/-- The failure of some work as an answer. -/
def attempt (work : Run σ α) : Run σ (Except Error α) :=
  ExceptT.mk fun s =>
    match work.run s with
    | (.ok value, s) => (.ok (.ok value), s)
    | (.error (.failed error), s) => (.ok (.error error), s)
    | (.error .exhausted, s) => (.error .exhausted, s)

end Run

end LiveBinding
