/-
# LiveBinding.Run.Dispatch -- delivering events

A dispatch takes down the listeners that are registered when it begins, and
calls them in the order of their subscription.  One that was cancelled in the
meantime is skipped, one that was added in the meantime is not called.  The
first failure ends the dispatch.

Listeners may dispatch in turn.  The depth to which dispatches nest is an
argument, and running out of it is neither success nor failure.
-/
import LiveBinding.Run.Bind
import LiveBinding.Run.Compute

namespace LiveBinding.Run

set_option autoImplicit false

variable {σ : Type}

/-- Give an element the value that was typed into it, and tell those who listen to
its edits. -/
def typeInto (fire : Fire σ) (document : Ref .document) (element : Ref .element) (text : String) :
    Run σ Unit := do
  alter (.editDocument document (.amend element (.setValue (.text text))))
  keeping (.document document) (fire (.edit document element))

/-- Make a call. -/
def perform (fire : Fire σ) : (call : Call σ) → Run σ call.Answer
  | .openHub => produce World.openHub
  | .openModel attributes => produce (World.openModel attributes)
  | .openDocument => produce World.openDocument
  | .hold handle => alter (.hold handle)
  | .release handle => alter (.release handle)
  | .cancel subscription => alter (.withdraw subscription)
  | .trigger hub event => attempt (keeping (.hub hub) (fire (.event hub event)))
  | .write model attributes => attempt (write fire model attributes)
  | .assign accessor value => attempt (assign fire accessor value)
  | .bindComputed model definitions => attempt (bindComputed fire model definitions)
  | .unbindComputed model => alter (.unbindComputed model)
  | .edit document edit => alter (.editDocument document fun d => d.apply edit)
  | .mount document parent fixtures =>
      alter (.editDocument document (Fixture.mountAll parent fixtures))
  | .operate document element operator value => applyOperator document element operator value
  | .announceEdit document element =>
      attempt (keeping (.document document) (fire (.edit document element)))
  | .typeInto document element text => attempt (typeInto fire document element text)
  | .attach document element env editable resolved =>
      attempt (attach document element env editable resolved)
  | .dispose binding => alter (.dispose binding)
  | .openView view => produce (World.openView view)
  | .bindView view => attempt (bindView view)
  | .unbindView view => alter (.unbindView view)
  | .removeView view => alter (.removeView view)
  | .dropView view => alter (.dropView view)
  | .report message => alter (.report message)

/-- Keep a callback: the number it can be called by. -/
def enroll (callback : Event → Program σ) : Run σ Nat :=
  modifyGet fun s =>
    (s.callbacks.length, { s with callbacks := s.callbacks ++ [callback] })

/-- Carry out a program. -/
def exec (fire : Fire σ) : Program σ → Run σ Unit
  | .done => pure ()
  | .fail error => fail error
  | .call call next => do exec fire (next (← perform fire call))
  | .subscribe hub event callback next => do
      let number ← enroll callback
      exec fire (next (← produce (World.subscribe hub event (.client number))))
  | .listen document element callback next => do
      let number ← enroll fun _ => callback
      exec fire (next (← produce (World.listen document element (.client number))))
  | .look next => do
      let s ← get
      exec fire (next s.world s.client)
  | .change f next => do
      modify fun s => { s with client := f s.client }
      exec fire next

/-- Do what a listener does. -/
def react (fire : Fire σ) (event : Event) : Reaction → Run σ Unit
  | .client callback => do
      match (← get).callbacks[callback]? with
      | some program => exec fire (program event)
      | none => pure ()
  | .refresh model property => refresh fire model property
  | .reapply binding slot => reapply binding slot event.name
  | .push binding slot => push fire binding slot

/-- The listeners of a signal, in order, with what they do. -/
def listeners (w : World σ) : Signal → List (Nat × Reaction)
  | .event hub event =>
      match w.hubs.get? hub with
      | some h => (h.listening event.name).map fun l => (l.id, l.reaction)
      | none => []
  | .edit document element =>
      match w.documents.get? document with
      | some d => (d.listeners element).map fun l => (l.id, l.reaction.reaction)
      | none => []

/-- The listener is registered. -/
def isRegistered (w : World σ) (signal : Signal) (id : Nat) : Bool :=
  match signal with
  | .event hub _ =>
      match w.hubs.get? hub with
      | some h => h.isRegistered id
      | none => false
  | .edit document element =>
      match w.documents.get? document with
      | some d => (d.listeners element).any (·.id = id)
      | none => false

/-- What listeners are told of a signal. -/
def eventOf : Signal → Event
  | .event _ event => event
  | .edit _ _ => ⟨changeEvent, .null⟩

/-- Call listeners, from the first to the last, unless they were cancelled. -/
def deliver (fire : Fire σ) (signal : Signal) (began : Nat) : List (Nat × Reaction) → Run σ Unit
  | [] => pure ()
  | (id, reaction) :: rest => do
      if isRegistered (← world) signal id then
        alter (.happen (.called began id))
        react fire (eventOf signal) reaction
      deliver fire signal began rest

/-- Dispatch a signal, nesting at most `depth` dispatches. -/
def dispatch : Nat → Signal → Run σ Unit
  | 0, _ => throw .exhausted
  | depth + 1, signal => do
      let w ← world
      alter (.happen (.dispatched signal))
      deliver (dispatch depth) signal w.journal.length (listeners w signal)

/-- Carry out a program; dispatches nest at most `depth` deep. -/
def run (depth : Nat) (program : Program σ) : Run σ Unit :=
  exec (dispatch depth) program

end LiveBinding.Run
