/-
# LiveBinding.Run.Script -- programs put together from parts

A script is a part of a program.  It ends with a result or with a failure, and
given what is to be done then it is a program.  Scripts are put together one
after another; a failure passes over what comes after it.

Every call is a script; a call that fails makes its script fail.
-/
import LiveBinding.Run.Program

namespace LiveBinding

set_option autoImplicit false

/-- A part of a program. -/
structure Script (σ α : Type) where
  run : (Except Error α → Program σ) → Program σ

namespace Script

variable {σ α β : Type}

def done (value : α) : Script σ α :=
  ⟨fun next => next (.ok value)⟩

def fail (error : Error) : Script σ α :=
  ⟨fun next => next (.error error)⟩

/-- Go on with the result. -/
def bind (script : Script σ α) (f : α → Script σ β) : Script σ β :=
  ⟨fun next => script.run fun ended =>
    match ended with
    | .ok value => (f value).run next
    | .error error => next (.error error)⟩

instance : Monad (Script σ) where
  pure := done
  bind := bind

instance : Inhabited (Script σ α) := ⟨⟨fun _ => .done⟩⟩

def attempt (script : Script σ α) : Script σ (Except Error α) :=
  ⟨fun next => script.run fun ended => next (.ok ended)⟩

def ofExcept : Except Error α → Script σ α
  | .ok value => done value
  | .error error => fail error

/-- The whole program of a script, which fails when the script does. -/
def toProgram (script : Script σ Unit) : Program σ :=
  script.run fun ended =>
    match ended with
    | .ok _ => .done
    | .error error => .fail error

/-! ## Looking -/

def world : Script σ (World σ) :=
  ⟨fun next => .look fun world _ => next (.ok world)⟩

def client : Script σ σ :=
  ⟨fun next => .look fun _ client => next (.ok client)⟩

def change (f : σ → σ) : Script σ Unit :=
  ⟨fun next => .change f (next (.ok ()))⟩

/-! ## Calls -/

def openHub : Script σ (Ref .hub) :=
  ⟨fun next => .call .openHub fun hub => next (.ok hub)⟩

def openModel (attributes : Attributes) : Script σ (Ref .model) :=
  ⟨fun next => .call (.openModel attributes) fun model => next (.ok model)⟩

def openDocument : Script σ (Ref .document) :=
  ⟨fun next => .call .openDocument fun document => next (.ok document)⟩

def openView (view : View) : Script σ (Ref .view) :=
  ⟨fun next => .call (.openView view) fun view => next (.ok view)⟩

/-- Make a call whose answer says nothing. -/
def act (call : Call σ) : Script σ Unit :=
  ⟨fun next => .call call fun _ => next (.ok ())⟩

def trigger (hub : Ref .hub) (event : Event) : Script σ Unit :=
  ⟨.call (.trigger hub event)⟩

def write (model : Ref .model) (attributes : Attributes) : Script σ Unit :=
  ⟨.call (.write model attributes)⟩

def assign (accessor : Accessor) (value : Json) : Script σ Unit :=
  ⟨.call (.assign accessor value)⟩

def bindComputed (model : Ref .model) (definitions : List (String × Definition σ)) :
    Script σ Unit :=
  ⟨.call (.bindComputed model definitions)⟩

def announceEdit (document : Ref .document) (element : Ref .element) : Script σ Unit :=
  ⟨.call (.announceEdit document element)⟩

def typeInto (document : Ref .document) (element : Ref .element) (text : String) :
    Script σ Unit :=
  ⟨.call (.typeInto document element text)⟩

def attach (document : Ref .document) (element : Ref .element) (env : Environment)
    (editable : Bool) (resolved : Resolved) : Script σ (Ref .binding) :=
  ⟨.call (.attach document element env editable resolved)⟩

def bindView (view : Ref .view) : Script σ Unit :=
  ⟨.call (.bindView view)⟩

/-- Subscribe a callback to an event; no answer when the hub does not exist. -/
def subscribe (hub : Ref .hub) (event : String) (callback : Event → Program σ) :
    Script σ (Option Subscription) :=
  ⟨fun next => .subscribe hub event callback fun subscription => next (.ok subscription)⟩

def listen (document : Ref .document) (element : Ref .element) (callback : Program σ) :
    Script σ Nat :=
  ⟨fun next => .listen document element callback fun id => next (.ok id)⟩

end Script

end LiveBinding
