/-
# LiveBinding.Run.Program -- what a client does

A client works on a world through calls.  A program is a tree of calls: it
makes one, goes on with the answer, and ends well or with a failure.  Calls
that can fail hand their failure to the program, which may pass it on.

Callbacks are programs too, and so may make any call, also while an event is
being dispatched to them.  A program can look at the world and at the client's
own state `σ`; it can change the world by its calls only.
-/
import LiveBinding.Document.Fixture
import LiveBinding.World

namespace LiveBinding

set_option autoImplicit false

/-- A call that a client can make. -/
inductive Call (σ : Type) where
  | openHub
  | openModel (attributes : Attributes)
  | openDocument
  | hold (handle : Handle)
  | release (handle : Handle)
  | cancel (subscription : Subscription)
  /-- Deliver an event to its listeners. -/
  | trigger (hub : Ref .hub) (event : Event)
  /-- Write attributes of a model. -/
  | write (model : Ref .model) (attributes : Attributes)
  /-- Write the attribute that an accessor names. -/
  | assign (accessor : Accessor) (value : Json)
  | bindComputed (model : Ref .model) (definitions : List (String × Definition σ))
  | unbindComputed (model : Ref .model)
  | edit (document : Ref .document) (edit : Document.Edit)
  | mount (document : Ref .document) (parent : Ref .element) (fixtures : List Fixture)
  /-- Apply an operator to an element. -/
  | operate (document : Ref .document) (element : Ref .element) (operator : Operator)
      (value : Json)
  /-- Deliver the edit of an element to its listeners. -/
  | announceEdit (document : Ref .document) (element : Ref .element)
  /-- Type a text into an element. -/
  | typeInto (document : Ref .document) (element : Ref .element) (text : String)
  | attach (document : Ref .document) (element : Ref .element) (env : Environment)
      (editable : Bool) (resolved : Resolved)
  | dispose (binding : Ref .binding)
  | openView (view : View)
  | bindView (view : Ref .view)
  | unbindView (view : Ref .view)
  | removeView (view : Ref .view)
  | dropView (view : Ref .view)
  | report (message : Message)

namespace Call

/-- What a call answers. -/
def Answer {σ : Type} : Call σ → Type
  | .openHub => Ref .hub
  | .openModel _ => Ref .model
  | .openDocument => Ref .document
  | .trigger _ _ => Except Error Unit
  | .write _ _ => Except Error Unit
  | .assign _ _ => Except Error Unit
  | .bindComputed _ _ => Except Error Unit
  | .announceEdit _ _ => Except Error Unit
  | .typeInto _ _ _ => Except Error Unit
  | .attach .. => Except Error (Ref .binding)
  | .openView _ => Ref .view
  | .bindView _ => Except Error Unit
  | _ => Unit

end Call

/-- What a client does. -/
inductive Program (σ : Type) where
  | done
  | fail (error : Error)
  | call (call : Call σ) (next : call.Answer → Program σ)
  /-- Subscribe a callback to an event; no answer when the hub does not exist. -/
  | subscribe (hub : Ref .hub) (event : String) (callback : Event → Program σ)
      (next : Option Subscription → Program σ)
  /-- Let a callback listen to the edits of an element. -/
  | listen (document : Ref .document) (element : Ref .element) (callback : Program σ)
      (next : Nat → Program σ)
  /-- Look at the world and at the client's state. -/
  | look (next : World σ → σ → Program σ)
  /-- Change the client's state. -/
  | change (f : σ → σ) (next : Program σ)

instance {σ : Type} : Inhabited (Program σ) := ⟨.done⟩

end LiveBinding
