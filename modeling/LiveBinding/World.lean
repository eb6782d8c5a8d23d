/-
# LiveBinding.World -- everything that lives

The world holds all hubs, models, documents, bindings and views, the handles by
which a client keeps some of them alive, and the journal of what happened.

What lives:

* a model, as long as the client holds it or a view owns it; when it goes, its
  computed properties and their subscriptions go with it, and accessors of it
  read null;
* a document, as long as the client holds it or a view uses it; bindings leave
  the elements of a document that is gone alone;
* a hub, as long as the client holds it, a model announces its changes on it or
  a computed property depends on it.

A journal entry is written for every message, for every dispatch that begins,
for every listener that is called, for every evaluation of a getter and for
every failure, with the spans that were open at that moment.
-/
import LiveBinding.Document.Selector
import LiveBinding.Model.Basic
import LiveBinding.View

namespace LiveBinding

set_option autoImplicit false

/-- What a client holds on to. -/
inductive Handle where
  | hub (hub : Ref .hub)
  | model (model : Ref .model)
  | document (document : Ref .document)
  deriving DecidableEq

/-- What can be dispatched: an event on a hub, or the edit of an element. -/
inductive Signal where
  | event (hub : Ref .hub) (event : Event)
  | edit (document : Ref .document) (element : Ref .element)

/-- Something that happened. -/
inductive Happening where
  | message (message : Message)
  | dispatched (signal : Signal)
  /-- A listener was called, in the dispatch that began at an entry. -/
  | called (began : Nat) (listener : Nat)
  | evaluated (model : Ref .model) (property : String)
  /-- Work failed; whoever asked for it may have gone on. -/
  | failed (error : Error)

/-- Something that happened, and the spans around it, outermost first. -/
structure Entry where
  happening : Happening
  spans : List Span

/-- Everything that lives.  `σ` is the state of the client that getters and
setters may use. -/
structure World (σ : Type) where
  hubs : Table .hub Hub
  models : Table .model (Model σ)
  documents : Table .document Document
  bindings : Table .binding Binding
  views : Table .view View
  held : List Handle
  journal : List Entry
  spans : List Span

namespace World

variable {σ : Type}

def empty : World σ :=
  ⟨.empty, .empty, .empty, .empty, .empty, [], [], []⟩

def happen (happening : Happening) (w : World σ) : World σ :=
  { w with journal := w.journal ++ [⟨happening, w.spans⟩] }

def report (message : Message) (w : World σ) : World σ :=
  w.happen (.message message)

/-! ## What reading finds -/

/-- What an attribute of a model shows. -/
def sight (w : World σ) : Sight := fun model name =>
  (w.models.get? model).map fun m => ⟨m.hub, m.read name⟩

/-- What a name of a model reads as; null when the model is gone. -/
def read (w : World σ) (model : Ref .model) (name : String) : Json :=
  match w.sight model name with
  | some seen => seen.value
  | none => .null

/-! ## What lives -/

def keepsModel (w : World σ) (model : Ref .model) : Bool :=
  .model model ∈ w.held || w.views.values.any (·.model = model)

def keepsDocument (w : World σ) (document : Ref .document) : Bool :=
  .document document ∈ w.held || w.views.values.any (·.document = document)

def keepsHub (w : World σ) (hub : Ref .hub) : Bool :=
  .hub hub ∈ w.held || w.models.values.any fun m =>
    m.hub = hub || m.properties.any fun property => property.dependencies.any (·.hub = hub)

/-! ## Hubs -/

/-- Listen to an event of a hub. -/
def subscribe (hub : Ref .hub) (event : String) (reaction : Reaction) (w : World σ) :
    Option Subscription × World σ :=
  match w.hubs.get? hub with
  | some h =>
      (some ⟨hub, h.nextId, event⟩,
        { w with hubs := w.hubs.update hub (Hub.subscribe event reaction) })
  | none => (none, w)

def cancel (s : Subscription) (w : World σ) : World σ :=
  { w with hubs := w.hubs.update s.hub (Hub.cancel s.id) }

/-- End a subscription of a client.  What computed properties and bindings
subscribed is theirs to end, and stays. -/
def withdraw (s : Subscription) (w : World σ) : World σ :=
  { w with hubs := w.hubs.update s.hub (Hub.withdraw s.id) }

def cancelAll (ss : List Subscription) (w : World σ) : World σ :=
  ss.foldl (fun w s => w.cancel s) w

/-- The subscription is registered on a hub that lives. -/
def isActive (w : World σ) (s : Subscription) : Bool :=
  w.keepsHub s.hub &&
    match w.hubs.get? s.hub with
    | some h => h.isRegistered s.id
    | none => false

/-! ## Handles -/

/-- A model that nothing keeps goes, with its computed properties. -/
def retire (model : Ref .model) (w : World σ) : World σ :=
  if w.keepsModel model then w
  else
    match w.models.get? model with
    | some m =>
        let released := w.cancelAll (m.properties.flatMap (·.subscriptions))
        { released with models := released.models.erase model }
    | none => w

def hold (handle : Handle) (w : World σ) : World σ :=
  { w with held := handle :: w.held }

/-- Let go of something, once. -/
def release (handle : Handle) (w : World σ) : World σ :=
  let freed := { w with held := w.held.erase handle }
  match handle with
  | .model model => freed.retire model
  | _ => freed

/-! ## New things -/

def openHub (w : World σ) : Ref .hub × World σ :=
  (w.hubs.fresh, { w with hubs := w.hubs.insert .empty }.hold (.hub w.hubs.fresh))

/-- A new model with a hub of its own, held by the client. -/
def openModel (attributes : Attributes) (w : World σ) : Ref .model × World σ :=
  let hub := w.hubs.fresh
  let model := w.models.fresh
  (model,
    { w with
      hubs := w.hubs.insert .empty
      models := w.models.insert ⟨hub, attributes, []⟩ }.hold (.model model))

def openDocument (w : World σ) : Ref .document × World σ :=
  let document := w.documents.fresh
  (document, { w with documents := w.documents.insert .empty }.hold (.document document))

/-! ## Documents -/

def editDocument (document : Ref .document) (f : Document → Document) (w : World σ) : World σ :=
  { w with documents := w.documents.update document f }

/-- Listen to the edits of an element: the identifier of the new listener. -/
def listen (document : Ref .document) (element : Ref .element) (reaction : EditReaction)
    (w : World σ) : Nat × World σ :=
  match w.documents.get? document with
  | some d => (d.nextListener, w.editDocument document (.addListener element reaction))
  | none => (0, w)

/-! ## Computed properties -/

/-- Release the computed properties of a model. -/
def unbindComputed (model : Ref .model) (w : World σ) : World σ :=
  match w.models.get? model with
  | none => w
  | some m =>
      if m.properties.isEmpty then w
      else
        let emptied := { w with models := w.models.update model fun m => { m with properties := [] } }
        (emptied.report (.computedUnbound m.properties.length)).cancelAll
          (m.properties.flatMap (·.subscriptions))

/-! ## Bindings and views -/

/-- End the subscriptions and the listeners of a binding.  Doing so again
changes nothing. -/
def dispose (binding : Ref .binding) (w : World σ) : World σ :=
  match w.bindings.get? binding with
  | none => w
  | some b =>
      if b.disposed then w
      else
        let marked := { w with
          bindings := w.bindings.update binding fun b =>
            { b with disposed := true, subscriptions := [], listeners := [] } }
        let released := marked.cancelAll b.subscriptions
        if released.keepsDocument b.document then
          b.listeners.foldl
            (fun w id => w.editDocument b.document (.removeListener b.element id)) released
        else released

def disposeAll (bindings : List (Ref .binding)) (w : World σ) : World σ :=
  bindings.foldl (fun w b => w.dispose b) w

def openView (view : View) (w : World σ) : Ref .view × World σ :=
  (w.views.fresh, { w with views := w.views.insert view })

/-- Dispose the bindings of a view. -/
def unbindView (view : Ref .view) (w : World σ) : World σ :=
  match w.views.get? view with
  | none => w
  | some v =>
      if v.bindings.isEmpty then w
      else
        let emptied := { w with views := w.views.update view fun v => { v with bindings := [] } }
        (emptied.disposeAll v.bindings).report (.viewUnbound v.bindings.length)

/-- Unbind a view and remove its root from the document. -/
def removeView (view : Ref .view) (w : World σ) : World σ :=
  match w.views.get? view with
  | none => w
  | some v => (w.unbindView view).editDocument v.document (.remove v.root)

/-- Unbind a view and let it go, with its model if nothing else keeps it. -/
def dropView (view : Ref .view) (w : World σ) : World σ :=
  match w.views.get? view with
  | none => w
  | some v =>
      let unbound := w.unbindView view
      { unbound with views := unbound.views.erase view }.retire v.model

end World

end LiveBinding
