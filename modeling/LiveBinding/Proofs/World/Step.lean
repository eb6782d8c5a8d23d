/-
# LiveBinding.Proofs.World.Step -- the steps by which worlds change

Whatever is done to a world, apart from what clients subscribe and cancel, is one of a
few elementary changes after another (`World.Step`).  They are as large as they can be
taken as one, so that who listens and who owns a subscription always change together:
a property is installed with all that it subscribes (`World.install`), a slot likewise
(`World.fit`), and what goes takes its subscriptions with it.

References are mere numbers here, and nothing keeps a client from naming what is not
there or gone.  A step is `careful` where clients name only what there is.  Only where
declarations are attached and views are bound does a step change who owns bindings
(`attaching`).
-/
import LiveBinding.Proofs.Document.Listeners
import LiveBinding.Proofs.Run.Build
import LiveBinding.Proofs.Run.Slot
import LiveBinding.Proofs.World.Unbind
import Mathlib.Logic.Relation

namespace LiveBinding

set_option autoImplicit false

variable {σ : Type}

/-- The call of a listener that happened, if one did: where the dispatch began in which it
was made, and who was called. -/
def Happening.call? : Happening → Option (Nat × Nat)
  | .called began listener => some (began, listener)
  | _ => none

def Slot.wiring (slot : Slot) : Slot :=
  { slot with compiled := .constant .null, recompilations := 0 }

def Binding.wiring (b : Binding) : Binding :=
  { b with slots := b.slots.map Slot.wiring }

namespace World

def IsThere (w : World σ) : Handle → Prop
  | .document document => w.keepsDocument document = true
  | _ => True

/-- Subscribe a new property to its dependencies, and add it to the model. -/
def install (model : Ref .model) (p : Property σ) (w : World σ) : World σ :=
  let subscribed := subscribeAll model p.name p.dependencies w
  { subscribed.2 with
    models := subscribed.2.models.update model fun m =>
      { m with properties := m.properties ++ [{ p with subscriptions := subscribed.1 }] } }

def close (view : Ref .view) (v : View) (w : World σ) : World σ :=
  ({ w with views := w.views.erase view } : World σ).retire v.model

/-- An elementary change of a world. -/
inductive Step (careful attaching : Prop) : World σ → World σ → Prop where
  /-- Something is noted, though no call, or a span is opened or closed. -/
  | note (w : World σ) (added : List Entry) (plain : ∀ entry ∈ added, entry.happening.call? = none)
      (spans : List Span) :
      Step careful attaching w { w with journal := w.journal ++ added, spans := spans }
  | hold (w : World σ) (handle : Handle) (named : careful → w.IsThere handle) :
      Step careful attaching w (w.hold handle)
  | release (w : World σ) (handle : Handle) : Step careful attaching w (w.release handle)
  | openHub (w : World σ) : Step careful attaching w w.openHub.2
  | openModel (w : World σ) (attributes : Attributes) :
      Step careful attaching w (w.openModel attributes).2
  | openDocument (w : World σ) : Step careful attaching w w.openDocument.2
  | openView (w : World σ) (may : attaching) (view : View)
      (named : careful → w.IsThere (.document view.document)) :
      Step careful attaching w (w.openView view).2
  | edit (w : World σ) (document : Ref .document) (f : Document → Document)
      (fewer : ∀ d : Document, d.Fewer (f d)) : Step careful attaching w (w.editDocument document f)
  | listen (w : World σ) (document : Ref .document) (element : Ref .element) (callback : Nat) :
      Step careful attaching w (w.listen document element (.client callback)).2
  /-- The row of a model is replaced by one with the same properties, but for their values. -/
  | put (w : World σ) (model : Ref .model) {m m' : Model σ}
      (present : w.models.get? model = some m) (same : m.SameShape m') :
      Step careful attaching w (w.put model m')
  | install (w : World σ) (model : Ref .model) (p : Property σ)
      (distinct : p.dependencies.Nodup) (there : careful → (w.models.get? model).isSome)
      (named : careful → ∀ d ∈ p.dependencies, (w.hubs.get? d.hub).isSome) :
      Step careful attaching w (w.install model p)
  | unbindComputed (w : World σ) (model : Ref .model) :
      Step careful attaching w (w.unbindComputed model)
  | start (w : World σ) (may : attaching) (document : Ref .document) (element : Ref .element)
      (declaration : Declaration) (env : Environment)
      (named : careful → w.IsThere (.document document)) :
      Step careful attaching w
        { w with bindings := w.bindings.insert (.start document element declaration env) }
  | fit (w : World σ) (may : attaching) {binding : Ref .binding} {b : Binding}
      (present : w.bindings.get? binding = some b) (live : b.disposed = false) (editable : Bool)
      (name : String) (operator : Operator) (c : Compilation) :
      Step careful attaching w (w.fit binding b editable name operator c)
  /-- A binding changes in what its slots read, and in nothing else. -/
  | amend (w : World σ) (binding : Ref .binding) (f : Binding → Binding)
      (same : ∀ b, (f b).wiring = b.wiring) :
      Step careful attaching w { w with bindings := w.bindings.update binding f }
  | dispose (w : World σ) (binding : Ref .binding) : Step careful attaching w (w.dispose binding)
  | rebind (w : World σ) (may : attaching) (view : Ref .view) (bindings : List (Ref .binding)) :
      Step careful attaching w
        { w with views := w.views.update view fun v => { v with bindings := bindings } }
  | close (w : World σ) (may : attaching) {view : Ref .view} {v : View}
      (present : w.views.get? view = some v) :
      Step careful attaching w (w.close view v)

def Steps (careful attaching : Prop) : World σ → World σ → Prop :=
  Relation.ReflTransGen (Step careful attaching)

variable {careful attaching : Prop} {u v w : World σ}

theorem Step.steps (step : v.Step careful attaching w) : v.Steps careful attaching w := .single step

theorem Steps.refl (w : World σ) : w.Steps careful attaching w := Relation.ReflTransGen.refl

theorem Steps.trans (first : u.Steps careful attaching v) (then_ : v.Steps careful attaching w) :
    u.Steps careful attaching w :=
  Relation.ReflTransGen.trans first then_

instance : IsPreorder (World σ) (Steps careful attaching) where
  refl := Steps.refl
  trans _ _ _ := Steps.trans

/-- What every step keeps is kept by all of them. -/
theorem Steps.keep (kept : World σ → Prop)
    (each : ∀ {v w : World σ}, v.Step careful attaching w → kept v → kept w)
    (steps : v.Steps careful attaching w) (holds : kept v) : kept w := by
  induction steps with
  | refl => exact holds
  | tail _ step ih => exact each step ih

/-! ## What operations on worlds are made of -/

theorem tables_listen (document : Ref .document) (element : Ref .element)
    (reaction : EditReaction) (w : World σ) :
    (w.listen document element reaction).2.hubs = w.hubs ∧
      (w.listen document element reaction).2.models = w.models ∧
      (w.listen document element reaction).2.bindings = w.bindings ∧
      (w.listen document element reaction).2.views = w.views ∧
      (w.listen document element reaction).2.held = w.held := by
  unfold listen
  split <;> exact ⟨rfl, rfl, rfl, rfl, rfl⟩

theorem tables_retire (model : Ref .model) (w : World σ) :
    (w.retire model).bindings = w.bindings ∧ (w.retire model).documents = w.documents ∧
      (w.retire model).views = w.views ∧ (w.retire model).held = w.held := by
  unfold retire
  split
  · exact ⟨rfl, rfl, rfl, rfl⟩
  · split
    · exact (cancelAll_tables _ w).2
    · exact ⟨rfl, rfl, rfl, rfl⟩

theorem tables_release (handle : Handle) (w : World σ) :
    (w.release handle).bindings = w.bindings ∧ (w.release handle).documents = w.documents ∧
      (w.release handle).views = w.views ∧ (w.release handle).held = w.held.erase handle := by
  cases handle with
  | model model => exact tables_retire model { w with held := w.held.erase (.model model) }
  | _ => exact ⟨rfl, rfl, rfl, rfl⟩

theorem tables_unbindComputed (model : Ref .model) (w : World σ) :
    (w.unbindComputed model).bindings = w.bindings ∧
      (w.unbindComputed model).documents = w.documents ∧
      (w.unbindComputed model).views = w.views ∧ (w.unbindComputed model).held = w.held := by
  unfold unbindComputed
  split
  · exact ⟨rfl, rfl, rfl, rfl⟩
  · split
    · exact ⟨rfl, rfl, rfl, rfl⟩
    · rename_i m _ _
      exact (cancelAll_tables _ (World.report _ { w with
        models := w.models.update model fun m => { m with properties := [] } })).2

theorem others_subscribe (hub : Ref .hub) (event : String) (reaction : Reaction) (w : World σ) :
    (w.subscribe hub event reaction).2.bindings = w.bindings ∧
      (w.subscribe hub event reaction).2.documents = w.documents ∧
      (w.subscribe hub event reaction).2.views = w.views := by
  unfold subscribe
  split <;> exact ⟨rfl, rfl, rfl⟩

theorem tables_install (model : Ref .model) (p : Property σ) (w : World σ) :
    (w.install model p).bindings = w.bindings ∧ (w.install model p).documents = w.documents ∧
      (w.install model p).views = w.views ∧ (w.install model p).held = w.held := by
  have subscribed : ∀ (ds : List Dependency) (w : World σ),
      (subscribeAll model p.name ds w).2.bindings = w.bindings ∧
        (subscribeAll model p.name ds w).2.documents = w.documents ∧
        (subscribeAll model p.name ds w).2.views = w.views := by
    intro ds
    induction ds with
    | nil => exact fun _ => ⟨rfl, rfl, rfl⟩
    | cons d rest ih =>
        intro w
        obtain ⟨bindings, documents, views⟩ :=
          ih (w.subscribe d.hub d.event (.refresh model p.name)).2
        have once := others_subscribe d.hub d.event (.refresh model p.name) w
        exact ⟨bindings.trans once.1, documents.trans once.2.1, views.trans once.2.2⟩
  obtain ⟨bindings, documents, views⟩ := subscribed p.dependencies w
  exact ⟨bindings, documents, views, (tables_subscribeAll model p.name p.dependencies w).2⟩

/-- A row, after a property was installed. -/
theorem get?_install {model other : Ref .model} {p : Property σ} {m : Model σ}
    (present : (w.install model p).models.get? other = some m) :
    ∃ old subscriptions, w.models.get? other = some old ∧ m = if other = model then
      { old with properties := old.properties ++ [{ p with subscriptions := subscriptions }] }
      else old := by
  obtain ⟨old, was, same⟩ := Table.get?_update_some present
  rw [(tables_subscribeAll _ _ _ _).1] at was
  exact ⟨old, _, was, same⟩

theorem step_journal {added : List Entry} (plain : ∀ entry ∈ added, entry.happening.call? = none)
    (w : World σ) : w.Step careful attaching { w with journal := w.journal ++ added } :=
  .note w added plain w.spans

theorem step_happen {happening : Happening} (plain : happening.call? = none) (w : World σ) :
    w.Step careful attaching (w.happen happening) :=
  step_journal (fun _ listed => by rw [List.mem_singleton.mp listed]; exact plain) w

theorem step_report (message : Message) (w : World σ) : w.Step careful attaching (w.report message) :=
  step_happen rfl w

theorem step_spans (spans : List Span) (w : World σ) : w.Step careful attaching { w with spans := spans } := by
  have step : w.Step careful attaching { w with journal := w.journal ++ [], spans := spans } :=
    .note w [] (fun _ none => absurd none List.not_mem_nil) spans
  rwa [List.append_nil] at step

theorem steps_disposeAll (bindings : List (Ref .binding)) (w : World σ) :
    w.Steps careful attaching (w.disposeAll bindings) := by
  induction bindings generalizing w with
  | nil => exact .refl w
  | cons b rest ih => exact (Step.dispose w b).steps.trans (ih (w.dispose b))

theorem steps_unbindView (view : Ref .view) (w : World σ) :
    w.Steps careful True (w.unbindView view) := by
  unfold unbindView
  split
  · exact .refl w
  · split
    · exact .refl w
    · exact ((Step.rebind w trivial view []).steps.trans (steps_disposeAll _ _)).trans
        (step_report _ _).steps

theorem steps_removeView (view : Ref .view) (w : World σ) :
    w.Steps careful True (w.removeView view) := by
  unfold removeView
  split
  · exact .refl w
  · exact (steps_unbindView view w).trans
      (Step.edit _ _ _ fun d => Document.fewer_remove _ d).steps

theorem steps_dropView (view : Ref .view) (w : World σ) : w.Steps careful True (w.dropView view) := by
  unfold dropView
  split
  · exact .refl w
  · rename_i v present
    exact (steps_unbindView view w).trans (Step.close _ trivial (view_unbindView present)).steps

end World

end LiveBinding
