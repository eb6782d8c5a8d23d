/-
# LiveBinding.Proofs.Run.Aside -- what goes on beside the page

Writing to a model, binding its properties and evaluating them anew, has nothing to do with
the page: up to the dispatches, documents, bindings and views are what they were
(`State.Aside`), and so is everything that clients have enrolled.  So it is with all openings
but that of an edit, which gives its element the value that was typed, and that of a slot that
is applied anew.
-/
import LiveBinding.Proofs.Run.Bears
import LiveBinding.Proofs.World.Step

namespace LiveBinding

set_option autoImplicit false

variable {σ α : Type}

/-- Documents, bindings and views are what they were, and so are the callbacks. -/
structure State.Aside (s t : State σ) : Prop where
  callbacks : t.callbacks = s.callbacks
  documents : t.world.documents = s.world.documents
  bindings : t.world.bindings = s.world.bindings
  views : t.world.views = s.world.views

namespace State.Aside

variable {s t u : State σ}

theorem refl (s : State σ) : s.Aside s := ⟨rfl, rfl, rfl, rfl⟩

theorem trans (first : s.Aside t) (then_ : t.Aside u) : s.Aside u :=
  ⟨then_.callbacks.trans first.callbacks, then_.documents.trans first.documents,
    then_.bindings.trans first.bindings, then_.views.trans first.views⟩

theorem closing (closing : Closing) (s : State σ) : s.Aside (s.alter closing.apply) := by
  cases closing with
  | release handle =>
      obtain ⟨bindings, documents, views, -⟩ := World.tables_release handle s.world
      exact ⟨rfl, documents, bindings, views⟩
  | resetSpans spans => exact ⟨rfl, rfl, rfl, rfl⟩

end State.Aside

instance : IsPreorder (State σ) State.Aside where
  refl := State.Aside.refl
  trans _ _ _ := State.Aside.trans

namespace Run

def GoesAside (work : Run σ α) : Prop :=
  ∀ s : State σ, s.Aside (work.result s).2

theorem bears_aside : Bears (State.Aside (σ := σ)) where
  failed _ _ := ⟨rfl, rfl, rfl, rfl⟩
  reported _ _ := ⟨rfl, rfl, rfl, rfl⟩
  held _ _ := ⟨rfl, rfl, rfl, rfl⟩
  triggered _ _ := ⟨rfl, rfl, rfl, rfl⟩
  closed closing s := .closing closing s
  moved _ _ := ⟨rfl, rfl, rfl, rfl⟩
  stored _ _ := ⟨rfl, rfl, rfl, rfl⟩
  adopted _ _ _ := ⟨rfl, rfl, rfl, rfl⟩

theorem bears_aside_binding (model : Ref .model) :
    BearsBinding (State.Aside (σ := σ)) model where
  toBears := bears_aside
  evaluated _ _ := ⟨rfl, rfl, rfl, rfl⟩
  subscribed d name s := by
    obtain ⟨bindings, documents, views⟩ :=
      World.others_subscribe d.hub d.event (.refresh model name) s.world
    exact ⟨rfl, documents, bindings, views⟩
  changed _ _ := ⟨rfl, rfl, rfl, rfl⟩
  unbound s := by
    obtain ⟨bindings, documents, views, -⟩ := World.tables_unbindComputed model s.world
    exact ⟨rfl, documents, bindings, views⟩

/-! ## Openings -/

/-- What is typed is in the element before anybody is told. -/
theorem result_opening_typeInto (document : Ref .document) (element : Ref .element) (text : String)
    (s : State σ) :
    (s.alter (.editDocument document (.amend element (.setValue (.text text))))).Aside
      ((Opening.typeInto document element text).result s).2 := by
  rw [Opening.typeInto, result_alter_bind]
  exact bears_aside.keeping ⟨rfl, rfl, rfl, rfl⟩ (drives_pure _)

variable {call : Call σ} {opening : Run σ Errand}

/-- Calls that write, bind or dispatch leave the page aside at first, unless they type into it. -/
theorem aside_opening (opens : call.opening = some opening)
    (types : ∀ document element text, call ≠ .typeInto document element text) :
    GoesAside opening := fun _ =>
  bears_aside.opening opens
    (fun model definitions _ => (bears_aside_binding model).bindComputed definitions)
    (fun _ _ _ => ⟨rfl, rfl, rfl, rfl⟩)
    fun document element text same => absurd same (types document element text)

/-- So do listeners, unless they apply a slot anew. -/
theorem aside_reaction {event : Event} {reaction : Reaction}
    (opens : reaction.opening event = some opening)
    (other : ∀ binding index, reaction ≠ .reapply binding index) : GoesAside opening := fun _ =>
  bears_aside.reaction opens (fun _ _ _ _ => ⟨rfl, rfl, rfl, rfl⟩)
    fun binding index same => absurd same (other binding index)

end Run

end LiveBinding
