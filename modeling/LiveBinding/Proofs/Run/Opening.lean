/-
# LiveBinding.Proofs.Run.Opening -- what openings come to

A write puts one new row in the place of a model's and has the changes announced; so
does a refresh that finds something new.  The equations of this module say to which
state and to which errand exactly.
-/
import LiveBinding.Proofs.Run.Errand
import LiveBinding.Proofs.World.Put

namespace LiveBinding

set_option autoImplicit false

variable {σ : Type} {s : State σ} {model : Ref .model} {m : Model σ}

/-- The model with its new row, and the span of the update open. -/
def Run.publishing (model : Ref .model) (m : Model σ) (message : Message) (w : World σ) : World σ :=
  { (w.put model m).report message with spans := w.spans ++ [message.span "computed_update"] }

namespace Opening

open Run (result_alter_bind result_world_bind result_bind_ok)

theorem result_keeping (handle : Handle) (opening : Run σ Errand) (s : State σ) :
    (keeping handle opening).result s =
      match opening.result (s.alter (.hold handle)) with
      | (.ok settled, t) => (.ok (settled.closing (.release handle)), t)
      | (.error halt, t) => (.error halt, t.alter (.release handle)) := by
  rw [keeping, result_alter_bind, result_closing]
  rfl

theorem result_within (span : Span) (opening : Run σ Errand) (s : State σ) :
    (within span opening).result s =
      match opening.result (s.alter fun w => { w with spans := s.world.spans ++ [span] }) with
      | (.ok settled, t) => (.ok (settled.closing (.resetSpans s.world.spans)), t)
      | (.error halt, t) =>
          (.error halt, t.alter fun w => { w with spans := s.world.spans }) := by
  rw [within, result_world_bind, result_alter_bind, result_closing]
  rfl

theorem result_writeStore (present : s.world.models.get? model = some m) (pending : Attributes) :
    (writeStore model pending).result s =
      (.ok ⟨announcements m.hub (m.store.apply pending).2, []⟩,
        s.alter (World.put model { m with store := (m.store.apply pending).1 })) := by
  rw [writeStore, result_world_bind]
  simp only [present]
  rw [result_alter_bind, State.alter, World.update_eq_put present]
  rfl

/-- A new value is kept, stored unless it is virtual, and announced. -/
theorem result_publish (present : s.world.models.get? model = some m) (p : Property σ)
    (value : Json) :
    (do
      Run.alter fun w => { w with models := w.models.update model (.setValue p.name value) }
      publish model m.hub p value : Run σ Errand).result s =
    (.ok ⟨announcements m.hub (m.adopt p value).2, [.resetSpans s.world.spans]⟩,
      s.alter (Run.publishing model (m.adopt p value).1
        (.computedUpdated p.name p.isVirtual))) := by
  have there : (s.world.models.get? model).isSome := by rw [present]; rfl
  have kept : (s.alter fun w => { w with models := w.models.update model (.setValue p.name value) }) =
      s.alter (World.put model (m.setValue p.name value)) :=
    State.alter_congr (World.update_eq_put present _)
  rw [result_alter_bind, kept, publish, result_alter_bind, result_within]
  by_cases isVirtual : p.isVirtual = true
  · have adopted : m.adopt p value = (m.setValue p.name value, [(p.name, value)]) :=
      if_pos isVirtual
    rw [if_pos isVirtual, adopted]
    rfl
  · have adopted : m.adopt p value = ({ m.setValue p.name value with
        store := (m.store.apply [(p.name, value)]).1 }, (m.store.apply [(p.name, value)]).2) :=
      if_neg isVirtual
    have twice : ∀ (m' : Model σ) (message : Message), s.alter (Run.publishing model m' message) =
        s.alter fun w => Run.publishing model m' message (w.put model (m.setValue p.name value)) :=
      fun m' message => State.alter_congr (by simp only [Run.publishing, World.put_put]; rfl)
    rw [if_neg isVirtual, result_writeStore (m := m.setValue p.name value)
      (World.get?_put_self there), adopted, twice]
    rfl

end Opening

namespace Run

/-- Writing is one step of the world, and then its announcement. -/
theorem result_writeStore (present : s.world.models.get? model = some m) (fire : Fire σ)
    (pending : Attributes) :
    (writeStore fire model pending).result s =
      (announce fire m.hub (m.store.apply pending).2).result
        (s.alter (World.put model { m with store := (m.store.apply pending).1 })) := by
  rw [writeStore_eq, errand, result_bind_ok (Opening.result_writeStore present pending),
    announce_eq]
  rfl

/-- Passing on a new value is one step of the world, and then its announcement. -/
theorem result_publish (present : s.world.models.get? model = some m) (fire : Fire σ)
    (p : Property σ) (value : Json) :
    (do
      alter fun w => { w with models := w.models.update model (.setValue p.name value) }
      publish fire model m.hub p value : Run σ Unit).result s =
    ((announce fire m.hub (m.adopt p value).2).lastly
      fun w => { w with spans := s.world.spans }).result
        (s.alter (publishing model (m.adopt p value).1 (.computedUpdated p.name p.isVirtual))) := by
  simp only [publish_eq, ← errand_bind]
  rw [errand, result_bind_ok (Opening.result_publish present p value), announce_eq]
  rfl

end Run

end LiveBinding
