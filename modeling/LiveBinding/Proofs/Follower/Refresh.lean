/-
# LiveBinding.Proofs.Follower.Refresh -- refreshing takes followers along

Refreshing a property changes the model it belongs to and announces that.  For
the property itself this is what brings it in step; to any other follower it is
a change like the ones that clients write.
-/
import LiveBinding.Proofs.Follower.Write
import LiveBinding.Proofs.Run.Compute
import LiveBinding.Proofs.Run.Opening

namespace LiveBinding

set_option autoImplicit false

variable {σ α : Type}

namespace Follower

variable {f : Follower σ} {P : World σ → Prop} {s : State σ}

theorem takes_evaluate (robust : f.Robust) (model : Ref .model) (name : String)
    (getter : Getter σ) (capturing : Bool) :
    Run.Follows (f.Takes f.fresh f.fresh) (Run.evaluate model name getter capturing) s := by
  refine (f.onward f.fresh).alter_bind (World.before_happen _ _)
    (robust.happened _ _).takes ?_
  refine Run.Follows.get_bind ?_
  refine (f.onward f.fresh).bind (takes_client f f.fresh fun _ => _) fun _ t _ => ?_
  split
  · exact (f.onward f.fresh).follows_pure _
  · exact takes_fail robust _ _ _

/-- Passing on a new value takes a follower along that is in step with the new row
or hears what is announced of it. -/
theorem takes_publish (robust : f.Robust) {fire : Fire σ} (attentive : f.Attentive fire)
    {model : Ref .model} {m : Model σ} {p : Property σ} {value : Json}
    (present : s.world.models.get? model = some m)
    (step : ∀ {held}, f.ready held s.world →
      f.ready held (s.world.put model (m.adopt p value).1) ∧
        (P s.world → f.fresh (s.world.put model (m.adopt p value).1) ∨
          f.HearsOneOf m.hub (m.adopt p value).2)) :
    Run.Follows (f.Takes P f.fresh) (do
      Run.alter fun w => { w with models := w.models.update model (.setValue p.name value) }
      Run.publish fire model m.hub p value) s := by
  intro ended t worked
  rw [Run.result_publish present] at worked
  have marks : f.Keeps (s.world.put model (m.adopt p value).1)
      (Run.publishing model (m.adopt p value).1 (.computedUpdated p.name p.isVirtual) s.world) :=
    robust.marked rfl rfl rfl rfl rfl rfl
  refine takes_step m.hub (m.adopt p value).2 ?_ ?_ ?_ ended t
    ((Run.result_alter_bind _ (fun _ => _) s).trans worked)
  · exact List.prefix_append _ _
  · intro _ ready
    obtain ⟨there, brings⟩ := step ready
    obtain ⟨there', still⟩ := marks there
    exact ⟨there', fun start => (brings start).imp_left still⟩
  · exact takes_lastly [] (takes_announce attentive _ _) (fun _ => rfl)
      fun ready => robust.spanned _ _ ready

/-- Refreshing another property takes a follower along. -/
theorem takes_refresh (robust : f.Robust) {fire : Fire σ} (attentive : f.Attentive fire)
    {model : Ref .model} {name : String} (other : ¬ f.own (.refresh model name)) :
    Run.Follows (f.Takes f.fresh f.fresh) (Run.refresh fire model name) s := by
  refine Run.Follows.world_bind ?_
  split
  · exact (f.onward f.fresh).follows_pure _
  · rename_i m present
    split
    · exact (f.onward f.fresh).follows_pure _
    · rename_i p found
      have named := Model.name_of_property? found
      subst named
      refine takes_keeping robust ?_
      refine takes_bind (takes_evaluate robust _ _ _ _) fun given t evaluated => ?_
      obtain ⟨world, -, answered, -⟩ := Run.evaluate_ok evaluated
      have present' : t.world.models.get? model = some m := by
        rw [world]
        exact present
      split
      · exact (f.onward f.fresh).follows_pure _
      · rename_i moved
        refine takes_publish robust attentive present' fun ready => ?_
        refine robust.adopted present' found ?_ (by simpa using moved) other ready
        intro regular
        exact Run.scalar_of_regular regular (Model.mem_of_property? found) present answered

end Follower

end LiveBinding
