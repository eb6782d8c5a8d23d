/-
# LiveBinding.Proofs.Run.Concludes -- work that cannot run out of depth

Only dispatches nest, so work that dispatches nothing comes to an end whatever the depth
is: attaching, binding views, applying slots anew, and all calls but those that write,
trigger or bind computed properties (`concludes_perform`).  So does what a binding of
properties does before its dispatches (`concludes_bindComputed`).
-/
import LiveBinding.Proofs.Run.Attach
import LiveBinding.Proofs.Run.Errand

namespace LiveBinding

set_option autoImplicit false

variable {σ α β : Type}

/-- The call dispatches nothing. -/
def Call.IsQuiet : Call σ → Prop
  | .trigger .. => False
  | .write .. => False
  | .assign .. => False
  | .bindComputed .. => False
  | .announceEdit .. => False
  | .typeInto .. => False
  | _ => True

namespace Run

/-- From wherever the work starts, it ends well or fails. -/
def Concludes (work : Run σ α) : Prop :=
  ∀ s t, work.result s ≠ (.error .exhausted, t)

theorem concludes_pure (a : α) : Concludes (pure a : Run σ α) := nofun

theorem concludes_alter (f : World σ → World σ) : Concludes (alter f) := nofun

theorem concludes_produce (f : World σ → α × World σ) : Concludes (produce f) := nofun

theorem concludes_fail (error : Error) : Concludes (fail error : Run σ α) := nofun

theorem concludes_ofExcept (outcome : Except Error α) : Concludes (ofExcept outcome : Run σ α) := by
  cases outcome with
  | ok value => exact concludes_pure value
  | error error => exact concludes_fail error

theorem Concludes.bind {work : Run σ α} {next : α → Run σ β} (first : Concludes work)
    (rest : ∀ a, Concludes (next a)) : Concludes (work >>= next) := by
  intro s t ended
  rcases bind_error ended with failed | ⟨a, r, -, failed⟩
  · exact first s t failed
  · exact rest a r t failed

theorem Concludes.world_bind {next : World σ → Run σ α} (rest : ∀ w, Concludes (next w)) :
    Concludes (Run.world >>= next) := by
  intro s t ended
  rw [result_world_bind] at ended
  exact rest s.world s t ended

theorem Concludes.lastly {work : Run σ α} (concludes : Concludes work) (last : World σ → World σ) :
    Concludes (work.lastly last) := by
  intro s t ended
  rw [result_lastly, Prod.mk.injEq] at ended
  exact concludes s (work.result s).2 (Prod.ext ended.1 rfl)

theorem Concludes.within {work : Run σ α} (concludes : Concludes work) (span : Span) :
    Concludes (within span work) :=
  .world_bind fun _ => (concludes_alter _).bind fun _ => concludes.lastly _

theorem Concludes.attempt {work : Run σ α} (concludes : Concludes work) :
    Concludes (attempt work) := by
  intro s t ended
  rw [result_attempt] at ended
  split at ended
  · cases ended
  · cases ended
  · rename_i failed
    exact concludes s _ failed

/-! ## Slots -/

theorem concludes_compileOperator (b : Binding) (operator : String) :
    Concludes (compileOperator (σ := σ) b operator) := by
  refine .world_bind fun w => ?_
  split
  · exact concludes_pure _
  · exact concludes_fail _

theorem concludes_applySlot (binding : Ref .binding) (editable : Bool) (name : String)
    (operator : Operator) : Concludes (applySlot (σ := σ) binding editable name operator) := by
  intro s t ended
  rcases present : s.world.bindings.get? binding with _ | b
  · rw [applySlot, result_world_bind, present] at ended
    cases ended
  · rcases compiled : b.declaration.compileOperator name b.env s.world.sight with e | c
    · rw [result_applySlot_error editable operator present compiled] at ended
      cases ended
    · rw [result_applySlot editable operator present compiled] at ended
      cases ended

theorem concludes_applySlots (binding : Ref .binding) (editable : Bool)
    (operators : List (String × Operator)) :
    Concludes (applySlots (σ := σ) binding editable operators) := by
  induction operators with
  | nil => exact concludes_pure _
  | cons entry rest ih => exact (concludes_applySlot _ _ _ _).bind fun _ => ih

theorem concludes_attach (document : Ref .document) (element : Ref .element) (env : Environment)
    (editable : Bool) (resolved : Resolved) :
    Concludes (attach (σ := σ) document element env editable resolved) := by
  refine (concludes_produce _).bind fun binding => ?_
  refine (concludes_applySlots _ _ _).attempt.bind fun ended => ?_
  split
  · exact concludes_pure _
  · exact (concludes_alter _).bind fun _ => concludes_fail _

theorem concludes_reapply (binding : Ref .binding) (index : Nat) (event : String) :
    Concludes (reapply (σ := σ) binding index event) := by
  refine .world_bind fun w => ?_
  split
  · exact concludes_pure _
  · split
    · exact concludes_pure _
    · rename_i b _ _ slot _
      split
      · have recompiled : Concludes (recompile (σ := σ) binding b index slot) := by
          unfold recompile
          split
          · exact (concludes_compileOperator _ _).bind fun _ =>
              (concludes_alter _).bind fun _ => concludes_pure _
          · exact concludes_pure _
        refine .within (recompiled.bind fun compiled => .world_bind fun w => ?_) _
        exact (concludes_alter _).bind fun _ => concludes_alter _
      · exact concludes_pure _

/-! ## Views -/

theorem concludes_resolveAll (v : View) (env : Environment) (declarations : List (String × String)) :
    Concludes (resolveAll (σ := σ) v env declarations) := by
  induction declarations with
  | nil => exact concludes_pure _
  | cons entry rest ih =>
      obtain ⟨selector, text⟩ := entry
      refine .world_bind fun w => ?_
      split
      · exact (concludes_alter _).bind fun _ => ih
      · exact (concludes_ofExcept _).bind fun _ => ih.bind fun _ => concludes_pure _

theorem concludes_attachAll (v : View) (env : Environment)
    (resolved : List (Ref .element × Resolved)) :
    Concludes (attachAll (σ := σ) v env resolved) := by
  induction resolved with
  | nil => exact concludes_pure _
  | cons entry rest ih =>
      refine .world_bind fun w => ?_
      refine (concludes_attach _ _ _ _ _).bind fun first => ih.attempt.bind fun ended => ?_
      split
      · exact concludes_pure _
      · exact (concludes_alter _).bind fun _ => concludes_fail _

theorem concludes_bindView (view : Ref .view) : Concludes (bindView (σ := σ) view) := by
  refine (concludes_alter _).bind fun _ => .world_bind fun w => ?_
  split
  · exact concludes_pure _
  · split
    · exact concludes_pure _
    · refine (concludes_resolveAll _ _ _).bind fun resolved => ?_
      refine (concludes_attachAll _ _ _).bind fun bindings => ?_
      exact (concludes_alter _).bind fun _ => concludes_alter _

/-! ## Computed properties -/

theorem concludes_evaluate (model : Ref .model) (name : String) (getter : Getter σ)
    (capturing : Bool) : Concludes (evaluate model name getter capturing) := by
  intro s t ended
  rw [evaluate, result_alter_bind, result_bind_ok (result_get _),
    result_bind_ok (rfl : (set _ : Run σ PUnit).result _ = (.ok ⟨⟩, _))] at ended
  split at ended <;> cases ended

theorem concludes_subscribeProperty (model : Ref .model) (name : String)
    (dependencies : List Dependency) :
    Concludes (subscribeProperty (σ := σ) model name dependencies) := by
  induction dependencies with
  | nil => exact concludes_pure _
  | cons d rest ih =>
      exact (concludes_produce _).bind fun _ => ih.bind fun _ => concludes_pure _

theorem concludes_buildProperty (model : Ref .model) (name : String) (definition : Definition σ) :
    Concludes (buildProperty model name definition) := by
  unfold buildProperty
  split
  · exact concludes_fail _
  · refine (concludes_evaluate _ _ _ _).bind fun result => ?_
    exact (concludes_subscribeProperty _ _ _).bind fun _ =>
      (concludes_alter _).bind fun _ => concludes_pure _

theorem concludes_buildAll (model : Ref .model) (definitions : List (String × Definition σ)) :
    Concludes (buildAll model definitions) := by
  induction definitions with
  | nil => exact concludes_pure _
  | cons entry rest ih =>
      exact (concludes_buildProperty _ _ _).bind fun _ => (concludes_alter _).bind fun _ => ih

theorem concludes_buildAllOrNone (model : Ref .model)
    (definitions : List (String × Definition σ)) :
    Concludes (buildAllOrNone model definitions) := by
  refine (concludes_buildAll _ _).attempt.bind fun ended => ?_
  split
  · exact concludes_pure _
  · exact (concludes_alter _).bind fun _ => concludes_fail _

theorem concludes_refuseCycle (model : Ref .model) : Concludes (refuseCycle (σ := σ) model) := by
  refine .world_bind fun w => ?_
  split
  · exact concludes_pure _
  · exact (concludes_alter _).bind fun _ => (concludes_alter _).bind fun _ => concludes_fail _

theorem Concludes.closing {opening : Run σ Errand} (concludes : Concludes opening)
    (last : Closing) : Concludes (Opening.closing last opening) := by
  intro s t ended
  rw [Opening.result_closing] at ended
  rcases worked : opening.result s with ⟨halt | settled, u⟩
  · rw [worked] at ended
    cases ended
    exact concludes s u worked
  · rw [worked] at ended
    cases ended

theorem concludes_writeStore (model : Ref .model) (pending : Attributes) :
    Concludes (Opening.writeStore (σ := σ) model pending) := by
  refine .world_bind fun w => ?_
  split
  · exact concludes_pure _
  · exact (concludes_alter _).bind fun _ => concludes_pure _

/-- What a binding of properties does before its dispatches comes to an end. -/
theorem concludes_bindComputed (model : Ref .model) (definitions : List (String × Definition σ)) :
    Concludes (Opening.bindComputed model definitions) := by
  refine (concludes_alter _).bind fun _ => Concludes.closing ?_ _
  refine (concludes_alter _).bind fun _ => (concludes_buildAllOrNone _ _).bind fun _ => ?_
  refine (concludes_refuseCycle _).bind fun _ => .world_bind fun w => ?_
  split
  · exact concludes_pure _
  · exact concludes_writeStore _ _

/-! ## Calls -/

/-- A call that dispatches nothing comes to an end. -/
theorem concludes_perform {fire : Fire σ} {call : Call σ} (quiet : call.IsQuiet) :
    Concludes (perform fire call) := by
  cases call with
  | attach document element env editable resolved => exact (concludes_attach _ _ _ _ _).attempt
  | bindView view => exact (concludes_bindView view).attempt
  | trigger hub event => exact quiet.elim
  | write model attributes => exact quiet.elim
  | assign accessor value => exact quiet.elim
  | bindComputed model definitions => exact quiet.elim
  | announceEdit document element => exact quiet.elim
  | typeInto document element text => exact quiet.elim
  | openHub => exact concludes_produce _
  | openModel attributes => exact concludes_produce _
  | openDocument => exact concludes_produce _
  | openView view => exact concludes_produce _
  | _ => exact concludes_alter _

end Run

end LiveBinding
