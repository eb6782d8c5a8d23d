/-
# LiveBinding.Proofs.Run.Renewals -- what a slot has applied in a run

Each time a slot is called it applies its operator to the element as it is then, with the
value its expression has then (`Moment.renews`).  Nothing else touches a face that no other
slot writes and that clients leave alone.  So what an operator that takes an object shows
there after a run is what these values make of what was there, one after another
(`Seat.shows_renewals`).
-/
import LiveBinding.Proofs.Follower.Seat
import LiveBinding.Proofs.Run.Abiding
import LiveBinding.Proofs.Run.Past
import LiveBinding.Proofs.Run.Stretch

namespace LiveBinding

set_option autoImplicit false

variable {σ : Type}

/-- What there is to see, if the slot is about to be applied anew at the moment. -/
def Moment.renews (binding : Ref .binding) (index : Nat) (value : Sight → Json) (m : Moment σ) :
    Option Json :=
  match m.point with
  | .calling _ _ _ (.reapply other at_) =>
      if (other, at_) = (binding, index) then some (value m.state.world.sight) else none
  | _ => none

/-- No slot of a binding that is disposed is about to be applied anew. -/
def Moment.CallsLiving (m : Moment σ) : Prop :=
  ∀ signal began id binding index, m.point = .calling signal began id (.reapply binding index) →
    ∃ b, m.state.world.bindings.get? binding = some b ∧ b.disposed = false

/-- Slots hear only of events, and are called as long as their binding lives. -/
theorem Trail.callsLiving {client : σ} {past : List (Moment σ)} {awaited : Option (Call σ)}
    {s : State σ} (trail : Trail ⟨.empty, [], client⟩ past awaited s) {m : Moment σ}
    (listed : m ∈ past) : m.CallsLiving := by
  intro signal began id binding index called
  cases signal with
  | event hub event =>
      obtain ⟨before, after, split⟩ := List.append_of_mem listed
      have sound := sound_of_attained ⟨client, _, _, trail.upTo split⟩
      obtain ⟨b, present, live, -⟩ :=
        sound.wired.tended _ _ _ (trail.registered ordered_empty listed called)
      exact ⟨b, present, live⟩
  | edit document element =>
      obtain ⟨⟨first, -, -, hearing⟩, -⟩ := trail.calls m listed _ _ _ _ called
      rw [Run.listeners] at hearing
      split at hearing
      · obtain ⟨l, -, same⟩ := List.mem_map.mp hearing
        rcases l with ⟨_, _ | _⟩ <;> cases same
      · cases hearing

/-- So it is in every run that goes on from there. -/
theorem Trail.callsLiving_moments {client : σ} {past : List (Moment σ)} {s : State σ}
    (trail : Trail ⟨.empty, [], client⟩ past none s) (depth : Nat) (program : Program σ) :
    ∀ m ∈ Run.moments depth program s, m.CallsLiving := fun _ listed =>
  (Run.trail_exec (Run.visits_dispatch _ depth) program trail).callsLiving
    (List.mem_append_right _ listed)

namespace Seat

variable {seat : Seat σ} {permits : Call σ → Prop} {ms : List (Moment σ)} {s t : State σ}
  {v w : World σ} {look : Json}

def renewals (seat : Seat σ) (ms : List (Moment σ)) : List Json :=
  ms.filterMap (·.renews seat.binding seat.index fun sight =>
    seat.expr.value seat.row.env (Accessor.value sight))

/-- The slot is on its element as before, the document is kept by a view, and the face shows
this. -/
structure Stands (seat : Seat σ) (look : Json) (w : World σ) : Prop where
  alike : seat.start.Alike w
  kept : ∃ view v, w.views.get? view = some v ∧ v.document = seat.row.document
  shows : w.lookAt seat.row.document seat.row.element seat.face = some look

theorem Stands.of_still (stands : seat.Stands look v) (still : seat.Still v w) :
    seat.Stands look w := by
  obtain ⟨view, row, there, same⟩ := stands.kept
  obtain ⟨element, page, rfl⟩ := Option.map_eq_some_iff.mp stands.shows
  obtain ⟨element', page', spared⟩ := still.element element page
  exact ⟨stands.alike.trans still.alike, ⟨view, row, still.views view row there, same⟩,
    (World.lookAt_of_element page' _).trans (congrArg some spared.look)⟩

theorem Stands.of_tables (stands : seat.Stands look v) (documents : w.documents = v.documents)
    (bindings : w.bindings = v.bindings) (views : w.views = v.views) : seat.Stands look w :=
  ⟨stands.alike.trans (World.alike_of_bindings bindings), views ▸ stands.kept,
    (World.lookAt_of_documents documents _ _ _).trans stands.shows⟩

theorem Stands.of_aside (stands : seat.Stands look s.world) (aside : s.Aside t) :
    seat.Stands look t.world :=
  stands.of_tables aside.documents aside.bindings aside.views

/-! ## Applying anew -/

variable {binding : Ref .binding} {index : Nat} {event : String} {ended : Except Halt Unit}

/-- The slot is there, with its document, wherever it stands. -/
theorem Stands.row (stands : seat.Stands look w) (sits : seat.Sits) :
    ∃ b slot, w.bindings.get? seat.binding = some b ∧ b.outline = seat.row.outline ∧
      b.slots[seat.index]? = some slot ∧ slot.outline = seat.slot.outline ∧
      w.keepsDocument b.document = true := by
  obtain ⟨b, present, same⟩ := stands.alike.row sits.present
  obtain ⟨slot, seated, sameSlot⟩ := Binding.slot_of_outline same sits.seated
  refine ⟨b, slot, present, same, seated, sameSlot, World.keepsDocument_iff.mpr (Or.inr ?_)⟩
  rw [Binding.document_of_outline same]
  exact stands.kept

theorem Stands.of_renew (stands : seat.Stands look w) {binding : Ref .binding} {index : Nat}
    {b : Binding} {slot : Slot} {message : Message} {compiled : Compiled} {after : Json}
    (present : w.bindings.get? binding = some b) (seated : b.slots[index]? = some slot)
    (shows : (w.renew binding index b slot message compiled).lookAt seat.row.document
      seat.row.element seat.face = some after) :
    seat.Stands after (w.renew binding index b slot message compiled) := by
  obtain ⟨-, -, views, -⟩ := World.renew_tables binding index b slot message compiled w
  exact ⟨stands.alike.trans (World.alike_renew present seated message compiled),
    views ▸ stands.kept, shows⟩

/-- Applied anew, the slot changes the face as its operator does. -/
theorem Stands.renewed {c : Content} (stands : seat.Stands (c.look seat.face) s.world)
    (sits : seat.Sits) (takes : Operator.takesObject seat.slot.name = true)
    (worked : (Run.reapply seat.binding seat.index event).result s = (ended, t)) :
    seat.Stands ((seat.slot.operator.apply
      (seat.expr.value seat.row.env (Accessor.value s.world.sight)) c).look seat.face) t.world := by
  obtain ⟨b, slot, present, same, seated, sameSlot, kept⟩ := stands.row sits
  obtain ⟨compiled, current⟩ := sits.exists_current s.world.sight
  rw [← Slot.current_of_outline same sameSlot] at current
  rw [Run.result_reapply_ok present seated kept current] at worked
  cases worked
  refine stands.of_renew present seated ?_
  obtain ⟨element, there, looks⟩ := Option.map_eq_some_iff.mp stands.shows
  rw [World.lookAt_of_element (World.elementAt_renew _ _ _ _ _ _ there),
    Binding.document_of_outline same, Binding.element_of_outline same, if_pos ⟨rfl, rfl⟩,
    Slot.operator_of_outline sameSlot, sits.meant_of_current same sameSlot current]
  exact congrArg some (Operator.look_apply_congr sits.known takes looks)

/-- Another slot leaves the face as it is. -/
theorem Stands.passed (stands : seat.Stands look s.world) (sits : seat.Sits)
    (other : (binding, index) ≠ (seat.binding, seat.index))
    (living : ∃ b, s.world.bindings.get? binding = some b ∧ b.disposed = false)
    (worked : (Run.reapply binding index event).result s = (ended, t)) :
    seat.Stands look t.world := by
  obtain ⟨b₀, present₀, live⟩ := living
  have spares : ¬ seat.start.Writes binding index seat.row.document seat.row.element seat.face :=
    fun writes => sits.uncontested ⟨binding, index, other, writes⟩
  refine (Run.follows_reapply (R := fun s t => seat.Stands look s.world → seat.Stands look t.world)
    (fun _ => id) (fun b slot compiled present seated current stands => ?_)
    (fun error spans stands => stands.of_tables rfl rfl rfl) ended t worked ?_).2.1 stands
  · cases present₀.symm.trans present
    exact stands.of_renew present seated
      (look_renewed _ stands.alike spares present live seated current stands.shows)
  · rintro rfl
    exact Run.concludes_reapply binding index event s t worked

/-! ## Along a stretch -/

theorem Stands.answered {call : Call σ} {fire : Fire σ} {answer : call.Answer}
    (stands : seat.Stands look s.world)
    (spares : call.Spares seat.row.document seat.row.element seat.face
      (seat.listener.isSome = true))
    (quiet : call.opening = none)
    (performed : (Run.perform fire call).result s = (.ok answer, t)) :
    seat.Stands look t.world := by
  by_cases frees : ∃ handle, call = .release handle
  · obtain ⟨handle, rfl⟩ := frees
    cases performed
    exact stands.of_aside (.closing (.release handle) s)
  · exact stands.of_still (still_perform spares (Run.dispatches_of_quiet quiet)
      (fun handle same => frees ⟨handle, same⟩) performed)

/-- Calls that dispatch change no page at first, unless they type into it. -/
theorem Stands.opened {call : Call σ} {opening : Run σ Errand} {ended : Except Halt Errand}
    (stands : seat.Stands look s.world) (none : seat.listener = none)
    (spares : call.Spares seat.row.document seat.row.element seat.face
      (seat.listener.isSome = true))
    (opens : call.opening = some opening) (worked : opening.result s = (ended, t)) :
    seat.Stands look t.world := by
  by_cases types : ∃ document element text, call = .typeInto document element text
  · obtain ⟨document, element, text, rfl⟩ := types
    cases opens
    have aside := Run.result_opening_typeInto document element text s
    rw [worked] at aside
    have typed : seat.row.document = document → Document.Spares seat.row.element seat.face False
        (.amend element (.setValue (.text text))) := by
      refine fun sameDocument => Document.spares_amend fun sameElement c =>
        Follower.look_setValue_ne (fun faces => ?_) _ c
      have listened := spares sameDocument.symm sameElement.symm faces
      rw [none] at listened
      cases listened
    have there : seat.Stands look (s.alter (.editDocument document
        (.amend element (.setValue (.text text))))).world :=
      ⟨stands.alike, stands.kept, World.lookAt_editDocument typed stands.shows⟩
    exact there.of_aside aside
  · have aside := Run.aside_opening opens
      (fun document element text same => types ⟨document, element, text, same⟩) s
    rw [worked] at aside
    exact stands.of_aside aside

/-- Whoever is called changes no other face than its own. -/
theorem Stands.reacted {signal : Signal} {began id : Nat} {reaction : Reaction}
    {opening : Run σ Errand} {ended : Except Halt Errand} {c : Content} {m : Moment σ}
    (stands : seat.Stands (c.look seat.face) m.state.world) (sits : seat.Sits)
    (takes : Operator.takesObject seat.slot.name = true) (living : m.CallsLiving)
    (called : m.point = .calling signal began id reaction)
    (opens : reaction.opening (Run.eventOf signal) = some opening)
    (worked : opening.result m.state = (ended, t)) :
    seat.Stands ((seat.slot.operator.applyAll (seat.renewals [m]) c).look seat.face) t.world := by
  by_cases reapplies : ∃ binding index, reaction = .reapply binding index
  · obtain ⟨binding, index, rfl⟩ := reapplies
    obtain ⟨ended', reapplied⟩ := Run.result_opening_reapply opens worked
    by_cases own : (binding, index) = (seat.binding, seat.index)
    · cases own
      have renewed : seat.renewals [m] =
          [seat.expr.value seat.row.env (Accessor.value m.state.world.sight)] := by
        simp [renewals, Moment.renews, called]
      rw [renewed]
      exact stands.renewed sits takes reapplied
    · have renewed : seat.renewals [m] = [] := by
        simp only [renewals, Moment.renews, called, if_neg own, List.filterMap_cons,
          List.filterMap_nil]
      rw [renewed]
      exact stands.passed sits own (living _ _ _ _ _ called) reapplied
  · have renewed : seat.renewals [m] = [] := by
      cases reaction with
      | reapply binding index => exact absurd ⟨binding, index, rfl⟩ reapplies
      | _ => simp [renewals, Moment.renews, called]
    rw [renewed]
    have aside := Run.aside_reaction opens
      (fun binding index same => reapplies ⟨binding, index, same⟩) m.state
    rw [worked] at aside
    exact stands.of_aside aside

/-- After a stretch the face shows what the operator makes of what was there, with all values
with which the slot was applied anew, one after another. -/
theorem shows_renewals (sits : seat.Sits) (takes : Operator.takesObject seat.slot.name = true)
    (none : seat.listener = none)
    (stretch : Stretch (Call.Spares seat.row.document seat.row.element seat.face False) ms s t)
    (living : ∀ m ∈ ms, m.CallsLiving) {c : Content}
    (stands : seat.Stands (c.look seat.face) s.world) :
    seat.Stands ((seat.slot.operator.applyAll (seat.renewals ms) c).look seat.face) t.world := by
  have never : False = (seat.listener.isSome = true) := by simp [none]
  rw [never] at stretch
  induction stretch generalizing c with
  | refl s => exact stands
  | @trans ms ms' s t u _ _ ih ih' =>
      have first := ih (fun m listed => living m (List.mem_append_left _ listed)) stands
      have rest := ih' (fun m listed => living m (List.mem_append_right _ listed)) first
      rw [renewals, List.filterMap_append, Operator.applyAll, List.foldl_append]
      exact rest
  | noted happening s => exact stands.of_tables rfl rfl rfl
  | changed f s => exact stands
  | listened document element allowed s =>
      exact stands.of_still (seat.still_listen document element _ s.world)
  | subscribed hub event allowed s =>
      exact stands.of_still (seat.still_subscribe hub event _ s.world)
  | passed point s passing =>
      cases point with
      | made call answer => exact stands
      | dispatching signal => exact stands
      | _ => exact passing.elim
  | answered permitted quiet performed => exact stands.answered permitted quiet performed
  | opened permitted opens worked => exact stands.opened none permitted opens worked
  | called signal began id callback s => exact stands.of_tables rfl rfl rfl
  | reacted signal began id opens worked =>
      exact Stands.reacted (m := ⟨.calling signal began id _, _⟩) (stands.of_tables rfl rfl rfl)
        sits takes (living _ (List.mem_singleton.mpr rfl)) rfl opens worked
  | closed closing s => exact stands.of_aside (.closing closing s)

end Seat

end LiveBinding
