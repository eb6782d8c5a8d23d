/-
# LiveBinding.Proofs.Follower.Slot -- slots keep in step with regular models

A slot of a regular model shows the value of its expression.  It is brought in step by
being applied anew, and hears of every attribute that was read for its expression.

Where the value of the element is pushed back, an edit is followed too: what is typed
puts the slot behind, and the push that hears of the edit brings it in step, since then
the attribute holds what was typed or its change is still to be announced.
-/
import LiveBinding.Proofs.Follower.Seat

namespace LiveBinding

set_option autoImplicit false

variable {σ α : Type}

namespace Follower

/-- A slot that shows the value of its expression. -/
def ofSlot (seat : Seat σ) : Follower σ :=
  ofSeat seat fun m look => ∀ shows, (seat.face, shows) ∈ seat.shown m → look = shows

variable {seat : Seat σ} {held : List Handle} {s : State σ} {fire : Fire σ}

/-- A slot that hears of none of the changes shows the same as before. -/
theorem ofSlot_shown (fits : seat.Fits) {m m' : Model σ} (shape : seat.shape.SameShape m)
    {changes : List (String × Json)} (unheard : ¬ seat.HearsOneOf m.hub changes)
    (same : ∀ name, (∀ change ∈ changes, change.1 ≠ name) → m'.read name = m.read name) :
    seat.shown m' = seat.shown m := by
  refine fits.shown_congr fun name hears => same name fun change announced named => unheard ?_
  obtain ⟨sub, listed, hub, event⟩ := hears
  exact ⟨change, announced, sub, listed, hub.trans shape.1.symm, event.trans (named ▸ rfl)⟩

theorem shows_inStep (fits : seat.Fits) :
    seat.Shows fun m look => ∀ shows, (seat.face, shows) ∈ seat.shown m → look = shows where
  written _ _ := fits.lawful _
  kept _ _ _ := fits.lawful _
  applied c _ among := fits.look_applied among c
  stored shape _ silent inStep shows among := by
    rw [ofSlot_shown fits shape silent fun _ => Model.read_apply_of_unreported] at among
    exact inStep shows among
  adopted {m p value look} shape _ stores found scalar moved silent inStep shows among := by
    have regular := shape.isRegular fits.regular
    rw [ofSlot_shown fits shape silent fun name unannounced => ?_] at among
    · exact inStep shows among
    · refine Model.read_adopt_ne (fun same => ?_) value m
      -- the store did not lag behind, so the new value is announced
      exact unannounced _ (Model.adopt_announces (stores regular) found (scalar regular) moved)
        same.symm

/-! ## Being pushed -/

/-- An attribute is written as the element shows it.  The slot is in step then, or hears
of the change. -/
theorem ofSlot_written {w : World σ} {m : Model σ} {element : Element}
    {word : String} (lawful : ∀ m, seat.law m) (ready : seat.Ready held w)
    (present : w.models.get? seat.model = some m)
    (there : w.elementAt seat.row.document seat.row.element = some element)
    (plain : m.property? word = none)
    (heard : ∃ s ∈ seat.subscriptions, s.hub = seat.shape.hub ∧ s.event = changeOf word)
    (shows : ∀ m : Model σ, seat.shown m = [(.value, .text (m.read word).displayText)]) :
    seat.Ready held (w.put seat.model { m with
        store := (m.store.apply [(word, .text element.content.value)]).1 }) ∧
      (seat.InStep (w.put seat.model { m with
          store := (m.store.apply [(word, .text element.content.value)]).1 }) ∨
        (ofSlot seat).HearsOneOf m.hub (m.store.apply [(word, .text element.content.value)]).2) := by
  have unkept : ∀ name ∈ Fields.keys [(word, Json.text element.content.value)],
      m.isComputed name = false := by
    intro name among
    rw [List.mem_singleton.mp among, Model.isComputed, plain]
    rfl
  have sound := World.sound_put_store ready.sound present fun _ => unkept
  refine ⟨(seat.stays_put present (Model.sameShape_store _ m) sound fun _ _ => lawful _).ready ready, ?_⟩
  by_cases held : m.store.holds word (.text element.content.value) = true
  · refine Or.inl fun found element' present' there' shown among => ?_
    rw [World.get?_put_self (by rw [present]; rfl), Attributes.apply_of_holds held] at present'
    cases present'
    have same : element' = element := Option.some.inj (there'.symm.trans there)
    have reads : m.read word = .text element.content.value := by
      rw [Model.read, plain]
      exact Attributes.read_of_holds_text held
    rw [shows] at among
    have shown' := List.mem_singleton.mp among
    rw [Prod.mk.injEq] at shown'
    rw [shown'.1, shown'.2, same]
    exact congrArg Json.text (congrArg Json.displayText reads).symm
  · obtain ⟨shape, there, row, -⟩ := ready.model
    rw [present] at there
    cases there
    obtain ⟨sub, listed, hub, event⟩ := heard
    refine Or.inr ⟨(word, .text element.content.value), ?_, sub, listed, hub.trans row.1.symm, event⟩
    rw [Attributes.apply_single, if_neg held]
    exact List.mem_singleton.mpr rfl

/-- Pushing the value of its element brings the slot in step: the attribute holds it now,
or the change is still to be announced. -/
theorem ofSlot_pushed (fits : seat.Fits) (attentive : (ofSlot seat).Attentive fire)
    (needed : seat.listener.isSome = true) :
    Run.Follows ((ofSlot seat).Takes (fun _ => True) (ofSlot seat).fresh)
      (Run.push fire seat.binding seat.index) s := by
  have robust := ofSeat_robust (shows_inStep fits)
  by_cases ready : ∃ held, seat.Ready held s.world
  · obtain ⟨_, ready⟩ := ready
    obtain ⟨b, slot, wired, same, seated, sameSlot, -⟩ := ofSeat_row fits.toSits ready
    obtain ⟨m, present, shape, -⟩ := ready.model
    obtain ⟨element, there, -⟩ := ready.element
    obtain ⟨name, clean, leaf, plain, reads, heard, shows⟩ := fits.two_way needed
    have plain' : m.property? name = none := by
      rw [← shape.isComputed, Model.isComputed] at plain
      exact Option.not_isSome_iff_eq_none.mp (by simp [plain])
    have there' : s.world.elementAt b.document b.element = some element := by
      rw [Binding.document_of_outline same, Binding.element_of_outline same]
      exact there
    have reads' : slot.operator.read element.content = some (.text element.content.value) := by
      rw [Slot.operator_of_outline sameSlot]
      exact reads element.content
    have leaf' : slot.compiled = .leaf ⟨name, seat.model⟩ :=
      (Slot.compiled_of_outline sameSlot clean).trans leaf
    have marked : Run.Follows ((ofSlot seat).Takes (fun _ => True) fun _ => True)
        (Run.alter (.report (.valuePushed b.selector name))) s :=
      (takes_report robust _).mono fun _ _ takes _ ready calm =>
        ⟨(takes ready calm).1, fun _ _ => trivial⟩
    intro ended t worked
    rw [Run.result_push wired seated there' reads' leaf' present plain'] at worked
    refine takes_bind marked (fun _ u altered => ?_) ended t
      ((Run.result_alter_bind _ (fun _ => _) s).trans worked)
    cases altered
    refine takes_keeping_of robust (Q := fun _ => True) (fun _ _ => trivial) ?_
    refine Run.Follows.world_bind ?_
    split
    · rename_i gone
      cases present.symm.trans gone
    · rename_i there''
      cases present.symm.trans there''
      refine takes_step _ _ (World.before_of_eq rfl) (fun readyThen => ?_)
        (takes_announce attentive m.hub _)
      rw [World.update_eq_put there'']
      obtain ⟨stays, brings⟩ := ofSlot_written fits.lawful readyThen there'' there plain' heard shows
      exact ⟨stays, fun _ => brings⟩
  · exact (takes_push robust attentive seat.binding seat.index).mono
      fun _ _ _ held there => absurd ⟨held, there.1⟩ ready

/-! ## All together -/

theorem pushes_inStep (fits : seat.Fits) :
    Pushes seat fun m look => ∀ shows, (seat.face, shows) ∈ seat.shown m → look = shows :=
  fun _ _ attentive needed => ofSlot_pushed fits attentive needed

theorem ofSlot_lawful (fits : seat.Fits) : (ofSlot seat).Lawful :=
  ofSeat_lawful fits.toSits (shows_inStep fits) (pushes_inStep fits)

/-- Dispatches are attentive to a slot. -/
theorem attentive_ofSlot (fits : seat.Fits) (depth : Nat) :
    (ofSlot seat).Attentive (Run.dispatch depth) :=
  attentive_ofSeat fits.toSits (shows_inStep fits) (pushes_inStep fits) depth

end Follower

end LiveBinding
