/-
# LiveBinding.Proofs.Follower.Reading -- slots that are bound to a name

A slot that hears of a name is applied anew whenever a change of the name is announced.  So
what it shows goes with what the name reads as (`Seat.Reads`), if it does once the slot is
applied.

Of a computed name a change to other data that is the same is not announced.  Then the slot
still goes with what the name has read as before.
-/
import LiveBinding.Proofs.Follower.Seat
import LiveBinding.Proofs.Run.Lawful

namespace LiveBinding

set_option autoImplicit false

variable {σ : Type}

namespace Seat

variable {seat : Seat σ} {word : String} {goes : Json → Json → Prop}

/-- What shows goes with what the name reads as; where it is not computed, with just that. -/
def Reads (seat : Seat σ) (word : String) (goes : Json → Json → Prop) (m : Model σ)
    (look : Json) : Prop :=
  ∃ value, m.ReadsAs word value ∧ (seat.shape.isComputed word = false → value = m.read word) ∧
    goes value look

/-- Of a change that the seat does not hear of, the name is not told. -/
theorem silent_of_unheard {m : Model σ} {changes : List (String × Json)}
    (hears : ∃ s ∈ seat.subscriptions, s.hub = seat.shape.hub ∧ s.event = changeOf word)
    (shape : seat.shape.SameShape m) (unheard : ¬ seat.HearsOneOf m.hub changes) :
    ∀ change ∈ changes, change.1 ≠ word := by
  rintro change announced rfl
  obtain ⟨s, listed, hub, event⟩ := hears
  exact unheard ⟨change, announced, s, listed, hub.trans shape.1.symm, event⟩

/-- A slot that hears of the name goes with it, as long as the model is lawful. -/
theorem shows_reads (law : ∀ m, seat.law m ↔ m.IsLawful)
    (orderly : seat.shape.isComputed word = true →
      (seat.shape.properties.map (·.name)).Nodup ∧ seat.shape.MapsAside)
    (hears : ∃ s ∈ seat.subscriptions, s.hub = seat.shape.hub ∧ s.event = changeOf word)
    (shown : ∀ (m : Model σ) c, goes (m.read word) ((seat.slot.operator.apply
      (seat.expr.value seat.row.env fun a => m.read a.name) c).look seat.face)) :
    seat.Shows (seat.Reads word goes) where
  written plain lawful := (law _).mpr (((law _).mp lawful).written plain)
  kept value found lawful := (law _).mpr (((law _).mp lawful).adopted value found)
  applied {m} c := ⟨m.read word, Or.inl rfl, fun _ => rfl, shown m c⟩
  stored {m pending look} shape plain unheard := by
    rintro ⟨value, reads, exactly, looks⟩
    have silent := silent_of_unheard hears shape unheard
    cases computed : seat.shape.isComputed word with
    | true =>
        obtain ⟨-, aside⟩ := orderly computed
        exact ⟨value, reads.store (plain (shape.mapsAside aside)) silent,
          fun same => (nomatch computed.symm.trans same), looks⟩
    | false =>
        have same : ({ m with store := (m.store.apply pending).1 } : Model σ).read word =
            m.read word := Model.read_apply_of_unreported silent
        have still := (exactly computed).trans same.symm
        exact ⟨value, Or.inl still, fun _ => still, looks⟩
  adopted {m p value look} shape lawful _ found _ moved unheard := by
    rintro ⟨kept, reads, exactly, looks⟩
    have silent := silent_of_unheard hears shape unheard
    cases computed : seat.shape.isComputed word with
    | true =>
        obtain ⟨distinct, aside⟩ := orderly computed
        have stores : ∀ {m' : Model σ}, seat.shape.SameShape m' → m'.IsLawful → m'.Stores :=
          fun same lawful => lawful.stores (same.names.symm ▸ distinct) (same.mapsAside aside)
        have lawful := (law m).mp lawful
        have lawfulThen := lawful.adopted value found
        exact ⟨kept, reads.adopt (stores shape lawful)
            (stores (shape.trans (Model.sameShape_adopt p value m)) lawfulThen) found moved silent,
          fun same => (nomatch computed.symm.trans same), looks⟩
    | false =>
        have other : word ≠ p.name := by
          rintro rfl
          rw [← shape.isComputed, Model.isComputed, found] at computed
          cases computed
        have still := (exactly computed).trans (Model.read_adopt_ne other value m).symm
        exact ⟨kept, Or.inl still, fun _ => still, looks⟩

end Seat

end LiveBinding
