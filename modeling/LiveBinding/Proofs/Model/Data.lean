/-
# LiveBinding.Proofs.Model.Data -- values that are data

Objects are compared member by member, from one side.  That is an equivalence for values
all of whose objects have names of their own, as those of real data do (`Json.IsData`):
such a value is the same as itself, and what is the same as it is the same as each other
(`IsData.euclid`).
-/
import LiveBinding.Proofs.Fields
import LiveBinding.Proofs.Model.Accord
import Mathlib.Data.List.Perm.Subperm

namespace LiveBinding

set_option autoImplicit false

universe u

namespace Fields

variable {α : Type u} {name : String} {value : α} {fields : Fields α}

theorem mem_of_get? (found : get? name fields = some value) : (name, value) ∈ fields :=
  Index.mem_of_get? (show Index.get? name fields = some value from found)

/-- Where names come once, every entry is found. -/
theorem get?_of_mem (distinct : (keys fields).Nodup) (listed : (name, value) ∈ fields) :
    get? name fields = some value := by
  induction fields with
  | nil => cases listed
  | cons entry rest ih =>
      obtain ⟨key, old⟩ := entry
      obtain ⟨unrepeated, distinctRest⟩ := List.nodup_cons.mp distinct
      rw [get?]
      rcases List.mem_cons.mp listed with same | later
      · cases same
        exact if_pos rfl
      · have other : key ≠ name := by
          rintro rfl
          exact unrepeated (List.mem_map.mpr ⟨_, later, rfl⟩)
        rw [if_neg other]
        exact ih distinctRest later

end Fields

namespace Json

/-- No object in it, however deep, has a name twice. -/
inductive IsData : Json → Prop
  | scalar {value : Json} (scalar : value.isScalar = true) : IsData value
  | list {items : List Json} (each : ∀ item ∈ items, IsData item) : IsData (.list items)
  | object {members : List (String × Json)} (distinct : (Fields.keys members).Nodup)
      (each : ∀ entry ∈ members, IsData entry.2) : IsData (.object members)

theorem sameItems_iff {as bs : List Json} :
    sameItems as bs = true ↔ List.Forall₂ (fun a b => same a b = true) as bs := by
  induction as generalizing bs with
  | nil => cases bs <;> simp [sameItems]
  | cons a rest ih => cases bs <;> simp [sameItems, ih]

theorem sameMembers_iff {as bs : List (String × Json)} : sameMembers as bs = true ↔
    ∀ entry ∈ as, ∃ other, Fields.get? entry.1 bs = some other ∧ same entry.2 other = true := by
  induction as with
  | nil => simp [sameMembers]
  | cons entry rest ih =>
      obtain ⟨name, value⟩ := entry
      rw [sameMembers, Bool.and_eq_true, ih, List.forall_mem_cons]
      refine and_congr_left fun _ => ?_
      cases Fields.get? name bs <;> simp

namespace IsData

variable {x y z : Json}

theorem refl (data : z.IsData) : same z z = true := by
  induction data with
  | scalar scalar => exact same_refl scalar
  | list each ih =>
      rw [same, sameItems_iff]
      exact List.forall₂_same.mpr ih
  | object distinct each ih =>
      rw [same, Bool.and_eq_true, sameMembers_iff]
      refine ⟨decide_eq_true rfl, fun entry listed => ⟨entry.2, ?_, ih entry listed⟩⟩
      exact Fields.get?_of_mem distinct listed

/-- What has the members of an object that has names of its own, and as many, has names of
its own. -/
theorem nodup_keys {members others : List (String × Json)} (distinct : (Fields.keys members).Nodup)
    (length : members.length = others.length) (same : sameMembers members others = true) :
    (Fields.keys others).Nodup ∧ Fields.keys others ⊆ Fields.keys members := by
  have among : Fields.keys members ⊆ Fields.keys others := by
    intro name listed
    obtain ⟨entry, here, rfl⟩ := List.mem_map.mp listed
    obtain ⟨other, found, -⟩ := sameMembers_iff.mp same entry here
    exact List.mem_map.mpr ⟨_, Fields.mem_of_get? found, rfl⟩
  have perm : (Fields.keys members).Perm (Fields.keys others) := by
    refine (List.subperm_of_subset distinct among).perm_of_length_le ?_
    simp [Fields.keys, length]
  exact ⟨perm.nodup_iff.mp distinct, perm.symm.subset⟩

theorem euclid (data : z.IsData) (left : same z x = true) (right : same z y = true) :
    same x y = true := by
  induction data generalizing x y with
  | @scalar z scalar =>
      have plain : y.isScalar = true := by
        cases z <;> cases y <;> simp_all [same, isScalar]
      exact same_euclid plain left right
  | list each ih =>
      cases x <;> simp only [same, Bool.false_eq_true] at left
      cases y <;> simp only [same, Bool.false_eq_true] at right
      rename_i items others
      rw [sameItems_iff] at left right
      rw [same, sameItems_iff]
      clear each
      induction left generalizing others with
      | nil =>
          cases right
          exact .nil
      | cons first rest ihRest =>
          obtain _ | ⟨firstThen, restThen⟩ := right
          exact .cons (ih _ List.mem_cons_self first firstThen)
            (ihRest (fun item later => ih item (List.mem_cons_of_mem _ later)) _ restThen)
  | object distinct each ih =>
      cases x <;> simp only [same, Bool.false_eq_true, Bool.and_eq_true, decide_eq_true_eq] at left
      cases y <;> simp only [same, Bool.false_eq_true, Bool.and_eq_true, decide_eq_true_eq] at right
      obtain ⟨once, among⟩ := nodup_keys distinct left.1 left.2
      rw [same, Bool.and_eq_true, decide_eq_true_eq, sameMembers_iff]
      refine ⟨left.1.symm.trans right.1, fun entry listed => ?_⟩
      obtain ⟨member, here, named⟩ := List.mem_map.mp (among (List.mem_map_of_mem listed))
      obtain ⟨own, found, sameOwn⟩ := sameMembers_iff.mp left.2 member here
      obtain ⟨other, foundOther, sameOther⟩ := sameMembers_iff.mp right.2 member here
      rw [named] at found foundOther
      rw [Fields.get?_of_mem once listed] at found
      cases found
      exact ⟨other, foundOther, ih member here sameOwn sameOther⟩

end IsData

/-- What agrees with data agrees with each other. -/
theorem Agrees.euclid {x y z : Json} (data : z.IsData) (left : z.Agrees x) (right : z.Agrees y) :
    x.Agrees y := by
  rcases left with rfl | left
  · exact right
  · rcases right with rfl | right
    · exact Or.inr (data.euclid left data.refl)
    · exact Or.inr (data.euclid left right)

end Json

def Attributes.AreData (store : Attributes) : Prop :=
  ∀ entry ∈ store, Json.IsData entry.2

end LiveBinding
