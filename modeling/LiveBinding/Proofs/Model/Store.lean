/-
# LiveBinding.Proofs.Model.Store -- what a write leaves in the store

A write reports exactly what it changed: a name that is not reported reads as
before (`get?_apply_of_unreported`), and a name that is written last holds what
was written (`holds_apply`).  Values are compared as data, which for anything but
lists and objects is an equivalence.
-/
import LiveBinding.Model.Store

namespace LiveBinding

set_option autoImplicit false

theorem Number.Double.same_euclid {x y z : Number.Double} (left : x.same y = true)
    (right : x.same z = true) : y.same z = true := by
  simp only [Number.Double.same, Bool.or_eq_true, Bool.and_eq_true, decide_eq_true_eq] at *
  rcases left with rfl | ⟨zx, zy⟩
  · exact right
  · rcases right with rfl | ⟨-, zz⟩
    · exact Or.inr ⟨zy, zx⟩
    · exact Or.inr ⟨zy, zz⟩

theorem Number.same_euclid {x y z : Number} (left : x.same y = true) (right : x.same z = true) :
    y.same z = true := by
  cases x <;> cases y <;> cases z <;>
    simp only [Number.same, decide_eq_true_eq, Bool.false_eq_true] at *
  · exact left.symm.trans right
  · exact Number.Double.same_euclid left right

namespace Json

theorem same_refl {value : Json} (scalar : value.isScalar = true) : same value value = true := by
  cases value <;> simp_all [same, isScalar, Number.same_refl]

/-- Values that are the same as one value are the same as each other. -/
theorem same_euclid {x y z : Json} (scalar : z.isScalar = true) (left : same x y = true)
    (right : same x z = true) : same y z = true := by
  cases z <;> simp only [isScalar, Bool.false_eq_true] at scalar
  all_goals cases x <;> simp only [same, Bool.false_eq_true, decide_eq_true_eq] at right
  all_goals cases y <;> simp only [same, Bool.false_eq_true, decide_eq_true_eq] at left
  · rfl
  · simp only [same, decide_eq_true_eq]
    exact left.symm.trans right
  · exact Number.same_euclid left right
  · simp only [same, decide_eq_true_eq]
    exact left.symm.trans right

end Json

namespace Attributes

variable {name : String} {value : Json} {store pending : Attributes}

theorem holds_of_get? (found : Fields.get? name store = some value)
    (scalar : value.isScalar = true) : holds name value store = true := by
  rw [holds, found]
  exact Json.same_refl scalar

theorem holds_congr {store' : Attributes} (same : Fields.get? name store' = Fields.get? name store) :
    holds name value store' = holds name value store := by
  simp only [holds, same]

/-- A store does not hold two different values under one name. -/
theorem same_of_holds {other : Json} (scalar : other.isScalar = true)
    (left : holds name value store = true) (right : holds name other store = true) :
    Json.same value other = true := by
  unfold holds at left right
  split at left
  · rename_i old found
    simp only [found] at right
    exact Json.same_euclid scalar left right
  · cases left

theorem reported_mem {change : String × Json} (reported : change ∈ (apply store pending).2) :
    change ∈ pending := by
  induction pending generalizing store with
  | nil => exact reported
  | cons entry rest ih =>
      rw [apply] at reported
      split at reported
      · exact List.mem_cons_of_mem _ (ih reported)
      · rcases List.mem_cons.mp reported with rfl | later
        · exact List.mem_cons_self
        · exact List.mem_cons_of_mem _ (ih later)

/-- What is not reported is as it was. -/
theorem get?_apply_of_unreported (silent : ∀ change ∈ (apply store pending).2, change.1 ≠ name) :
    Fields.get? name (apply store pending).1 = Fields.get? name store := by
  induction pending generalizing store with
  | nil => rfl
  | cons entry rest ih =>
      rw [apply] at silent ⊢
      split at silent
      · rename_i held
        rw [if_pos held]
        exact ih silent
      · rename_i fresh
        rw [if_neg fresh, ih fun change later => silent change (List.mem_cons_of_mem _ later)]
        exact Fields.get?_set_ne _ _ (silent _ List.mem_cons_self).symm

theorem get?_apply_of_unwritten (unwritten : name ∉ Fields.keys pending) :
    Fields.get? name (apply store pending).1 = Fields.get? name store := by
  apply get?_apply_of_unreported
  rintro change reported rfl
  exact unwritten (List.mem_map_of_mem (reported_mem reported))

/-- What is written once is held. -/
theorem holds_apply (written : (name, value) ∈ pending) (once : (Fields.keys pending).Nodup)
    (scalar : value.isScalar = true) : holds name value (apply store pending).1 = true := by
  induction pending generalizing store with
  | nil => cases written
  | cons entry rest ih =>
      obtain ⟨unrepeated, onceRest⟩ := List.nodup_cons.mp once
      rcases List.mem_cons.mp written with rfl | later
      · have kept : ∀ store' : Attributes, holds name value store' = true →
            holds name value (apply store' rest).1 = true := by
          intro store' held
          rw [holds_congr (get?_apply_of_unwritten unrepeated)]
          exact held
        rw [apply]
        split
        · rename_i held
          exact kept store held
        · exact kept _ (holds_of_get? (Fields.get?_set_self _ _ _) scalar)
      · rw [apply]
        split
        · exact ih later onceRest
        · exact ih later onceRest

theorem apply_single (name : String) (value : Json) (store : Attributes) :
    (apply store [(name, value)]).2 = if holds name value store then [] else [(name, value)] := by
  rw [apply]
  split <;> rfl

theorem apply_of_holds {name : String} {value : Json} {store : Attributes}
    (held : holds name value store = true) : apply store [(name, value)] = (store, []) := by
  rw [apply, if_pos held]
  rfl

/-- A text is the same as itself only. -/
theorem read_of_holds_text {name text : String} {store : Attributes}
    (held : holds name (.text text) store = true) : read name store = .text text := by
  unfold holds at held
  split at held
  · rename_i old found
    rw [read, found]
    cases old with
    | text other =>
        have same : other = text := by simpa [Json.same] using held
        exact congrArg Json.text same
    | _ => cases held
  · cases held

end Attributes

namespace Fields

variable {α : Type}

theorem mem_set {name : String} {value : α} {entry : String × α} {fields : Fields α}
    (present : entry ∈ set name value fields) : entry = (name, value) ∨ entry ∈ fields := by
  induction fields with
  | nil => exact Or.inl (List.mem_singleton.mp present)
  | cons first rest ih =>
      obtain ⟨key, old⟩ := first
      rw [set] at present
      split at present
      · rename_i same
        rcases List.mem_cons.mp present with rfl | later
        · exact Or.inl (by rw [same])
        · exact Or.inr (List.mem_cons_of_mem _ later)
      · rcases List.mem_cons.mp present with rfl | later
        · exact Or.inr List.mem_cons_self
        · exact (ih later).imp_right (List.mem_cons_of_mem _)

theorem mem_setAll {entry : String × α} {more fields : Fields α}
    (present : entry ∈ setAll more fields) : entry ∈ more ∨ entry ∈ fields := by
  induction more generalizing fields with
  | nil => exact Or.inr present
  | cons first rest ih =>
      rcases ih present with later | there
      · exact Or.inl (List.mem_cons_of_mem _ later)
      · rcases mem_set there with rfl | old
        · exact Or.inl List.mem_cons_self
        · exact Or.inr old

theorem mem_ofEntries {entry : String × α} {entries : Fields α}
    (present : entry ∈ ofEntries entries) : entry ∈ entries :=
  (mem_setAll present).resolve_right List.not_mem_nil

theorem keys_setAll {name : String} {more fields : Fields α} (present : name ∈ keys (setAll more fields)) :
    name ∈ keys more ∨ name ∈ keys fields := by
  obtain ⟨entry, among, rfl⟩ := List.mem_map.mp present
  exact (mem_setAll among).imp List.mem_map_of_mem List.mem_map_of_mem

/-- A new name is set at the end. -/
theorem set_of_not_mem {name : String} (value : α) {fields : Fields α}
    (unlisted : name ∉ keys fields) : set name value fields = fields ++ [(name, value)] := by
  induction fields with
  | nil => rfl
  | cons first rest ih =>
      have other : first.1 ≠ name := fun same => unlisted (by simp [keys, same])
      rw [set, if_neg other, ih fun listed => unlisted (List.mem_cons_of_mem _ listed)]
      rfl

/-- A name that is there is set in its place. -/
theorem set_of_mem {name : String} (value : α) {fields : Fields α} (once : (keys fields).Nodup)
    (listed : name ∈ keys fields) :
    set name value fields = fields.map fun entry =>
      (entry.1, if entry.1 = name then value else entry.2) := by
  induction fields with
  | nil => cases listed
  | cons first rest ih =>
      obtain ⟨key, old⟩ := first
      obtain ⟨unrepeated, onceRest⟩ := List.nodup_cons.mp once
      rw [set, List.map_cons]
      split
      next same =>
        have others : ∀ entry ∈ rest, (entry.1, if entry.1 = name then value else entry.2) = entry := by
          intro entry among
          have other : entry.1 ≠ name := by
            rw [← same]
            exact fun again => unrepeated (List.mem_map.mpr ⟨entry, among, again⟩)
          rw [if_neg other]
        rw [List.map_congr_left others, List.map_id']
      next other =>
        have later : name ∈ keys rest :=
          (List.mem_cons.mp listed).resolve_left fun same => other same.symm
        rw [ih onceRest later]

theorem nodup_keys_set {name : String} (value : α) {fields : Fields α}
    (once : (keys fields).Nodup) : (keys (set name value fields)).Nodup := by
  by_cases listed : name ∈ keys fields
  · rwa [keys_set_of_mem value fields listed]
  · rw [keys_set_of_not_mem value fields listed, List.nodup_append]
    refine ⟨once, by simp, fun key there other last same => listed ?_⟩
    rw [← List.mem_singleton.mp last, ← same]
    exact there

/-- Entries with names of their own are merged into themselves. -/
theorem setAll_of_distinct {more fields : Fields α} (once : (keys (fields ++ more)).Nodup) :
    setAll more fields = fields ++ more := by
  induction more generalizing fields with
  | nil => exact (List.append_nil fields).symm
  | cons entry rest ih =>
      have unlisted : entry.1 ∉ keys fields := by
        intro listed
        simp only [keys, List.map_append, List.map_cons, List.nodup_append] at once
        exact once.2.2 _ listed _ List.mem_cons_self rfl
      show setAll rest (set entry.1 entry.2 fields) = _
      rw [set_of_not_mem _ unlisted, ih (by simpa using once), List.append_assoc]
      rfl

theorem ofEntries_of_distinct {entries : List (String × α)} (once : (keys entries).Nodup) :
    ofEntries entries = entries :=
  setAll_of_distinct (by simpa using once)

end Fields

end LiveBinding
