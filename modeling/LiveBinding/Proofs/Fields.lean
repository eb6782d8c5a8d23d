/-
# LiveBinding.Proofs.Fields -- what is found among named values

In insertion order, entries that are set one after another leave each name once, where it
comes first, with the value that it is given last (`keys_ofEntries`, `get?_ofEntries`).

In key order, what is found in an index was placed there, and what was placed is found,
under one of the values placed for its name.
-/
import Mathlib.Data.List.Induction
import LiveBinding.Fields

namespace LiveBinding

set_option autoImplicit false

universe u

namespace Fields

theorem contains_iff_mem_keys {α : Type u} {name : String} {fields : Fields α} :
    contains name fields = true ↔ name ∈ keys fields := by
  induction fields with
  | nil => simp [contains, keys]
  | cons entry rest ih =>
      obtain ⟨key, value⟩ := entry
      by_cases same : key = name
      · simp [contains, keys, get?, same]
      · have other : name ≠ key := Ne.symm same
        simpa [contains, keys, get?, same, other] using ih

theorem eraseDups_concat (keys : List String) (key : String) :
    (keys ++ [key]).eraseDups =
      if key ∈ keys then keys.eraseDups else keys.eraseDups ++ [key] := by
  rw [List.eraseDups_append]
  by_cases listed : key ∈ keys
  · simp [List.removeAll, listed]
  · simp [List.removeAll, listed, List.eraseDups_cons]

theorem nodup_eraseDups (keys : List String) : keys.eraseDups.Nodup := by
  induction keys using List.reverseRecOn with
  | nil => simp
  | append_singleton before key ih =>
      rw [eraseDups_concat]
      split
      · exact ih
      · rename_i new
        rw [← List.mem_eraseDups] at new
        refine List.nodup_append.mpr ⟨ih, by simp, fun other among last isLast same => ?_⟩
        rw [List.mem_singleton] at isLast
        exact new (isLast ▸ same ▸ among)

theorem setAll_append {α : Type u} (more later fields : Fields α) :
    setAll (more ++ later) fields = setAll later (setAll more fields) :=
  List.foldl_append

theorem ofEntries_concat {α : Type u} (entries : Fields α) (entry : String × α) :
    ofEntries (entries ++ [entry]) = set entry.1 entry.2 (ofEntries entries) :=
  setAll_append entries [entry] []

/-- Each name stands where it comes first. -/
theorem keys_ofEntries {α : Type u} (entries : Fields α) :
    keys (ofEntries entries) = (keys entries).eraseDups := by
  induction entries using List.reverseRecOn with
  | nil => rfl
  | append_singleton before entry ih =>
      have names : keys (before ++ [entry]) = keys before ++ [entry.1] := List.map_append
      have listed : entry.1 ∈ keys (ofEntries before) ↔ entry.1 ∈ keys before := by
        rw [ih, List.mem_eraseDups]
      rw [ofEntries_concat, names, eraseDups_concat]
      split
      · rename_i old
        rw [keys_set_of_mem _ _ (listed.mpr old), ih]
      · rename_i new
        rw [keys_set_of_not_mem _ _ (mt listed.mp new), ih]

/-- Each name has the value that comes last. -/
theorem get?_ofEntries {α : Type u} (entries : Fields α) (name : String) :
    get? name (ofEntries entries) = get? name entries.reverse := by
  induction entries using List.reverseRecOn with
  | nil => rfl
  | append_singleton before entry ih =>
      rw [ofEntries_concat, get?_set, List.reverse_concat, get?, ih]
      by_cases same : name = entry.1
      · rw [if_pos same, if_pos same.symm]
      · rw [if_neg same, if_neg (Ne.symm same)]

end Fields

namespace Index

variable {α : Type u} {name : String} {value : α} {index : Index α}

theorem mem_of_get? (found : get? name index = some value) : (name, value) ∈ index := by
  induction index with
  | nil => cases found
  | cons entry rest ih =>
      obtain ⟨key, old⟩ := entry
      rw [get?, Fields.get?] at found
      split at found
      · rename_i same
        cases found
        rw [same]
        exact List.mem_cons_self
      · exact List.mem_cons_of_mem _ (ih found)

theorem contains_iff : contains name index = true ↔ ∃ value, get? name index = some value :=
  Option.isSome_iff_exists

theorem contains_place {other : String} :
    contains name (place other value index) = true ↔ name = other ∨ contains name index = true := by
  by_cases same : name = other
  · subst same
    simp [contains]
  · simp [contains, get?_place_ne value index same, same]

theorem contains_placeAll {more : List (String × α)} :
    contains name (placeAll more index) = true ↔
      name ∈ more.map (·.1) ∨ contains name index = true := by
  induction more generalizing index with
  | nil => simp [placeAll]
  | cons entry rest ih =>
      show contains name (placeAll rest (place entry.1 entry.2 index)) = true ↔ _
      rw [ih, contains_place, List.map_cons, List.mem_cons]
      constructor
      · rintro (later | same | before)
        · exact Or.inl (Or.inr later)
        · exact Or.inl (Or.inl same)
        · exact Or.inr before
      · rintro ((same | later) | before)
        · exact Or.inr (Or.inl same)
        · exact Or.inl later
        · exact Or.inr (Or.inr before)

theorem contains_ofEntries {entries : List (String × α)} :
    contains name (ofEntries entries) = true ↔ name ∈ entries.map (·.1) := by
  rw [ofEntries, contains_placeAll]
  simp [contains, get?]

theorem mem_place {entry : String × α} {other : String} (listed : entry ∈ place other value index) :
    entry = (other, value) ∨ entry ∈ index := by
  induction index with
  | nil => exact Or.inl (by simpa [place] using listed)
  | cons first rest ih =>
      obtain ⟨key, old⟩ := first
      rw [place] at listed
      split at listed
      · exact (List.mem_cons.mp listed).imp_right (List.mem_cons_of_mem _)
      · split at listed
        · exact List.mem_cons.mp listed
        · rcases List.mem_cons.mp listed with rfl | later
          · exact Or.inr List.mem_cons_self
          · exact (ih later).imp_right (List.mem_cons_of_mem _)

theorem mem_placeAll {entry : String × α} {more : List (String × α)}
    (listed : entry ∈ placeAll more index) : entry ∈ more ∨ entry ∈ index := by
  induction more generalizing index with
  | nil => exact Or.inr listed
  | cons first rest ih =>
      have listed' : entry ∈ placeAll rest (place first.1 first.2 index) := listed
      rcases ih listed' with later | placed
      · exact Or.inl (List.mem_cons_of_mem _ later)
      · rcases mem_place placed with rfl | before
        · exact Or.inl List.mem_cons_self
        · exact Or.inr before

theorem place_map {β : Type u} (f : α → β) (name : String) (value : α) (index : Index α) :
    (place name value index).map (fun entry => (entry.1, f entry.2)) =
      place name (f value) (index.map fun entry => (entry.1, f entry.2)) := by
  induction index with
  | nil => rfl
  | cons entry rest ih =>
      obtain ⟨key, old⟩ := entry
      rw [place, List.map_cons, place]
      split
      · rfl
      · split
        · rfl
        · rw [List.map_cons, ih]

theorem placeAll_map {β : Type u} (f : α → β) (more : List (String × α)) (index : Index α) :
    (placeAll more index).map (fun entry => (entry.1, f entry.2)) =
      placeAll (more.map fun entry => (entry.1, f entry.2))
        (index.map fun entry => (entry.1, f entry.2)) := by
  induction more generalizing index with
  | nil => rfl
  | cons entry rest ih =>
      have placed := ih (place entry.1 entry.2 index)
      rw [place_map] at placed
      exact placed

/-- What is made of the values makes no difference to the order of the keys. -/
theorem ofEntries_map {β : Type u} (f : α → β) (entries : List (String × α)) :
    (ofEntries entries).map (fun entry => (entry.1, f entry.2)) =
      ofEntries (entries.map fun entry => (entry.1, f entry.2)) :=
  placeAll_map f entries []

/-- Everything in key order is one of the entries it was made of. -/
theorem mem_ofEntries {entry : String × α} {entries : List (String × α)}
    (listed : entry ∈ ofEntries entries) : entry ∈ entries :=
  (mem_placeAll listed).resolve_right List.not_mem_nil

/-! ## Each key once -/

theorem pairwise_place (index : Index α) (name : String) (value : α)
    (ordered : (keys index).Pairwise (· < ·)) : (keys (place name value index)).Pairwise (· < ·) := by
  induction index with
  | nil => simp [place, keys]
  | cons entry rest ih =>
      obtain ⟨key, old⟩ := entry
      obtain ⟨first, later⟩ := List.pairwise_cons.mp ordered
      rw [place]
      split
      · rename_i same
        subst same
        exact List.pairwise_cons.mpr ⟨first, later⟩
      · split
        · rename_i below
          refine List.pairwise_cons.mpr ⟨fun other among => ?_, ordered⟩
          rcases List.mem_cons.mp among with rfl | after
          · exact below
          · exact String.lt_trans below (first other after)
        · rename_i distinct notBelow
          refine List.pairwise_cons.mpr ⟨fun other among => ?_, ih later⟩
          obtain ⟨placed, listed, rfl⟩ := List.mem_map.mp among
          rcases mem_place listed with rfl | before
          · exact Decidable.byContradiction fun notAbove =>
              distinct (String.le_antisymm (String.not_lt.mp notBelow) (String.not_lt.mp notAbove))
          · exact first _ (List.mem_map_of_mem before)

/-- In key order no key comes twice. -/
theorem nodup_keys_ofEntries (entries : List (String × α)) : (keys (ofEntries entries)).Nodup := by
  have ordered : ∀ (more : List (String × α)) (index : Index α),
      (keys index).Pairwise (· < ·) → (keys (placeAll more index)).Pairwise (· < ·) := by
    intro more
    induction more with
    | nil => exact fun _ => id
    | cons entry rest ih => exact fun index ordered => ih _ (pairwise_place index _ _ ordered)
  refine (ordered entries [] .nil).imp fun {first later} below same => ?_
  rw [same] at below
  exact String.lt_irrefl later below

theorem mem_place_of_ne {entry : String × α} (other : entry.1 ≠ name) (listed : entry ∈ index) :
    entry ∈ place name value index := by
  induction index with
  | nil => cases listed
  | cons first rest ih =>
      obtain ⟨key, old⟩ := first
      rw [place]
      split
      · rename_i same
        subst same
        refine List.mem_cons_of_mem _ ((List.mem_cons.mp listed).resolve_left fun here => ?_)
        exact other (congrArg Prod.fst here)
      · split
        · exact List.mem_cons_of_mem _ listed
        · exact List.mem_cons.mpr ((List.mem_cons.mp listed).imp_right ih)

/-- Entries with keys of their own are all there in key order. -/
theorem mem_ofEntries_of_distinct {entries : List (String × α)}
    (distinct : (entries.map (·.1)).Nodup) {entry : String × α} (listed : entry ∈ entries) :
    entry ∈ ofEntries entries := by
  have all : ∀ (more : List (String × α)) (index : Index α), (more.map (·.1)).Nodup →
      entry ∈ more ∨ entry ∈ index ∧ entry.1 ∉ more.map (·.1) → entry ∈ placeAll more index := by
    intro more
    induction more with
    | nil => exact fun index _ among => (among.resolve_left List.not_mem_nil).1
    | cons first rest ih =>
        intro index distinct among
        obtain ⟨new, distinct⟩ := List.nodup_cons.mp distinct
        refine ih (place first.1 first.2 index) distinct ?_
        rcases among with here | ⟨before, apart⟩
        · rcases List.mem_cons.mp here with rfl | later
          · exact Or.inr ⟨mem_of_get? (get?_place_self _ _ index), new⟩
          · exact Or.inl later
        · rw [List.map_cons, List.mem_cons, not_or] at apart
          exact Or.inr ⟨mem_place_of_ne apart.1 before, apart.2⟩
  exact all entries [] distinct (Or.inl listed)

/-! ## Dropping a key -/

theorem get?_remove_self (name : String) (index : Index α) : get? name (remove name index) = none := by
  induction index with
  | nil => rfl
  | cons entry rest ih =>
      obtain ⟨key, old⟩ := entry
      by_cases same : key = name
      · simpa [remove, same] using ih
      · simpa [remove, same, get?, Fields.get?] using ih

theorem get?_remove_ne {name other : String} (index : Index α) (distinct : other ≠ name) :
    get? other (remove name index) = get? other index := by
  induction index with
  | nil => rfl
  | cons entry rest ih =>
      obtain ⟨key, old⟩ := entry
      simp only [get?, remove] at ih
      by_cases same : key = name
      · subst same
        simpa [remove, get?, Fields.get?, distinct.symm] using ih
      · by_cases here : key = other
        · subst here
          simp [remove, get?, Fields.get?, same]
        · simpa [remove, get?, Fields.get?, same, here] using ih

end Index

end LiveBinding
