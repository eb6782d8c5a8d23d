/-
# LiveBinding.Fields -- named values, in insertion order or in key order

Two kinds of association list with text keys.

* `Fields`: insertion order.  Setting a name that is present keeps its place
  and replaces its value; a new name goes to the end.
* `Index`: key order, by the code points of the keys.  Placing a name that is
  present replaces its value.

Both read with `get?`, the value of the first entry of that name.
-/
namespace LiveBinding

set_option autoImplicit false

universe u v

/-- Named values in insertion order. -/
abbrev Fields (α : Type u) := List (String × α)

namespace Fields

variable {α : Type u} {β : Type v}

def get? (name : String) : Fields α → Option α
  | [] => none
  | (key, value) :: rest => if key = name then some value else get? name rest

def contains (name : String) (fields : Fields α) : Bool :=
  (get? name fields).isSome

def keys (fields : Fields α) : List String :=
  fields.map (·.1)

/-- Replace the value at `name` in place, or add the name at the end. -/
def set (name : String) (value : α) : Fields α → Fields α
  | [] => [(name, value)]
  | (key, old) :: rest =>
      if key = name then (key, value) :: rest else (key, old) :: set name value rest

def setAll (more : Fields α) (fields : Fields α) : Fields α :=
  more.foldl (fun done entry => set entry.1 entry.2 done) fields

/-- Entries with repeated names merged: first place, last value. -/
def ofEntries (entries : List (String × α)) : Fields α :=
  setAll entries []

@[simp] theorem get?_nil (name : String) : get? name ([] : Fields α) = none := rfl

@[simp] theorem get?_set_self (name : String) (value : α) (fields : Fields α) :
    get? name (set name value fields) = some value := by
  induction fields with
  | nil => simp [set, get?]
  | cons entry rest ih =>
      obtain ⟨key, old⟩ := entry
      by_cases h : key = name <;> simp [set, get?, h, ih]

theorem get?_set_ne {name other : String} (value : α) (fields : Fields α) (h : other ≠ name) :
    get? other (set name value fields) = get? other fields := by
  induction fields with
  | nil => simp [set, get?, h.symm]
  | cons entry rest ih =>
      obtain ⟨key, old⟩ := entry
      by_cases hk : key = name
      · subst hk; simp [set, get?, h.symm]
      · by_cases ho : key = other
        · subst ho; simp [set, get?, hk]
        · simp [set, get?, hk, ho, ih]

theorem get?_set (name other : String) (value : α) (fields : Fields α) :
    get? other (set name value fields) = if other = name then some value else get? other fields := by
  by_cases h : other = name
  · subst h; simp
  · simp [h, get?_set_ne value fields h]

/-- A name already present keeps the order of the keys. -/
theorem keys_set_of_mem {name : String} (value : α) (fields : Fields α)
    (h : name ∈ keys fields) : keys (set name value fields) = keys fields := by
  induction fields with
  | nil => simp [keys] at h
  | cons entry rest ih =>
      obtain ⟨key, old⟩ := entry
      by_cases hk : key = name
      · simp [set, keys, hk]
      · have : name ∈ keys rest := by simpa [keys, Ne.symm hk] using h
        simp only [set, hk, if_false]
        simpa [keys] using ih this

/-- A new name goes to the end. -/
theorem keys_set_of_not_mem {name : String} (value : α) (fields : Fields α)
    (h : name ∉ keys fields) : keys (set name value fields) = keys fields ++ [name] := by
  induction fields with
  | nil => simp [set, keys]
  | cons entry rest ih =>
      obtain ⟨key, old⟩ := entry
      have hk : key ≠ name := by
        intro e; exact h (by simp [keys, e])
      have : name ∉ keys rest := by
        intro e; exact h (by simp only [keys, List.map_cons, List.mem_cons]; exact Or.inr e)
      simp only [set, hk, if_false]
      simpa [keys] using ih this

end Fields

/-- Named values in the order of their keys. -/
abbrev Index (α : Type u) := List (String × α)

namespace Index

variable {α : Type u}

def get? (name : String) (index : Index α) : Option α :=
  Fields.get? name index

def contains (name : String) (index : Index α) : Bool :=
  (get? name index).isSome

def keys (index : Index α) : List String :=
  index.map (·.1)

/-- Put `value` at `name`, where the order of the keys wants it. -/
def place (name : String) (value : α) : Index α → Index α
  | [] => [(name, value)]
  | (key, old) :: rest =>
      if key = name then (name, value) :: rest
      else if name < key then (name, value) :: (key, old) :: rest
      else (key, old) :: place name value rest

def remove (name : String) (index : Index α) : Index α :=
  index.filter fun entry => entry.1 ≠ name

def placeAll (more : List (String × α)) (index : Index α) : Index α :=
  more.foldl (fun done entry => place entry.1 entry.2 done) index

/-- Entries put in key order; of a repeated name the last value stays. -/
def ofEntries (entries : List (String × α)) : Index α :=
  placeAll entries []

@[simp] theorem get?_place_self (name : String) (value : α) (index : Index α) :
    get? name (place name value index) = some value := by
  induction index with
  | nil => simp [place, get?, Fields.get?]
  | cons entry rest ih =>
      obtain ⟨key, old⟩ := entry
      simp only [get?] at ih
      by_cases h : key = name
      · simp [place, get?, Fields.get?, h]
      · by_cases hl : name < key <;> simp [place, get?, Fields.get?, h, hl, ih]

theorem get?_place_ne {name other : String} (value : α) (index : Index α) (h : other ≠ name) :
    get? other (place name value index) = get? other index := by
  induction index with
  | nil => simp [place, get?, Fields.get?, h.symm]
  | cons entry rest ih =>
      obtain ⟨key, old⟩ := entry
      simp only [get?] at ih
      by_cases hk : key = name
      · subst hk; simp [place, get?, Fields.get?, h.symm]
      · by_cases hl : name < key
        · simp [place, get?, Fields.get?, hk, hl, h.symm]
        · by_cases ho : key = other
          · subst ho; simp [place, get?, Fields.get?, hk, hl]
          · simp [place, get?, Fields.get?, hk, hl, ho, ih]

end Index

end LiveBinding
