/-
# LiveBinding.Ref -- references and the tables they point into

Everything that lives and can be shared (hubs, models, documents, elements,
bindings, views) is kept in a table and named by a reference of its kind.  A
reference is never given out twice: a row that is erased stays empty.
-/
namespace LiveBinding

set_option autoImplicit false

universe u

/-- What a reference can name. -/
inductive Kind where
  | hub
  | model
  | document
  | element
  | binding
  | view
  deriving DecidableEq

structure Ref (kind : Kind) where
  index : Nat
  deriving DecidableEq

/-- Rows by reference; an erased row is `none`. -/
structure Table (kind : Kind) (α : Type u) where
  rows : List (Option α)

namespace Table

variable {kind : Kind} {α : Type u}

def empty : Table kind α := ⟨[]⟩

def get? (t : Table kind α) (r : Ref kind) : Option α :=
  t.rows[r.index]?.join

def fresh (t : Table kind α) : Ref kind :=
  ⟨t.rows.length⟩

def insert (t : Table kind α) (value : α) : Table kind α :=
  ⟨t.rows ++ [some value]⟩

def update (t : Table kind α) (r : Ref kind) (f : α → α) : Table kind α :=
  ⟨t.rows.modify r.index (Option.map f)⟩

def erase (t : Table kind α) (r : Ref kind) : Table kind α :=
  ⟨t.rows.modify r.index fun _ => none⟩

def entries (t : Table kind α) : List (Ref kind × α) :=
  (t.rows.zipIdx).filterMap fun row => row.1.map fun value => (⟨row.2⟩, value)

def values (t : Table kind α) : List α :=
  t.rows.filterMap id

@[simp] theorem get?_empty (r : Ref kind) : (empty : Table kind α).get? r = none := by
  simp [get?, empty]

@[simp] theorem get?_insert_fresh (t : Table kind α) (value : α) :
    (t.insert value).get? t.fresh = some value := by
  simp [get?, insert, fresh]

theorem get?_insert_of_ne {t : Table kind α} {r : Ref kind} (value : α) (h : r ≠ t.fresh) :
    (t.insert value).get? r = t.get? r := by
  have hne : r.index ≠ t.rows.length := by
    intro e; apply h; cases r; simp_all [fresh]
  by_cases hl : r.index < t.rows.length
  · simp [get?, insert, List.getElem?_append_left hl]
  · have hge : t.rows.length ≤ r.index := Nat.le_of_not_lt hl
    have h1 : t.rows[r.index]? = none := List.getElem?_eq_none hge
    have h2 : (t.rows ++ [some value])[r.index]? = none := by
      apply List.getElem?_eq_none; simp; omega
    simp [get?, insert, h1, h2]

/-- Only rows that were issued are there. -/
theorem lt_of_get? {t : Table kind α} {r : Ref kind} {value : α} (present : t.get? r = some value) :
    r.index < t.rows.length := by
  refine Nat.lt_of_not_le fun beyond => ?_
  rw [get?, List.getElem?_eq_none beyond] at present
  cases present

@[simp] theorem get?_fresh (t : Table kind α) : t.get? t.fresh = none := by
  simp [get?, fresh]

theorem get?_insert_some {t : Table kind α} {r : Ref kind} {value found : α} :
    (t.insert value).get? r = some found ↔ r = t.fresh ∧ found = value ∨ t.get? r = some found := by
  by_cases h : r = t.fresh
  · subst h; simp [eq_comm]
  · simp [get?_insert_of_ne value h, h]

@[simp] theorem get?_update_self (t : Table kind α) (r : Ref kind) (f : α → α) :
    (t.update r f).get? r = (t.get? r).map f := by
  simp only [get?, update, List.getElem?_modify_eq]
  cases t.rows[r.index]? with
  | none => rfl
  | some row => rfl

theorem get?_update_of_ne (t : Table kind α) {r s : Ref kind} (f : α → α) (h : s ≠ r) :
    (t.update r f).get? s = t.get? s := by
  have : r.index ≠ s.index := by
    intro e; apply h; cases r; cases s; simp_all
  simp [get?, update, this]

/-- A row after an update is a row before it, changed if it is the one. -/
theorem get?_update_some {t : Table kind α} {r s : Ref kind} {f : α → α} {found : α}
    (h : (t.update r f).get? s = some found) :
    ∃ old, t.get? s = some old ∧ found = if s = r then f old else old := by
  by_cases same : s = r
  · subst same
    rw [get?_update_self, Option.map_eq_some_iff] at h
    obtain ⟨old, present, rfl⟩ := h
    exact ⟨old, present, (if_pos rfl).symm⟩
  · rw [get?_update_of_ne t f same] at h
    exact ⟨found, h, (if_neg same).symm⟩

theorem isSome_update {t : Table kind α} {r s : Ref kind} {f : α → α} (there : (t.get? s).isSome) :
    ((t.update r f).get? s).isSome := by
  by_cases same : s = r
  · subst same
    simpa using there
  · rwa [get?_update_of_ne t f same]

@[simp] theorem get?_erase_self (t : Table kind α) (r : Ref kind) :
    (t.erase r).get? r = none := by
  simp only [get?, erase, List.getElem?_modify_eq]
  cases t.rows[r.index]? <;> rfl

theorem get?_erase_of_ne (t : Table kind α) {r s : Ref kind} (h : s ≠ r) :
    (t.erase r).get? s = t.get? s := by
  have : r.index ≠ s.index := by
    intro e; apply h; cases r; cases s; simp_all
  simp [get?, erase, this]

theorem get?_of_get?_erase {t : Table kind α} {r s : Ref kind} {found : α}
    (h : (t.erase r).get? s = some found) : s ≠ r ∧ t.get? s = some found := by
  by_cases same : s = r
  · subst same; simp at h
  · exact ⟨same, by rwa [get?_erase_of_ne t same] at h⟩

/-- An update depends on what it makes of the row only. -/
theorem update_congr {t : Table kind α} {r : Ref kind} {f g : α → α}
    (h : ∀ old, t.get? r = some old → f old = g old) : t.update r f = t.update r g := by
  simp only [update, mk.injEq]
  apply List.ext_getElem?
  intro i
  by_cases same : r.index = i
  · subst same
    rw [List.getElem?_modify_eq, List.getElem?_modify_eq]
    rcases row : t.rows[r.index]? with _ | _ | old
    · rfl
    · rfl
    · have := h old (by simp [get?, row])
      simp [this]
  · simp [same]

theorem update_id (t : Table kind α) (r : Ref kind) : t.update r id = t := by
  simp [update]

theorem update_of_none {t : Table kind α} {r : Ref kind} (f : α → α) (h : t.get? r = none) :
    t.update r f = t := by
  rw [update_congr (g := id), update_id]
  intro old present
  rw [h] at present
  cases present

@[simp] theorem fresh_update (t : Table kind α) (r : Ref kind) (f : α → α) :
    (t.update r f).fresh = t.fresh := by
  simp [fresh, update]

end Table

end LiveBinding
