/-
# LiveBinding.Proofs.Model.Origin -- what is announced of a name

Of each name there is one value that changes just when that is announced, and to just what
is announced: what a virtual property keeps, and what is stored of anything else
(`Model.origin`).  So whoever starts from it and replays what is announced has it again
(`origin_store`, `origin_adopt`).

A client that starts from what the name reads as, and a property that is not virtual reads
as what it keeps, has the same data in the end (`Model.agrees_replay`).
-/
import LiveBinding.Proofs.Model.Data

namespace LiveBinding

set_option autoImplicit false

variable {σ : Type}

/-! ## Replaying -/

def replay (start : Json) (values : List Json) : Json :=
  values.foldl (fun _ value => value) start

@[simp] theorem replay_nil (start : Json) : replay start [] = start := rfl

@[simp] theorem replay_concat (start last : Json) (values : List Json) :
    replay start (values ++ [last]) = last := by
  rw [replay, List.foldl_append]
  rfl

theorem replay_append (start : Json) (values more : List Json) :
    replay start (values ++ more) = replay (replay start values) more :=
  List.foldl_append

def valuesOf (name : String) (changes : Attributes) : List Json :=
  changes.filterMap fun change => if change.1 = name then some change.2 else none

theorem valuesOf_cons (name key : String) (value : Json) (rest : Attributes) :
    valuesOf name ((key, value) :: rest) =
      (if key = name then [value] else []) ++ valuesOf name rest := by
  unfold valuesOf
  by_cases same : key = name <;> simp [same]

theorem valuesOf_eq_nil {name : String} {changes : Attributes}
    (other : ∀ change ∈ changes, change.1 ≠ name) : valuesOf name changes = [] :=
  List.filterMap_eq_nil_iff.mpr fun change listed => if_neg (other change listed)

/-- What is stored under a name is what was reported of it last. -/
theorem Attributes.read_apply (name : String) (store pending : Attributes) :
    (store.apply pending).1.read name =
      replay (store.read name) (valuesOf name (store.apply pending).2) := by
  induction pending generalizing store with
  | nil => rfl
  | cons entry rest ih =>
      obtain ⟨key, value⟩ := entry
      rw [apply]
      split
      · exact ih store
      · rw [ih, valuesOf_cons, replay_append]
        congr 1
        by_cases same : key = name
        · subst same
          rw [if_pos rfl, Attributes.read, Fields.get?_set_self]
          rfl
        · rw [if_neg same, Attributes.read, Fields.get?_set_ne _ _ (Ne.symm same)]
          rfl

namespace Model

variable {m m' : Model σ}

/-- The value of a name that changes when this is announced. -/
def origin (m : Model σ) (name : String) : Json :=
  match m.property? name with
  | some property => if property.isVirtual then property.value else m.store.read name
  | none => m.store.read name

theorem origin_of_stored {name : String}
    (stored : ∀ p, m.property? name = some p → p.isVirtual = false) :
    m.origin name = m.store.read name := by
  unfold origin
  split
  · rename_i p found
    rw [stored p found]
    rfl
  · rfl

theorem origin_of_virtual {name : String} {p : Property σ} (found : m.property? name = some p)
    (virtual : p.isVirtual = true) : m.origin name = p.value := by
  rw [origin, found]
  exact if_pos virtual

/-- What is written to names that are not computed changes as is reported. -/
theorem origin_store {pending : Attributes}
    (aside : ∀ name ∈ Fields.keys pending, m.isComputed name = false) (name : String) :
    ({ m with store := (m.store.apply pending).1 } : Model σ).origin name =
      replay (m.origin name) (valuesOf name (m.store.apply pending).2) := by
  have stored : ({ m with store := (m.store.apply pending).1 } : Model σ).property? name =
      m.property? name := rfl
  rcases found : m.property? name with _ | p
  · rw [origin_of_stored (by simp [stored, found]), origin_of_stored (by simp [found])]
    exact Attributes.read_apply name m.store pending
  · have none : valuesOf name (m.store.apply pending).2 = [] := by
      refine valuesOf_eq_nil fun change reported same => ?_
      have plain := aside change.1 (List.mem_map_of_mem (Attributes.reported_mem reported))
      rw [same, isComputed, found] at plain
      cases plain
    have read := Attributes.read_apply name m.store pending
    rw [none] at read ⊢
    simp only [origin, stored, found, read, replay_nil]

/-- So does the value of a property. -/
theorem origin_adopt {p : Property σ} (found : m.property? p.name = some p) (value : Json)
    (name : String) : (m.adopt p value).1.origin name =
      replay (m.origin name) (valuesOf name (m.adopt p value).2) := by
  by_cases same : name = p.name
  · subst same
    have adopted := property?_adopt_self found value
    cases virtual : p.isVirtual with
    | true =>
        rw [origin_of_virtual adopted virtual, adopt, if_pos virtual]
        simp [valuesOf, replay]
    | false =>
        rw [origin_of_stored (by simp [adopted, virtual]), origin_of_stored (by simp [found, virtual]),
          adopt, if_neg (by simp [virtual])]
        exact Attributes.read_apply p.name m.store _
  · have none : valuesOf name (m.adopt p value).2 = [] := by
      refine valuesOf_eq_nil fun change announced named => same ?_
      rw [← named, adopted_mem announced]
    rw [none, replay_nil, origin, origin, property?_adopt_ne same, Attributes.read, Attributes.read,
      get?_adopt_ne same]

/-- What properties keep is stored as well, unless they are virtual. -/
def Stores (m : Model σ) : Prop :=
  ∀ p ∈ m.properties, p.isVirtual = false → Attributes.Has p.name p.value m.store

theorem agrees_origin (stores : m.Stores) (name : String) : (m.origin name).Agrees (m.read name) := by
  rcases found : m.property? name with _ | p
  · refine Or.inl ?_
    rw [origin, read, found]
  · obtain rfl := name_of_property? found
    rw [read_of_property? found]
    cases virtual : p.isVirtual with
    | true => exact Or.inl (origin_of_virtual found virtual)
    | false =>
        obtain ⟨value, held, agrees⟩ := stores p (mem_of_property? found) virtual
        rw [origin_of_stored (by simp [found, virtual]), Attributes.read, held]
        exact agrees

/-- Whoever starts from what the name reads as, and replays what is announced, has what it
reads as then. -/
theorem agrees_replay (data : m.store.AreData) (stores : m.Stores)
    (storesThen : m'.Stores) {name : String} {values : List Json}
    (moved : m'.origin name = replay (m.origin name) values) :
    (replay (m.read name) values).Agrees (m'.read name) := by
  have agrees := agrees_origin storesThen name
  rcases List.eq_nil_or_concat values with rfl | ⟨earlier, last, rfl⟩
  · rw [replay_nil] at moved ⊢
    rw [moved] at agrees
    rcases found : m.property? name with _ | p
    · have read : m.read name = m.origin name := by rw [origin, Model.read, found]
      rwa [read]
    · obtain rfl := name_of_property? found
      cases virtual : p.isVirtual with
      | true =>
          rw [read_of_property? found, ← origin_of_virtual found virtual]
          exact agrees
      | false =>
          -- the property may keep other data now that is the same, and is not announced
          obtain ⟨value, held, before⟩ := stores p (mem_of_property? found) virtual
          have stored : m.origin p.name = value := by
            rw [origin_of_stored (by simp [found, virtual]), Attributes.read, held]
            rfl
          rw [read_of_property? found]
          rw [stored] at agrees
          exact before.euclid (data _ (Fields.mem_of_get? held)) agrees
  · rw [List.concat_eq_append, replay_concat] at moved ⊢
    rwa [moved] at agrees

/-! ## What a name reads as -/

/-- The name reads as the value.  A list or an object that is stored may have been replaced
by one that is the same data, which is not announced. -/
def ReadsAs (m : Model σ) (name : String) (value : Json) : Prop :=
  value = m.read name ∨
    (m.read name).isScalar = false ∧ (m.origin name).Agrees value ∧
      (m.origin name).Agrees (m.read name)

theorem ReadsAs.congr {name : String} {value : Json} (reads : m.ReadsAs name value)
    (read : m'.read name = m.read name) (origin : m'.origin name = m.origin name) :
    m'.ReadsAs name value := by
  rw [ReadsAs, read, origin]
  exact reads

theorem ReadsAs.of_origin {name : String} {value : Json} (reads : m.ReadsAs name value)
    (stores : m.Stores) : (m.origin name).Agrees value := by
  rcases reads with rfl | ⟨-, agrees, -⟩
  · exact agrees_origin stores name
  · exact agrees

/-- What is written to names that are not computed is announced if it changes what a name
reads as. -/
theorem ReadsAs.store {pending : Attributes} {name : String} {value : Json}
    (reads : m.ReadsAs name value)
    (aside : ∀ name ∈ Fields.keys pending, m.isComputed name = false)
    (silent : ∀ change ∈ (m.store.apply pending).2, change.1 ≠ name) :
    ({ m with store := (m.store.apply pending).1 } : Model σ).ReadsAs name value := by
  refine reads.congr (read_apply_of_unreported silent) ?_
  rw [origin_store aside, valuesOf_eq_nil silent, replay_nil]

/-- A scalar that goes on is announced, since the store does not lag behind. -/
theorem adopt_announces_of_has {p : Property σ} {value : Json}
    (has : p.isVirtual = false → Attributes.Has p.name p.value m.store)
    (scalar : value.isScalar = true) (moved : Run.isSettled p.value value = false) :
    (p.name, value) ∈ (m.adopt p value).2 := by
  refine adopt_announces_of_same scalar moved fun stored held => ?_
  obtain ⟨old, found, agrees⟩ := has stored
  rw [Attributes.holds, found] at held
  rcases agrees with rfl | agrees
  · exact held
  · exact Json.same_euclid scalar agrees held

/-- So is a new value of a property, unless it is the same data as is stored. -/
theorem ReadsAs.adopt {p : Property σ} {value shown : Json} {name : String}
    (reads : m.ReadsAs name shown) (stores : m.Stores) (storesThen : (m.adopt p value).1.Stores)
    (found : m.property? p.name = some p) (moved : Run.isSettled p.value value = false)
    (silent : ∀ change ∈ (m.adopt p value).2, change.1 ≠ name) :
    (m.adopt p value).1.ReadsAs name shown := by
  have origin : (m.adopt p value).1.origin name = m.origin name := by
    rw [origin_adopt found, valuesOf_eq_nil silent, replay_nil]
  by_cases own : name = p.name
  · subst own
    have scalar : value.isScalar = false := by
      by_contra scalar
      rw [Bool.not_eq_false] at scalar
      have announced := adopt_announces_of_has (stores p (mem_of_property? found)) scalar moved
      exact silent _ announced rfl
    refine Or.inr ⟨?_, ?_, agrees_origin storesThen p.name⟩
    · rw [read_of_property? (property?_adopt_self found value)]
      exact scalar
    · rw [origin]
      exact reads.of_origin stores
  · exact reads.congr (read_adopt_ne own value m) origin

end Model

end LiveBinding
