/-
# LiveBinding.Proofs.Model.Adopt -- a property takes a new value

A new value is kept by its property and, unless that is virtual, stored.  The two
happen one right after the other, before anybody is told, so between them nobody
sees that the store lags behind.  `Model.adopt` is both at once, with the changes
that are announced then.

What is stored never lags behind what is kept, so a value that differs from the
one kept differs from the one stored, and is announced (`adopt_announces`).
-/
import LiveBinding.Proofs.Model.Basic
import LiveBinding.Run.Compute

namespace LiveBinding

set_option autoImplicit false

variable {σ : Type}

namespace Model

/-- The model with a new value of a property, and what is announced of it. -/
def adopt (p : Property σ) (value : Json) (m : Model σ) : Model σ × List (String × Json) :=
  if p.isVirtual then (m.setValue p.name value, [(p.name, value)])
  else
    ({ m.setValue p.name value with store := (m.store.apply [(p.name, value)]).1 },
      (m.store.apply [(p.name, value)]).2)

variable {m : Model σ} {p : Property σ} {value : Json}

theorem properties_adopt (p : Property σ) (value : Json) (m : Model σ) :
    (m.adopt p value).1.properties = (m.setValue p.name value).properties := by
  unfold adopt
  split <;> rfl

theorem sameShape_adopt (p : Property σ) (value : Json) (m : Model σ) :
    SameShape m (m.adopt p value).1 := by
  unfold adopt
  split
  · exact sameShape_setValue p.name value m
  · exact (sameShape_setValue p.name value m).trans (sameShape_store _ _)

theorem property?_adopt (p : Property σ) (value : Json) (m : Model σ) (name : String) :
    (m.adopt p value).1.property? name = (m.setValue p.name value).property? name := by
  rw [property?, properties_adopt]
  rfl

theorem property?_adopt_self (found : m.property? p.name = some p) (value : Json) :
    (m.adopt p value).1.property? p.name = some { p with value := value } := by
  rw [property?_adopt, property?_setValue_self found]

theorem property?_adopt_ne {name : String} (distinct : name ≠ p.name) (value : Json)
    (m : Model σ) : (m.adopt p value).1.property? name = m.property? name := by
  rw [property?_adopt, property?_setValue_ne distinct]

theorem adopted_mem {change : String × Json} (announced : change ∈ (m.adopt p value).2) :
    change = (p.name, value) := by
  unfold adopt at announced
  split at announced
  · exact List.mem_singleton.mp announced
  · exact List.mem_singleton.mp (Attributes.reported_mem announced)

theorem get?_adopt_ne {name : String} (distinct : name ≠ p.name) (value : Json) (m : Model σ) :
    Fields.get? name (m.adopt p value).1.store = Fields.get? name m.store := by
  unfold adopt
  split
  · rfl
  · exact Attributes.get?_apply_of_unwritten (by simpa [Fields.keys] using distinct)

/-- Only the property itself reads differently then. -/
theorem read_adopt_ne {name : String} (distinct : name ≠ p.name) (value : Json) (m : Model σ) :
    (m.adopt p value).1.read name = m.read name := by
  simp only [read, property?_adopt_ne distinct, Attributes.read, get?_adopt_ne distinct]

theorem storesComputed_adopt (regular : m.IsRegular) (stores : m.StoresComputed)
    (found : m.property? p.name = some p) (scalar : value.isScalar = true) :
    (m.adopt p value).1.StoresComputed := by
  intro q listed stored
  have regular' := (sameShape_adopt p value m).isRegular regular
  have foundQ := property?_of_mem regular'.distinct listed
  by_cases same : q.name = p.name
  · rw [same, property?_adopt_self found] at foundQ
    cases foundQ
    have kept : p.isVirtual = false := stored
    simp only [adopt, kept, Bool.false_eq_true, if_false]
    exact Attributes.holds_apply List.mem_cons_self (by simp [Fields.keys]) scalar
  · rw [property?_adopt_ne same] at foundQ
    have held := stores q (mem_of_property? foundQ) stored
    unfold adopt
    split
    · exact held
    · rw [Attributes.holds_congr
        (Attributes.get?_apply_of_unwritten (by simpa [Fields.keys] using same))]
      exact held

/-- A scalar that goes on is announced, where the store does not have it already. -/
theorem adopt_announces_of_same (scalar : value.isScalar = true)
    (moved : Run.isSettled p.value value = false)
    (keeps : p.isVirtual = false → Attributes.holds p.name value m.store = true →
      Json.same p.value value = true) : (p.name, value) ∈ (m.adopt p value).2 := by
  unfold adopt
  split
  · exact List.mem_singleton.mpr rfl
  · rename_i stored
    rw [Attributes.apply_single]
    split
    · rename_i held
      have same := keeps (by simpa using stored) held
      have scalar' : p.value.isScalar = true := by
        cases kept : p.value <;> rw [kept] at same <;> cases value <;>
          simp_all [Json.same, Json.isScalar]
      rw [Run.isSettled, scalar, scalar', same] at moved
      cases moved
    · exact List.mem_singleton.mpr rfl

/-- A value that goes on is announced. -/
theorem adopt_announces (stores : m.StoresComputed) (found : m.property? p.name = some p)
    (scalar : value.isScalar = true) (moved : Run.isSettled p.value value = false) :
    (p.name, value) ∈ (m.adopt p value).2 :=
  adopt_announces_of_same scalar moved fun stored held =>
    Attributes.same_of_holds scalar (stores p (mem_of_property? found) stored) held

end Model

end LiveBinding
