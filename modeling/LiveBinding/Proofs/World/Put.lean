/-
# LiveBinding.Proofs.World.Put -- changing the row of a model

Every write changes one row of the models and no more (`World.put`).  Storing
attributes that are not computed, and taking a new value of a computed one, keep
a sound world sound.
-/
import LiveBinding.Proofs.Model.Adopt
import LiveBinding.Proofs.World.Sound

namespace LiveBinding

set_option autoImplicit false

variable {σ : Type}

def World.put (model : Ref .model) (m : Model σ) (w : World σ) : World σ :=
  { w with models := w.models.update model fun _ => m }

namespace World

variable {w : World σ} {model : Ref .model} {m m' : Model σ}

/-- Changing the row of a model puts another row there. -/
theorem update_eq_put (present : w.models.get? model = some m) (g : Model σ → Model σ) :
    ({ w with models := w.models.update model g } : World σ) = w.put model (g m) := by
  have rows : w.models.update model g = w.models.update model fun _ => g m := by
    refine Table.update_congr fun old was => ?_
    rw [present] at was
    cases was
    rfl
  rw [put, rows]

@[simp] theorem get?_put_self (there : (w.models.get? model).isSome) :
    (w.put model m).models.get? model = some m := by
  obtain ⟨old, present⟩ := Option.isSome_iff_exists.mp there
  simp [put, present]

theorem get?_put_ne {other : Ref .model} (distinct : other ≠ model) :
    (w.put model m).models.get? other = w.models.get? other :=
  Table.get?_update_of_ne _ _ distinct

@[simp] theorem put_put (w : World σ) (model : Ref .model) (m m' : Model σ) :
    (w.put model m).put model m' = w.put model m' := by
  simp only [put, Table.update, List.modify_modify_eq]
  congr 2
  congr 1
  funext row
  cases row <;> rfl


/-! ## Soundness -/

/-- The row at a model after another one was put there. -/
theorem get?_put (present : w.models.get? model = some m) {other : Ref .model} {found : Model σ}
    (there : (w.put model m').models.get? other = some found) :
    other = model ∧ found = m' ∨ other ≠ model ∧ w.models.get? other = some found := by
  by_cases same : other = model
  · subst same
    rw [get?_put_self (by rw [present]; rfl)] at there
    cases there
    exact Or.inl ⟨rfl, rfl⟩
  · rw [get?_put_ne same] at there
    exact Or.inr ⟨same, there⟩

theorem wired_put (wired : w.Wired) (present : w.models.get? model = some m)
    (row : m'.Wired w.hubs model) : (w.put model m').Wired where
  numbered := wired.numbered
  models other found there := by
    rcases get?_put present there with ⟨rfl, rfl⟩ | ⟨-, was⟩
    · exact row
    · exact wired.models other found was
  bindings := wired.bindings
  tended := wired.tended

theorem sound_put (sound : w.Sound) (present : w.models.get? model = some m)
    (same : m.SameShape m') (stores : m.IsRegular → m'.StoresComputed) : (w.put model m').Sound where
  wired := wired_put sound.wired present ((sound.wired.models model m present).of_shape same)
  stored other found there regular := by
    rcases get?_put present there with ⟨rfl, rfl⟩ | ⟨-, was⟩
    · exact stores (same.symm.isRegular regular)
    · exact sound.stored other found was regular

/-- Attributes that are not computed are stored beside what properties keep. -/
theorem sound_put_store {pending : Attributes} (sound : w.Sound)
    (present : w.models.get? model = some m)
    (plain : m.IsRegular → ∀ name ∈ Fields.keys pending, m.isComputed name = false) :
    (w.put model { m with store := (m.store.apply pending).1 }).Sound := by
  refine sound_put sound present (Model.sameShape_store _ m) fun regular p listed stored => ?_
  have unwritten : p.name ∉ Fields.keys pending := by
    intro among
    have none := plain regular p.name among
    rw [Model.isComputed, Model.property?_of_mem regular.distinct listed] at none
    cases none
  rw [Attributes.holds_congr (Attributes.get?_apply_of_unwritten unwritten)]
  exact sound.stored model m present regular p listed stored

theorem sound_put_adopt {p : Property σ} {value : Json} (sound : w.Sound)
    (present : w.models.get? model = some m) (found : m.property? p.name = some p)
    (scalar : m.IsRegular → value.isScalar = true) : (w.put model (m.adopt p value).1).Sound :=
  sound_put sound present (Model.sameShape_adopt p value m) fun regular =>
    Model.storesComputed_adopt regular (sound.stored model m present regular) found (scalar regular)

end World

end LiveBinding
