/-
# LiveBinding.Proofs.World.Kept -- models that are there are kept

A model or a document is kept by a handle or by a view.  A model that nothing keeps any
more goes at once, so that every model that is there is kept by somebody (`ModelsKept`).
-/
import LiveBinding.Proofs.Seat
import LiveBinding.Proofs.World.Dispose
import LiveBinding.Proofs.World.Lasts

namespace LiveBinding

set_option autoImplicit false

variable {σ : Type}

namespace World

variable {v w : World σ}

def ModelsKept (w : World σ) : Prop :=
  ∀ model m, w.models.get? model = some m → w.keepsModel model = true

namespace ModelsKept

theorem of_rows (kept : v.ModelsKept)
    (rows : ∀ other found, w.models.get? other = some found → ∃ old, v.models.get? other = some old)
    (keeps : ∀ model, v.keepsModel model = true → w.keepsModel model = true) : w.ModelsKept := by
  intro model m present
  obtain ⟨old, was⟩ := rows model m present
  exact keeps model (kept model old was)

theorem of_same (kept : v.ModelsKept) (models : w.models = v.models)
    (keeps : ∀ model, v.keepsModel model = true → w.keepsModel model = true) : w.ModelsKept :=
  kept.of_rows (fun _ m present => ⟨m, models ▸ present⟩) keeps

/-- A model that may be kept no more is looked after. -/
theorem retire {model : Ref .model}
    (others : ∀ other m, other ≠ model → w.models.get? other = some m → w.keepsModel other = true) :
    (w.retire model).ModelsKept := by
  obtain ⟨-, -, views, held⟩ := tables_retire model w
  intro other m present
  rw [keepsModel_of_same held views]
  by_cases same : other = model
  · subst same
    by_contra gone
    rcases there : w.models.get? other with _ | old
    · rw [get?_retire present] at there
      cases there
    · rw [retire_eq gone there, models_cancelAll] at present
      exact absurd rfl (Table.get?_of_get?_erase present).1
  · exact others other m same (get?_retire present)

theorem release (kept : v.ModelsKept) (handle : Handle) : (v.release handle).ModelsKept := by
  have still : ∀ model, Handle.model model ≠ handle → v.keepsModel model = true →
      ({ v with held := v.held.erase handle } : World σ).keepsModel model = true := by
    intro model other keeps
    refine keepsModel_iff.mpr ((keepsModel_iff.mp keeps).imp_left fun held => ?_)
    exact (List.mem_erase_of_ne other).mpr held
  cases handle with
  | model model =>
      exact retire (w := { v with held := v.held.erase (.model model) })
        fun other m apart present => still other (fun same => apart (by cases same; rfl))
          (kept other m present)
  | hub => exact kept.of_same rfl fun model keeps => still model nofun keeps
  | document => exact kept.of_same rfl fun model keeps => still model nofun keeps

theorem close (kept : v.ModelsKept) {view : Ref .view} {row : View}
    (present : v.views.get? view = some row) : (v.close view row).ModelsKept := by
  refine retire fun other m apart there => ?_
  refine keepsModel_iff.mpr ((keepsModel_iff.mp (kept other m there)).imp_right ?_)
  rintro ⟨at_, found, here, same⟩
  refine ⟨at_, found, ?_, same⟩
  rw [Table.get?_erase_of_ne _ fun closed => ?_]
  · exact here
  · subst closed
    rw [present] at here
    cases here
    exact apart same.symm

theorem step {careful attaching : Prop} (kept : v.ModelsKept) (step : v.Step careful attaching w) :
    w.ModelsKept := by
  have same : ∀ {w : World σ}, w.held = v.held → w.views = v.views →
      ∀ model, v.keepsModel model = true → w.keepsModel model = true := fun held views model keeps =>
    (keepsModel_of_same held views model).trans keeps
  cases step with
  | hold handle named =>
      refine kept.of_same rfl fun model keeps => keepsModel_iff.mpr ?_
      exact (keepsModel_iff.mp keeps).imp_left (List.mem_cons_of_mem _)
  | release handle => exact kept.release handle
  | openHub =>
      refine kept.of_same rfl fun model keeps => keepsModel_iff.mpr ?_
      exact (keepsModel_iff.mp keeps).imp_left (List.mem_cons_of_mem _)
  | openModel attributes =>
      intro model m present
      rcases Table.get?_insert_some.mp present with ⟨rfl, -⟩ | old
      · exact keepsModel_iff.mpr (Or.inl List.mem_cons_self)
      · exact keepsModel_iff.mpr
          ((keepsModel_iff.mp (kept model m old)).imp_left (List.mem_cons_of_mem _))
  | openDocument =>
      refine kept.of_same rfl fun model keeps => keepsModel_iff.mpr ?_
      exact (keepsModel_iff.mp keeps).imp_left (List.mem_cons_of_mem _)
  | openView may view named =>
      refine kept.of_same rfl fun model keeps => keepsModel_iff.mpr ?_
      refine (keepsModel_iff.mp keeps).imp_right ?_
      rintro ⟨at_, found, present, same⟩
      exact ⟨at_, found, Table.get?_insert_some.mpr (Or.inr present), same⟩
  | listen document element callback =>
      obtain ⟨-, models, -, views, held⟩ := tables_listen document element (.client callback) v
      exact kept.of_same models (same held views)
  | put model present shape =>
      refine kept.of_rows (fun other found there => ?_) (same rfl rfl)
      rcases get?_put present there with ⟨rfl, -⟩ | ⟨-, was⟩
      · exact ⟨_, present⟩
      · exact ⟨_, was⟩
  | install model p =>
      obtain ⟨-, -, views, held⟩ := tables_install model p v
      refine kept.of_rows (fun other found there => ?_) (same held views)
      rw [install] at there
      dsimp only at there
      rw [(tables_subscribeAll _ _ _ _).1] at there
      obtain ⟨old, was, -⟩ := Table.get?_update_some there
      exact ⟨old, was⟩
  | unbindComputed model =>
      obtain ⟨-, -, views, held⟩ := tables_unbindComputed model v
      refine kept.of_rows (fun other found there => ?_) (same held views)
      obtain ⟨old, was, -⟩ := row_unbindComputed there
      exact ⟨old, was⟩
  | fit _ _ _ editable name operator c =>
      obtain ⟨models, views, held⟩ := tables_fit _ _ editable name operator c v
      exact kept.of_same models (same held views)
  | dispose binding =>
      refine kept.of_same (tables_dispose binding v).1 ?_
      rcases present : v.bindings.get? binding with _ | b
      · rw [World.dispose, present]
        exact fun _ => id
      · cases disposed : b.disposed with
        | true =>
            rw [dispose_of_disposed present disposed]
            exact fun _ => id
        | false =>
            have left := disposed_dispose present disposed
            exact same left.held left.views
  | rebind may view bindings =>
      refine kept.of_same rfl fun model keeps => keepsModel_iff.mpr ?_
      refine (keepsModel_iff.mp keeps).imp_right ?_
      rintro ⟨at_, found, present, rfl⟩
      by_cases same : at_ = view
      · subst same
        exact ⟨at_, { found with bindings := bindings },
          by rw [Table.get?_update_self, present]; rfl, rfl⟩
      · exact ⟨at_, found, by rw [Table.get?_update_of_ne _ _ same, present], rfl⟩
  | close may present => exact kept.close present
  | _ => exact kept.of_same rfl (same rfl rfl)

theorem steps {careful attaching : Prop} (kept : v.ModelsKept)
    (steps : v.Steps careful attaching w) : w.ModelsKept :=
  steps.keep _ (fun step kept => kept.step step) kept

end ModelsKept

end World

end LiveBinding
