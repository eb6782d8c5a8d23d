/-
# LiveBinding.Proofs.World.Apart -- letting go of models, bindings and views

What a model or a binding subscribed is ended when it goes, and nothing else is.
Releasing the computed properties of a model is the one operation here that
changes a model; it leaves a sound world even where the model does not yet store
what its properties keep (`sound_unbindComputed`).
-/
import LiveBinding.Proofs.World.Sound

namespace LiveBinding

set_option autoImplicit false

variable {σ : Type}

namespace World

variable {w : World σ}

theorem cancelAll_with_models (ss : List Subscription) (models : Table .model (Model σ))
    (w : World σ) :
    ({ w with models := models } : World σ).cancelAll ss =
      { w.cancelAll ss with models := models } := by
  induction ss generalizing w with
  | nil => rfl
  | cons s rest ih => exact ih (w.cancel s)

/-! ## Models -/

theorem Wired.erase (wired : w.Wired) (model : Ref .model) :
    ({ w with models := w.models.erase model } : World σ).Wired where
  numbered := wired.numbered
  models other m present := wired.models other m (Table.get?_of_get?_erase present).2
  bindings := wired.bindings
  tended := wired.tended

/-- A model that goes takes the subscriptions of its properties with it. -/
theorem retire_eq {model : Ref .model} {m : Model σ} (unkept : ¬ w.keepsModel model = true)
    (present : w.models.get? model = some m) :
    w.retire model =
      ({ w with models := w.models.erase model } : World σ).cancelAll
        (m.properties.flatMap (·.subscriptions)) := by
  rw [retire, if_neg unkept, present, cancelAll_with_models]
  simp only [models_cancelAll]

theorem apart_retire (model : Ref .model) (w : World σ) : w.Apart (w.retire model) := by
  by_cases kept : w.keepsModel model = true
  · rw [retire, if_pos kept]
    exact .refl w
  · rcases present : w.models.get? model with _ | m
    · rw [retire, if_neg kept, present]
      exact .refl w
    · rw [retire_eq kept present]
      refine ⟨⟨fun wired => ?_, ?_, ?_, ?_⟩, heard_cancelAll _ _, ?_, spans_cancelAll _ _,
        before_of_eq (journal_cancelAll _ _), notes_of_eq (journal_cancelAll _ _)⟩
      · refine (wired.erase model).cancelAll (wired.owned present) fun m' present' => ?_
        exact absurd rfl (Table.get?_of_get?_erase present').1
      · rw [models_cancelAll]
        simp [Table.erase]
      · intro other _
        rw [models_cancelAll]
        by_cases same : other = model
        · subst same
          exact Or.inr (Table.get?_erase_self _ _)
        · exact Or.inl (Table.get?_erase_of_ne _ same)
      · intro other m' beyond present'
        rw [models_cancelAll] at present'
        exact absurd (Table.get?_of_get?_erase present').2 (get?_of_beyond beyond)
      · intro other m' beyond present'
        rw [models_cancelAll] at present'
        exact absurd (Table.get?_of_get?_erase present').2 (get?_of_beyond beyond)

theorem apart_release (handle : Handle) (w : World σ) : w.Apart (w.release handle) := by
  have freed : w.Apart { w with held := w.held.erase handle } := .of_tables rfl rfl rfl rfl rfl
  cases handle with
  | model model => exact freed.trans (apart_retire model _)
  | hub hub => exact freed
  | document document => exact freed

/-- Without its properties a model stores all that they keep. -/
theorem sound_unbindComputed (model : Ref .model) (wired : w.Wired)
    (stored : ∀ other, other ≠ model → w.StoredAt other) : (w.unbindComputed model).Sound := by
  unfold unbindComputed
  split
  · rename_i gone
    refine ⟨wired, fun other m present => ?_⟩
    refine stored other ?_ m present
    rintro rfl
    rw [gone] at present
    cases present
  · rename_i m present
    split
    · rename_i none
      refine ⟨wired, fun other m' present' => ?_⟩
      by_cases same : other = model
      · subst same
        rw [present] at present'
        cases present'
        intro _ p listed
        rw [List.isEmpty_iff.mp none] at listed
        cases listed
      · exact stored other same m' present'
    · dsimp only
      have emptied : ∀ other m', (w.models.update model fun m => { m with properties := [] }).get? other
          = some m' → other ≠ model ∧ w.models.get? other = some m' ∨
            other = model ∧ m' = { m with properties := [] } := by
        intro other m' present'
        obtain ⟨old, was, rfl⟩ := Table.get?_update_some present'
        by_cases same : other = model
        · subst same
          rw [present] at was
          cases was
          exact Or.inr ⟨rfl, if_pos rfl⟩
        · exact Or.inl ⟨same, by rw [if_neg same]; exact was⟩
      refine ⟨Wired.cancelAll ⟨⟨wired.numbered, ?_, wired.bindings⟩, wired.tended⟩
        (wired.owned present) fun m' present' => ?_, ?_⟩
      · intro other m' present'
        rcases emptied other m' present' with ⟨-, was⟩ | ⟨rfl, rfl⟩
        · exact wired.models other m' was
        · exact ⟨(wired.models _ m present).announced, nofun⟩
      · rcases emptied _ m' present' with ⟨distinct, -⟩ | ⟨-, rfl⟩
        · exact absurd rfl distinct
        · rfl
      · intro other m' present'
        rw [models_cancelAll] at present'
        rcases emptied other m' present' with ⟨distinct, was⟩ | ⟨-, rfl⟩
        · exact stored other distinct m' was
        · exact fun _ => nofun

/-- Releasing the properties of a model ends what they subscribed. -/
theorem registered_of_unbindComputed {model : Ref .model} {s : Subscription} {reaction : Reaction}
    (registered : Registered (w.unbindComputed model).hubs s reaction) :
    Registered w.hubs s reaction ∧
      ∀ m, w.models.get? model = some m → ∀ p ∈ m.properties, s ∉ p.subscriptions := by
  unfold unbindComputed at registered
  split at registered
  · rename_i gone
    exact ⟨registered, fun m present => by rw [gone] at present; cases present⟩
  · rename_i m there
    split at registered
    · rename_i none
      refine ⟨registered, fun m' present p listed => ?_⟩
      rw [there] at present
      cases present
      rw [List.isEmpty_iff.mp none] at listed
      cases listed
    · have stood := registered_of_cancelAll registered
      refine ⟨stood, fun m' present p listed mine => ?_⟩
      rw [there] at present
      cases present
      exact not_mem_of_registered_cancelAll registered (List.mem_flatMap.mpr ⟨p, listed, mine⟩)

/-! ## Bindings and views -/

theorem editDocuments_tables (document : Ref .document) (element : Ref .element) (ids : List Nat)
    (w : World σ) :
    (ids.foldl (fun w id => w.editDocument document (.removeListener element id)) w).hubs = w.hubs ∧
      (ids.foldl (fun w id => w.editDocument document (.removeListener element id)) w).models =
        w.models ∧
      (ids.foldl (fun w id => w.editDocument document (.removeListener element id)) w).bindings =
        w.bindings ∧
      (ids.foldl (fun w id => w.editDocument document (.removeListener element id)) w).views =
        w.views := by
  induction ids generalizing w with
  | nil => exact ⟨rfl, rfl, rfl, rfl⟩
  | cons id rest ih => exact ih (w.editDocument document (.removeListener element id))

theorem apart_editDocuments (document : Ref .document) (element : Ref .element) (ids : List Nat)
    (w : World σ) :
    w.Apart (ids.foldl (fun w id => w.editDocument document (.removeListener element id)) w) := by
  induction ids generalizing w with
  | nil => exact .refl w
  | cons id rest ih =>
      exact (apart_editDocument _ _ w).trans (ih (w.editDocument document (.removeListener element id)))

theorem apart_dispose (binding : Ref .binding) (w : World σ) : w.Apart (w.dispose binding) := by
  unfold dispose
  split
  · exact .refl w
  · rename_i b present
    split
    · exact .refl w
    · dsimp only
      have released : w.Apart (({ w with
          bindings := w.bindings.update binding fun b =>
            { b with disposed := true, subscriptions := [], listeners := [] } } : World σ).cancelAll
          b.subscriptions) := by
        have cleared : ∀ other b', (w.bindings.update binding fun b =>
            { b with disposed := true, subscriptions := [], listeners := [] }).get? other = some b' →
            w.bindings.get? other = some b' ∨ b'.subscriptions = [] := by
          intro other b' present'
          obtain ⟨old, was, rfl⟩ := Table.get?_update_some present'
          by_cases same : other = binding
          · exact Or.inr (by rw [if_pos same])
          · exact Or.inl (by rw [if_neg same]; exact was)
        refine .of_models (models_cancelAll _ _) (fun wired => ⟨?_, ?_⟩) (heard_cancelAll _ _)
          (spans_cancelAll _ _) (journal_cancelAll _ _)
        case refine_2 =>
          -- what is still registered was held by another binding
          intro s other slot registered
          have before := traced_cancelAll b.subscriptions _ s other slot registered
          obtain ⟨held, present', live, listed⟩ := wired.tended s other slot before
          rw [bindings_cancelAll]
          have distinct : other ≠ binding := by
            rintro rfl
            rw [present] at present'
            cases present'
            exact not_mem_of_registered_cancelAll registered listed
          exact ⟨held, (Table.get?_update_of_ne _ _ distinct).trans present', live, listed⟩
        refine Anchored.cancelAll (.binding binding)
          ⟨wired.numbered, wired.models, ?_⟩ ?_ nofun ?_
        · intro other b' present' s listed
          rcases cleared other b' present' with was | none
          · exact wired.bindings other b' was s listed
          · rw [none] at listed
            cases listed
        · intro s listed
          obtain ⟨slot, registered⟩ := wired.bindings binding b present s listed
          exact ⟨_, rfl, registered⟩
        · rintro other b' ⟨⟩ present'
          obtain ⟨old, -, rfl⟩ := Table.get?_update_some present'
          rw [if_pos rfl]
      split
      · exact released.trans (apart_editDocuments b.document b.element b.listeners _)
      · exact released

theorem apart_disposeAll (bindings : List (Ref .binding)) (w : World σ) :
    w.Apart (w.disposeAll bindings) := by
  induction bindings generalizing w with
  | nil => exact .refl w
  | cons b rest ih => exact (apart_dispose b w).trans (ih (w.dispose b))

theorem apart_unbindView (view : Ref .view) (w : World σ) : w.Apart (w.unbindView view) := by
  unfold unbindView
  split
  · exact .refl w
  · rename_i v present
    split
    · exact .refl w
    · dsimp only
      have emptied : w.Apart
          { w with views := w.views.update view fun v => { v with bindings := [] } } :=
        .of_tables rfl rfl rfl rfl rfl
      exact (emptied.trans (apart_disposeAll v.bindings _)).trans (apart_report _ _)

theorem apart_removeView (view : Ref .view) (w : World σ) : w.Apart (w.removeView view) := by
  unfold removeView
  split
  · exact .refl w
  · exact (apart_unbindView view w).trans (apart_editDocument _ _ _)

theorem apart_dropView (view : Ref .view) (w : World σ) : w.Apart (w.dropView view) := by
  unfold dropView
  split
  · exact .refl w
  · have gone : (w.unbindView view).Apart
        { w.unbindView view with views := (w.unbindView view).views.erase view } :=
      .of_tables rfl rfl rfl rfl rfl
    exact ((apart_unbindView view w).trans gone).trans (apart_retire _ _)

end World

end LiveBinding
