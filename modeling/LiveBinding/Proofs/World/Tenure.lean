/-
# LiveBinding.Proofs.World.Tenure -- who has the bindings

A binding that lives is in the hands of a view, or of the client to whom it was handed; one
that no view has is loose (`IsLoose`).  Views that are released, removed or dropped leave
no loose bindings behind: they dispose all that they had.

Whatever happens between two dispatches, a binding stays what it is: it keeps its wiring
as long as it lives, and once disposed stays so (`BindingsLast`).
-/
import LiveBinding.Proofs.World.Dispose
import LiveBinding.Proofs.World.Step

namespace LiveBinding

set_option autoImplicit false

variable {σ : Type}

namespace World

/-- A live binding that no view has. -/
structure IsLoose (w : World σ) (binding : Ref .binding) : Prop where
  lives : ∃ b, w.bindings.get? binding = some b ∧ b.disposed = false
  unowned : ∀ view v, w.views.get? view = some v → binding ∉ v.bindings

/-- Every binding is there still, and wired as it was unless it was disposed. -/
def BindingsLast (v w : World σ) : Prop :=
  ∀ binding b, v.bindings.get? binding = some b →
    ∃ b', w.bindings.get? binding = some b' ∧ (b'.disposed = false → b'.wiring = b.wiring)

variable {u v w : World σ} {binding other : Ref .binding} {view : Ref .view}

theorem BindingsLast.refl (w : World σ) : w.BindingsLast w :=
  fun _ b present => ⟨b, present, fun _ => rfl⟩

theorem BindingsLast.trans (first : u.BindingsLast v) (then_ : v.BindingsLast w) :
    u.BindingsLast w := by
  intro binding b present
  obtain ⟨b', present', same⟩ := first binding b present
  obtain ⟨b'', present'', sameThen⟩ := then_ binding b' present'
  exact ⟨b'', present'', fun live =>
    (sameThen live).trans (same ((congrArg Binding.disposed (sameThen live)).symm.trans live))⟩

instance : IsPreorder (World σ) BindingsLast where
  refl := BindingsLast.refl
  trans _ _ _ := BindingsLast.trans

theorem BindingsLast.of_eq (same : w.bindings = v.bindings) : v.BindingsLast w :=
  fun _ b present => ⟨b, by rw [same]; exact present, fun _ => rfl⟩

theorem IsLoose.of_eq (loose : w.IsLoose binding) (bindings : w.bindings = v.bindings)
    (views : w.views = v.views) : v.IsLoose binding :=
  ⟨bindings ▸ loose.lives, views ▸ loose.unowned⟩

/-! ## Disposing -/

theorem bindingsLast_dispose (binding : Ref .binding) (w : World σ) :
    w.BindingsLast (w.dispose binding) := by
  rcases present : w.bindings.get? binding with _ | b
  · rw [dispose, present]
    exact .refl w
  · cases disposed : b.disposed with
    | true =>
        rw [dispose_of_disposed present disposed]
        exact .refl w
    | false =>
        intro other old was
        rw [(disposed_dispose present disposed).bindings]
        by_cases same : other = binding
        · subst same
          rw [Table.get?_update_self, was]
          exact ⟨old.ended, rfl, fun live => Bool.noConfusion live⟩
        · rw [Table.get?_update_of_ne _ _ same]
          exact ⟨old, was, fun _ => rfl⟩

theorem bindingsLast_disposeAll (bindings : List (Ref .binding)) (w : World σ) :
    w.BindingsLast (w.disposeAll bindings) := by
  induction bindings generalizing w with
  | nil => exact .refl w
  | cons b rest ih => exact (bindingsLast_dispose b w).trans (ih (w.dispose b))

/-- A binding that lives and was there before was what it is. -/
theorem BindingsLast.lives (lasts : v.BindingsLast w) {b' : Binding}
    (lived : (v.bindings.get? binding).isSome) (present : w.bindings.get? binding = some b')
    (live : b'.disposed = false) :
    ∃ b, v.bindings.get? binding = some b ∧ b.disposed = false ∧ b'.wiring = b.wiring := by
  obtain ⟨b, was⟩ := Option.isSome_iff_exists.mp lived
  obtain ⟨found, there, same⟩ := lasts binding b was
  rw [present] at there
  cases there
  exact ⟨b, was, (congrArg Binding.disposed (same live)).symm.trans live, same live⟩

theorem isSome_of_dispose (there : ((w.dispose binding).bindings.get? other).isSome) :
    (w.bindings.get? other).isSome := by
  rcases present : w.bindings.get? binding with _ | b
  · rwa [dispose, present] at there
  · cases disposed : b.disposed with
    | true => rwa [dispose_of_disposed present disposed] at there
    | false =>
        rw [(disposed_dispose present disposed).bindings] at there
        obtain ⟨found, here⟩ := Option.isSome_iff_exists.mp there
        obtain ⟨old, was, -⟩ := Table.get?_update_some here
        rw [was]
        rfl

theorem isSome_of_disposeAll (bindings : List (Ref .binding)) (w : World σ)
    (there : ((w.disposeAll bindings).bindings.get? other).isSome) :
    (w.bindings.get? other).isSome := by
  induction bindings generalizing w with
  | nil => exact there
  | cons b rest ih => exact isSome_of_dispose (ih (w.dispose b) there)

theorem IsLoose.of_dispose (loose : (w.dispose binding).IsLoose other) :
    w.IsLoose other ∧ other ≠ binding := by
  obtain ⟨b, present, live⟩ := loose.lives
  obtain ⟨old, was, lived, -⟩ := (bindingsLast_dispose binding w).lives
    (isSome_of_dispose (by rw [present]; rfl)) present live
  refine ⟨⟨⟨old, was, lived⟩, ?_⟩, ?_⟩
  · rw [← (tables_dispose binding w).2]
    exact loose.unowned
  · rintro rfl
    exact Bool.false_ne_true (live.symm.trans (isDisposed_dispose present))

theorem IsLoose.of_disposeAll {bindings : List (Ref .binding)}
    (loose : (w.disposeAll bindings).IsLoose other) : w.IsLoose other ∧ other ∉ bindings := by
  induction bindings generalizing w with
  | nil => exact ⟨loose, List.not_mem_nil⟩
  | cons b rest ih =>
      obtain ⟨before, notLater⟩ := ih (w := w.dispose b) loose
      obtain ⟨was, not⟩ := before.of_dispose
      exact ⟨was, fun among => (List.mem_cons.mp among).elim not notLater⟩

/-! ## Views -/

theorem bindingsLast_unbindView (view : Ref .view) (w : World σ) :
    w.BindingsLast (w.unbindView view) := by
  unfold unbindView
  split
  · exact .refl w
  · split
    · exact .refl w
    · exact bindingsLast_disposeAll _ { w with
        views := w.views.update view fun v => { v with bindings := [] } }

theorem isSome_of_unbindView (view : Ref .view)
    (there : ((w.unbindView view).bindings.get? binding).isSome) :
    (w.bindings.get? binding).isSome := by
  unfold unbindView at there
  split at there
  · exact there
  · split at there
    · exact there
    · rename_i v _ _
      exact isSome_of_disposeAll v.bindings { w with
        views := w.views.update view fun v => { v with bindings := [] } } there

/-- A view has no bindings once it was released. -/
theorem bindings_unbindView {v : View} (present : (w.unbindView view).views.get? view = some v) :
    v.bindings = [] := by
  rcases was : w.views.get? view with _ | old
  · rw [unbindView, was, was] at present
    cases present
  · rw [view_unbindView was] at present
    cases present
    rfl

/-- A view that is released disposes what it had. -/
theorem IsLoose.of_unbindView (loose : (w.unbindView view).IsLoose binding) : w.IsLoose binding := by
  rcases present : w.views.get? view with _ | v
  · rwa [unbindView, present] at loose
  · by_cases none : v.bindings.isEmpty = true
    · rw [unbindView, present] at loose
      dsimp only at loose
      rwa [if_pos none] at loose
    · rw [unbindView, present] at loose
      dsimp only at loose
      rw [if_neg none] at loose
      obtain ⟨before, apart⟩ := (show (disposeAll v.bindings { w with
        views := w.views.update view fun v => { v with bindings := [] } }).IsLoose binding from
          ⟨loose.lives, loose.unowned⟩).of_disposeAll
      refine ⟨before.lives, fun at_ found there => ?_⟩
      by_cases same : at_ = view
      · subst same
        rw [present] at there
        cases there
        exact apart
      · refine before.unowned at_ found ?_
        rw [Table.get?_update_of_ne _ _ same]
        exact there

theorem bindingsLast_removeView (view : Ref .view) (w : World σ) :
    w.BindingsLast (w.removeView view) := by
  unfold removeView
  split
  · exact .refl w
  · exact bindingsLast_unbindView view w

theorem isSome_of_removeView (there : ((w.removeView view).bindings.get? binding).isSome) :
    (w.bindings.get? binding).isSome := by
  unfold removeView at there
  split at there
  · exact there
  · exact isSome_of_unbindView view there

theorem IsLoose.of_removeView (loose : (w.removeView view).IsLoose binding) : w.IsLoose binding := by
  unfold removeView at loose
  split at loose
  · exact loose
  · exact (show (w.unbindView view).IsLoose binding from ⟨loose.lives, loose.unowned⟩).of_unbindView

theorem bindingsLast_dropView (view : Ref .view) (w : World σ) :
    w.BindingsLast (w.dropView view) := by
  unfold dropView
  split
  · exact .refl w
  · exact (bindingsLast_unbindView view w).trans (.of_eq (tables_retire _ _).1)

theorem isSome_of_dropView (there : ((w.dropView view).bindings.get? binding).isSome) :
    (w.bindings.get? binding).isSome := by
  unfold dropView at there
  split at there
  · exact there
  · rw [(tables_retire _ _).1] at there
    exact isSome_of_unbindView view there

/-- A view is dropped after it was released: it takes nothing with it. -/
theorem IsLoose.of_dropView (loose : (w.dropView view).IsLoose binding) : w.IsLoose binding := by
  unfold dropView at loose
  split at loose
  · exact loose
  · rename_i v present
    obtain ⟨bindings, -, views, -⟩ := tables_retire v.model
      ({ w.unbindView view with views := (w.unbindView view).views.erase view } : World σ)
    suffices before : (w.unbindView view).IsLoose binding from before.of_unbindView
    refine ⟨bindings ▸ loose.lives, fun at_ found there => ?_⟩
    by_cases same : at_ = view
    · subst same
      rw [view_unbindView present] at there
      cases there
      exact List.not_mem_nil
    · refine loose.unowned at_ found ?_
      rw [views, Table.get?_erase_of_ne _ same]
      exact there

/-! ## Steps -/

variable {careful : Prop}

/-- Where nothing is attached bindings stay what they are. -/
theorem bindingsLast_step (step : v.Step careful False w) : v.BindingsLast w := by
  cases step with
  | release handle => exact .of_eq (tables_release handle v).1
  | listen document element callback => exact .of_eq (tables_listen _ _ _ v).2.2.1
  | install model p => exact .of_eq (tables_install model p v).1
  | unbindComputed model => exact .of_eq (tables_unbindComputed model v).1
  | amend binding f same =>
      intro other old was
      by_cases here : other = binding
      · subst here
        exact ⟨f old, by rw [Table.get?_update_self, was]; rfl, fun _ => same old⟩
      · exact ⟨old, by rw [Table.get?_update_of_ne _ _ here, was], fun _ => rfl⟩
  | dispose binding => exact bindingsLast_dispose binding v
  | openView may => exact may.elim
  | start may => exact may.elim
  | fit may => exact may.elim
  | rebind may => exact may.elim
  | close may => exact may.elim
  | _ => exact .refl v

/-- No new one appears. -/
theorem isSome_of_step (step : v.Step careful False w) (there : (w.bindings.get? binding).isSome) :
    (v.bindings.get? binding).isSome := by
  cases step with
  | release handle => rwa [(tables_release handle v).1] at there
  | listen document element callback => rwa [(tables_listen _ _ _ v).2.2.1] at there
  | install model p => rwa [(tables_install model p v).1] at there
  | unbindComputed model => rwa [(tables_unbindComputed model v).1] at there
  | amend other f same =>
      obtain ⟨b, present⟩ := Option.isSome_iff_exists.mp there
      obtain ⟨old, was, -⟩ := Table.get?_update_some present
      rw [was]
      rfl
  | dispose other => exact isSome_of_dispose there
  | openView may => exact may.elim
  | start may => exact may.elim
  | fit may => exact may.elim
  | rebind may => exact may.elim
  | close may => exact may.elim
  | _ => exact there

/-- And none gets loose. -/
theorem loose_of_step (step : v.Step careful False w) (loose : w.IsLoose binding) :
    v.IsLoose binding := by
  cases step with
  | release handle =>
      exact loose.of_eq (tables_release handle v).1 (tables_release handle v).2.2.1
  | listen document element callback =>
      exact loose.of_eq (tables_listen _ _ _ v).2.2.1 (tables_listen _ _ _ v).2.2.2.1
  | install model p => exact loose.of_eq (tables_install model p v).1 (tables_install model p v).2.2.1
  | unbindComputed model =>
      exact loose.of_eq (tables_unbindComputed model v).1 (tables_unbindComputed model v).2.2.1
  | amend other f same =>
      obtain ⟨b, present, live⟩ := loose.lives
      obtain ⟨old, was, rfl⟩ := Table.get?_update_some present
      refine ⟨⟨old, was, ?_⟩, loose.unowned⟩
      split at live
      · exact (congrArg Binding.disposed (same old)).symm.trans live
      · exact live
  | dispose other => exact loose.of_dispose.1
  | openView may => exact may.elim
  | start may => exact may.elim
  | fit may => exact may.elim
  | rebind may => exact may.elim
  | close may => exact may.elim
  | _ => exact ⟨loose.lives, loose.unowned⟩

theorem Steps.bindingsLast (steps : v.Steps careful False w) : v.BindingsLast w :=
  steps.keep v.BindingsLast (fun step lasts => lasts.trans (bindingsLast_step step))
    (.refl v)

theorem Steps.isSome (steps : v.Steps careful False w)
    (there : (w.bindings.get? binding).isSome) : (v.bindings.get? binding).isSome :=
  steps.keep (fun w => (w.bindings.get? binding).isSome → (v.bindings.get? binding).isSome)
    (fun step before there => before (isSome_of_step step there)) id there

theorem Steps.loose (steps : v.Steps careful False w) (loose : w.IsLoose binding) :
    v.IsLoose binding :=
  steps.keep (fun w => w.IsLoose binding → v.IsLoose binding)
    (fun step before loose => before (loose_of_step step loose)) id loose

end World

end LiveBinding
