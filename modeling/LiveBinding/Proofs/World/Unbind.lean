/-
# LiveBinding.Proofs.World.Unbind -- what releasing bindings leaves alone

Disposing bindings ends what they subscribed and takes their listeners off their
elements.  It changes no page and no model, and no view but the one released.
-/
import LiveBinding.Proofs.Document.Bare
import LiveBinding.Proofs.World.Apart
import LiveBinding.Proofs.World.Element

namespace LiveBinding

set_option autoImplicit false

variable {σ : Type}

namespace World

/-- The pages, without those who listen to them. -/
def pages (w : World σ) (document : Ref .document) : Option (List Element) :=
  (w.documents.get? document).map Document.bare

/-- Where the pages are the same, elements have the same content. -/
theorem elementAt_of_pages {v w : World σ} (same : w.pages = v.pages) {document : Ref .document}
    {e : Ref .element} {element : Element} (there : v.elementAt document e = some element) :
    ∃ element', w.elementAt document e = some element' ∧ element'.content = element.content := by
  obtain ⟨d, present, found⟩ := Option.bind_eq_some_iff.mp there
  have bare := congrFun same document
  rw [pages, pages, present] at bare
  obtain ⟨d', present', alike⟩ := Option.map_eq_some_iff.mp bare
  rcases Document.get?_bare alike e with ⟨-, gone⟩ | ⟨element', before, found', was, equal⟩
  · cases gone.symm.trans found
  · cases was.symm.trans found
    exact ⟨element', Option.bind_eq_some_iff.mpr ⟨d', present', found'⟩,
      (congrArg Element.content equal :)⟩

theorem pages_editDocument (document : Ref .document) {f : Document → Document}
    (still : ∀ d, (f d).bare = d.bare) (w : World σ) : (w.editDocument document f).pages = w.pages := by
  funext other
  simp only [pages, editDocument]
  by_cases same : other = document
  · subst same
    rw [Table.get?_update_self]
    rcases w.documents.get? other with _ | d
    · rfl
    · exact congrArg some (still d)
  · rw [Table.get?_update_of_ne _ _ same]

theorem pages_cancelAll (ss : List Subscription) (w : World σ) : (w.cancelAll ss).pages = w.pages := by
  induction ss generalizing w with
  | nil => rfl
  | cons s rest ih => exact ih (w.cancel s)

theorem pages_removeListeners (document : Ref .document) (element : Ref .element) (ids : List Nat)
    (w : World σ) :
    (ids.foldl (fun w id => w.editDocument document (.removeListener element id)) w).pages =
      w.pages := by
  induction ids generalizing w with
  | nil => rfl
  | cons id rest ih =>
      exact (ih _).trans (pages_editDocument document (Document.bare_removeListener element id) w)

theorem pages_dispose (binding : Ref .binding) (w : World σ) : (w.dispose binding).pages = w.pages := by
  unfold dispose
  split
  · rfl
  · split
    · rfl
    · dsimp only
      split
      · exact (pages_removeListeners _ _ _ _).trans (pages_cancelAll _ _)
      · exact pages_cancelAll _ _

theorem pages_disposeAll (bindings : List (Ref .binding)) (w : World σ) :
    (w.disposeAll bindings).pages = w.pages := by
  induction bindings generalizing w with
  | nil => rfl
  | cons b rest ih => exact (ih (w.dispose b)).trans (pages_dispose b w)

/-- Releasing the bindings of a view changes no page. -/
theorem pages_unbindView (view : Ref .view) (w : World σ) : (w.unbindView view).pages = w.pages := by
  unfold unbindView
  split
  · rfl
  · split
    · rfl
    · exact pages_disposeAll _ _

theorem tables_dispose (binding : Ref .binding) (w : World σ) :
    (w.dispose binding).models = w.models ∧ (w.dispose binding).views = w.views := by
  unfold dispose
  split
  · exact ⟨rfl, rfl⟩
  · split
    · exact ⟨rfl, rfl⟩
    · rename_i b _ _
      dsimp only
      have cancelled := cancelAll_tables b.subscriptions { w with
        bindings := w.bindings.update binding fun b =>
          { b with disposed := true, subscriptions := [], listeners := [] } }
      split
      · have removed := editDocuments_tables b.document b.element b.listeners
          (({ w with
            bindings := w.bindings.update binding fun b =>
              { b with disposed := true, subscriptions := [], listeners := [] } } : World σ).cancelAll
            b.subscriptions)
        exact ⟨removed.2.1.trans cancelled.1, removed.2.2.2.trans cancelled.2.2.2.1⟩
      · exact ⟨cancelled.1, cancelled.2.2.2.1⟩

theorem tables_disposeAll (bindings : List (Ref .binding)) (w : World σ) :
    (w.disposeAll bindings).models = w.models ∧ (w.disposeAll bindings).views = w.views := by
  induction bindings generalizing w with
  | nil => exact ⟨rfl, rfl⟩
  | cons b rest ih =>
      have first := tables_dispose b w
      have others := ih (w.dispose b)
      exact ⟨others.1.trans first.1, others.2.trans first.2⟩

theorem models_unbindView (view : Ref .view) (w : World σ) :
    (w.unbindView view).models = w.models := by
  unfold unbindView
  split
  · rfl
  · split
    · rfl
    · exact (tables_disposeAll _ _).1

/-- A view that was released has no bindings. -/
theorem view_unbindView {view : Ref .view} {v : View} {w : World σ}
    (present : w.views.get? view = some v) :
    (w.unbindView view).views.get? view = some { v with bindings := [] } := by
  rw [unbindView, present]
  dsimp only
  split
  · rename_i none
    rw [present]
    have bare := List.isEmpty_iff.mp none
    cases v
    cases bare
    rfl
  · show ((disposeAll _ _).views).get? view = _
    rw [(tables_disposeAll _ _).2]
    show (w.views.update view _).get? view = _
    rw [Table.get?_update_self, present]
    rfl

/-- Releasing a view that is not bound does nothing. -/
theorem unbindView_of_unbound {view : Ref .view} {v : View} {w : World σ}
    (present : w.views.get? view = some v) (unbound : v.bindings = []) : w.unbindView view = w := by
  rw [unbindView, present]
  simp [unbound]

end World

end LiveBinding
