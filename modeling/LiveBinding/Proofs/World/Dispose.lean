/-
# LiveBinding.Proofs.World.Dispose -- what disposing leaves

A binding that is disposed holds nothing any more: its subscriptions are ended and, where
its document is kept, its listeners are taken off the element.  The rows of all other
bindings, the models, the views and the handles stay as they are.
-/
import LiveBinding.Proofs.Document.Listeners
import LiveBinding.Proofs.World.Unbind

namespace LiveBinding

set_option autoImplicit false

variable {σ : Type}

def Binding.ended (b : Binding) : Binding :=
  { b with disposed := true, subscriptions := [], listeners := [] }

def Document.removeListeners (e : Ref .element) (ids : List Nat) (d : Document) : Document :=
  ids.foldl (fun d id => d.removeListener e id) d

namespace Document

variable {d : Document} {e other : Ref .element} {ids : List Nat} {l : EditListener}

theorem fewer_removeListeners (e : Ref .element) (ids : List Nat) (d : Document) :
    d.Fewer (d.removeListeners e ids) := by
  induction ids generalizing d with
  | nil => exact .refl d
  | cons id rest ih => exact (fewer_removeListener e id d).trans (ih (d.removeListener e id))

/-- Listeners that were taken off are gone. -/
theorem not_mem_of_mem_removeListeners (listed : l ∈ (d.removeListeners e ids).listeners e) :
    l.id ∉ ids := by
  induction ids generalizing d with
  | nil => exact List.not_mem_nil
  | cons id rest ih =>
      intro among
      rcases List.mem_cons.mp among with same | later
      · exact ne_of_mem_removeListener
          ((fewer_removeListeners e rest (d.removeListener e id)).listed e l listed) same
      · exact ih listed later

end Document

/-- Changing a row twice. -/
theorem Table.update_update {kind : Kind} {α : Type} (t : Table kind α) (r : Ref kind) (f g : α → α) :
    (t.update r f).update r g = t.update r (g ∘ f) := by
  rw [update, update, update, List.modify_modify_eq]
  congr 2
  funext row
  cases row <;> rfl

namespace World

variable {w : World σ} {binding : Ref .binding} {b : Binding}

theorem hubs_cancelAll (ss : List Subscription) {v w : World σ} (same : w.hubs = v.hubs) :
    (w.cancelAll ss).hubs = (v.cancelAll ss).hubs := by
  induction ss generalizing v w with
  | nil => exact same
  | cons s rest ih =>
      exact ih (v := v.cancel s) (w := w.cancel s) (congrArg (Table.update · s.hub (Hub.cancel s.id)) same)

theorem keepsDocument_of_same {v w : World σ} (held : w.held = v.held) (views : w.views = v.views)
    (document : Ref .document) : w.keepsDocument document = v.keepsDocument document := by
  rw [keepsDocument, keepsDocument, held, views]

theorem keepsModel_of_same {v w : World σ} (held : w.held = v.held) (views : w.views = v.views)
    (model : Ref .model) : w.keepsModel model = v.keepsModel model := by
  rw [keepsModel, keepsModel, held, views]

theorem documents_removeListeners (document : Ref .document) (element : Ref .element)
    (ids : List Nat) (w : World σ) :
    (ids.foldl (fun w id => w.editDocument document (.removeListener element id)) w).documents =
      w.documents.update document (Document.removeListeners element ids) := by
  induction ids generalizing w with
  | nil => exact (Table.update_id _ _).symm
  | cons id rest ih =>
      rw [List.foldl_cons, ih]
      exact Table.update_update _ _ _ _

theorem held_removeListeners (document : Ref .document) (element : Ref .element)
    (ids : List Nat) (w : World σ) :
    (ids.foldl (fun w id => w.editDocument document (.removeListener element id)) w).held =
      w.held := by
  induction ids generalizing w with
  | nil => rfl
  | cons id rest ih => exact ih (w.editDocument document (.removeListener element id))

/-- Disposing what is disposed changes nothing. -/
theorem dispose_of_disposed (present : w.bindings.get? binding = some b)
    (disposed : b.disposed = true) : w.dispose binding = w := by
  rw [dispose, present]
  exact if_pos disposed

/-- What becomes of the tables when a live binding is disposed. -/
structure Disposed (w : World σ) (binding : Ref .binding) (b : Binding) (w' : World σ) : Prop where
  bindings : w'.bindings = w.bindings.update binding Binding.ended
  hubs : w'.hubs = (w.cancelAll b.subscriptions).hubs
  models : w'.models = w.models
  views : w'.views = w.views
  held : w'.held = w.held
  documents : w'.documents = if w.keepsDocument b.document then
    w.documents.update b.document (Document.removeListeners b.element b.listeners) else w.documents

theorem disposed_dispose (present : w.bindings.get? binding = some b) (live : b.disposed = false) :
    w.Disposed binding b (w.dispose binding) := by
  let marked : World σ := { w with bindings := w.bindings.update binding Binding.ended }
  have cancelled := cancelAll_tables b.subscriptions marked
  have hubs := hubs_cancelAll b.subscriptions (v := w) (w := marked) rfl
  have kept : (marked.cancelAll b.subscriptions).keepsDocument b.document =
      w.keepsDocument b.document :=
    keepsDocument_of_same cancelled.2.2.2.2 cancelled.2.2.2.1 b.document
  have removed := editDocuments_tables b.document b.element b.listeners
    (marked.cancelAll b.subscriptions)
  have worked : w.dispose binding =
      if w.keepsDocument b.document then
        b.listeners.foldl
          (fun w id => w.editDocument b.document (.removeListener b.element id))
          (marked.cancelAll b.subscriptions)
      else marked.cancelAll b.subscriptions := by
    rw [← kept, dispose, present]
    exact if_neg (by simp [live])
  rw [worked]
  split
  · exact ⟨removed.2.2.1.trans cancelled.2.1, removed.1.trans hubs, removed.2.1.trans cancelled.1,
      removed.2.2.2.trans cancelled.2.2.2.1,
      (held_removeListeners _ _ _ _).trans cancelled.2.2.2.2,
      (documents_removeListeners _ _ _ _).trans (by rw [cancelled.2.2.1]; exact (if_pos ‹_›).symm)⟩
  · exact ⟨cancelled.2.1, hubs, cancelled.1, cancelled.2.2.2.1, cancelled.2.2.2.2,
      cancelled.2.2.1.trans (if_neg ‹_›).symm⟩

/-- Disposing a binding again changes nothing. -/
theorem dispose_dispose (binding : Ref .binding) (w : World σ) :
    (w.dispose binding).dispose binding = w.dispose binding := by
  rcases present : w.bindings.get? binding with _ | b
  · have nothing : w.dispose binding = w := by rw [dispose, present]
    rw [nothing, nothing]
  · cases disposed : b.disposed with
    | true => rw [dispose_of_disposed present disposed, dispose_of_disposed present disposed]
    | false =>
        have row : (w.dispose binding).bindings.get? binding = some b.ended := by
          rw [(disposed_dispose present disposed).bindings, Table.get?_update_self, present]
          rfl
        exact dispose_of_disposed row rfl

/-- A binding that was disposed is. -/
theorem isDisposed_dispose (present : (w.dispose binding).bindings.get? binding = some b) :
    b.disposed = true := by
  rcases was : w.bindings.get? binding with _ | old
  · rw [dispose, was, was] at present
    cases present
  · cases disposed : old.disposed with
    | true =>
        rw [dispose_of_disposed was disposed, was] at present
        cases present
        exact disposed
    | false =>
        rw [(disposed_dispose was disposed).bindings, Table.get?_update_self, was] at present
        cases present
        rfl

end World

end LiveBinding
