/-
# LiveBinding.Proofs.Run.Journal -- what happened on the way

The journal of a world only grows (`World.Before`).  What was added to it
between two worlds is what happened on the way from one to the other, also in
work whose failure somebody swallowed: a failure is an entry like any other, so
`Failed` is about everything that was done, however deeply it was nested.
-/
import LiveBinding.Proofs.Run.Result

namespace LiveBinding

set_option autoImplicit false

variable {σ : Type}

namespace Happening

def IsFailed : Happening → Prop
  | .failed _ => True
  | _ => False

def IsBound : Happening → Prop
  | .message (.computedBound ..) => True
  | _ => False

def IsUnbound : Happening → Prop
  | .message (.computedUnbound _) => True
  | _ => False

def IsDispatched : Happening → Prop
  | .dispatched _ => True
  | _ => False

def evaluating : Happening → List Accessor
  | .evaluated model property => [⟨property, model⟩]
  | _ => []

instance : DecidablePred IsFailed := fun happening => by
  unfold IsFailed
  split <;> infer_instance

instance : DecidablePred IsBound := fun happening => by
  unfold IsBound
  split <;> infer_instance

instance : DecidablePred IsUnbound := fun happening => by
  unfold IsUnbound
  split <;> infer_instance

instance : DecidablePred IsDispatched := fun happening => by
  unfold IsDispatched
  split <;> infer_instance

end Happening

def Span.updated (span : Span) : Option String :=
  if span.name = "computed_update" then
    match Fields.get? "property" span.fields with
    | some (.text property) => some property
    | _ => none
  else none

def Span.updates (spans : List Span) : List String :=
  spans.filterMap Span.updated

@[simp] theorem Span.updates_append (spans spans' : List Span) :
    updates (spans ++ spans') = updates spans ++ updates spans' :=
  List.filterMap_append

/-- Something other than an evaluation, and no update around it but those that were
open. -/
def Entry.IsQuiet (open_ : List Span) (entry : Entry) : Prop :=
  entry.happening.evaluating = [] ∧
    ∃ inner, entry.spans = open_ ++ inner ∧ Span.updates inner = []

namespace World

/-- The journal of `later` goes on where that of `earlier` ends. -/
def Before (earlier later : World σ) : Prop :=
  earlier.journal <+: later.journal

def Saw (kind : Happening → Prop) (earlier later : World σ) : Prop :=
  ∃ entry ∈ later.journal.drop earlier.journal.length, kind entry.happening

/-- All that was noted between two worlds is such. -/
def Notes (kind : Entry → Prop) (earlier later : World σ) : Prop :=
  ∀ entry ∈ later.journal.drop earlier.journal.length, kind entry

/-- Some work failed between two worlds. -/
def Failed (earlier later : World σ) : Prop :=
  Saw Happening.IsFailed earlier later

/-- Nothing failed on the way, and no computed properties were bound or released. -/
def Undisturbed (v w : World σ) : Prop :=
  ¬ v.Failed w ∧ ¬ v.Saw (fun happening => happening.IsBound ∨ happening.IsUnbound) w

instance (kind : Happening → Prop) [DecidablePred kind] (earlier later : World σ) :
    Decidable (Saw kind earlier later) :=
  List.decidableBEx _ _

instance (earlier later : World σ) : Decidable (Failed earlier later) :=
  inferInstanceAs (Decidable (Saw _ earlier later))

theorem Before.refl (w : World σ) : w.Before w := List.prefix_refl _

theorem Before.trans {u v w : World σ} (first : u.Before v) (then_ : v.Before w) : u.Before w :=
  List.IsPrefix.trans first then_

theorem before_of_eq {v w : World σ} (same : w.journal = v.journal) : v.Before w :=
  ⟨[], by rw [List.append_nil, same]⟩

theorem before_happen (happening : Happening) (w : World σ) : w.Before (w.happen happening) :=
  List.prefix_append _ _

theorem saw_of_eq {kind : Happening → Prop} {v w : World σ} (same : w.journal = v.journal) :
    ¬ v.Saw kind w := by
  rintro ⟨entry, added, -⟩
  rw [same, List.drop_length] at added
  cases added

theorem saw_happen {kind : Happening → Prop} {happening : Happening} {w : World σ} :
    w.Saw kind (w.happen happening) ↔ kind happening := by
  simp [Saw, happen]

/-- What happened on the way happened on its first or on its second part. -/
theorem saw_trans {kind : Happening → Prop} {u v w : World σ} (first : u.Before v)
    (then_ : v.Before w) : u.Saw kind w ↔ u.Saw kind v ∨ v.Saw kind w := by
  obtain ⟨more, added⟩ := first
  obtain ⟨most, addedThen⟩ := then_
  simp [Saw, ← added, ← addedThen, or_and_right, exists_or]

theorem notes_of_eq {kind : Entry → Prop} {v w : World σ} (same : w.journal = v.journal) :
    v.Notes kind w := by
  intro entry added
  rw [same, List.drop_length] at added
  cases added

theorem notes_happen {kind : Entry → Prop} {happening : Happening} {w : World σ} :
    w.Notes kind (w.happen happening) ↔ kind ⟨happening, w.spans⟩ := by
  simp [Notes, happen]

theorem Notes.trans {kind : Entry → Prop} {u v w : World σ} (before : u.Before v)
    (beforeThen : v.Before w) (first : u.Notes kind v) (then_ : v.Notes kind w) : u.Notes kind w := by
  obtain ⟨more, added⟩ := before
  obtain ⟨most, addedThen⟩ := beforeThen
  simp only [Notes, ← added, ← addedThen, List.drop_left] at first then_ ⊢
  intro entry listed
  rw [List.append_assoc, List.drop_left] at listed
  rcases List.mem_append.mp listed with here | later
  · exact first entry here
  · exact then_ entry later

theorem Notes.mono {kind kind' : Entry → Prop} {v w : World σ} (notes : v.Notes kind w)
    (weaker : ∀ entry, kind entry → kind' entry) : v.Notes kind' w :=
  fun entry added => weaker entry (notes entry added)

theorem failed_happen (error : Error) (w : World σ) : w.Failed (w.happen (.failed error)) :=
  saw_happen.mpr trivial

theorem undisturbed_of_eq {v w : World σ} (same : w.journal = v.journal) : v.Undisturbed w :=
  ⟨saw_of_eq same, saw_of_eq same⟩

theorem Undisturbed.trans {u v w : World σ} (before : u.Before v) (beforeThen : v.Before w)
    (first : u.Undisturbed v) (then_ : v.Undisturbed w) : u.Undisturbed w := by
  refine ⟨fun failed => ?_, fun saw => ?_⟩
  · rcases (saw_trans before beforeThen).mp failed with failed | failed
    · exact first.1 failed
    · exact then_.1 failed
  · rcases (saw_trans before beforeThen).mp saw with saw | saw
    · exact first.2 saw
    · exact then_.2 saw

theorem undisturbed_happen (happening : Happening) (w : World σ) (quiet : ¬ happening.IsFailed)
    (unbound : ¬ (happening.IsBound ∨ happening.IsUnbound)) : w.Undisturbed (w.happen happening) :=
  ⟨fun failed => quiet (saw_happen.mp failed), fun saw => unbound (saw_happen.mp saw)⟩

/-! ## What no change of the tables adds -/

@[simp] theorem journal_cancel (s : Subscription) (w : World σ) :
    (w.cancel s).journal = w.journal := rfl

@[simp] theorem journal_cancelAll (ss : List Subscription) (w : World σ) :
    (w.cancelAll ss).journal = w.journal := by
  induction ss generalizing w with
  | nil => rfl
  | cons s rest ih => exact (ih (w.cancel s)).trans (journal_cancel s w)

@[simp] theorem journal_retire (model : Ref .model) (w : World σ) :
    (w.retire model).journal = w.journal := by
  unfold retire
  split
  · rfl
  · split <;> simp

@[simp] theorem journal_release (handle : Handle) (w : World σ) :
    (w.release handle).journal = w.journal := by
  cases handle <;> simp [release]

@[simp] theorem journal_subscribe (hub : Ref .hub) (event : String) (reaction : Reaction)
    (w : World σ) : (w.subscribe hub event reaction).2.journal = w.journal := by
  unfold subscribe
  split <;> rfl

@[simp] theorem journal_listen (document : Ref .document) (element : Ref .element)
    (reaction : EditReaction) (w : World σ) :
    (w.listen document element reaction).2.journal = w.journal := by
  unfold listen
  split <;> rfl

@[simp] theorem journal_dispose (binding : Ref .binding) (w : World σ) :
    (w.dispose binding).journal = w.journal := by
  have muted : ∀ (ids : List Nat) (d : Ref .document) (e : Ref .element) (v : World σ),
      (ids.foldl (fun v id => v.editDocument d (.removeListener e id)) v).journal = v.journal := by
    intro ids d e
    induction ids with
    | nil => exact fun _ => rfl
    | cons id rest ih => exact fun v => ih (v.editDocument d (.removeListener e id))
  unfold dispose
  split
  · rfl
  · split
    · rfl
    · dsimp only
      split
      · rw [muted, journal_cancelAll]
      · rw [journal_cancelAll]

@[simp] theorem journal_disposeAll (bindings : List (Ref .binding)) (w : World σ) :
    (w.disposeAll bindings).journal = w.journal := by
  induction bindings generalizing w with
  | nil => rfl
  | cons b rest ih => exact (ih (w.dispose b)).trans (journal_dispose b w)

/-! ## What releasing adds -/

theorem before_unbindComputed (model : Ref .model) (w : World σ) :
    w.Before (w.unbindComputed model) := by
  unfold unbindComputed
  split
  · exact .refl w
  · split
    · exact .refl w
    · rw [Before, journal_cancelAll]
      exact List.prefix_append _ _

theorem before_unbindView (view : Ref .view) (w : World σ) : w.Before (w.unbindView view) := by
  unfold unbindView
  split
  · exact .refl w
  · split
    · exact .refl w
    · rename_i v _ _
      refine Before.trans (before_of_eq ?_) (before_happen _ _)
      exact journal_disposeAll v.bindings _

theorem before_removeView (view : Ref .view) (w : World σ) : w.Before (w.removeView view) := by
  unfold removeView
  split
  · exact .refl w
  · exact before_unbindView view w

theorem before_dropView (view : Ref .view) (w : World σ) : w.Before (w.dropView view) := by
  unfold dropView
  split
  · exact .refl w
  · exact (before_unbindView view w).trans (before_of_eq (journal_retire _ _))

end World

end LiveBinding
