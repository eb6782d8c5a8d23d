/-
# LiveBinding.Proofs.Run.Apart -- attaching and binding leave models alone

Attaching declarations, applying their operators again and binding views touch
documents and bindings, and read models without changing any.  So all of it keeps
a sound world sound and leaves every model as it is, however it ends.
-/
import LiveBinding.Proofs.Run.Attach
import LiveBinding.Proofs.Run.Follows
import LiveBinding.Proofs.World.Apart

namespace LiveBinding

set_option autoImplicit false

variable {σ α β : Type}

def State.Leaves (s t : State σ) : Prop :=
  s.world.Leaves t.world

/-- Computed properties are left alone, and no callback is added. -/
def State.Apart (s t : State σ) : Prop :=
  s.world.Apart t.world ∧ t.callbacks = s.callbacks

namespace Run

variable {s : State σ}

theorem onward_leaves : Onward (State.Leaves (σ := σ)) where
  refl _ := World.Leaves.refl _
  trans _ _ first then_ := World.Leaves.trans first then_

theorem onward_apart : Onward (State.Apart (σ := σ)) where
  refl _ := ⟨.refl _, rfl⟩
  trans _ _ first then_ := ⟨first.1.trans then_.1, then_.2.trans first.2⟩

theorem apart_alter {f : World σ → World σ} (apart : s.world.Apart (f s.world)) :
    s.Apart (s.alter f) :=
  ⟨apart, rfl⟩

theorem apart_fail (error : Error) : Follows State.Apart (fail error : Run σ α) s :=
  follows_fail (apart_alter (World.apart_happen rfl _))

theorem apart_report (message : Message) : Follows State.Apart (alter (.report message)) s :=
  follows_alter (World.before_happen _ _) (apart_alter (World.apart_report message _))

/-- Work within a span that is no update. -/
theorem apart_within {span : Span} {work : Run σ α} (plain : span.updated = none)
    (follows : Follows State.Apart work
      (s.alter fun w => { w with spans := s.world.spans ++ [span] })) :
    Follows State.Apart (within span work) s := by
  intro ended t worked deep
  rw [result_within, result_lastly] at worked
  cases worked
  obtain ⟨before, ⟨apart, callbacks⟩, noted⟩ := follows _ _ rfl deep
  exact ⟨before, ⟨apart.within plain, callbacks⟩, noted⟩

/-! ## Changing bindings -/

/-- A binding may change in all but what it is subscribed to and whether it is
disposed. -/
theorem apart_updateBinding (binding : Ref .binding) (f : Binding → Binding) (w : World σ)
    (subscriptions : ∀ b, (f b).subscriptions = b.subscriptions)
    (disposed : ∀ b, (f b).disposed = b.disposed) :
    w.Apart { w with bindings := w.bindings.update binding f } := by
  refine .of_models rfl (fun wired => ⟨⟨wired.numbered, wired.models, ?_⟩, ?_⟩) (.refl _) rfl rfl
  · intro other b present s listed
    obtain ⟨old, was, rfl⟩ := Table.get?_update_some present
    refine wired.bindings other old was s ?_
    split at listed
    · rwa [subscriptions] at listed
    · exact listed
  · intro s other slot registered
    obtain ⟨b, present, live, listed⟩ := wired.tended s other slot registered
    by_cases same : other = binding
    · subst same
      exact ⟨f b, by rw [Table.get?_update_self, present]; rfl, by rw [disposed, live],
        by rw [subscriptions]; exact listed⟩
    · exact ⟨b, by rw [Table.get?_update_of_ne _ _ same, present], live, listed⟩

theorem apart_alterBinding (binding : Ref .binding) {f : Binding → Binding}
    (subscriptions : ∀ b, (f b).subscriptions = b.subscriptions)
    (disposed : ∀ b, (f b).disposed = b.disposed) :
    Follows State.Apart (alterBinding binding f) s :=
  follows_alter (World.before_of_eq rfl)
    (apart_alter (apart_updateBinding binding f s.world subscriptions disposed))

theorem apart_insertBinding (b : Binding) (w : World σ) (none : b.subscriptions = []) :
    w.Apart { w with bindings := w.bindings.insert b } := by
  refine .of_models rfl (fun wired => ⟨⟨wired.numbered, wired.models, ?_⟩, ?_⟩) (.refl _) rfl rfl
  · intro other b' present s listed
    rcases Table.get?_insert_some.mp present with ⟨-, rfl⟩ | was
    · rw [none] at listed
      cases listed
    · exact wired.bindings other b' was s listed
  · intro s other slot registered
    obtain ⟨b', present, live, listed⟩ := wired.tended s other slot registered
    exact ⟨b', Table.get?_insert_some.mpr (Or.inr present), live, listed⟩

/-! ## Slots -/

/-- A slot of a live binding is subscribed to what it depends on. -/
theorem apart_enlist {binding : Ref .binding} {b : Binding} {w : World σ} (slot : Nat)
    (present : w.bindings.get? binding = some b) (live : b.disposed = false) (d : Dependency) :
    w.Apart (w.enlist binding slot d) := by
  have tables : (w.subscribe d.hub d.event (.reapply binding slot)).2.models = w.models ∧
      (w.subscribe d.hub d.event (.reapply binding slot)).2.bindings = w.bindings ∧
      (w.subscribe d.hub d.event (.reapply binding slot)).2.spans = w.spans := by
    unfold World.subscribe
    split <;> exact ⟨rfl, rfl, rfl⟩
  have continues := World.continues_enlist binding slot d w
  have rows : (w.enlist binding slot d).bindings = w.bindings.update binding fun b =>
      { b with subscriptions := b.subscriptions ++
          (w.subscribe d.hub d.event (.reapply binding slot)).1.toList } := by
    rw [World.enlist]
    dsimp only
    rw [tables.2.1]
  have row : ∀ old, w.bindings.get? binding = some old →
      (w.enlist binding slot d).bindings.get? binding = some { old with
        subscriptions := old.subscriptions ++
          (w.subscribe d.hub d.event (.reapply binding slot)).1.toList } := by
    intro old was
    rw [rows, Table.get?_update_self, was]
    rfl
  refine .of_models tables.1 (fun wired => ⟨⟨continues.numbered wired.numbered, ?_, ?_⟩, ?_⟩)
    (World.heard_subscribe d.hub d.event (.reapply binding slot) trivial w) tables.2.2
    (World.journal_subscribe d.hub d.event _ w)
  · intro model m there
    have was := wired.models model m (tables.1 ▸ there)
    exact ⟨continues.exists_ was.announced, fun p listed =>
      (was.properties p listed).move fun s => continues.stands⟩
  · intro other b' there s listed
    rw [rows] at there
    obtain ⟨old, was, rfl⟩ := Table.get?_update_some there
    have before : s ∈ old.subscriptions → ∃ slot', Registered (w.enlist binding slot d).hubs s
        (.reapply other slot') := by
      intro held
      obtain ⟨slot', registered⟩ := wired.bindings other old was s held
      exact ⟨slot', continues.stands registered⟩
    by_cases same : other = binding
    · subst same
      rw [if_pos rfl] at listed
      rcases List.mem_append.mp listed with held | new
      · exact before held
      · exact ⟨slot, (World.registered_subscribe (Option.mem_toList.mp new)).1⟩
    · rw [if_neg same] at listed
      exact before listed
  · intro s other slot' registered
    rcases World.registered_or_new registered with before | ⟨new, same⟩
    · obtain ⟨held, was, lives, listed⟩ := wired.tended s other slot' before
      by_cases same : other = binding
      · subst same
        exact ⟨_, row held was, lives, List.mem_append_left _ listed⟩
      · exact ⟨held, by rw [rows, Table.get?_update_of_ne _ _ same, was], lives, listed⟩
    · cases same
      exact ⟨_, row b present, live, List.mem_append_right _ (Option.mem_toList.mpr new)⟩

theorem apart_enlistAll {binding : Ref .binding} {b : Binding} {w : World σ} (slot : Nat)
    (present : w.bindings.get? binding = some b) (live : b.disposed = false)
    (ds : List Dependency) : w.Apart (ds.foldl (World.enlist binding slot) w) := by
  induction ds generalizing w b with
  | nil => exact .refl w
  | cons d rest ih =>
      obtain ⟨subs, there, -⟩ := World.enlist_row slot present d
      exact (apart_enlist slot present live d).trans (ih there live)

theorem apart_attend (binding : Ref .binding) (b : Binding) (w : World σ) :
    w.Apart (w.attend binding b) :=
  (World.apart_listen _ _ _ w).trans (apart_updateBinding _ _ _ (fun _ => rfl) fun _ => rfl)

theorem apart_equip (binding : Ref .binding) (b : Binding) (editable : Bool) (name : String)
    (operator : Operator) (c : Compilation) (w : World σ) :
    w.Apart (w.equip binding b editable name operator c) := by
  have applied : ∀ v : World σ, w.Apart v → w.Apart
      { v.report (.operatorApplied b.selector name c.compiled.isDirty
          (c.dependencies w.sight).length) with
        bindings := v.bindings.update binding fun b =>
          { b with slots := b.slots ++ [⟨name, operator, c.compiled, c.compiled.isDirty,
              Collector.events (c.dependencies w.sight), 0⟩] } } :=
    fun v apart => (apart.trans (World.apart_report _ v)).trans
      (apart_updateBinding _ _ _ (fun _ => rfl) fun _ => rfl)
  unfold World.equip
  dsimp only
  split
  · exact applied _ ((World.apart_editDocument _ _ w).trans (apart_attend _ _ _))
  · exact applied _ (World.apart_editDocument _ _ w)

theorem apart_fit {binding : Ref .binding} {b : Binding} {w : World σ} (editable : Bool)
    (name : String) (operator : Operator) (c : Compilation)
    (present : w.bindings.get? binding = some b) (live : b.disposed = false) :
    w.Apart (w.fit binding b editable name operator c) := by
  obtain ⟨ids, there⟩ := World.row_equip editable name operator c present
  exact (apart_equip _ _ _ _ _ _ w).trans (apart_enlistAll _ there live _)

theorem apart_applyOperator (document : Ref .document) (element : Ref .element)
    (operator : Operator) (value : Json) :
    Follows State.Apart (applyOperator document element operator value) s :=
  follows_alter (World.before_of_eq rfl) (apart_alter (World.apart_editDocument _ _ _))

theorem apart_compileOperator (b : Binding) (operator : String) :
    Follows State.Apart (compileOperator b operator) s := by
  refine Follows.world_bind ?_
  split
  · exact onward_apart.follows_pure _
  · exact apart_fail _

theorem apart_applySlot {binding : Ref .binding} {b : Binding} (editable : Bool) (name : String)
    (operator : Operator) (present : s.world.bindings.get? binding = some b)
    (live : b.disposed = false) :
    Follows State.Apart (applySlot binding editable name operator) s := by
  rcases compiled : b.declaration.compileOperator name b.env s.world.sight with e | c
  · intro ended t worked
    rw [result_applySlot_error editable operator present compiled] at worked
    exact apart_fail (.declaration e) ended t worked
  · intro ended t worked _
    rw [result_applySlot editable operator present compiled] at worked
    cases worked
    refine ⟨?_, apart_alter (apart_fit editable name operator c present live), by rintro _ ⟨⟩⟩
    exact World.before_fit _ _ _ _ _ _ _

theorem apart_applySlots {binding : Ref .binding} {b : Binding} (editable : Bool)
    (operators : List (String × Operator)) (present : s.world.bindings.get? binding = some b)
    (live : b.disposed = false) :
    Follows State.Apart (applySlots binding editable operators) s := by
  induction operators generalizing s b with
  | nil => exact onward_apart.follows_pure _
  | cons entry rest ih =>
      refine onward_apart.bind (apart_applySlot editable entry.1 entry.2 present live) ?_
      intro _ t applied
      obtain ⟨c, -, rfl⟩ := applySlot_ok present applied
      obtain ⟨subs, ids, there, -⟩ := World.row_fit editable entry.1 entry.2 c present
      exact ih there live

theorem apart_dispose (binding : Ref .binding) :
    Follows State.Apart (alter (.dispose binding)) s :=
  follows_alter (World.before_of_eq (World.journal_dispose _ _))
    (apart_alter (World.apart_dispose _ _))

theorem apart_attach (document : Ref .document) (element : Ref .element) (env : Environment)
    (editable : Bool) (resolved : Resolved) :
    Follows State.Apart (attach document element env editable resolved) s := by
  refine onward_apart.produce_bind (World.before_of_eq rfl)
    (apart_alter (apart_insertBinding _ _ rfl)) ?_
  refine onward_apart.bind (apart_applySlots editable resolved.operators
    (Table.get?_insert_fresh _ _) rfl).attempt fun ended t _ => ?_
  split
  · exact onward_apart.follows_pure _
  · exact onward_apart.bind (apart_dispose _) fun _ t _ => apart_fail _

theorem apart_recompile (binding : Ref .binding) (b : Binding) (index : Nat) (slot : Slot) :
    Follows State.Apart (recompile binding b index slot) s := by
  unfold recompile
  split
  · refine onward_apart.bind (apart_compileOperator b _) fun compilation t _ => ?_
    exact onward_apart.bind (apart_alterBinding _ (fun _ => rfl) fun _ => rfl) fun _ t _ =>
      onward_apart.follows_pure _
  · exact onward_apart.follows_pure _

theorem apart_reapply (binding : Ref .binding) (index : Nat) (event : String) :
    Follows State.Apart (reapply binding index event) s := by
  refine Follows.world_bind ?_
  split
  · exact onward_apart.follows_pure _
  · split
    · exact onward_apart.follows_pure _
    · rename_i b _ _ slot _
      split
      · refine apart_within rfl ?_
        refine onward_apart.bind (apart_recompile binding b index slot) fun compiled t _ => ?_
        refine Follows.world_bind ?_
        exact onward_apart.bind (apart_applyOperator _ _ _ _) fun _ t _ => apart_report _
      · exact onward_apart.follows_pure _

/-! ## Views -/

theorem apart_ofExcept (outcome : Except Error α) :
    Follows State.Apart (ofExcept outcome : Run σ α) s := by
  cases outcome with
  | ok value => exact onward_apart.follows_pure _
  | error error => exact apart_fail error

theorem apart_resolveAll (v : View) (env : Environment) (declarations : List (String × String)) :
    Follows State.Apart (resolveAll v env declarations) s := by
  induction declarations generalizing s with
  | nil => exact onward_apart.follows_pure _
  | cons entry rest ih =>
      obtain ⟨selector, text⟩ := entry
      refine Follows.world_bind ?_
      split
      · exact onward_apart.bind (apart_report _) fun _ t _ => ih
      · refine onward_apart.bind (apart_ofExcept _) fun first t _ => ?_
        exact onward_apart.bind ih fun others t _ => onward_apart.follows_pure _

theorem apart_attachAll (v : View) (env : Environment)
    (resolved : List (Ref .element × Resolved)) :
    Follows State.Apart (attachAll v env resolved) s := by
  induction resolved generalizing s with
  | nil => exact onward_apart.follows_pure _
  | cons entry rest ih =>
      obtain ⟨element, resolved⟩ := entry
      refine Follows.world_bind ?_
      refine onward_apart.bind (apart_attach _ _ _ _ _) fun first t _ => ?_
      refine onward_apart.bind ih.attempt fun ended t _ => ?_
      split
      · exact onward_apart.follows_pure _
      · exact onward_apart.bind (apart_dispose first) fun _ t _ => apart_fail _

theorem apart_bindView (view : Ref .view) : Follows State.Apart (bindView view) s := by
  refine onward_apart.alter_bind (World.before_unbindView _ _)
    (apart_alter (World.apart_unbindView _ _)) ?_
  refine Follows.world_bind ?_
  split
  · exact onward_apart.follows_pure _
  · split
    · exact onward_apart.follows_pure _
    · refine onward_apart.bind (apart_resolveAll _ _ _) fun resolved t _ => ?_
      refine onward_apart.bind (apart_attachAll _ _ _) fun bindings t _ => ?_
      refine onward_apart.bind (apart_report _) fun _ t _ => ?_
      exact follows_alter (World.before_of_eq rfl) (apart_alter (.of_tables rfl rfl rfl rfl rfl))

end Run

end LiveBinding
