/-
# LiveBinding.Proofs.Run.Build -- planned properties can be bound

A template can be rendered whatever the model shows, so evaluating a planned property
ends well, and so does subscribing it (`buildProperty_ends`).  One after another all
are bound (`buildAll_ends`), and where no template leads back to itself the search for
cycles finds none (`refuseCycle_ends`).

All that time nobody but the new properties listens to the hub of the model
(`World.Private`).
-/
import LiveBinding.Proofs.Model.Planned
import LiveBinding.Proofs.Run.Compute

namespace LiveBinding

set_option autoImplicit false

variable {σ : Type}

/-- What the hub of a planned model is listened to for: plans refresh their properties
when a field of their template changes. -/
def Listener.Planned (model : Ref .model) (plans : List Plan) (l : Listener) : Prop :=
  ∃ plan ∈ plans, ∃ field ∈ plan.template.fields,
    l.event = changeOf field ∧ l.reaction = .refresh model plan.name

namespace World

/-- The client holds the model, its properties are the planned ones, and nothing else
listens to its hub. -/
structure Private (model : Ref .model) (hub : Ref .hub) (attributes : Attributes)
    (plans : List Plan) (w : World σ) : Prop where
  row : ∃ m, w.models.get? model = some m ∧ m.hub = hub ∧ m.Planned attributes plans
  heard : ∃ h, w.hubs.get? hub = some h ∧ ∀ l ∈ h.listeners, l.Planned model plans
  held : .model model ∈ w.held

theorem unbindComputed_of_none {w : World σ} {model : Ref .model} {m : Model σ}
    (present : w.models.get? model = some m) (none : m.properties = []) :
    w.unbindComputed model = w := by
  rw [unbindComputed, present]
  exact if_pos (by rw [none]; rfl)

def subscribeAll (model : Ref .model) (name : String) :
    List Dependency → World σ → List Subscription × World σ
  | [], w => ([], w)
  | d :: rest, w =>
      let first := w.subscribe d.hub d.event (.refresh model name)
      let others := subscribeAll model name rest first.2
      (first.1.toList ++ others.1, others.2)

theorem tables_subscribe (hub : Ref .hub) (event : String) (reaction : Reaction) (w : World σ) :
    (w.subscribe hub event reaction).2.models = w.models ∧
      (w.subscribe hub event reaction).2.held = w.held := by
  unfold subscribe
  split
  · exact ⟨rfl, rfl⟩
  · exact ⟨rfl, rfl⟩

theorem tables_subscribeAll (model : Ref .model) (name : String) (ds : List Dependency) (w : World σ) :
    (subscribeAll model name ds w).2.models = w.models ∧
      (subscribeAll model name ds w).2.held = w.held := by
  induction ds generalizing w with
  | nil => exact ⟨rfl, rfl⟩
  | cons d rest ih =>
      obtain ⟨models, held⟩ := ih (w.subscribe d.hub d.event (.refresh model name)).2
      obtain ⟨modelsHere, heldHere⟩ := tables_subscribe d.hub d.event (.refresh model name) w
      exact ⟨models.trans modelsHere, held.trans heldHere⟩

/-- Only listeners for the event are added. -/
theorem listeners_subscribe (hub : Ref .hub) (event : String) (reaction : Reaction)
    {ref : Ref .hub} {w : World σ} {h : Hub} (present : w.hubs.get? ref = some h) :
    ∃ h', (w.subscribe hub event reaction).2.hubs.get? ref = some h' ∧
      ∀ l ∈ h'.listeners, l ∈ h.listeners ∨ l.event = event ∧ l.reaction = reaction := by
  unfold subscribe
  split
  · by_cases same : ref = hub
    · subst same
      refine ⟨h.subscribe event reaction, ?_, fun l listed => ?_⟩
      · dsimp only
        rw [Table.get?_update_self, present]
        rfl
      · rcases List.mem_append.mp listed with old | new
        · exact Or.inl old
        · rw [List.mem_singleton.mp new]
          exact Or.inr ⟨rfl, rfl⟩
    · refine ⟨h, ?_, fun l => Or.inl⟩
      dsimp only
      rw [Table.get?_update_of_ne _ _ same, present]
  · exact ⟨h, present, fun l => Or.inl⟩

theorem listeners_subscribeAll (model : Ref .model) (name : String) {ref : Ref .hub}
    (ds : List Dependency) {w : World σ} {h : Hub}
    (present : w.hubs.get? ref = some h) :
    ∃ h', (subscribeAll model name ds w).2.hubs.get? ref = some h' ∧ ∀ l ∈ h'.listeners,
      l ∈ h.listeners ∨ (∃ d ∈ ds, l.event = d.event) ∧ l.reaction = .refresh model name := by
  induction ds generalizing w h with
  | nil => exact ⟨h, present, fun l => Or.inl⟩
  | cons d rest ih =>
      obtain ⟨first, there, added⟩ :=
        listeners_subscribe d.hub d.event (.refresh model name) present
      obtain ⟨last, thereThen, addedThen⟩ := ih there
      refine ⟨last, thereThen, fun l listed => ?_⟩
      rcases addedThen l listed with before | ⟨⟨d', later, event⟩, reaction⟩
      · rcases added l before with old | ⟨event, reaction⟩
        · exact Or.inl old
        · exact Or.inr ⟨⟨d, List.mem_cons_self, event⟩, reaction⟩
      · exact Or.inr ⟨⟨d', List.mem_cons_of_mem _ later, event⟩, reaction⟩

end World

namespace Run

variable {s : State σ} {model : Ref .model} {hub : Ref .hub} {attributes : Attributes}

/-! ## One property -/

/-- Code that gives a value is evaluated to it. -/
theorem result_evaluate {m : Model σ} (name : String) {getter : Getter σ} {asked : List String}
    {value : Json} (present : s.world.models.get? model = some m)
    (gives : getter.Gives m.read asked (.ok value)) (capturing : Bool) :
    (evaluate model name getter capturing).result s =
      (.ok (value, if capturing then Collector.recordAll (asked.map (.ofRead m.hub)) .empty
        else .empty), s.alter (.happen (.evaluated model name))) := by
  rw [evaluate, result_alter_bind, result_bind_ok (result_get _)]
  have noted : (s.alter (.happen (.evaluated model name))).world.models.get? model = some m := present
  dsimp only [State.alter_client]
  rw [gives.run_eq (sight_of_present noted)]
  rfl

theorem result_subscribeProperty (name : String) (ds : List Dependency) (s : State σ) :
    (subscribeProperty model name ds).result s =
      (.ok (World.subscribeAll model name ds s.world).1,
        s.alter fun w => (World.subscribeAll model name ds w).2) := by
  induction ds generalizing s with
  | nil => rfl
  | cons d rest ih =>
      rw [subscribeProperty, result_bind_ok (result_produce _ s), result_bind_ok (ih _)]
      rfl

/-- A planned property is bound as planned, and fresh. -/
theorem buildProperty_ends {m : Model σ} (present : s.world.models.get? model = some m)
    (plan : Plan) : ∃ p t, (buildProperty model plan.name plan.definition).result s = (.ok p, t) ∧
      p.Planned m.hub plan ∧ p.IsFresh m ∧ t.world.models = s.world.models ∧
      t.world.held = s.world.held ∧ ∀ h, s.world.hubs.get? m.hub = some h →
        ∃ h', t.world.hubs.get? m.hub = some h' ∧
          ∀ l ∈ h'.listeners, l ∈ h.listeners ∨ l.Planned model [plan] := by
  have gives : (plan.template.getter : Getter σ).Gives m.read plan.template.fields
      (.ok (.text (plan.template.render m.read))) := plan.template.getter_gives
  have evaluated := result_evaluate plan.name present gives true
  generalize reads : Collector.recordAll (plan.template.fields.map (.ofRead m.hub)) .empty = ds
    at evaluated
  have built : (buildProperty model plan.name plan.definition).result s =
      (.ok ⟨plan.name, plan.template.getter, none, plan.isVirtual,
          .text (plan.template.render m.read), ds,
          (World.subscribeAll model plan.name ds (s.world.happen (.evaluated model plan.name))).1⟩,
        s.alter fun w => (World.subscribeAll model plan.name ds
          (w.happen (.evaluated model plan.name))).2.report
            (.computedBound plan.name (Collector.events ds) plan.isVirtual)) := by
    rw [buildProperty]
    dsimp only [Plan.definition]
    rw [result_bind_ok evaluated]
    dsimp only [if_true]
    rw [result_bind_ok (result_subscribeProperty _ _ _)]
    rfl
  obtain ⟨models, held⟩ := World.tables_subscribeAll model plan.name ds
    (s.world.happen (.evaluated model plan.name))
  refine ⟨_, _, built, ?_, ⟨_, _, gives, Json.same_refl rfl⟩, models, held, fun h there => ?_⟩
  · rw [Property.Planned, Plan.outline, reads]
    rfl
  · obtain ⟨h', thereThen, added⟩ := World.listeners_subscribeAll model plan.name
      (w := s.world.happen (.evaluated model plan.name)) ds there
    refine ⟨h', thereThen, fun l listed => (added l listed).imp_right ?_⟩
    rintro ⟨⟨d, among, event⟩, reaction⟩
    rw [← reads] at among
    rcases Collector.mem_recordAll.mp among with read | none
    · obtain ⟨field, has, rfl⟩ := List.mem_map.mp read
      exact ⟨plan, List.mem_cons_self, field, has, event, reaction⟩
    · cases none

/-! ## All of them -/

/-- Planned properties are bound as planned, each fresh as far as the ones before it
go. -/
theorem buildAll_ends {done : List Plan} (plans : List Plan)
    (private_ : s.world.Private model hub attributes done)
    (start : ∃ m, s.world.models.get? model = some m ∧ m.store = attributes ∧ m.InTurn) :
    ∃ t, (buildAll model (plans.map fun plan => (plan.name, plan.definition))).result s = (.ok (), t) ∧
      t.world.Private model hub attributes (done ++ plans) ∧ t.world.held = s.world.held ∧
      ∃ m, t.world.models.get? model = some m ∧ m.store = attributes ∧ m.InTurn := by
  induction plans generalizing s done with
  | nil => exact ⟨s, rfl, by rw [List.append_nil]; exact private_, rfl, start⟩
  | cons plan rest ih =>
      obtain ⟨m, present, rfl, inTurn⟩ := start
      obtain ⟨⟨m', present', rfl, planned⟩, ⟨h, there, heard⟩, held⟩ := private_
      rw [present] at present'
      cases present'
      obtain ⟨p, r, built, is, fresh, models, heldThen, hears⟩ := buildProperty_ends present plan
      obtain ⟨h', thereThen, added⟩ := hears h there
      have row : (r.alter fun w => { w with models := w.models.update model fun m =>
          { m with properties := m.properties ++ [p] } }).world.models.get? model =
          some { m with properties := m.properties ++ [p] } := by
        rw [State.alter_world, Table.get?_update_self, models, present]
        rfl
      have step : World.Private model m.hub m.store (done ++ [plan]) (r.alter fun w =>
          { w with models := w.models.update model fun m =>
            { m with properties := m.properties ++ [p] } }).world := by
        refine ⟨⟨_, row, rfl, ?_, fun _ _ => rfl⟩, ⟨h', thereThen, fun l listed => ?_⟩, ?_⟩
        · rw [List.map_append, List.map_append, planned.outlined]
          exact congrArg (_ ++ [·]) is
        · rcases added l listed with old | ⟨q, new, facts⟩
          · obtain ⟨q, among, facts⟩ := heard l old
            exact ⟨q, List.mem_append_left _ among, facts⟩
          · exact ⟨q, List.mem_append_right _ new, facts⟩
        · show .model model ∈ r.world.held
          rw [heldThen]
          exact held
      obtain ⟨t, builtRest, privateThen, heldLast, end_⟩ :=
        ih step ⟨_, row, rfl, Model.inTurn_append inTurn fresh⟩
      refine ⟨t, ?_, ?_, heldLast.trans heldThen, end_⟩
      · rw [List.map_cons, buildAll, result_bind_ok built, result_alter_bind]
        exact builtRest
      · rwa [List.append_assoc] at privateThen

/-- What is left of binding once all properties were built: cycles are refused, and first
values stored. -/
def concludeBinding (fire : Fire σ) (model : Ref .model) : Run σ Unit := do
  refuseCycle model
  match (← world).models.get? model with
  | none => pure ()
  | some m => writeStore fire model m.initialWrites

theorem bindComputed_eq (fire : Fire σ) (model : Ref .model)
    (definitions : List (String × Definition σ)) :
    bindComputed fire model definitions = keeping (.model model) (do
      alter (.unbindComputed model)
      buildAllOrNone model definitions
      concludeBinding fire model) := rfl

/-- Planned properties are all bound to a new model before cycles are looked for. -/
theorem bindComputed_builds (plans : List Plan) (attributes : Attributes)
    (present : s.world.models.get? model = some ⟨hub, attributes, []⟩)
    (silent : s.world.hubs.get? hub = some .empty) (held : .model model ∈ s.world.held) :
    ∃ t, (buildAll model (plans.map fun plan => (plan.name, plan.definition))).result
        (s.alter (.hold (.model model))) = (.ok (), t) ∧
      t.world.Private model hub attributes plans ∧
      t.world.held = .model model :: s.world.held ∧
      (∃ m, t.world.models.get? model = some m ∧ m.store = attributes ∧ m.InTurn) ∧
      ∀ fire, (bindComputed fire model (plans.map fun plan => (plan.name, plan.definition))).result s =
        (lastly (concludeBinding fire model) (.release (.model model))).result t := by
  have private_ : World.Private model hub attributes [] (s.alter (.hold (.model model))).world :=
    ⟨⟨_, present, rfl, rfl, fun _ _ => rfl⟩, ⟨_, silent, nofun⟩, List.mem_cons_of_mem _ held⟩
  obtain ⟨t, built, privateThen, heldThen, inTurn⟩ := buildAll_ends plans private_
    ⟨_, present, rfl, fun _ _ _ none => absurd none.symm (by simp)⟩
  rw [List.nil_append] at privateThen
  have released : (s.alter (.hold (.model model))).alter (.unbindComputed model) =
      s.alter (.hold (.model model)) :=
    State.alter_congr (g := id) (World.unbindComputed_of_none present rfl)
  have builtAll : (buildAllOrNone model (plans.map fun plan => (plan.name, plan.definition))).result
      (s.alter (.hold (.model model))) = (.ok (), t) := by
    rw [buildAllOrNone, result_bind, result_attempt, built]
    rfl
  refine ⟨t, built, privateThen, heldThen, inTurn, fun fire => ?_⟩
  rw [bindComputed_eq, result_keeping, result_lastly, result_lastly, result_alter_bind, released,
    result_bind_ok builtAll]

/-! ## No cycle -/

/-- Plans that are acyclic are not refused. -/
theorem refuseCycle_ends {plans : List Plan} (private_ : s.world.Private model hub attributes plans)
    (acyclic : Acyclic plans) : (refuseCycle model).result s = (.ok (), s) := by
  obtain ⟨m, present, rfl, planned⟩ := private_.row
  obtain ⟨rank, rises, -⟩ := acyclic.exists_rank
  have falls : ∀ node, ∀ next ∈ Graph.dependents m.dependents node, rank next < rank node := by
    intro node next edge
    obtain ⟨-, plan, among, rfl, has⟩ := planned.mem_dependents.mp edge
    exact rises plan among node has
  rw [refuseCycle, result_world_bind, present, Option.bind_some, Graph.findCycle_of_rank falls]
  rfl

/-- Plans that are not acyclic are refused. -/
theorem refuseCycle_refuses {plans : List Plan}
    (private_ : s.world.Private model hub attributes plans) (cyclic : ¬ Acyclic plans) :
    ∃ cycle t, (refuseCycle model).result s = (.error (.failed (.cyclicDependency cycle)), t) := by
  obtain ⟨m, present, -, planned⟩ := private_.row
  rcases found : Graph.findCycle m.dependents with _ | cycle
  · exact absurd (planned.acyclic found) cyclic
  · rw [refuseCycle, result_world_bind, present, Option.bind_some, found]
    exact ⟨cycle, _, rfl⟩

end Run

end LiveBinding
