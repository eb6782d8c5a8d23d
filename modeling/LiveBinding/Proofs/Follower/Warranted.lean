/-
# LiveBinding.Proofs.Follower.Warranted -- nobody is called who did not ask

Whoever listens to a hub is a client, a slot, or a computed property.  If it is a property
of the model whose hub that is, it still is one, it holds the subscription, and it depends
on the event (`World.Warranted`).  Properties that were released hear of nothing any more.

This is an invariant of all worlds, and not of sound ones only: what a property of
another model listens to is not its concern.
-/
import LiveBinding.Proofs.Follower.Sound
import LiveBinding.Proofs.Run.Build

namespace LiveBinding

set_option autoImplicit false

variable {σ : Type}

/-- The subscription is held by the property, on whose behalf it was made. -/
structure Property.Subscribed (p : Property σ) (model : Ref .model) (s : Subscription)
    (reaction : Reaction) : Prop where
  refreshes : reaction = .refresh model p.name
  held : s ∈ p.subscriptions
  depends : ⟨s.hub, s.event⟩ ∈ p.dependencies

theorem Property.Subscribed.of_shape {p q : Property σ} {model : Ref .model} {s : Subscription}
    {reaction : Reaction} (subscribed : p.Subscribed model s reaction) (shape : q.shape = p.shape) :
    q.Subscribed model s reaction where
  refreshes := by
    rw [Property.name_of_shape shape]
    exact subscribed.refreshes
  held := by
    rw [Property.subscriptions_of_shape shape]
    exact subscribed.held
  depends := by
    rw [Property.dependencies_of_shape shape]
    exact subscribed.depends

namespace World

/-- Whoever reacts is a client, a slot or a property; and if the property's model is there
and this is its hub, the model has a property that subscribed so. -/
def Warrants (w : World σ) (s : Subscription) (reaction : Reaction) : Prop :=
  reaction.IsFree ∨ ∃ model name, reaction = .refresh model name ∧
    ∀ m, w.models.get? model = some m → s.hub = m.hub →
      ∃ p ∈ m.properties, p.Subscribed model s reaction

def Warranted (w : World σ) : Prop :=
  ∀ s reaction, Registered w.hubs s reaction → w.Warrants s reaction

variable {v w : World σ} {model : Ref .model} {m m' : Model σ} {s : Subscription}
  {reaction : Reaction}

/-- Models may change as long as those that are there keep their hub, and what was
subscribed on it is still. -/
theorem Warrants.of_rows (warrants : v.Warrants s reaction)
    (rows : ∀ model name m', reaction = .refresh model name → w.models.get? model = some m' →
      s.hub = m'.hub → ∃ m, v.models.get? model = some m ∧ m.hub = m'.hub ∧
        ∀ p ∈ m.properties, p.Subscribed model s reaction →
          ∃ q ∈ m'.properties, q.Subscribed model s reaction) : w.Warrants s reaction := by
  rcases warrants with free | ⟨model, name, rfl, row⟩
  · exact Or.inl free
  · refine Or.inr ⟨model, name, rfl, fun m' present own => ?_⟩
    obtain ⟨m, was, hub, kept⟩ := rows model name m' rfl present own
    obtain ⟨p, listed, subscribed⟩ := row m was (own.trans hub.symm)
    exact kept p listed subscribed

theorem Warranted.of_apart (apart : v.Apart w) (warranted : v.Warranted) : w.Warranted := by
  intro s reaction registered
  rcases apart.heard s reaction registered with before | free
  · refine (warranted s reaction before).of_rows fun model name m' refreshes present own => ?_
    rcases Nat.lt_or_ge model.index v.models.rows.length with below | beyond
    · exact ⟨m', apart.row below present, rfl, fun p listed subscribed => ⟨p, listed, subscribed⟩⟩
    · -- nobody listens to a new model yet
      have free := apart.silent model m' beyond present s reaction registered own
      rw [refreshes] at free
      exact free.elim
  · exact Or.inl free

theorem Warranted.put (warranted : w.Warranted) (present : w.models.get? model = some m)
    (same : m.SameShape m') : (w.put model m').Warranted := by
  intro s reaction registered
  refine (warranted s reaction registered).of_rows fun other name found _ there _ => ?_
  rcases get?_put present there with ⟨rfl, rfl⟩ | ⟨-, was⟩
  · refine ⟨m, present, same.1.symm, fun p listed subscribed => ?_⟩
    obtain ⟨q, listed', shape⟩ := same.mem listed
    exact ⟨q, listed', subscribed.of_shape shape⟩
  · exact ⟨found, was, rfl, fun p listed subscribed => ⟨p, listed, subscribed⟩⟩

/-- Releasing the properties of a model takes them away, and does nothing else to any
row. -/
theorem released_unbindComputed {other : Ref .model}
    (present : (w.unbindComputed model).models.get? other = some m') :
    ∃ m, w.models.get? other = some m ∧
      (m' = m ∨ other = model ∧ m' = { m with properties := [] }) := by
  unfold unbindComputed at present
  split at present
  · exact ⟨m', present, Or.inl rfl⟩
  · split at present
    · exact ⟨m', present, Or.inl rfl⟩
    · rw [models_cancelAll] at present
      obtain ⟨old, was, rfl⟩ := Table.get?_update_some present
      by_cases same : other = model
      · exact ⟨old, was, Or.inr ⟨same, if_pos same⟩⟩
      · exact ⟨old, was, Or.inl (if_neg same)⟩

/-- A row after properties were released is as it was, or has no properties left. -/
theorem row_unbindComputed {other : Ref .model}
    (present : (w.unbindComputed model).models.get? other = some m') :
    ∃ m, w.models.get? other = some m ∧ m.hub = m'.hub ∧
      (m' = m ∨ other = model ∧ m'.properties = []) := by
  obtain ⟨m, was, rfl | ⟨same, rfl⟩⟩ := released_unbindComputed present
  · exact ⟨m', was, rfl, Or.inl rfl⟩
  · exact ⟨m, was, rfl, Or.inr ⟨same, rfl⟩⟩

theorem present_unbindComputed (present : w.models.get? model = some m) : ∃ m',
    (w.unbindComputed model).models.get? model = some m' ∧ m'.properties = [] ∧ m'.hub = m.hub := by
  rw [unbindComputed, present]
  dsimp only
  split
  · rename_i none
    exact ⟨m, present, List.isEmpty_iff.mp none, rfl⟩
  · refine ⟨{ m with properties := [] }, ?_, rfl, rfl⟩
    rw [models_cancelAll]
    show (w.models.update model _).get? model = _
    rw [Table.get?_update_self, present]
    rfl

theorem Warranted.unbindComputed (model : Ref .model) (warranted : w.Warranted) :
    (w.unbindComputed model).Warranted := by
  intro s reaction registered
  obtain ⟨stood, ended⟩ := registered_of_unbindComputed registered
  refine (warranted s reaction stood).of_rows fun other name m' _ present _ => ?_
  obtain ⟨m, was, hub, rfl | ⟨rfl, -⟩⟩ := row_unbindComputed present
  · exact ⟨m', was, rfl, fun p listed subscribed => ⟨p, listed, subscribed⟩⟩
  · exact ⟨m, was, hub, fun p listed subscribed =>
      absurd subscribed.held (ended m was p listed)⟩

end World

/-! ## Binding properties -/

namespace Run

variable {s t : State σ} {model : Ref .model} {name : String}

/-- What is registered on the way is subscribed to one of the dependencies. -/
theorem subscribeProperty_adds {ds : List Dependency} {subs : List Subscription}
    (ended : (subscribeProperty model name ds).result s = (.ok subs, t)) {sub : Subscription}
    {reaction : Reaction} (registered : Registered t.world.hubs sub reaction) :
    Registered s.world.hubs sub reaction ∨
      sub ∈ subs ∧ reaction = .refresh model name ∧ ⟨sub.hub, sub.event⟩ ∈ ds := by
  induction ds generalizing s t subs with
  | nil =>
      cases ended
      exact Or.inl registered
  | cons d rest ih =>
      obtain ⟨first, r, subscribed, ended⟩ := bind_ok ended
      rw [result_produce] at subscribed
      cases subscribed
      obtain ⟨others, r', subscribedRest, ended⟩ := bind_ok ended
      cases ended
      rcases ih subscribedRest registered with before | ⟨later, reacts, depends⟩
      · rcases World.registered_or_new before with old | ⟨new, reacts⟩
        · exact Or.inl old
        · obtain ⟨-, hub, event⟩ := World.registered_subscribe new
          refine Or.inr ⟨List.mem_append_left _ (Option.mem_toList.mpr new), reacts, ?_⟩
          rw [hub, event]
          exact List.mem_cons_self
      · exact Or.inr ⟨List.mem_append_right _ later, reacts, List.mem_cons_of_mem _ depends⟩

/-- An evaluation changes neither models nor hubs, whether it fails or not. -/
theorem evaluate_tables {getter : Getter σ} {capturing : Bool}
    {ended : Except Halt (Json × Collector)}
    (evaluated : (evaluate model name getter capturing).result s = (ended, t)) :
    t.world.models = s.world.models ∧ t.world.hubs = s.world.hubs := by
  obtain ⟨client, ⟨_, worked⟩ | ⟨_, worked⟩⟩ := evaluate_ends model name getter capturing s
  · rw [worked] at evaluated
    cases evaluated
    exact ⟨rfl, rfl⟩
  · rw [worked] at evaluated
    cases evaluated
    exact ⟨rfl, rfl⟩

/-- What is registered while a property is built is on its behalf; nothing is, when it
cannot be built. -/
theorem buildProperty_adds {definition : Definition σ} {ended : Except Halt (Property σ)}
    (built : (buildProperty model name definition).result s = (ended, t)) :
    t.world.models = s.world.models ∧ ∀ sub reaction, Registered t.world.hubs sub reaction →
      Registered s.world.hubs sub reaction ∨
        ∃ p, ended = .ok p ∧ p.Subscribed model sub reaction := by
  unfold buildProperty at built
  split at built
  · cases built
    exact ⟨rfl, fun _ _ => Or.inl⟩
  · rcases evaluated : (evaluate model name _ true).result s with ⟨halt | given, r⟩
    · rw [result_bind_error evaluated] at built
      cases built
      obtain ⟨models, hubs⟩ := evaluate_tables evaluated
      refine ⟨models, fun sub reaction registered => Or.inl ?_⟩
      rwa [hubs] at registered
    · rw [result_bind_ok evaluated, result_bind_ok (result_subscribeProperty _ _ _)] at built
      cases built
      obtain ⟨models, hubs⟩ := evaluate_tables evaluated
      refine ⟨?_, fun sub reaction registered => ?_⟩
      · exact (World.tables_subscribeAll model name _ r.world).1.trans models
      · rcases subscribeProperty_adds (result_subscribeProperty _ _ _) registered with
          before | ⟨new, reacts, depends⟩
        · rw [hubs] at before
          exact Or.inl before
        · exact Or.inr ⟨_, rfl, reacts, new, depends⟩

/-- A property takes its place in the model as soon as it has subscribed. -/
theorem warranted_append {p : Property σ} {w : World σ} (warranted : s.world.Warranted)
    (models : w.models = s.world.models)
    (adds : ∀ sub reaction, Registered w.hubs sub reaction →
      Registered s.world.hubs sub reaction ∨ p.Subscribed model sub reaction) :
    World.Warranted { w with models := w.models.update model fun m =>
      { m with properties := m.properties ++ [p] } } := by
  intro sub reaction registered
  rcases adds sub reaction registered with before | subscribed
  · refine (warranted sub reaction before).of_rows fun other name m' _ present _ => ?_
    obtain ⟨old, was, rfl⟩ := Table.get?_update_some present
    rw [models] at was
    refine ⟨old, was, ?_, fun q listed subscribed => ⟨q, ?_, subscribed⟩⟩
    · split <;> rfl
    · split
      · exact List.mem_append_left _ listed
      · exact listed
  · refine Or.inr ⟨model, p.name, subscribed.refreshes, fun m' present _ => ⟨p, ?_, subscribed⟩⟩
    obtain ⟨old, -, rfl⟩ := Table.get?_update_some present
    rw [if_pos rfl]
    exact List.mem_append_right _ (List.mem_singleton.mpr rfl)

theorem buildAll_warranted {definitions : List (String × Definition σ)} {ended : Except Halt Unit}
    (warranted : s.world.Warranted) (built : (buildAll model definitions).result s = (ended, t)) :
    t.world.Warranted := by
  induction definitions generalizing s with
  | nil =>
      cases built
      exact warranted
  | cons entry rest ih =>
      rcases first : (buildProperty model entry.1 entry.2).result s with ⟨halt | p, r⟩
      · obtain ⟨models, adds⟩ := buildProperty_adds first
        rw [buildAll, result_bind_error first] at built
        cases built
        intro sub reaction registered
        rcases adds sub reaction registered with before | ⟨_, none, -⟩
        · refine (warranted sub reaction before).of_rows fun other name m' _ present _ => ?_
          rw [models] at present
          exact ⟨m', present, rfl, fun p listed subscribed => ⟨p, listed, subscribed⟩⟩
        · cases none
      · obtain ⟨models, adds⟩ := buildProperty_adds first
        rw [buildAll, result_bind_ok first, result_alter_bind] at built
        refine ih (warranted_append warranted models fun sub reaction registered => ?_) built
        refine (adds sub reaction registered).imp_right ?_
        rintro ⟨_, same, subscribed⟩
        cases same
        exact subscribed

end Run

namespace Follower

variable {s : State σ} {fire : Fire σ}

theorem preserves_warranted_buildAllOrNone (model : Ref .model)
    (definitions : List (String × Definition σ)) :
    Run.Follows (Preserves World.Warranted) (Run.buildAllOrNone model definitions) s := by
  have onward := onward_preserves (World.Warranted (σ := σ))
  have built : Run.Follows (Preserves World.Warranted) (Run.buildAll model definitions) s := by
    intro ended t worked deep
    obtain ⟨before, -, noted⟩ := Run.buildAll_builds definitions ended t worked deep
    exact ⟨before, fun warranted => Run.buildAll_warranted warranted worked, noted⟩
  refine onward.bind built.attempt fun ended t _ => ?_
  split
  · exact onward.follows_pure _
  · refine onward.alter_bind (World.before_unbindComputed _ _) (.unbindComputed model) ?_
    exact Run.follows_fail (.of_apart (World.apart_happen rfl _))

theorem preserves_warranted_refuseCycle (model : Ref .model) :
    Run.Follows (Preserves World.Warranted) (Run.refuseCycle (σ := σ) model) s := by
  have onward := onward_preserves (World.Warranted (σ := σ))
  refine Run.Follows.world_bind ?_
  split
  · exact onward.follows_pure _
  · refine onward.alter_bind (World.before_happen _ _) (.of_apart (World.apart_report _ _)) ?_
    refine onward.alter_bind (World.before_unbindComputed _ _) (.unbindComputed model) ?_
    exact Run.follows_fail (.of_apart (World.apart_happen rfl _))

theorem preserves_warranted_bindComputed (model : Ref .model)
    (definitions : List (String × Definition σ)) :
    Run.Follows (Preserves World.Warranted) (Opening.bindComputed model definitions) s := by
  have onward := onward_preserves (World.Warranted (σ := σ))
  refine onward.opening_keeping (.of_apart (World.apart_hold _ _))
    (fun t => .of_apart (World.apart_release (.model model) t.world)) ?_
  refine onward.alter_bind (World.before_unbindComputed _ _) (.unbindComputed model) ?_
  refine onward.bind (preserves_warranted_buildAllOrNone model definitions) fun _ t _ => ?_
  refine onward.bind (preserves_warranted_refuseCycle model) fun _ t _ => ?_
  refine Run.Follows.world_bind ?_
  split
  · exact onward.follows_pure _
  · rename_i m present
    refine Run.Follows.world_bind ?_
    simp only [present]
    refine onward.alter_bind (World.before_of_eq rfl) (fun warranted => ?_)
      (onward.follows_pure _)
    rw [State.alter_world, World.update_eq_put present]
    exact warranted.put present (Model.sameShape_store _ m)

theorem warranty : Invariant (World.Warranted (σ := σ)) where
  empty := by
    rintro s reaction ⟨hub, present, -⟩
    rw [World.empty, Table.get?_empty] at present
    cases present
  apart := World.Warranted.of_apart
  marked hubs models _ warranted := by
    intro s reaction registered
    rw [hubs] at registered
    refine (warranted s reaction registered).of_rows fun other name m' _ present _ => ?_
    rw [models] at present
    exact ⟨m', present, rfl, fun p listed subscribed => ⟨p, listed, subscribed⟩⟩
  stored present _ warranted := warranted.put present (Model.sameShape_store _ _)
  adopted present _ _ warranted := warranted.put present (Model.sameShape_adopt _ _ _)
  unbound model _ := .unbindComputed model
  bound model definitions _ := preserves_warranted_bindComputed model definitions

end Follower

/-- In every world that comes about all listeners are warranted. -/
theorem warranted_of_reachable {s : State σ} (reachable : Reachable s) : s.world.Warranted :=
  Follower.warranty.of_reachable reachable

end LiveBinding
