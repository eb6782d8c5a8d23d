/-
# LiveBinding.Proofs.Run.Compute -- binding computed properties

While properties are being bound the model does not yet store what they keep
(`World.Building`).  Binding ends with a write that stores all of it at once, or
fails and releases all of them; either way the world is sound again.

A binding that succeeds with any definition is noted in the journal
(`buildAll_saw`), and so is a release of properties, so the journal tells whether
properties were bound or released in between.
-/
import LiveBinding.Proofs.Run.Apart
import LiveBinding.Proofs.World.Put

namespace LiveBinding

set_option autoImplicit false

variable {σ α : Type}

namespace World

variable {w : World σ} {model : Ref .model}

/-- Properties of the model are being bound: all is sound, but for the model not
storing what they keep, and what they keep is neither a list nor an object. -/
structure Building (model : Ref .model) (w : World σ) : Prop where
  wired : w.Wired
  stored : ∀ other, other ≠ model → w.StoredAt other
  scalar : ∀ m, w.models.get? model = some m → ∀ p ∈ m.properties, ∀ names,
    p.getter.Asks names → p.value.isScalar = true

/-- A model without properties is built. -/
theorem Sound.building (sound : w.Sound)
    (none : ∀ m, w.models.get? model = some m → m.properties = []) : w.Building model where
  wired := sound.wired
  stored other _ := sound.stored other
  scalar m present p listed := by
    rw [none m present] at listed
    cases listed

theorem Building.sound_unbind (building : w.Building model) : (w.unbindComputed model).Sound :=
  sound_unbindComputed model building.wired building.stored

/-- Releasing the properties of a model leaves it without any. -/
theorem properties_unbindComputed {m : Model σ}
    (present : (w.unbindComputed model).models.get? model = some m) : m.properties = [] := by
  unfold unbindComputed at present
  split at present
  · rename_i gone
    rw [gone] at present
    cases present
  · rename_i old was
    split at present
    · rename_i none
      rw [was] at present
      cases present
      exact List.isEmpty_iff.mp none
    · rw [models_cancelAll] at present
      obtain ⟨_, -, rfl⟩ := Table.get?_update_some present
      rw [if_pos rfl]

/-- Releasing properties is noted, unless there are none. -/
theorem unbindComputed_noted (model : Ref .model) (w : World σ) :
    w.unbindComputed model = w ∨ w.Saw Happening.IsUnbound (w.unbindComputed model) := by
  unfold unbindComputed
  split
  · exact Or.inl rfl
  · rename_i m _
    split
    · exact Or.inl rfl
    · right
      rw [Saw, journal_cancelAll]
      exact saw_happen (w := { w with
        models := w.models.update model fun m => { m with properties := [] } }).mpr trivial

end World

namespace Run

variable {s t : State σ} {model : Ref .model} {name : String}

/-! ## Evaluating and subscribing -/

/-- An evaluation gives a value or fails.  But for the client's state it only leaves
traces in the journal. -/
theorem evaluate_ends (model : Ref .model) (name : String) (getter : Getter σ) (capturing : Bool)
    (s : State σ) : ∃ client,
      (∃ given, (evaluate model name getter capturing).result s =
        (.ok given, ⟨s.world.happen (.evaluated model name), s.callbacks, client⟩)) ∨
      ∃ error, (evaluate model name getter capturing).result s =
        (.error (.failed error),
          ⟨(s.world.happen (.evaluated model name)).happen (.failed error), s.callbacks, client⟩) := by
  refine ⟨(getter.run (s.world.happen (.evaluated model name)).sight model capturing
    s.client .empty).client, ?_⟩
  rw [evaluate, result_alter_bind, result_bind_ok (result_get _),
    result_bind_ok (rfl : (set _ : Run σ PUnit).result _ = (.ok ⟨⟩, _))]
  split
  · exact Or.inl ⟨_, rfl⟩
  · exact Or.inr ⟨_, rfl⟩

/-- An evaluation that gives a value leaves a trace in the journal, and nothing else
in the world. -/
theorem evaluate_ok {model : Ref .model} {name : String} {getter : Getter σ} {capturing : Bool}
    {given : Json × Collector} (ended : (evaluate model name getter capturing).result s = (.ok given, t)) :
    t.world = s.world.happen (.evaluated model name) ∧ t.callbacks = s.callbacks ∧
      (getter.run s.world.sight model capturing s.client .empty).outcome = .ok given.1 ∧
      (getter.run s.world.sight model capturing s.client .empty).captured = given.2 := by
  rw [evaluate, result_alter_bind, result_bind_ok (result_get _)] at ended
  obtain ⟨_, r, set_, ended⟩ := bind_ok ended
  cases set_
  split at ended
  · rename_i value answered
    cases ended
    exact ⟨rfl, rfl, answered, rfl⟩
  · cases ended

/-- What shows of a model that is there. -/
theorem sight_of_present {w : World σ} {model : Ref .model} {m : Model σ}
    (present : w.models.get? model = some m) (name : String) :
    w.sight model name = some ⟨m.hub, m.read name⟩ := by
  rw [World.sight, present]
  rfl

/-- What a getter of a regular model gives is neither a list nor an object. -/
theorem scalar_of_regular {w : World σ} {model : Ref .model} {m : Model σ} {p : Property σ}
    {value : Json} {capturing : Bool} {client : σ} {captured : Collector} (regular : m.IsRegular)
    (listed : p ∈ m.properties) (present : w.models.get? model = some m)
    (answered : (p.getter.run w.sight model capturing client captured).outcome = .ok value) :
    value.isScalar = true := by
  obtain ⟨names, asks⟩ := regular.asks p listed
  obtain ⟨asked, outcome, gives, -, scalar⟩ := asks m.read
  rw [gives.run_eq (sight_of_present present)] at answered
  exact scalar value answered

theorem leaves_evaluate (getter : Getter σ) (capturing : Bool) :
    Follows State.Leaves (evaluate model name getter capturing) s := by
  refine onward_leaves.alter_bind (World.before_happen _ _) (.of_tables rfl rfl rfl) ?_
  refine Follows.get_bind ?_
  refine onward_leaves.bind (follows_modify (.refl _) (.refl _)) fun _ t _ => ?_
  split
  · exact onward_leaves.follows_pure _
  · exact follows_fail (.of_tables rfl rfl rfl)

theorem leaves_subscribeProperty (ds : List Dependency) :
    Follows State.Leaves (subscribeProperty model name ds) s := by
  induction ds generalizing s with
  | nil => exact onward_leaves.follows_pure _
  | cons d rest ih =>
      refine onward_leaves.produce_bind (World.before_of_eq (World.journal_subscribe _ _ _ _))
        (World.leaves_subscribe d.hub d.event (.refresh model name) nofun _) ?_
      exact onward_leaves.bind ih fun others t _ => onward_leaves.follows_pure _

/-- Everything that can be heard of the dependencies is subscribed to. -/
theorem subscribeProperty_ok {ds : List Dependency} {subs : List Subscription}
    (ended : (subscribeProperty model name ds).result s = (.ok subs, t)) :
    Continues s.world.hubs t.world.hubs ∧ t.world.models = s.world.models ∧
      (∀ sub ∈ subs, Registered t.world.hubs sub (.refresh model name)) ∧
      ∀ d ∈ ds, (s.world.hubs.get? d.hub).isSome → ∃ sub ∈ subs, sub.hub = d.hub ∧ sub.event = d.event := by
  induction ds generalizing s t subs with
  | nil =>
      cases ended
      exact ⟨.refl _, rfl, nofun, nofun⟩
  | cons d rest ih =>
      obtain ⟨first, r, subscribed, ended⟩ := bind_ok ended
      rw [result_produce] at subscribed
      cases subscribed
      obtain ⟨others, r', subscribedRest, ended⟩ := bind_ok ended
      cases ended
      obtain ⟨continues, models, stand, all⟩ := ih subscribedRest
      have step := World.continues_subscribe d.hub d.event (.refresh model name) s.world
      refine ⟨step.trans continues, models.trans ?_, ?_, ?_⟩
      · show (World.subscribe d.hub d.event (.refresh model name) s.world).2.models = _
        unfold World.subscribe
        split <;> rfl
      · intro sub listed
        rcases List.mem_append.mp listed with here | there
        · exact continues.stands (World.registered_subscribe (Option.mem_toList.mp here)).1
        · exact stand sub there
      · intro d' listed there
        rcases List.mem_cons.mp listed with rfl | later
        · obtain ⟨sub, given⟩ := Option.isSome_iff_exists.mp
            (World.subscribe_isSome d'.event (.refresh model name) there)
          obtain ⟨-, hub, event⟩ := World.registered_subscribe given
          exact ⟨sub, List.mem_append_left _ (Option.mem_toList.mpr given), hub, event⟩
        · obtain ⟨sub, given, same⟩ := all d' later (step.exists_ there)
          exact ⟨sub, List.mem_append_right _ given, same⟩

/-! ## One property -/

theorem leaves_buildProperty (definition : Definition σ) :
    Follows State.Leaves (buildProperty model name definition) s := by
  unfold buildProperty
  split
  · exact follows_fail (.of_tables rfl rfl rfl)
  · refine onward_leaves.bind (leaves_evaluate _ _) fun given t _ => ?_
    refine onward_leaves.bind (leaves_subscribeProperty _) fun subs t _ => ?_
    exact onward_leaves.bind (follows_alter (World.before_happen _ _) (.of_tables rfl rfl rfl))
      fun _ t _ => onward_leaves.follows_pure _

/-- A property that is built is wired to its model, and noted. -/
theorem buildProperty_ok {definition : Definition σ} {p : Property σ}
    (ended : (buildProperty model name definition).result s = (.ok p, t)) :
    s.world.Saw Happening.IsBound t.world ∧ t.world.models = s.world.models ∧
      ∀ m, s.world.models.get? model = some m → s.world.Wired → p.Wired t.world.hubs model m.hub ∧
        ∀ names, p.getter.Asks names → p.value.isScalar = true := by
  unfold buildProperty at ended
  split at ended
  · cases ended
  · rename_i getter given
    obtain ⟨given, r, evaluated, ended⟩ := bind_ok ended
    obtain ⟨subs, r', subscribed, ended⟩ := bind_ok ended
    obtain ⟨_, r'', reported, ended⟩ := bind_ok ended
    cases reported
    cases ended
    obtain ⟨world, -, answered, captured⟩ := evaluate_ok evaluated
    obtain ⟨continues, models, stand, all⟩ := subscribeProperty_ok subscribed
    have before : s.world.Before r'.world := by
      refine World.Before.trans (v := r.world) ?_ ?_
      · rw [world]
        exact World.before_happen _ _
      · exact (leaves_subscribeProperty _ _ _ subscribed (by simp)).1
    refine ⟨?_, ?_, fun m present wired => ?_⟩
    · exact (World.saw_trans before (World.before_happen _ _)).mpr
        (Or.inr (World.saw_happen.mpr trivial))
    · exact models.trans (by rw [world]; rfl)
    · have shown := sight_of_present present
      have hubThere : (r.world.hubs.get? m.hub).isSome := by
        rw [world]
        exact (wired.models model m present).announced
      refine ⟨⟨stand, ?_, ?_⟩, ?_⟩
      · intro d listed own
        exact all d listed (by rw [own]; exact hubThere)
      · intro names asks asked among
        obtain ⟨read, outcome, gives, exact_, -⟩ := asks m.read
        rw [gives.run_eq shown] at captured
        refine Collector.mem_recordAll.mpr (Or.inr ?_)
        rw [← captured]
        refine Collector.mem_recordAll.mpr (Or.inl ?_)
        exact List.mem_map_of_mem ((exact_ asked).mpr among)
      · intro names asks
        obtain ⟨read, outcome, gives, -, scalar⟩ := asks m.read
        rw [gives.run_eq shown] at answered
        exact scalar _ answered

/-! ## All of them -/

def Builds (model : Ref .model) (s t : State σ) : Prop :=
  s.world.Building model → t.world.Building model

theorem onward_builds (model : Ref .model) : Onward (Builds (σ := σ) model) where
  refl _ := id
  trans _ _ first then_ := then_ ∘ first

theorem builds_of_leaves (leaves : s.Leaves t) : Builds model s t := fun building =>
  ⟨leaves.wired building.wired, fun ref distinct => leaves.storedAt (building.stored ref distinct),
    fun m present p listed => by
      rcases Nat.lt_or_ge model.index s.world.models.rows.length with below | beyond
      · exact building.scalar m (leaves.row below present) p listed
      · rw [leaves.new model m beyond present] at listed
        cases listed⟩

theorem builds_happen (happening : Happening) (s : State σ) :
    Builds model s (s.alter (.happen happening)) :=
  builds_of_leaves (.of_tables rfl rfl rfl)

/-- A model takes on a property that is wired to it. -/
theorem building_append {p : Property σ} {w : World σ} (building : w.Building model)
    (wired : ∀ m, w.models.get? model = some m → p.Wired w.hubs model m.hub ∧
      ∀ names, p.getter.Asks names → p.value.isScalar = true) :
    World.Building model { w with models := w.models.update model fun m =>
      { m with properties := m.properties ++ [p] } } := by
  rcases present : w.models.get? model with _ | m
  · have same : (w.models.update model fun m => { m with properties := m.properties ++ [p] }) =
        w.models := Table.update_of_none _ present
    rw [same]
    exact building
  · rw [World.update_eq_put present]
    obtain ⟨wiredHere, scalarHere⟩ := wired m present
    refine ⟨World.wired_put building.wired present ⟨?_, ?_⟩, ?_, ?_⟩
    · exact (building.wired.models model m present).announced
    · intro q listed
      rcases List.mem_append.mp listed with old | new
      · exact (building.wired.models model m present).properties q old
      · rw [List.mem_singleton.mp new]
        exact wiredHere
    · intro other distinct found there
      rcases World.get?_put present there with ⟨same, -⟩ | ⟨-, was⟩
      · exact absurd same distinct
      · exact building.stored other distinct found was
    · intro found there q listed
      rcases World.get?_put present there with ⟨-, rfl⟩ | ⟨distinct, -⟩
      · rcases List.mem_append.mp listed with old | new
        · exact building.scalar m present q old
        · rw [List.mem_singleton.mp new]
          exact scalarHere
      · exact absurd rfl distinct

theorem buildAll_builds (definitions : List (String × Definition σ)) :
    Follows (Builds model) (buildAll model definitions) s := by
  induction definitions generalizing s with
  | nil => exact (onward_builds model).follows_pure _
  | cons entry rest ih =>
      obtain ⟨name, definition⟩ := entry
      refine (leaves_buildProperty definition).bind_of
        (B := fun _ u => s.world.Building model → u.world.Building model) ?_
        (fun _ _ _ _ leaves => builds_of_leaves leaves) fun _ _ _ _ _ builds => builds
      intro p t built
      obtain ⟨-, models, wired⟩ := buildProperty_ok built
      have leaves := (leaves_buildProperty definition _ _ built (by simp)).2.1
      have appended : Follows (fun _ u => s.world.Building model → u.world.Building model)
          (alter fun w => { w with models := w.models.update model fun m =>
            { m with properties := m.properties ++ [p] } }) t := by
        refine follows_alter (World.before_of_eq rfl) fun building => ?_
        refine building_append (builds_of_leaves leaves building) fun m present => ?_
        rw [models] at present
        exact wired m present building.wired
      exact appended.bind_of (fun _ u _ => ih) (fun _ _ _ _ builds => builds)
        fun _ _ _ _ builds buildsThen start => buildsThen (builds start)

/-- Binding that succeeds with any definition is noted. -/
theorem buildAll_saw {entry : String × Definition σ} {rest : List (String × Definition σ)}
    (ended : (buildAll model (entry :: rest)).result s = (.ok (), t)) :
    s.world.Saw Happening.IsBound t.world := by
  obtain ⟨p, r, built, remaining⟩ := bind_ok ended
  have before := (leaves_buildProperty entry.2 _ _ built (by simp)).1
  rw [result_alter_bind] at remaining
  have beforeThen := (buildAll_builds rest _ _ remaining (by simp)).1
  exact (World.saw_trans before beforeThen).mpr (Or.inl (buildProperty_ok built).1)

/-! ## All or none -/

theorem builds_unbind (model : Ref .model) (s : State σ) :
    Builds model s (s.alter (.unbindComputed model)) := fun building =>
  building.sound_unbind.building fun _ => World.properties_unbindComputed

theorem buildAllOrNone_builds (definitions : List (String × Definition σ)) :
    Follows (Builds model) (buildAllOrNone model definitions) s := by
  have onward := onward_builds (σ := σ) model
  refine onward.bind (buildAll_builds definitions).attempt fun ended t _ => ?_
  split
  · exact onward.follows_pure _
  · refine onward.alter_bind (World.before_unbindComputed _ _) (builds_unbind _ _) ?_
    exact follows_fail (builds_happen _ _)

/-- When some definition cannot be bound, all are released. -/
theorem buildAllOrNone_error {definitions : List (String × Definition σ)} {error : Error}
    (building : s.world.Building model)
    (ended : (buildAllOrNone model definitions).result s = (.error (.failed error), t)) :
    t.world.Sound := by
  rcases bind_error ended with failed | ⟨answer, r, answered, ended⟩
  · exact absurd failed attempt_ne_failed
  · have building' := ((buildAll_builds definitions).attempt _ _ answered (by simp)).2.1 building
    split at ended
    · cases ended
    · rw [result_alter_bind] at ended
      cases ended
      exact (World.apart_happen rfl _).sound building'.sound_unbind

theorem buildAllOrNone_saw {entry : String × Definition σ} {rest : List (String × Definition σ)}
    (ended : (buildAllOrNone model (entry :: rest)).result s = (.ok (), t)) :
    s.world.Saw Happening.IsBound t.world := by
  obtain ⟨answer, r, answered, ended⟩ := bind_ok ended
  rcases attempt_ok answered with ⟨_, rfl, built⟩ | ⟨error, rfl, -⟩
  · cases ended
    exact buildAll_saw built
  · rw [result_alter_bind] at ended
    cases ended

theorem refuseCycle_ok (ended : (refuseCycle model).result s = (.ok (), t)) : t = s := by
  rw [refuseCycle, result_world_bind] at ended
  split at ended
  · cases ended
    rfl
  · rw [result_alter_bind, result_alter_bind] at ended
    cases ended

theorem refuseCycle_builds : Follows (Builds (σ := σ) model) (refuseCycle model) s := by
  have onward := onward_builds (σ := σ) model
  refine Follows.world_bind ?_
  split
  · exact onward.follows_pure _
  · refine onward.bind (follows_alter (World.before_happen _ _) (builds_happen _ s)) fun _ t _ => ?_
    refine onward.alter_bind (World.before_unbindComputed _ _) (builds_unbind _ _) ?_
    exact follows_fail (builds_happen _ _)

/-- When properties depend on each other in a circle, all are released. -/
theorem refuseCycle_error {error : Error} (building : s.world.Building model)
    (ended : (refuseCycle model).result s = (.error (.failed error), t)) : t.world.Sound := by
  rw [refuseCycle, result_world_bind] at ended
  split at ended
  · cases ended
  · rw [result_alter_bind, result_alter_bind] at ended
    cases ended
    rename_i cycle _
    have reported := builds_happen (.message (.cycleDetected cycle)) s building
    exact (World.apart_happen rfl _).sound reported.sound_unbind

/-! ## The first write -/

/-- The first write stores all that the properties keep. -/
theorem storesComputed_initialWrites {m : Model σ} (regular : m.IsRegular)
    (scalar : ∀ p ∈ m.properties, ∀ names, p.getter.Asks names → p.value.isScalar = true) :
    Model.StoresComputed { m with store := (m.store.apply m.initialWrites).1 } := by
  intro p listed stored
  obtain ⟨names, asks⟩ := regular.asks p listed
  exact Attributes.holds_apply (Model.mem_initialWrites regular.distinct listed stored)
    (Model.initialWrites_of_distinct regular.distinct).1 (scalar p listed names asks)

/-- With it the world is sound. -/
theorem sound_initialWrites {w : World σ} {m : Model σ} (building : w.Building model)
    (present : w.models.get? model = some m) :
    (w.put model { m with store := (m.store.apply m.initialWrites).1 }).Sound where
  wired := World.wired_put building.wired present
    ((building.wired.models model m present).of_shape (Model.sameShape_store _ m))
  stored other found there regular := by
    rcases World.get?_put present there with ⟨-, rfl⟩ | ⟨distinct, was⟩
    · exact storesComputed_initialWrites
        ((Model.sameShape_store _ m).symm.isRegular regular) (building.scalar m present)
    · exact building.stored other distinct found was regular

end Run

end LiveBinding
