/-
# LiveBinding.Proofs.Run.Rows -- what is kept of every model

A law of models says something of each model by itself that its computed properties and its
writes leave true: it holds where there are no computed properties, and it stays when
attributes are stored, or a property takes a new value (`World.RowLaw`).

A write may be seen half done by nobody: between what it keeps and what it stores no
dispatch begins.  So all that is to be shown is that each opening leaves every model as the
law says, however it ends.  Only binding passes through a state in which a model is not: its
properties keep values that are not stored yet, and were not checked for cycles
(`World.BindsTo`).
-/
import LiveBinding.Proofs.Model.Accord
import LiveBinding.Proofs.Run.Abiding
import LiveBinding.Proofs.Run.Step

namespace LiveBinding

set_option autoImplicit false

variable {σ : Type}

/-! ## Properties as they were built -/

/-- The property was built from the definition: beyond the events declared it depends on
what its getter read, while its model showed on the hub. -/
structure Property.IsBuilt (model : Ref .model) (hub : Ref .hub) (entry : String × Definition σ)
    (p : Property σ) : Prop where
  name : p.name = entry.1
  setter : p.setter = entry.2.setter
  depends : ∀ d ∈ p.dependencies, d ∈ entry.2.events ∨
    ∃ (getter : Getter σ) (sight : Sight) (look : String → Json) (client : σ),
      entry.2.getter = some getter ∧ (∀ name, sight model name = some ⟨hub, look name⟩) ∧
        d ∈ (getter.run sight model true client .empty).captured

def Model.IsBuilt (model : Ref .model) (definitions : List (String × Definition σ)) (m : Model σ) :
    Prop :=
  List.Forall₂ (fun p entry => p.IsBuilt model m.hub entry) m.properties definitions

theorem Model.IsBuilt.realizes {model : Ref .model} {definitions : List (String × Definition σ)}
    {m : Model σ} (built : m.IsBuilt model definitions) : m.Realizes definitions := by
  unfold IsBuilt at built
  unfold Realizes
  generalize m.properties = properties at built ⊢
  induction built with
  | nil => rfl
  | cons first _ ih => rw [List.map_cons, List.map_cons, first.name, first.setter, ih]

/-! ## Laws of models -/

namespace World

def Rows (law : Ref .model → Model σ → Prop) (w : World σ) : Prop :=
  ∀ model m, w.models.get? model = some m → law model m

/-- Models without computed properties are such, and writes leave models such. -/
structure RowLaw (law : Ref .model → Model σ → Prop) : Prop where
  bare : ∀ {model m}, m.properties = [] → law model m
  written : ∀ {model m pending}, law model m →
    (m.MapsAside → ∀ name ∈ Fields.keys pending, m.isComputed name = false) →
    law model { m with store := (m.store.apply pending).1 }
  adopted : ∀ {model m p} value, law model m → m.property? p.name = some p →
    law model (m.adopt p value).1

variable {law : Ref .model → Model σ → Prop} {v w : World σ} {model : Ref .model} {m m' : Model σ}

theorem carries_of_models (same : w.models = v.models) : Carries (Rows law) v w :=
  fun rows model m present => rows model m (same ▸ present)

theorem carries_put (present : w.models.get? model = some m) (row : law model m → law model m') :
    Carries (Rows law) w (w.put model m') := by
  intro rows other found there
  rcases get?_put present there with ⟨rfl, rfl⟩ | ⟨-, was⟩
  · exact row (rows other m present)
  · exact rows other found was

theorem carries_release (handle : Handle) (w : World σ) : Carries (Rows law) w (w.release handle) := by
  intro rows model m present
  cases handle with
  | model other =>
      exact rows model m (get?_retire (w := { w with held := w.held.erase (.model other) }) present)
  | _ => exact rows model m present

namespace RowLaw

variable (lawful : RowLaw law)

include lawful

/-- Rows that are there were there, or have no computed properties. -/
theorem carries_of_rows (rows : ∀ model m, w.models.get? model = some m →
    v.models.get? model = some m ∨ m.properties = []) : Carries (Rows law) v w :=
  fun had model m present => (rows model m present).elim (had model m) lawful.bare

theorem carries_of_leaves (leaves : v.Leaves w) : Carries (Rows law) v w := by
  refine lawful.carries_of_rows fun model m present => ?_
  rcases Nat.lt_or_ge model.index v.models.rows.length with below | beyond
  · exact Or.inl (leaves.row below present)
  · exact Or.inr (leaves.new model m beyond present)

theorem carries_unbindComputed (model : Ref .model) (w : World σ) :
    Carries (Rows law) w (w.unbindComputed model) := by
  refine lawful.carries_of_rows fun other m present => ?_
  obtain ⟨old, was, rfl | ⟨-, rfl⟩⟩ := released_unbindComputed present
  · exact Or.inl was
  · exact Or.inr rfl

/-- What a law says lasts whatever runs. -/
theorem abiding : Abiding (Rows law) where
  apart apart := lawful.carries_of_leaves apart.toLeaves
  marked _ models _ := carries_of_models models
  stored present aside := carries_put present fun row => lawful.written row aside
  adopted present found _ := carries_put present fun row => lawful.adopted _ row found
  unbound := lawful.carries_unbindComputed

end RowLaw

/-- Properties of the model are being bound, so far to these definitions, and all other
models are as the law says.  Nothing of them is stored yet: if the model is there, it stores
what it did. -/
structure BindsTo (law : Ref .model → Model σ → Prop) (model : Ref .model)
    (stored : Option Attributes) (definitions : List (String × Definition σ)) (w : World σ) :
    Prop where
  others : ∀ other m, other ≠ model → w.models.get? other = some m → law other m
  built : ∀ m, w.models.get? model = some m → stored = some m.store ∧ m.IsBuilt model definitions

namespace BindsTo

variable {bound : Option Attributes} {definitions : List (String × Definition σ)}

theorem of_models (binds : v.BindsTo law model bound definitions) (same : w.models = v.models) :
    w.BindsTo law model bound definitions :=
  ⟨same ▸ binds.others, same ▸ binds.built⟩

theorem happen (binds : w.BindsTo law model bound definitions) (happening : Happening) :
    (w.happen happening).BindsTo law model bound definitions :=
  binds.of_models rfl

/-- One more definition is bound. -/
theorem install (binds : w.BindsTo law model bound definitions) (entry : String × Definition σ)
    {p : Property σ} (built : ∀ m, w.models.get? model = some m → p.IsBuilt model m.hub entry) :
    (w.install model p).BindsTo law model bound (definitions ++ [entry]) := by
  constructor
  · intro other m distinct present
    obtain ⟨old, _, was, rfl⟩ := get?_install present
    rw [if_neg distinct]
    exact binds.others other old distinct was
  · intro m present
    obtain ⟨old, _, was, rfl⟩ := get?_install present
    obtain ⟨stored, before⟩ := binds.built old was
    have last := built old was
    rw [if_pos rfl]
    refine ⟨stored, List.rel_append before (.cons ?_ .nil)⟩
    exact ⟨last.name, last.setter, last.depends⟩

/-- The binding fails, and all is released. -/
theorem unbind (lawful : RowLaw law) (binds : w.BindsTo law model bound definitions) :
    (w.unbindComputed model).Rows law := by
  intro other m present
  obtain ⟨old, was, rfl | ⟨-, rfl⟩⟩ := released_unbindComputed present
  · by_cases same : other = model
    · subst same
      exact lawful.bare (properties_unbindComputed present)
    · exact binds.others other m same was
  · exact lawful.bare rfl

/-- With the first write the model is as the law says. -/
theorem write (binds : w.BindsTo law model bound definitions)
    (first : ∀ m : Model σ, bound = some m.store → m.IsBuilt model definitions →
      Graph.findCycle m.dependents = none →
      law model { m with store := (m.store.apply m.initialWrites).1 })
    (present : w.models.get? model = some m) (acyclic : Graph.findCycle m.dependents = none) :
    (w.put model { m with store := (m.store.apply m.initialWrites).1 }).Rows law := by
  obtain ⟨stored, built⟩ := binds.built m present
  intro other found there
  rcases get?_put present there with ⟨rfl, rfl⟩ | ⟨distinct, was⟩
  · exact first m stored built acyclic
  · exact binds.others other found distinct was

end BindsTo

end World

/-! ## Binding -/

namespace Run

variable {law : Ref .model → Model σ → Prop} {s : State σ} {model : Ref .model} {bound : Option Attributes}

/-- All definitions are bound, or binding fails after some. -/
theorem binds_buildAll {done : List (String × Definition σ)} (rest : List (String × Definition σ))
    (binds : s.world.BindsTo law model bound done) :
    (∃ t, (buildAll model rest).result s = (.ok (), t) ∧
      t.world.BindsTo law model bound (done ++ rest)) ∨
    ∃ error t some_, (buildAll model rest).result s = (.error (.failed error), t) ∧
      t.world.BindsTo law model bound some_ := by
  induction rest generalizing s done with
  | nil =>
      refine Or.inl ⟨s, rfl, ?_⟩
      rw [List.append_nil]
      exact binds
  | cons entry rest ih =>
      obtain ⟨name, definition⟩ := entry
      rw [buildAll, ← bind_assoc]
      rcases buildProperty_ends_or model name definition s with
        ⟨error, added, client, plain, failed⟩ | ⟨getter, value, captured, client, given, ⟨asker, reads⟩, built⟩
      · exact Or.inr ⟨error, _, done, result_bind_error (result_bind_error failed),
          binds.of_models rfl⟩
      · rw [result_bind_ok built]
        have installed := (binds.happen (.evaluated model name)).install (name, definition)
          (p := ⟨name, getter, definition.setter, definition.isVirtual, value,
            Collector.recordAll definition.events captured, []⟩) fun m present =>
          ⟨rfl, rfl, fun d among => (Collector.mem_recordAll.mp among).imp_right fun read =>
            ⟨getter, s.world.sight, m.read, asker, given, sight_of_present present,
              reads.symm ▸ read⟩⟩
        have further := ih (s := ⟨_, s.callbacks, client⟩) (installed.happen (.message
          (.computedBound name (Collector.events (Collector.recordAll definition.events captured))
            definition.isVirtual)))
        rwa [List.append_assoc] at further

/-- All definitions are bound, or none is. -/
theorem binds_buildAllOrNone (lawful : World.RowLaw law) (definitions : List (String × Definition σ))
    (binds : s.world.BindsTo law model bound []) :
    (∃ t, (buildAllOrNone model definitions).result s = (.ok (), t) ∧
      t.world.BindsTo law model bound definitions) ∨
    ∃ halt t, (buildAllOrNone model definitions).result s = (.error halt, t) ∧
      t.world.Rows law := by
  have attempted := result_attempt (buildAll model definitions) s
  rw [buildAllOrNone]
  rcases binds_buildAll definitions binds with ⟨t, built, all⟩ | ⟨error, t, some_, failed, partly⟩
  · rw [built] at attempted
    exact Or.inl ⟨t, result_bind_ok attempted, all⟩
  · rw [failed] at attempted
    refine Or.inr ⟨_, _, result_bind_ok attempted, ?_⟩
    exact World.carries_of_models (v := t.world.unbindComputed model) rfl (partly.unbind lawful)

/-- Properties that were bound are refused or stored. -/
theorem binds_conclude (lawful : World.RowLaw law) {definitions : List (String × Definition σ)}
    (binds : s.world.BindsTo law model bound definitions)
    (first : ∀ m : Model σ, bound = some m.store → m.IsBuilt model definitions →
      Graph.findCycle m.dependents = none →
      law model { m with store := (m.store.apply m.initialWrites).1 }) :
    ((do
      refuseCycle model
      match (← world).models.get? model with
      | none => pure .nothing
      | some m => Opening.writeStore model m.initialWrites : Run σ Errand).result s).2.world.Rows
        law := by
  rcases circle : (s.world.models.get? model).bind fun m => Graph.findCycle m.dependents with _ | cycle
  · have passed : (refuseCycle model).result s = (.ok (), s) := by
      rw [refuseCycle, result_world_bind, circle]
      rfl
    rw [result_bind_ok passed, result_world_bind]
    rcases present : s.world.models.get? model with _ | m
    · intro other m there
      refine binds.others other m ?_ there
      rintro rfl
      cases present.symm.trans there
    · rw [Opening.result_writeStore present]
      rw [present] at circle
      exact binds.write first present circle
  · have refused : (refuseCycle model).result s = (.error (.failed (.cyclicDependency cycle)),
        s.alter fun w => ((w.report (.cycleDetected cycle)).unbindComputed model).happen
          (.failed (.cyclicDependency cycle))) := by
      rw [refuseCycle, result_world_bind, circle]
      rfl
    rw [result_bind_error refused]
    exact World.carries_of_models
      (v := (s.world.report (.cycleDetected cycle)).unbindComputed model) rfl
      ((binds.happen (.message (.cycleDetected cycle))).unbind lawful)

/-- Binding leaves all models as the law says, the one that it binds properties of too. -/
theorem rows_bindComputed (lawful : World.RowLaw law) {definitions : List (String × Definition σ)}
    (others : ∀ other m, other ≠ model → s.world.models.get? other = some m → law other m)
    (first : ∀ m : Model σ, (s.world.models.get? model).map (·.store) = some m.store →
      m.IsBuilt model definitions → Graph.findCycle m.dependents = none →
      law model { m with store := (m.store.apply m.initialWrites).1 }) :
    ((Opening.bindComputed model definitions).result s).2.world.Rows law := by
  have began : (((s.world.hold (.model model)).unbindComputed model)).BindsTo law model
      ((s.world.models.get? model).map (·.store)) [] := by
    constructor
    · intro other m distinct present
      obtain ⟨old, was, rfl | ⟨same, -⟩⟩ := World.released_unbindComputed present
      · exact others other m distinct was
      · exact absurd same distinct
    · intro m present
      obtain ⟨old, was, same⟩ := World.released_unbindComputed present
      have there : s.world.models.get? model = some old := was
      have none := World.properties_unbindComputed present
      rw [there]
      refine ⟨?_, by rw [Model.IsBuilt, none]; exact .nil⟩
      rcases same with rfl | ⟨-, rfl⟩ <;> rfl
  have closes : ∀ {opening : Run σ Errand} {t : State σ}, (opening.result t).2.world.Rows law →
      ((Opening.closing (.release (.model model)) opening).result t).2.world.Rows law := by
    intro opening t ends
    rw [Opening.result_closing]
    rcases worked : opening.result t with ⟨halt | settled, u⟩
    · rw [worked] at ends
      exact World.carries_release (.model model) u.world ends
    · rw [worked] at ends
      exact ends
  rw [Opening.bindComputed, Opening.keeping, result_alter_bind]
  refine closes ?_
  rw [result_alter_bind]
  rcases binds_buildAllOrNone lawful definitions (s := (s.alter (.hold (.model model))).alter
    (.unbindComputed model)) began with ⟨t, built, binds⟩ | ⟨halt, t, failed, none⟩
  · rw [result_bind_ok built]
    exact binds_conclude lawful binds first
  · rw [result_bind_error failed]
    exact none

end Run

/-! ## Runs -/

/-- What the law says of models whose properties were bound in the run, and have passed the
check for cycles, holds of all models, wherever the run gets. -/
theorem Trail.rows {law : Ref .model → Model σ → Prop} (lawful : World.RowLaw law)
    {start s : State σ} {past : List (Moment σ)} {awaited : Option (Call σ)}
    (bare : start.world.Rows law) (trail : Trail start past awaited s)
    (first : ∀ moment ∈ past, ∀ model definitions,
      moment.point = .making (.bindComputed model definitions) →
      ∀ m : Model σ, m.IsBuilt model definitions → Graph.findCycle m.dependents = none →
        law model { m with store := (m.store.apply m.initialWrites).1 }) : s.world.Rows law :=
  trail.abides lawful.abiding bare fun moment listed model definitions binding rows =>
    Run.rows_bindComputed lawful (fun other m _ => rows other m) fun m _ =>
      first moment listed model definitions binding m

end LiveBinding
