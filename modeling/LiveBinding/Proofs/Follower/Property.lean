/-
# LiveBinding.Proofs.Follower.Property -- computed properties follow their models

A property of a regular model is brought in step by refreshing it, and hears of
every name that its getter asks for, since those are its dependencies.  It may
even ask for its own name: then the announcement of its new value is the event
that is still to come.
-/
import LiveBinding.Proofs.Follower.Sound

namespace LiveBinding

set_option autoImplicit false

variable {σ α : Type}

namespace Follower

/-- A property of a model that has the shape of `m`. -/
def ofProperty (model : Ref .model) (m : Model σ) (p : Property σ) : Follower σ where
  ready _ w := w.Sound ∧ model.index < w.models.rows.length ∧
    ∀ m', w.models.get? model = some m' → m.SameShape m'
  fresh w := ∀ m', w.models.get? model = some m' → ∀ p', m'.property? p.name = some p' → p'.IsFresh m'
  own reaction := reaction = .refresh model p.name
  subscriptions := p.subscriptions
  attendances := []
  tolerates _ _ := True
  permits _ := True
  disturbs happening := happening.IsBound ∨ happening.IsUnbound

variable {model : Ref .model} {m : Model σ} {p : Property σ} {held : List Handle} {s t : State σ}
  {fire : Fire σ}

theorem ofProperty_allows (program : Program σ) : program.Only (ofProperty model m p).permits :=
  only_of_all (fun _ => trivial) program

/-- In a sound world a property is ready, whatever is subscribed. -/
theorem ofProperty_ready (sound : s.world.Sound) (present : s.world.models.get? model = some m) :
    (ofProperty model m p).Ready held s := by
  refine ⟨⟨sound, Table.lt_of_get? present, fun m' again => ?_⟩, fun _ _ _ => ofProperty_allows _⟩
  rw [present] at again
  cases again
  exact .refl m

/-! ## What leaves models alone -/

theorem ofProperty_keeps {v w : World σ} (leaves : v.Leaves w) :
    (ofProperty model m p).Keeps v w := by
  rintro _ ⟨sound, issued, shape⟩
  exact ⟨⟨leaves.sound sound, Nat.lt_of_lt_of_le issued leaves.issued,
    fun m' present => shape m' (leaves.row issued present)⟩,
    fun fresh m' present => fresh m' (leaves.row issued present)⟩

theorem ofProperty_takes_leaves {work : Run σ α} (leaves : Run.Follows State.Leaves work s) :
    Run.Follows ((ofProperty model m p).Takes (ofProperty model m p).fresh
      (ofProperty model m p).fresh) work s :=
  leaves.mono fun _ _ leaves _ ready _ => by
    obtain ⟨ready', still⟩ := ofProperty_keeps leaves ready.1
    exact ⟨⟨ready', fun _ _ _ => ofProperty_allows _⟩, fun _ => still⟩

theorem ofProperty_takes_apart {work : Run σ α} (apart : Run.Follows State.Apart work s) :
    Run.Follows ((ofProperty model m p).Takes (ofProperty model m p).fresh
      (ofProperty model m p).fresh) work s :=
  ofProperty_takes_leaves (apart.mono fun _ _ apart => apart.1.toLeaves)

/-! ## What changes a model -/

/-- Another row of the same shape keeps the property ready. -/
theorem ofProperty_put {w : World σ} {other : Ref .model} {m' m'' : Model σ}
    (present : w.models.get? other = some m') (same : m'.SameShape m'')
    (sound : (w.put other m'').Sound) (ready : (ofProperty model m p).ready held w) :
    (ofProperty model m p).ready held (w.put other m'') := by
  obtain ⟨-, issued, shape⟩ := ready
  refine ⟨sound, by simpa [World.put, Table.update] using issued, fun found there => ?_⟩
  rcases World.get?_put present there with ⟨rfl, rfl⟩ | ⟨-, was⟩
  · exact (shape m' present).trans same
  · exact shape found was

/-- A property hears of all that its getter asks for. -/
theorem ofProperty_hears {w : World σ} {m' : Model σ} {p' : Property σ}
    (ready : (ofProperty model m p).ready held w) (present : w.models.get? model = some m')
    (regular : m.IsRegular) (admits : m.Admits p) (found : m'.property? p.name = some p') :
    ∃ names, p'.getter.Asks names ∧
      ∀ name ∈ names, (ofProperty model m p).Hears m'.hub (changeOf name) := by
  obtain ⟨sound, -, shape⟩ := ready
  have regular' := (shape m' present).isRegular regular
  obtain ⟨names, asks⟩ := regular'.asks p' (Model.mem_of_property? found)
  refine ⟨names, asks, fun name among => ?_⟩
  have wired := (sound.wired.models model m' present).properties p' (Model.mem_of_property? found)
  have same : p'.subscriptions = p.subscriptions :=
    Property.subscriptions_of_shape (admits.shape_of_property? (shape m' present) found)
  have hears := wired.hears asks among
  rw [same] at hears
  exact hears

theorem ofProperty_robust (model : Ref .model) (regular : m.IsRegular) (admits : m.Admits p) :
    (ofProperty model m p).Robust where
  registered := by
    rintro _ w ⟨sound, -, shape⟩ behind sub among
    refine ⟨_, rfl, ?_⟩
    obtain ⟨m', present, p', found⟩ : ∃ m', w.models.get? model = some m' ∧
        ∃ p', m'.property? p.name = some p' := by
      refine Classical.byContradiction fun gone => behind fun m' present p' found => ?_
      exact absurd ⟨m', present, p', found⟩ gone
    have same := admits.shape_of_property? (shape m' present) found
    have wired := (sound.wired.models model m' present).properties p'
      (Model.mem_of_property? found)
    rw [← Property.name_of_shape same]
    exact wired.registered sub (by rw [Property.subscriptions_of_shape same]; exact among)
  attended _ _ _ none := nomatch none
  marked hubs models _ bindings _ _ := ofProperty_keeps (.of_tables hubs models bindings)
  held handle _ w ready := ofProperty_keeps (World.apart_hold handle w).toLeaves ready
  released handle _ w ready := ofProperty_keeps (World.apart_release handle w).toLeaves ready
  subscribed hub event callback w :=
    ofProperty_keeps (World.apart_subscribe hub event callback w).toLeaves
  listened document element callback w :=
    ofProperty_keeps (World.apart_listen document element (.client callback) w).toLeaves
  stored := by
    intro _ w other m' pending present plain ready
    refine ⟨ofProperty_put present (Model.sameShape_store _ m')
      (World.sound_put_store ready.1 present fun regular => plain regular.maps) ready,
      fun fresh => ?_⟩
    by_cases hears : (ofProperty model m p).HearsOneOf m'.hub (m'.store.apply pending).2
    · exact Or.inr hears
    · refine Or.inl fun found there p' computed => ?_
      rcases World.get?_put present there with ⟨rfl, rfl⟩ | ⟨-, was⟩
      · obtain ⟨names, asks, heard⟩ := ofProperty_hears ready present regular admits computed
        refine (fresh m' present p' computed).congr asks rfl rfl fun name among => ?_
        refine Model.read_apply_of_unreported fun change reported same => hears ?_
        subst same
        exact ⟨change, reported, heard _ among⟩
      · exact fresh found was p' computed
  adopted := by
    intro _ w other m' q value present found scalar moved notSelf ready
    refine ⟨ofProperty_put present (Model.sameShape_adopt q value m')
      (World.sound_put_adopt ready.1 present found scalar) ready, fun fresh => ?_⟩
    by_cases hears : (ofProperty model m p).HearsOneOf m'.hub (m'.adopt q value).2
    · exact Or.inr hears
    · refine Or.inl fun found' there p' computed => ?_
      rcases World.get?_put present there with ⟨rfl, rfl⟩ | ⟨-, was⟩
      · have distinct : p.name ≠ q.name := by
          intro same
          exact notSelf (by rw [← same]; rfl)
        rw [Model.property?_adopt_ne distinct] at computed
        obtain ⟨names, asks, heard⟩ := ofProperty_hears ready present regular admits computed
        refine (fresh m' present p' computed).congr asks rfl rfl fun name among => ?_
        refine Model.read_adopt_ne (fun same => hears ?_) value m'
        -- what it asks for is announced, since the store did not lag behind
        subst same
        have regular' := (ready.2.2 m' present).isRegular regular
        have announced := Model.adopt_announces (ready.1.stored _ m' present regular') found
          (scalar regular') moved
        exact ⟨_, announced, heard _ among⟩
      · exact fresh found' was p' computed

/-! ## Refreshing -/

/-- What a regular property is evaluated to is what it is fresh with. -/
theorem answered_isFresh {w : World σ} {m' : Model σ} {q : Property σ} {value : Json}
    {capturing : Bool} {client : σ} {captured : Collector} (regular : m'.IsRegular)
    (listed : q ∈ m'.properties) (present : w.models.get? model = some m')
    (answered : (q.getter.run w.sight model capturing client captured).outcome = .ok value) :
    value.isScalar = true ∧ ∀ {p'' : Property σ}, p''.getter = q.getter →
      Json.same p''.value value = true → p''.IsFresh m' := by
  obtain ⟨names, asks⟩ := regular.asks q listed
  obtain ⟨asked, outcome, gives, -, scalar⟩ := asks m'.read
  rw [gives.run_eq (Run.sight_of_present present)] at answered
  cases answered
  refine ⟨scalar value rfl, fun getter same => ⟨asked, value, ?_, same⟩⟩
  rw [getter]
  exact gives

theorem ofProperty_renewed (regular : m.IsRegular) (admits : m.Admits p)
    (attentive : (ofProperty model m p).Attentive fire) :
    Run.Follows ((ofProperty model m p).Takes (fun _ => True) (ofProperty model m p).fresh)
      (Run.refresh fire model p.name) s := by
  have robust := ofProperty_robust model regular admits
  -- when the model or the property is gone there is nothing to be behind
  have nothing : ∀ t : State σ,
      (∀ {held}, (ofProperty model m p).ready held t.world → (ofProperty model m p).fresh t.world) →
      Run.Follows ((ofProperty model m p).Takes (fun _ => True) (ofProperty model m p).fresh)
        (pure ()) t := by
    intro t fresh ended u worked _
    cases worked
    exact ⟨.refl _, fun _ ready _ => ⟨ready, fun _ _ => fresh ready.1⟩, by rintro _ ⟨⟩⟩
  refine Run.Follows.world_bind ?_
  split
  · rename_i gone
    refine nothing s fun _ m' present => ?_
    rw [gone] at present
    cases present
  · rename_i m' present
    split
    · rename_i none
      refine nothing s fun _ m'' present' p' computed => ?_
      rw [present] at present'
      cases present'
      rw [none] at computed
      cases computed
    · rename_i p' found
      have named := Model.name_of_property? found
      rw [← named]
      refine takes_keeping_of robust (Q := fun _ => True) (fun _ _ => trivial) ?_
      refine takes_bind (Q := fun _ => True) ((takes_evaluate robust _ _ _ _).mono
        fun _ _ takes _ ready calm => ⟨(takes ready calm).1, fun _ _ => trivial⟩) ?_
      intro given t evaluated
      obtain ⟨world, -, answered, -⟩ := Run.evaluate_ok evaluated
      have present' : t.world.models.get? model = some m' := by
        rw [world]
        exact present
      split
      · rename_i settled
        refine nothing t fun ready m'' there p'' computed => ?_
        rw [present'] at there
        cases there
        rw [found] at computed
        cases computed
        have regular' := (ready.2.2 m' present').isRegular regular
        refine (answered_isFresh regular' (Model.mem_of_property? found) present answered).2 rfl ?_
        simp only [Run.isSettled, Bool.and_eq_true] at settled
        exact settled.2
      · rename_i moved
        refine takes_publish robust attentive present' fun ready => ?_
        have regular' := (ready.2.2 m' present').isRegular regular
        obtain ⟨scalar, fresh⟩ :=
          answered_isFresh regular' (Model.mem_of_property? found) present answered
        rw [← named] at found
        refine ⟨ofProperty_put present' (Model.sameShape_adopt p' given.1 m')
          (World.sound_put_adopt ready.1 present' found fun _ => scalar) ready, fun _ => ?_⟩
        by_cases hears : (ofProperty model m p).HearsOneOf m'.hub (m'.adopt p' given.1).2
        · exact Or.inr hears
        · refine Or.inl fun found' there p'' computed => ?_
          rcases World.get?_put present' there with ⟨-, rfl⟩ | ⟨other, -⟩
          · rw [← named, Model.property?_adopt_self found] at computed
            cases computed
            rw [named] at found
            obtain ⟨names, asks, heard⟩ := ofProperty_hears ready present' regular admits found
            have freshNow : Property.IsFresh m' { p' with value := given.1 } :=
              fresh rfl (Json.same_refl scalar)
            refine freshNow.congr asks rfl rfl fun name among => ?_
            refine Model.read_adopt_ne (fun same => hears ?_) given.1 m'
            -- a property that asks for itself hears its own announcement
            subst same
            rw [← named] at found
            exact ⟨_, Model.adopt_announces (ready.1.stored _ m' present' regular') found scalar
              (by simpa using moved), heard _ among⟩
          · exact absurd rfl other

/-! ## Binding and releasing in vain -/

/-- Releasing properties is a disturbance, unless there are none. -/
theorem ofProperty_takes_unbind (other : Ref .model) :
    (ofProperty model m p).Takes (ofProperty model m p).fresh (ofProperty model m p).fresh s
      (s.alter (.unbindComputed other)) := by
  intro _ ready calm
  rcases World.unbindComputed_noted other s.world with same | noted
  · rw [Ready, State.alter_world, same]
    exact ⟨ready, fun _ => id⟩
  · obtain ⟨entry, added, unbound⟩ := noted
    exact absurd ⟨entry, added, Or.inr unbound⟩ calm

/-- What comes after a disturbance does not matter. -/
theorem takes_of_saw {f : Follower σ} {P Q : World σ → Prop} {kind : Happening → Prop}
    {u : State σ} (disturbing : ∀ happening, kind happening → f.disturbs happening)
    (before : s.world.Before t.world) (beforeThen : t.world.Before u.world)
    (saw : s.world.Saw kind t.world) : f.Takes P Q s u := by
  intro _ _ calm
  obtain ⟨entry, added, found⟩ := saw
  exact absurd ((World.saw_trans before beforeThen).mpr
    (Or.inl ⟨entry, added, disturbing _ found⟩)) calm

/-- Work after which properties are seen to be bound takes the property along,
whatever is done next. -/
theorem takes_bind_of_saw {β : Type} {work : Run σ α} {next : α → Run σ β}
    {A : State σ → State σ → Prop} (first : Run.Follows A work s)
    (saw : ∀ a t, work.result s = (.ok a, t) → s.world.Saw Happening.IsBound t.world)
    (stop : ∀ error t, work.result s = (.error (.failed error), t) → A s t →
      (ofProperty model m p).Takes (ofProperty model m p).fresh (ofProperty model m p).fresh s t)
    (rest : ∀ a t, work.result s = (.ok a, t) → Run.Follows (fun _ _ => True) (next a) t) :
    Run.Follows ((ofProperty model m p).Takes (ofProperty model m p).fresh
      (ofProperty model m p).fresh) (work >>= next) s := by
  intro ended u worked deep
  have whole : Run.Follows (fun _ _ => True) (work >>= next) s :=
    first.bind_of rest (fun _ _ _ _ _ => trivial) fun _ _ _ _ _ _ => trivial
  obtain ⟨before, -, noted⟩ := whole ended u worked deep
  refine ⟨before, ?_, noted⟩
  rcases part : work.result s with ⟨halt | a, t⟩
  · rw [Run.result_bind_error part] at worked
    cases worked
    cases halt with
    | failed error => exact stop error _ part (first _ _ part (by simp)).2.1
    | exhausted => exact absurd rfl deep
  · rw [Run.result_bind_ok part] at worked
    exact takes_of_saw (fun _ => Or.inl) (first _ _ part (by simp)).1
      (rest a t part ended u worked deep).1 (saw a t part)

theorem ofProperty_takes_buildAll (other : Ref .model)
    (definitions : List (String × Definition σ)) :
    Run.Follows ((ofProperty model m p).Takes (ofProperty model m p).fresh
      (ofProperty model m p).fresh) (Run.buildAll other definitions) s := by
  cases definitions with
  | nil => exact ((ofProperty model m p).onward _).follows_pure _
  | cons entry rest =>
      refine takes_bind_of_saw (Run.leaves_buildProperty entry.2)
        (fun _ _ built => (Run.buildProperty_ok built).1) (fun error t failed apart => ?_)
        fun q t _ => ?_
      · exact (ofProperty_takes_leaves (Run.leaves_buildProperty entry.2) _ _ failed (by simp)).2.1
      · exact Run.Follows.alter_bind (World.before_of_eq rfl) (Run.buildAll_builds rest)
          fun _ _ => trivial

theorem ofProperty_takes_buildAllOrNone (regular : m.IsRegular) (admits : m.Admits p)
    (other : Ref .model) (definitions : List (String × Definition σ)) :
    Run.Follows ((ofProperty model m p).Takes (ofProperty model m p).fresh
      (ofProperty model m p).fresh) (Run.buildAllOrNone other definitions) s := by
  have onward := (ofProperty model m p).onward (ofProperty model m p).fresh
  refine onward.bind (ofProperty_takes_buildAll other definitions).attempt fun ended t _ => ?_
  split
  · exact onward.follows_pure _
  · exact onward.alter_bind (World.before_unbindComputed _ _) (ofProperty_takes_unbind other)
      (takes_fail (ofProperty_robust model regular admits) _ _ _)

theorem ofProperty_takes_refuseCycle (regular : m.IsRegular) (admits : m.Admits p)
    (other : Ref .model) :
    Run.Follows ((ofProperty model m p).Takes (ofProperty model m p).fresh
      (ofProperty model m p).fresh) (Run.refuseCycle other) s := by
  have onward := (ofProperty model m p).onward (ofProperty model m p).fresh
  have robust := ofProperty_robust model regular admits
  refine Run.Follows.world_bind ?_
  split
  · exact onward.follows_pure _
  · refine onward.bind (takes_report robust _) fun _ t _ => ?_
    exact onward.alter_bind (World.before_unbindComputed _ _) (ofProperty_takes_unbind other)
      (takes_fail robust _ _ _)

/-- Storing first values and announcing them goes on, whatever they are. -/
theorem goes_writeStore {f : Follower σ} (attentive : f.Attentive fire) (other : Ref .model)
    (pending : Attributes) : Run.Follows (fun _ _ => True) (Run.writeStore fire other pending) s := by
  refine Run.Follows.world_bind ?_
  split
  · intro ended t worked _
    cases worked
    exact ⟨.refl _, trivial, by rintro _ ⟨⟩⟩
  · exact Run.Follows.alter_bind (World.before_of_eq rfl) (takes_announce attentive _ _)
      fun _ _ => trivial

/-- Binding computed properties takes the property along, unless some are bound or
released. -/
theorem ofProperty_takes_bindComputed (regular : m.IsRegular) (admits : m.Admits p)
    (attentive : (ofProperty model m p).Attentive fire) (other : Ref .model)
    (definitions : List (String × Definition σ)) :
    Run.Follows ((ofProperty model m p).Takes (ofProperty model m p).fresh
      (ofProperty model m p).fresh) (Run.bindComputed fire other definitions) s := by
  have onward := (ofProperty model m p).onward (ofProperty model m p).fresh
  have robust := ofProperty_robust model regular admits
  refine takes_keeping robust ?_
  refine onward.alter_bind (World.before_unbindComputed _ _) (ofProperty_takes_unbind other) ?_
  cases definitions with
  | nil =>
      have bare : ∀ m', ((s.alter (.hold (.model other))).alter
          (.unbindComputed other)).world.models.get? other = some m' → m'.properties = [] :=
        fun m' => World.properties_unbindComputed
      refine onward.bind (ofProperty_takes_buildAllOrNone regular admits other []) fun _ t built => ?_
      cases built
      refine onward.bind (ofProperty_takes_refuseCycle regular admits other) fun _ t refused => ?_
      have same := Run.refuseCycle_ok refused
      subst same
      refine Run.Follows.world_bind ?_
      split
      · exact onward.follows_pure _
      · rename_i m' present
        refine takes_writeStore robust attentive other m'.initialWrites fun _ _ _ name among => ?_
        rw [Model.initialWrites, bare m' present] at among
        cases among
  | cons entry rest =>
      refine takes_bind_of_saw (Run.buildAllOrNone_builds (entry :: rest))
        (fun _ _ built => Run.buildAllOrNone_saw built) (fun error t failed _ => ?_)
        fun _ t _ => ?_
      · exact (ofProperty_takes_buildAllOrNone regular admits other (entry :: rest) _ _ failed
          (by simp)).2.1
      · refine Run.refuseCycle_builds.bind_of (B := fun _ _ => True) (fun _ t _ => ?_)
          (fun _ _ _ _ _ => trivial) fun _ _ _ _ _ _ => trivial
        refine Run.Follows.world_bind ?_
        split
        · intro ended u worked _
          cases worked
          exact ⟨.refl _, trivial, by rintro _ ⟨⟩⟩
        · exact goes_writeStore attentive other _

theorem ofProperty_lawful (regular : m.IsRegular) (admits : m.Admits p) :
    (ofProperty model m p).Lawful where
  toRobust := ofProperty_robust model regular admits
  renewed attentive own event s := by
    cases own
    exact ofProperty_renewed regular admits attentive
  tolerant _ _ := trivial
  typed _ ready := by
    obtain ⟨ready', still⟩ := ofProperty_keeps (World.apart_editDocument _ _ _).toLeaves ready
    exact ⟨ready', fun fresh => Or.inl (still fresh)⟩
  reapplied binding slot event s _ _ := ofProperty_takes_apart (Run.apart_reapply binding slot event)
  called {fire call} attentive _ silent s := by
    by_cases plain : call.computes = false
    · exact ofProperty_takes_apart (Run.apart_perform silent plain)
    · cases call with
      | bindComputed other definitions =>
          exact (ofProperty_takes_bindComputed regular admits attentive other definitions).attempt
      | unbindComputed other =>
          exact Run.follows_alter (World.before_unbindComputed _ _) (ofProperty_takes_unbind other)
      | _ => exact absurd rfl plain

theorem attentive_ofProperty (regular : m.IsRegular) (admits : m.Admits p) (depth : Nat) :
    (ofProperty model m p).Attentive (Run.dispatch depth) :=
  attentive_of_open (ofProperty_lawful regular admits) (fun _ => trivial) (fun _ _ => trivial) depth

end Follower

end LiveBinding
