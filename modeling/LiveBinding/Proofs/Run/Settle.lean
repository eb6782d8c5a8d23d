/-
# LiveBinding.Proofs.Run.Settle -- what planned properties do comes to an end

While nobody but planned properties listens to a hub, an event on it is passed on from
templates to the templates that have them as fields, and these lie lower in rank.  So
dispatches that may nest a little deeper than the rank do not run out, and since a
template can always be rendered nothing fails on the way (`answers_changeOf`).
-/
import LiveBinding.Proofs.Follower.Refresh
import LiveBinding.Proofs.Run.Build

namespace LiveBinding

set_option autoImplicit false

variable {σ : Type}

namespace World

/-- A model that is kept without being held once more stays when that is released. -/
theorem release_kept {w : World σ} {model : Ref .model} {held : List Handle}
    (twice : w.held = .model model :: held)
    (kept : World.keepsModel { w with held := held } model = true) :
    w.release (.model model) = { w with held := held } := by
  have erased : w.held.erase (.model model) = held := by
    rw [twice, List.erase_cons_head]
  rw [release, erased]
  exact if_pos kept

/-- A model that is held twice is still held after it is released once. -/
theorem release_model {w : World σ} {model : Ref .model} {held : List Handle}
    (twice : w.held = .model model :: held) (once : .model model ∈ held) :
    w.release (.model model) = { w with held := held } :=
  release_kept twice (by simp [keepsModel, once])

end World

namespace Run

/-- The work ends well, the client holds what it held, nothing is disturbed, and the
model is as it was planned. -/
def Settles (model : Ref .model) (hub : Ref .hub) (attributes : Attributes) (plans : List Plan)
    (work : Run σ Unit) (s : State σ) : Prop :=
  ∃ t, work.result s = (.ok (), t) ∧ t.world.Private model hub attributes plans ∧
    t.world.held = s.world.held ∧ s.world.Before t.world ∧ s.world.Undisturbed t.world

/-- Events of this name on the hub settle. -/
def Answers (model : Ref .model) (hub : Ref .hub) (attributes : Attributes) (plans : List Plan)
    (fire : Fire σ) (event : String) : Prop :=
  ∀ value (s : State σ), s.world.Private model hub attributes plans →
    Settles model hub attributes plans (fire (.event hub ⟨event, value⟩)) s

variable {model : Ref .model} {hub : Ref .hub} {attributes : Attributes} {plans : List Plan}
  {s : State σ} {fire : Fire σ}

theorem settles_pure (private_ : s.world.Private model hub attributes plans) :
    Settles model hub attributes plans (pure ()) s :=
  ⟨s, rfl, private_, rfl, .refl _, World.undisturbed_of_eq rfl⟩

theorem Settles.bind {work : Run σ Unit} {next : Unit → Run σ Unit}
    (first : Settles model hub attributes plans work s)
    (rest : ∀ t : State σ, t.world.Private model hub attributes plans →
      Settles model hub attributes plans (next ()) t) :
    Settles model hub attributes plans (work >>= next) s := by
  obtain ⟨t, ended, private_, held, before, calm⟩ := first
  obtain ⟨u, endedThen, privateThen, heldThen, beforeThen, calmThen⟩ := rest t private_
  exact ⟨u, (result_bind_ok ended).trans endedThen, privateThen, heldThen.trans held,
    before.trans beforeThen, calm.trans before beforeThen calmThen⟩

/-- Something that is no disturbance is noted first. -/
theorem Settles.after_happen {work work' : Run σ Unit} {happening : Happening}
    (same : work'.result s = work.result (s.alter (.happen happening)))
    (quiet : ¬ happening.IsFailed) (unbound : ¬ (happening.IsBound ∨ happening.IsUnbound))
    (settles : Settles model hub attributes plans work (s.alter (.happen happening))) :
    Settles model hub attributes plans work' s := by
  obtain ⟨t, ended, private_, held, before, calm⟩ := settles
  have noted := World.before_happen happening s.world
  exact ⟨t, same.trans ended, private_, held, noted.trans before,
    (World.undisturbed_happen _ _ quiet unbound).trans noted before calm⟩

/-- The model is held meanwhile. -/
theorem Settles.keeping {work : Run σ Unit} (held : .model model ∈ s.world.held)
    (settles : Settles model hub attributes plans work (s.alter (.hold (.model model)))) :
    Settles model hub attributes plans (keeping (.model model) work) s := by
  obtain ⟨t, ended, ⟨row, heard, -⟩, twice, before, calm⟩ := settles
  refine ⟨t.alter (.release (.model model)), ?_, ?_⟩
  · rw [result_keeping, result_lastly, ended]
  · rw [State.alter_world, World.release_model twice held]
    exact ⟨⟨row, heard, held⟩, rfl, before, calm⟩

/-! ## Announcing -/

theorem announce_settles (changes : List (String × Json))
    (private_ : s.world.Private model hub attributes plans)
    (each : ∀ change ∈ changes, Answers model hub attributes plans fire (changeOf change.1))
    (all : Answers model hub attributes plans fire changeEvent) :
    Settles model hub attributes plans (announce fire hub changes) s := by
  have eachOf : ∀ (changes : List (String × Json)) (s : State σ),
      (∀ change ∈ changes, Answers model hub attributes plans fire (changeOf change.1)) →
      s.world.Private model hub attributes plans → Settles model hub attributes plans
        (changes.forM fun change => fire (.event hub ⟨changeOf change.1, change.2⟩)) s := by
    intro changes
    induction changes with
    | nil => exact fun s _ => settles_pure
    | cons change rest ih =>
        intro s each private_
        refine (each change List.mem_cons_self change.2 s private_).bind fun t => ?_
        exact ih t fun other later => each other (List.mem_cons_of_mem _ later)
  refine (eachOf changes s each private_).bind fun t private_ => ?_
  split
  · exact all _ t private_
  · exact settles_pure private_

/-! ## Refreshing -/

/-- The model stays planned with a new value of a property. -/
theorem planned_adopt {m : Model σ} (planned : m.Planned attributes plans) {p : Property σ}
    (listed : p ∈ m.properties) (value : Json) : (m.adopt p value).1.Planned attributes plans := by
  refine planned.of_sameShape (Model.sameShape_adopt p value m) fun name unplanned => ?_
  refine Model.get?_adopt_ne (fun same => unplanned ?_) value m
  rw [same, ← planned.names]
  exact List.mem_map_of_mem listed

theorem publish_settles {m : Model σ} {p : Property σ} {value : Json}
    (private_ : s.world.Private model hub attributes plans)
    (present : s.world.models.get? model = some m) (listed : p ∈ m.properties)
    (each : Answers model hub attributes plans fire (changeOf p.name))
    (all : Answers model hub attributes plans fire changeEvent) :
    Settles model hub attributes plans (do
      alter fun w => { w with models := w.models.update model (.setValue p.name value) }
      publish fire model m.hub p value) s := by
  obtain ⟨⟨m', present', rfl, planned⟩, heard, held⟩ := private_
  rw [present] at present'
  cases present'
  have adopted : (s.alter (publishing model (m.adopt p value).1
      (.computedUpdated p.name p.isVirtual))).world.Private model m.hub attributes plans := by
    refine ⟨⟨(m.adopt p value).1, World.get?_put_self ?_, ?_, planned_adopt planned listed value⟩,
      heard, held⟩
    · rw [present]
      rfl
    · exact (Model.sameShape_adopt p value m).1
  obtain ⟨t, ended, ⟨row, heard, held⟩, same, before, calm⟩ :=
    announce_settles (m.adopt p value).2 adopted (fun change announced => by
      rw [Model.adopted_mem announced]
      exact each) all
  have noted : s.world.Before (s.alter (publishing model (m.adopt p value).1
      (.computedUpdated p.name p.isVirtual))).world := World.before_happen _ _
  refine ⟨t.alter fun w => { w with spans := s.world.spans }, ?_, ⟨row, heard, held⟩, same,
    noted.trans before, ?_⟩
  · rw [result_publish present, result_lastly, ended]
  · refine World.Undisturbed.trans noted before ?_ calm
    exact World.undisturbed_happen (.message (.computedUpdated p.name p.isVirtual)) _ id nofun

theorem refresh_settles {name : String} (private_ : s.world.Private model hub attributes plans)
    (each : Answers model hub attributes plans fire (changeOf name))
    (all : Answers model hub attributes plans fire changeEvent) :
    Settles model hub attributes plans (refresh fire model name) s := by
  obtain ⟨m, present, rfl, planned⟩ := private_.row
  rcases found : m.property? name with _ | p
  · have nothing : (refresh fire model name).result s = (pure () : Run σ Unit).result s := by
      rw [refresh, result_world_bind, present]
      dsimp only
      rw [found]
    obtain ⟨t, ended, facts⟩ := settles_pure private_
    exact ⟨t, nothing.trans ended, facts⟩
  obtain rfl := Model.name_of_property? found
  obtain ⟨plan, -, is⟩ := planned.mem (Model.mem_of_property? found)
  have gives : p.getter.Gives m.read plan.template.fields
      (.ok (.text (plan.template.render m.read))) := by
    rw [is.getter]
    exact plan.template.getter_gives
  have evaluated := result_evaluate (s := s.alter (.hold (.model model))) p.name present gives false
  obtain ⟨t, ended, facts⟩ : Settles model m.hub attributes plans (keeping (.model model) do
      let result ← evaluate model p.name p.getter false
      if isSettled p.value result.1 then pure ()
      else
        alter fun w => { w with models := w.models.update model (.setValue p.name result.1) }
        publish fire model m.hub p result.1) s := by
    have noted : ((s.alter (.hold (.model model))).alter
        (.happen (.evaluated model p.name))).world.Private model m.hub attributes plans :=
      ⟨private_.row, private_.heard, List.mem_cons_self⟩
    refine Settles.keeping private_.held
      (Settles.after_happen (result_bind_ok evaluated) id (fun saw => saw.elim id id) ?_)
    dsimp only
    split
    · exact settles_pure noted
    · exact publish_settles noted present (Model.mem_of_property? found) each all
  refine ⟨t, ?_, facts⟩
  rw [refresh, result_world_bind, present]
  dsimp only
  rw [found]
  exact ended

/-! ## Dispatching -/

theorem deliver_settles {signal : Signal} {began : Nat} {listeners : List (Nat × Reaction)}
    (private_ : s.world.Private model hub attributes plans)
    (each : ∀ l ∈ listeners, ∃ name, l.2 = .refresh model name ∧
      Answers model hub attributes plans fire (changeOf name) ∧
      Answers model hub attributes plans fire changeEvent) :
    Settles model hub attributes plans (deliver fire signal began listeners) s := by
  induction listeners generalizing s with
  | nil => exact settles_pure private_
  | cons listener rest ih =>
      obtain ⟨number, reaction⟩ := listener
      obtain ⟨name, rfl, answers, all⟩ := each _ List.mem_cons_self
      have others : ∀ t : State σ, t.world.Private model hub attributes plans →
          Settles model hub attributes plans (deliver fire signal began rest) t :=
        fun t private_ => ih private_ fun l later => each l (List.mem_cons_of_mem _ later)
      by_cases registered : isRegistered s.world signal number = true
      · have noted : (s.alter (.happen (.called began number))).world.Private
            model hub attributes plans := ⟨private_.row, private_.heard, private_.held⟩
        have called : Settles model hub attributes plans (do
            refresh fire model name
            deliver fire signal began rest) (s.alter (.happen (.called began number))) :=
          (refresh_settles noted answers all).bind others
        refine called.after_happen ?_ id (fun saw => saw.elim id id)
        rw [deliver, result_world_bind, if_pos registered]
        rfl
      · obtain ⟨t, ended, facts⟩ := others s private_
        refine ⟨t, ?_, facts⟩
        rw [deliver, result_world_bind, if_neg registered]
        exact ended

/-- What a dispatch on the hub calls is refreshing of properties that have the event in
their templates. -/
theorem listeners_planned {event : String} {value : Json}
    (private_ : s.world.Private model hub attributes plans) {l : Nat × Reaction}
    (called : l ∈ listeners s.world (.event hub ⟨event, value⟩)) :
    ∃ plan ∈ plans, ∃ field ∈ plan.template.fields,
      event = changeOf field ∧ l.2 = .refresh model plan.name := by
  obtain ⟨h, there, heard⟩ := private_.heard
  simp only [listeners, there] at called
  obtain ⟨listener, listed, rfl⟩ := List.mem_map.mp called
  obtain ⟨on, same⟩ := List.mem_filter.mp listed
  obtain ⟨plan, among, field, has, named, reacts⟩ := heard listener on
  have event_ : listener.event = event := of_decide_eq_true same
  exact ⟨plan, among, field, has, by rw [← event_, named], reacts⟩

theorem result_dispatch (depth : Nat) (signal : Signal) (s : State σ) :
    (dispatch (depth + 1) signal).result s =
      (deliver (dispatch depth) signal s.world.journal.length (listeners s.world signal)).result
        (s.alter (.happen (.dispatched signal))) := by
  rw [dispatch, result_world_bind, result_alter_bind]

theorem answers_succ {event : String} {depth : Nat}
    (each : ∀ plan ∈ plans, ∀ field ∈ plan.template.fields, event = changeOf field →
      Answers model hub attributes plans (dispatch (σ := σ) depth) (changeOf plan.name) ∧
        Answers model hub attributes plans (dispatch (σ := σ) depth) changeEvent) :
    Answers model hub attributes plans (dispatch (σ := σ) (depth + 1)) event := by
  intro value s private_
  have noted : (s.alter (.happen (.dispatched (.event hub ⟨event, value⟩)))).world.Private
      model hub attributes plans := ⟨private_.row, private_.heard, private_.held⟩
  refine Settles.after_happen (result_dispatch depth _ s) id nofun (deliver_settles noted ?_)
  intro l called
  obtain ⟨plan, among, field, has, same, reacts⟩ := listeners_planned private_ called
  exact ⟨plan.name, reacts, each plan among field has same⟩

/-- No template has to do with changes as such. -/
theorem answers_changeEvent (depth : Nat) :
    Answers model hub attributes plans (dispatch (σ := σ) (depth + 1)) changeEvent :=
  answers_succ fun _ _ field _ same => absurd same.symm (changeOf_ne_changeEvent field)

/-- A change of a name settles when dispatches may nest as deep as its rank, and two
more: one for the name itself, and one for the change as such of what comes last. -/
theorem answers_changeOf {rank : String → Nat}
    (rises : ∀ plan ∈ plans, ∀ field ∈ plan.template.fields, rank plan.name < rank field)
    {depth : Nat} {name : String} (deep : rank name + 2 ≤ depth) :
    Answers model hub attributes plans (dispatch (σ := σ) depth) (changeOf name) := by
  induction depth generalizing name with
  | zero => omega
  | succ depth ih =>
      refine answers_succ fun plan among field has same => ?_
      have lower := rises plan among field has
      rw [← changeOf_injective same] at lower
      refine ⟨ih (by omega), ?_⟩
      obtain ⟨depth, rfl⟩ : ∃ less, depth = less + 1 := ⟨depth - 1, by omega⟩
      exact answers_changeEvent depth

end Run

end LiveBinding
