/-
# LiveBinding.Proofs.World.Bound -- how long a property is bound

A property is bound as long as its name means it in its model, whatever its value is by then
(`World.Binds`).  It listens for as long and no longer: while it is bound all of its
subscriptions are registered, and once it is released they are gone from their hubs and
never come back, since no hub gives an identifier out twice (`Gone`).

Each step of the world leaves a property bound or ends its subscriptions (`binds_step`), and
what is bound after it and was listening before it was bound before it (`bound_step`).  So
from a world to any later one a property that was bound still is, or is gone for good, and
one that is bound was bound if it was listening (`World.PropertiesLast`).
-/
import LiveBinding.Proofs.World.Owed

namespace LiveBinding

set_option autoImplicit false

variable {σ : Type}

def Gone (hubs : Hubs) (s : Subscription) : Prop :=
  ∃ hub, hubs.get? s.hub = some hub ∧ s.id < hub.nextId ∧ hub.isRegistered s.id = false

namespace Gone

variable {hubs hubs' : Hubs} {s : Subscription} {reaction : Reaction}

/-- What is gone stays so. -/
theorem lasts (gone : Gone hubs s) (lasts : Lasts hubs hubs') : Gone hubs' s := by
  obtain ⟨hub, present, old, ended⟩ := gone
  obtain ⟨hub', present', more, -⟩ := lasts.known s.hub hub present
  refine ⟨hub', present', Nat.lt_of_lt_of_le old more, ?_⟩
  rw [Bool.eq_false_iff]
  intro registered
  rw [lasts.isRegistered present present' old registered] at ended
  cases ended

/-- Who was registered and is not any more is gone. -/
theorem of_ended (lasts : Lasts hubs hubs') (ordered : Ordered hubs)
    (was : Registered hubs s reaction) (ended : ¬ Registered hubs' s reaction) :
    Gone hubs' s := by
  have registered := was
  obtain ⟨hub, present, listed⟩ := was
  obtain ⟨hub', present', more, -⟩ := lasts.known s.hub hub present
  refine ⟨hub', present', Nat.lt_of_lt_of_le ((ordered s.hub hub present).below _ listed) more, ?_⟩
  rw [Bool.eq_false_iff]
  exact fun still => ended (lasts.registered ordered registered present' still)

theorem isRegistered (gone : Gone hubs s) {hub : Hub} (present : hubs.get? s.hub = some hub) :
    hub.isRegistered s.id = false := by
  obtain ⟨found, there, -, ended⟩ := gone
  cases present.symm.trans there
  exact ended

theorem not_registered (gone : Gone hubs s) : ¬ Registered hubs s reaction := by
  rintro ⟨hub, present, listed⟩
  have registered : hub.isRegistered s.id = true :=
    List.any_eq_true.mpr ⟨_, listed, decide_eq_true rfl⟩
  cases registered.symm.trans (gone.isRegistered present)

end Gone

namespace World

variable {careful attaching : Prop} {v w : World σ} {model : Ref .model} {p : Property σ}

/-- The name means the property in the model, though its value may be another one. -/
def Binds (model : Ref .model) (p : Property σ) (w : World σ) : Prop :=
  ∃ m q, w.models.get? model = some m ∧ m.property? p.name = some q ∧ q.shape = p.shape

theorem Binds.of_models (binds : v.Binds model p) (same : w.models = v.models) :
    w.Binds model p :=
  let ⟨m, q, present, found⟩ := binds
  ⟨m, q, same ▸ present, found⟩

/-- What is bound in rows that are there was bound in them. -/
theorem Binds.of_rows (binds : w.Binds model p) (rows : ∀ m, w.models.get? model = some m →
    v.models.get? model = some m ∨ m.properties = []) : v.Binds model p := by
  obtain ⟨m, q, present, found⟩ := binds
  rcases rows m present with was | none
  · exact ⟨m, q, was, found⟩
  · have listed := Model.mem_of_property? found.1
    rw [none] at listed
    cases listed

/-- No subscription of the property is registered, whatever it would do. -/
def Ended (p : Property σ) (w : World σ) : Prop :=
  ∀ s ∈ p.subscriptions, ∀ reaction, ¬ Registered w.hubs s reaction

theorem ended_unbindComputed (binds : w.Binds model p) : (w.unbindComputed model).Ended p := by
  obtain ⟨m, q, present, found, shape⟩ := binds
  refine fun s held reaction registered => ?_
  refine (registered_of_unbindComputed registered).2 m present q (Model.mem_of_property? found) ?_
  rwa [Property.subscriptions_of_shape shape]

theorem binds_unbindComputed (binds : w.Binds model p) (other : Ref .model) :
    (w.unbindComputed other).Binds model p ∨ (w.unbindComputed other).Ended p := by
  by_cases same : model = other
  · subst same
    exact Or.inr (ended_unbindComputed binds)
  · obtain ⟨m, q, present, found⟩ := binds
    refine Or.inl ⟨m, q, ?_, found⟩
    unfold unbindComputed
    split
    · exact present
    · split
      · exact present
      · rw [models_cancelAll]
        exact (Table.get?_update_of_ne _ _ same).trans present

theorem binds_retire (binds : w.Binds model p) (other : Ref .model) :
    (w.retire other).Binds model p ∨ (w.retire other).Ended p := by
  by_cases kept : w.keepsModel other = true
  · rw [retire, if_pos kept]
    exact Or.inl binds
  obtain ⟨m, q, present, found, shape⟩ := binds
  by_cases same : model = other
  · subst same
    rw [retire_eq kept present]
    refine Or.inr fun s held reaction registered => ?_
    refine not_mem_of_registered_cancelAll registered
      (List.mem_flatMap.mpr ⟨q, Model.mem_of_property? found, ?_⟩)
    rwa [Property.subscriptions_of_shape shape]
  · rcases there : w.models.get? other with _ | m'
    · rw [retire, if_neg kept, there]
      exact Or.inl ⟨m, q, present, found, shape⟩
    · rw [retire_eq kept there]
      refine Or.inl ⟨m, q, ?_, found, shape⟩
      rw [models_cancelAll]
      exact (Table.get?_erase_of_ne _ same).trans present

/-- Another row with the same properties, but for their values, binds the same. -/
theorem Binds.put {other : Ref .model} {m m' : Model σ} (binds : v.Binds model p)
    (there : v.models.get? other = some m) (same : m.SameShape m') :
    (v.put other m').Binds model p := by
  obtain ⟨row, q, present, found, shape⟩ := binds
  by_cases here : model = other
  · subst here
    cases present.symm.trans there
    have shapes := same.property? p.name
    rw [found] at shapes
    obtain ⟨q', found', shape'⟩ := Option.map_eq_some_iff.mp shapes
    exact ⟨m', q', get?_put_self (by rw [present]; rfl), found', shape'.trans shape⟩
  · exact ⟨row, q, (get?_put_ne here).trans present, found, shape⟩

theorem Binds.install (binds : v.Binds model p) (other : Ref .model) (new : Property σ) :
    (v.install other new).Binds model p := by
  obtain ⟨m, q, present, found, shape⟩ := binds
  rw [Binds, World.install]
  dsimp only
  rw [(tables_subscribeAll _ _ _ _).1]
  by_cases here : model = other
  · subst here
    rw [Table.get?_update_self, present]
    refine ⟨_, q, rfl, ?_, shape⟩
    rw [Model.property?, List.find?_append]
    rw [Model.property?] at found
    rw [found, Option.some_or]
  · rw [Table.get?_update_of_ne _ _ here]
    exact ⟨m, q, present, found, shape⟩

/-- A step leaves a property bound, or ends what it has subscribed. -/
theorem binds_step (step : v.Step careful attaching w) (binds : v.Binds model p) :
    w.Binds model p ∨ w.Ended p := by
  have still : ∀ {w : World σ}, w.models = v.models → w.Binds model p ∨ w.Ended p :=
    fun same => Or.inl (binds.of_models same)
  cases step with
  | release handle =>
      cases handle with
      | model other =>
          exact binds_retire (w := { v with held := v.held.erase (.model other) }) binds other
      | _ => exact still rfl
  | openModel attributes =>
      obtain ⟨m, q, present, found⟩ := binds
      exact Or.inl ⟨m, q, Table.get?_insert_some.mpr (Or.inr present), found⟩
  | listen document element callback => exact still (tables_listen _ _ _ v).2.1
  | put other there same => exact Or.inl (binds.put there same)
  | install other new => exact Or.inl (binds.install other new)
  | unbindComputed other => exact binds_unbindComputed binds other
  | fit _ _ _ editable name operator c => exact still (tables_fit _ _ editable name operator c v).1
  | dispose binding => exact still (tables_dispose binding v).1
  | @close _ view row _ =>
      exact binds_retire (w := { v with views := v.views.erase view }) binds row.model
  | _ => exact still rfl

/-! ## From one world to another -/

/-- In the world each hub lists just those that it owes an event. -/
def InBalance (w : World σ) : Prop :=
  ∃ ledger, w.Balanced ledger

/-- What a model has subscribed for a property is registered. -/
theorem Balanced.subscribed {ledger : List (Subscription × Nat)} (balanced : w.Balanced ledger)
    {m : Model σ} (present : w.models.get? model = some m) {q : Property σ}
    (listed : q ∈ m.properties) {s : Subscription} (held : s ∈ q.subscriptions) :
    Registered w.hubs s (.refresh model q.name) := by
  refine mem_listed.mp (balanced.listed.mem_iff.mpr ?_)
  refine List.mem_append_right _ (List.mem_append_left _ (Table.mem_gather.mpr ?_))
  exact ⟨model, m, present, List.mem_flatMap.mpr ⟨q, listed, List.mem_map.mpr ⟨s, held, rfl⟩⟩⟩

namespace InBalance

variable (balanced : w.InBalance)

include balanced

theorem ordered : Ordered w.hubs :=
  let ⟨_, balanced⟩ := balanced
  balanced.ordered

/-- Who refreshes a property is held by a property of that name. -/
theorem holder {s : Subscription} {name : String}
    (registered : Registered w.hubs s (.refresh model name)) :
    ∃ m, w.models.get? model = some m ∧
      ∃ q ∈ m.properties, q.name = name ∧ s ∈ q.subscriptions := by
  obtain ⟨ledger, balanced⟩ := balanced
  have owed := balanced.listed.subset (mem_listed.mpr registered)
  rcases List.mem_append.mp owed with client | owed
  · obtain ⟨entry, -, same⟩ := List.mem_map.mp client
    cases same
  rcases List.mem_append.mp owed with computed | bound
  · obtain ⟨owner, m, present, due⟩ := Table.mem_gather.mp computed
    obtain ⟨q, listed, held⟩ := List.mem_flatMap.mp due
    obtain ⟨s', among, same⟩ := List.mem_map.mp held
    cases same
    exact ⟨m, present, q, listed, rfl, among⟩
  · obtain ⟨binding, b, -, due⟩ := Table.mem_gather.mp bound
    obtain ⟨entry, -, same⟩ := List.mem_map.mp due
    cases same

/-- A property that is bound listens. -/
theorem registered (binds : w.Binds model p) {s : Subscription} (held : s ∈ p.subscriptions) :
    Registered w.hubs s (.refresh model p.name) := by
  obtain ⟨m, q, present, found, shape⟩ := binds
  obtain ⟨ledger, balanced⟩ := balanced
  rw [← Property.subscriptions_of_shape shape] at held
  rw [← Property.name_of_shape shape]
  exact balanced.subscribed present (Model.mem_of_property? found) held

end InBalance

/-- What is listening is held by a property of its name that is there before the new one is, so
the name never means that. -/
theorem bound_install {other : Ref .model} {new : Property σ} (balanced : v.InBalance)
    (balanced' : (v.install other new).InBalance) (binds : (v.install other new).Binds model p)
    {s : Subscription} (held : s ∈ p.subscriptions) {reaction : Reaction}
    (was : Registered v.hubs s reaction) : v.Binds model p := by
  have lasts : Lasts v.hubs (v.install other new).hubs :=
    lasts_subscribeAll other new.name new.dependencies v
  have registered := balanced'.registered binds held
  obtain ⟨hub, present, listed⟩ := id registered
  have refreshed := Registered.unique balanced'.ordered.numbered registered
    (lasts.registered balanced.ordered was present
      (List.any_eq_true.mpr ⟨_, listed, decide_eq_true rfl⟩))
    rfl rfl
  subst refreshed
  obtain ⟨row, there, holder, among, named, -⟩ := balanced.holder was
  obtain ⟨m, q, present, found, shape⟩ := binds
  obtain ⟨old, subscriptions, before, same⟩ := get?_install present
  cases there.symm.trans before
  rw [same] at found
  split at found
  · rw [Model.property?, List.find?_append] at found
    rcases first : row.properties.find? (·.name = p.name) with _ | q'
    · exact absurd named (by simpa using List.find?_eq_none.mp first holder among)
    · rw [first, Option.some_or] at found
      exact ⟨row, q, there, first.trans found, shape⟩
  · exact ⟨row, q, there, found, shape⟩

/-- What is bound after a step, and was listening before it, was bound before it. -/
theorem bound_step (step : v.Step careful attaching w) (balanced : v.InBalance)
    (balanced' : w.InBalance) (binds : w.Binds model p) {s : Subscription}
    (held : s ∈ p.subscriptions) {reaction : Reaction} (was : Registered v.hubs s reaction) :
    v.Binds model p := by
  have still : ∀ {w : World σ}, w.models = v.models → w.Binds model p → v.Binds model p :=
    fun same binds => binds.of_models same.symm
  cases step with
  | release handle =>
      cases handle with
      | model other =>
          exact binds.of_rows fun m present =>
            Or.inl (get?_retire (w := { v with held := v.held.erase (.model other) }) present)
      | _ => exact still rfl binds
  | openModel attributes =>
      refine binds.of_rows fun m present => ?_
      rcases Table.get?_insert_some.mp present with ⟨-, rfl⟩ | old
      · exact Or.inr rfl
      · exact Or.inl old
  | listen document element callback => exact still (tables_listen _ _ _ v).2.1 binds
  | @put other m m' there same =>
      have back : ((v.put other m').put other m).Binds model p :=
        binds.put (get?_put_self (by rw [there]; rfl)) same.symm
      rw [put_put] at back
      refine back.of_rows fun row present => Or.inl ?_
      rcases get?_put there present with ⟨rfl, rfl⟩ | ⟨-, here⟩
      · exact there
      · exact here
  | install other new => exact bound_install balanced balanced' binds held was
  | unbindComputed other =>
      refine binds.of_rows fun m present => ?_
      obtain ⟨old, there, rfl | ⟨-, rfl⟩⟩ := released_unbindComputed present
      · exact Or.inl there
      · exact Or.inr rfl
  | fit _ _ _ editable name operator c => exact still (tables_fit _ _ editable name operator c v).1 binds
  | dispose binding => exact still (tables_dispose binding v).1 binds
  | @close _ view row _ =>
      exact binds.of_rows fun m present =>
        Or.inl (get?_retire (w := { v with views := v.views.erase view }) present)
  | _ => exact still rfl binds

/-- Hubs have gone on from one world to the other.  Of the properties that were bound each still
is, or nothing of it is left; and of those that are bound each was, if it was listening. -/
structure PropertiesLast (v w : World σ) : Prop where
  hubs : Lasts v.hubs w.hubs
  balanced : v.InBalance → w.InBalance
  onward : ∀ {model} {p : Property σ}, v.InBalance → v.Binds model p →
    w.Binds model p ∨ ∀ s ∈ p.subscriptions, Gone w.hubs s
  back : ∀ {model} {p : Property σ} {s reaction}, v.InBalance → w.Binds model p →
    s ∈ p.subscriptions → Registered v.hubs s reaction → v.Binds model p

theorem PropertiesLast.refl (w : World σ) : w.PropertiesLast w :=
  ⟨.refl _, id, fun _ => Or.inl, fun _ binds _ _ => binds⟩

instance : IsPreorder (World σ) PropertiesLast where
  refl := PropertiesLast.refl
  trans u v w first then_ := by
    refine ⟨first.hubs.trans then_.hubs, then_.balanced ∘ first.balanced,
      fun balanced binds => ?_, fun {model p s reaction} balanced binds held was => ?_⟩
    · rcases first.onward balanced binds with binds | gone
      · exact then_.onward (first.balanced balanced) binds
      · exact Or.inr fun s held => (gone s held).lasts then_.hubs
    · -- it is listening at the end, so it was in between
      have between := first.balanced balanced
      have listens := (then_.balanced between).registered binds held
      by_cases still : Registered v.hubs s reaction
      · exact first.back balanced (then_.back between binds held still) held was
      · exact absurd listens
          ((Gone.of_ended first.hubs balanced.ordered was still).lasts then_.hubs).not_registered

theorem PropertiesLast.of_models (hubs : Lasts v.hubs w.hubs)
    (balanced : v.InBalance → w.InBalance) (models : w.models = v.models) : v.PropertiesLast w :=
  ⟨hubs, balanced, fun _ binds => Or.inl (binds.of_models models),
    fun _ binds _ _ => binds.of_models models.symm⟩

theorem InBalance.step (balanced : v.InBalance) (step : v.Step True attaching w) : w.InBalance :=
  let ⟨ledger, balanced⟩ := balanced
  ⟨ledger, balanced.step step⟩

/-- What happens is only noted. -/
theorem propertiesLast_happen (happening : Happening) (w : World σ) :
    w.PropertiesLast (w.happen happening) :=
  .of_models (.refl _) (fun ⟨ledger, balanced⟩ => ⟨ledger, balanced.ordered, balanced.announced,
    balanced.listed, balanced.models, balanced.bindings⟩) rfl

theorem propertiesLast_subscribe (hub : Ref .hub) (event : String) (callback : Nat) (w : World σ) :
    w.PropertiesLast (w.subscribe hub event (.client callback)).2 :=
  .of_models (lasts_subscribe hub event (.client callback) w)
    (fun ⟨_, balanced⟩ => ⟨_, balanced.subscribe hub event callback⟩)
    (tables_subscribe hub event (.client callback) w).1

theorem propertiesLast_withdraw (subscription : Subscription) (w : World σ) :
    w.PropertiesLast (w.withdraw subscription) :=
  .of_models (lasts_withdraw subscription w)
    (fun ⟨_, balanced⟩ => ⟨_, balanced.withdraw subscription⟩) rfl

theorem propertiesLast_step (step : v.Step True attaching w) : v.PropertiesLast w where
  hubs := lasts_step step
  balanced balanced := balanced.step step
  onward balanced binds := (binds_step step binds).imp_right fun ended s held =>
    .of_ended (lasts_step step) balanced.ordered (balanced.registered binds held) (ended s held _)
  back balanced binds held was := bound_step step balanced (balanced.step step) binds held was

theorem Steps.propertiesLast (steps : v.Steps True attaching w) : v.PropertiesLast w :=
  steps.keep (fun w => v.PropertiesLast w) (fun step lasts =>
    IsTrans.trans _ _ _ lasts (propertiesLast_step step)) (.refl v)

end World

end LiveBinding
