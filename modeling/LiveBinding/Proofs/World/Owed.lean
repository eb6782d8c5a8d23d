/-
# LiveBinding.Proofs.World.Owed -- no listener without an owner, and none twice

A subscription is owed to whoever holds it: to a client, to a computed property of a model
that is there, or to a slot of a binding (`World.owed`).  In a balanced world the listeners
of all hubs are just those that are owed (`Balanced`), each as often as it is owed, which
is once: no two listeners have the same key.

Every step keeps a balanced world balanced (`Balanced.step`).  A step that subscribes adds
the same entries on both sides, as long as the hubs are there (`Enrolled`).  One that lets
go of an owner takes away the entries of that owner: they have the keys of what it held,
and what others hold has other keys (`perm_filter_of_append`).
-/
import LiveBinding.Proofs.World.Dispose
import LiveBinding.Proofs.World.Listing

namespace LiveBinding

set_option autoImplicit false

variable {σ : Type}

/-! ## Owners -/

def Subscription.dependency (s : Subscription) : Dependency := ⟨s.hub, s.event⟩

def Model.owed (model : Ref .model) (m : Model σ) : List (Subscription × Reaction) :=
  m.properties.flatMap fun p => p.subscriptions.map fun s => (s, .refresh model p.name)

/-- Each computed property holds one subscription for each of its dependencies. -/
def Model.IsSubscribed (m : Model σ) : Prop :=
  ∀ p ∈ m.properties, p.subscriptions.map (·.dependency) = p.dependencies ∧ p.dependencies.Nodup

namespace Model

variable {m m' : Model σ}

theorem IsSubscribed.of_shape (same : m.SameShape m') (subscribed : m.IsSubscribed) :
    m'.IsSubscribed := by
  intro p listed
  obtain ⟨p', listed', shape⟩ := same.symm.mem listed
  rw [← Property.subscriptions_of_shape shape, ← Property.dependencies_of_shape shape]
  exact subscribed p' listed'

theorem owed_of_shape (model : Ref .model) (same : m.SameShape m') : m'.owed model = m.owed model := by
  have shapes : ∀ m : Model σ, m.owed model = (m.properties.map Property.shape).flatMap fun p =>
      p.subscriptions.map fun s => (s, .refresh model p.name) := fun m => by
    rw [List.flatMap_map]
    rfl
  rw [shapes m', same.2, ← shapes]

theorem subscriptions_owed (model : Ref .model) (m : Model σ) :
    (m.owed model).map (·.1) = m.properties.flatMap (·.subscriptions) := by
  rw [owed, List.map_flatMap]
  congr 1
  funext p
  rw [List.map_map]
  exact List.map_id _

end Model

namespace Binding

def shifts (b : Binding) : List Nat :=
  (b.slots.map (·.events)).zipIdx.flatMap fun events => events.1.map fun _ => events.2

def enlisted (b : Binding) : List (Nat × Subscription) :=
  b.shifts.zip b.subscriptions

def owed (binding : Ref .binding) (b : Binding) : List (Subscription × Reaction) :=
  b.enlisted.map fun entry => (entry.2, .reapply binding entry.1)

/-- As long as the binding lives its slots are subscribed to all their events; afterwards it
holds nothing. -/
structure IsWired (b : Binding) : Prop where
  live : b.disposed = false → b.subscriptions.map (·.event) = b.slots.flatMap (·.events)
  gone : b.disposed = true → b.subscriptions = [] ∧ b.listeners = []

theorem length_shifts (b : Binding) : b.shifts.length = (b.slots.flatMap (·.events)).length := by
  have counted : ∀ (events : List (List String)) (first : Nat),
      ((events.zipIdx first).flatMap fun events => events.1.map fun _ => events.2).length =
        (events.flatMap id).length := by
    intro events
    induction events with
    | nil => exact fun _ => rfl
    | cons names rest ih =>
        intro first
        rw [List.zipIdx_cons, List.flatMap_cons, List.flatMap_cons, List.length_append,
          List.length_append, ih, List.length_map]
        rfl
  rw [shifts, counted, List.flatMap_map]
  rfl

/-- Each subscription of a binding is for some slot. -/
theorem subscriptions_enlisted {b : Binding} (wired : b.IsWired) :
    b.enlisted.map (·.2) = b.subscriptions := by
  refine List.map_snd_zip ?_
  cases disposed : b.disposed with
  | true => rw [(wired.gone disposed).1]; exact Nat.zero_le _
  | false =>
      rw [length_shifts, ← wired.live disposed, List.length_map]

theorem subscriptions_owed (binding : Ref .binding) {b : Binding} (wired : b.IsWired) :
    (b.owed binding).map (·.1) = b.subscriptions := by
  rw [owed, List.map_map]
  exact subscriptions_enlisted wired

/-- The subscriptions of one more slot come after those of the others. -/
theorem enlisted_append {b : Binding} (wired : b.IsWired) (live : b.disposed = false) (slot : Slot)
    {subs : List Subscription} (ids : List Nat) (named : subs.map (·.event) = slot.events) :
    ({ b with
        slots := b.slots ++ [slot]
        subscriptions := b.subscriptions ++ subs
        listeners := b.listeners ++ ids } : Binding).enlisted =
      b.enlisted ++ subs.map fun s => (b.slots.length, s) := by
  have long : b.shifts.length = b.subscriptions.length := by
    rw [length_shifts, ← wired.live live, List.length_map]
  have more : ({ b with
        slots := b.slots ++ [slot]
        subscriptions := b.subscriptions ++ subs
        listeners := b.listeners ++ ids } : Binding).shifts =
      b.shifts ++ subs.map fun _ => b.slots.length := by
    rw [shifts, List.map_append, List.zipIdx_append, List.flatMap_append, ← shifts, List.map_singleton,
      List.zipIdx_singleton, List.flatMap_singleton, ← named, List.map_map, List.length_map,
      Nat.zero_add]
    rfl
  rw [enlisted, more, List.zip_append long, ← enlisted]
  congr 1
  rw [List.zip_eq_zipWith, List.zipWith_map_left, List.zipWith_self]

theorem IsWired.append {b : Binding} (wired : b.IsWired) (live : b.disposed = false) (slot : Slot)
    {subs : List Subscription} (ids : List Nat) (named : subs.map (·.event) = slot.events) :
    ({ b with
        slots := b.slots ++ [slot]
        subscriptions := b.subscriptions ++ subs
        listeners := b.listeners ++ ids } : Binding).IsWired where
  live _ := by
    rw [List.map_append, List.flatMap_append, wired.live live, List.flatMap_singleton, named]
  gone disposed := absurd (live.symm.trans disposed) Bool.false_ne_true

variable {b b' : Binding}

theorem enlisted_wiring (b : Binding) : b.wiring.enlisted = b.enlisted := by
  rw [enlisted, shifts, wiring, List.map_map]
  rfl

theorem isWired_wiring : b.wiring.IsWired ↔ b.IsWired := by
  have events : b.wiring.slots.flatMap (·.events) = b.slots.flatMap (·.events) := by
    rw [wiring, List.flatMap_map]
    rfl
  exact ⟨fun wired => ⟨fun live => (wired.live live).trans events, wired.gone⟩,
    fun wired => ⟨fun live => (wired.live live).trans events.symm, wired.gone⟩⟩

/-- What a binding is owed shows in its wiring. -/
theorem owed_of_wiring (binding : Ref .binding) (same : b'.wiring = b.wiring) :
    b'.owed binding = b.owed binding := by
  rw [owed, owed, ← enlisted_wiring, same, enlisted_wiring]

theorem IsWired.of_wiring (wired : b.IsWired) (same : b'.wiring = b.wiring) : b'.IsWired :=
  isWired_wiring.mp (same ▸ isWired_wiring.mpr wired)

end Binding

namespace World

/-- All that is owed: to clients by the ledger, to computed properties, and to slots. -/
def owed (ledger : List (Subscription × Nat)) (w : World σ) : List (Subscription × Reaction) :=
  ledger.map (fun entry => (entry.1, .client entry.2)) ++
    (w.models.gather Model.owed ++ w.bindings.gather Binding.owed)

/-- The listeners of all hubs are those that are owed. -/
structure Balanced (ledger : List (Subscription × Nat)) (w : World σ) : Prop where
  ordered : Ordered w.hubs
  announced : w.Announced
  listed : (listed w.hubs).Perm (w.owed ledger)
  models : ∀ model m, w.models.get? model = some m → m.IsSubscribed
  bindings : ∀ binding b, w.bindings.get? binding = some b → b.IsWired

end World

/-! ## Subscribing -/

/-- Somebody has subscribed to dependencies, by these subscriptions. -/
structure Enrolled (reaction : Reaction) (ds : List Dependency) (hubs hubs' : Hubs)
    (subs : List Subscription) : Prop where
  named : subs.map (·.dependency) = ds
  listed : (listed hubs').Perm (listed hubs ++ subs.map fun s => (s, reaction))

namespace Enrolled

theorem nil (reaction : Reaction) (hubs : Hubs) : Enrolled reaction [] hubs hubs [] :=
  ⟨rfl, by rw [List.map_nil, List.append_nil]⟩

theorem cons {reaction : Reaction} {d : Dependency} {ds : List Dependency} {w : World σ}
    {hubs : Hubs} {subs : List Subscription} (there : (w.hubs.get? d.hub).isSome)
    (rest : Enrolled reaction ds (w.subscribe d.hub d.event reaction).2.hubs hubs subs) :
    Enrolled reaction (d :: ds) w.hubs hubs
      ((w.subscribe d.hub d.event reaction).1.toList ++ subs) := by
  obtain ⟨hub, present⟩ := Option.isSome_iff_exists.mp there
  have subscribed : w.subscribe d.hub d.event reaction =
      (some ⟨d.hub, hub.nextId, d.event⟩,
        { w with hubs := w.hubs.update d.hub (Hub.subscribe d.event reaction) }) := by
    rw [World.subscribe, present]
  rw [subscribed] at rest ⊢
  refine ⟨congrArg (d :: ·) rest.named, rest.listed.trans ?_⟩
  have first := (listed_subscribe d.event reaction present).append_right
    (subs.map fun s => (s, reaction))
  rwa [List.append_assoc] at first

theorem events {reaction : Reaction} {ds : List Dependency} {hubs hubs' : Hubs}
    {subs : List Subscription} (enrolled : Enrolled reaction ds hubs hubs' subs) :
    subs.map (·.event) = Collector.events ds := by
  rw [Collector.events, ← enrolled.named, List.map_map]
  rfl

end Enrolled

namespace World

variable {w : World σ}

/-- Whatever an expression depends on is announced on hubs that are there. -/
theorem Announced.dependencies (announced : w.Announced) (c : Compilation) :
    ∀ d ∈ c.dependencies w.sight, (w.hubs.get? d.hub).isSome := by
  intro d among
  rcases Collector.mem_recordAll.mp among with read | none
  · obtain ⟨a, -, shows⟩ := List.mem_filterMap.mp read
    obtain ⟨seen, shown, rfl⟩ := Option.map_eq_some_iff.mp shows
    exact announced.sight shown
  · cases none

theorem enrolled_subscribeAll (model : Ref .model) (name : String) {ds : List Dependency}
    (there : ∀ d ∈ ds, (w.hubs.get? d.hub).isSome) :
    Enrolled (.refresh model name) ds w.hubs (subscribeAll model name ds w).2.hubs
      (subscribeAll model name ds w).1 := by
  induction ds generalizing w with
  | nil => exact .nil _ _
  | cons d rest ih =>
      exact .cons (there d List.mem_cons_self) (ih fun other listed =>
        (lasts_subscribe _ _ _ w).exists_ (there other (List.mem_cons_of_mem _ listed)))

theorem enrolled_enlistAll {binding : Ref .binding} {b : Binding} (slot : Nat)
    (present : w.bindings.get? binding = some b) {ds : List Dependency}
    (there : ∀ d ∈ ds, (w.hubs.get? d.hub).isSome) :
    ∃ subs, (ds.foldl (enlist binding slot) w).bindings.get? binding =
        some { b with subscriptions := b.subscriptions ++ subs } ∧
      Enrolled (.reapply binding slot) ds w.hubs (ds.foldl (enlist binding slot) w).hubs subs := by
  induction ds generalizing w b with
  | nil => exact ⟨[], by simpa using present, .nil _ _⟩
  | cons d rest ih =>
      have row : (w.enlist binding slot d).bindings.get? binding = some { b with
          subscriptions := b.subscriptions ++
            (w.subscribe d.hub d.event (.reapply binding slot)).1.toList } := by
        have bindings : (w.subscribe d.hub d.event (.reapply binding slot)).2.bindings =
            w.bindings := by
          unfold subscribe
          split <;> rfl
        rw [enlist]
        dsimp only
        rw [bindings, Table.get?_update_self, present]
        rfl
      obtain ⟨subs, thereThen, enrolled⟩ := ih row fun other listed =>
        (lasts_subscribe d.hub d.event (.reapply binding slot) w).exists_
          (there other (List.mem_cons_of_mem _ listed))
      refine ⟨_, ?_, .cons (there d List.mem_cons_self) enrolled⟩
      rw [List.foldl_cons, thereThen, List.append_assoc]

/-- What a binding holds after one more operator was applied. -/
theorem enrolled_fit {binding : Ref .binding} {b : Binding} (editable : Bool) (name : String)
    (operator : Operator) (c : Compilation) (present : w.bindings.get? binding = some b)
    (there : ∀ d ∈ c.dependencies w.sight, (w.hubs.get? d.hub).isSome) :
    ∃ subs ids, (w.fit binding b editable name operator c).bindings.get? binding =
        some { b with
          slots := b.slots ++ [⟨name, operator, c.compiled, c.compiled.isDirty,
            Collector.events (c.dependencies w.sight), 0⟩]
          subscriptions := b.subscriptions ++ subs
          listeners := b.listeners ++ ids } ∧
      Enrolled (.reapply binding b.slots.length) (c.dependencies w.sight) w.hubs
        (w.fit binding b editable name operator c).hubs subs := by
  obtain ⟨ids, row⟩ := row_equip editable name operator c present
  have hubs := (tables_equip binding b editable name operator c w).2.2.2
  obtain ⟨subs, rowThen, enrolled⟩ := enrolled_enlistAll b.slots.length row (by rwa [hubs])
  rw [hubs] at enrolled
  exact ⟨subs, ids, rowThen, enrolled⟩

end World

/-! ## Letting go -/

/-- Where the keys are distinct, taking away the entries with the keys of what one owner
holds leaves what the others hold. -/
theorem perm_filter_of_append {l gone left : List (Subscription × Reaction)}
    (perm : l.Perm (gone ++ left)) (distinct : (l.map (·.1.key)).Nodup) :
    (l.filter fun e => e.1.key ∉ (gone.map (·.1)).map (·.key)).Perm left := by
  have keys : (gone.map (·.1)).map (·.key) = gone.map (·.1.key) := List.map_map
  have apart : (gone.map (·.1.key)).Disjoint (left.map (·.1.key)) := by
    rw [(perm.map _).nodup_iff, List.map_append] at distinct
    exact List.disjoint_of_nodup_append distinct
  refine (perm.filter _).trans ?_
  rw [keys, List.filter_append, List.filter_eq_nil_iff.mpr, List.filter_eq_self.mpr, List.nil_append]
  · intro e among
    exact decide_eq_true fun here => apart here (List.mem_map_of_mem among)
  · intro e among
    simpa using ⟨e.1, ⟨e.2, among⟩, rfl⟩

namespace World

variable {careful attaching : Prop} {v w : World σ} {ledger : List (Subscription × Nat)}

theorem Balanced.listed_released (balanced : v.Balanced ledger) {gone : List (Subscription × Reaction)}
    {ss : List Subscription} (held : gone.map (·.1) = ss)
    (hubs : LiveBinding.listed w.hubs =
      (LiveBinding.listed v.hubs).filter fun e => e.1.key ∉ ss.map (·.key))
    (owed : (v.owed ledger).Perm (gone ++ w.owed ledger)) :
    (LiveBinding.listed w.hubs).Perm (w.owed ledger) := by
  rw [hubs, ← held]
  exact perm_filter_of_append (balanced.listed.trans owed) (nodup_listed balanced.ordered)

/-- Nobody has subscribed, let go of a subscription or changed owners. -/
theorem Balanced.listed_same (balanced : v.Balanced ledger)
    (hubs : LiveBinding.listed w.hubs = LiveBinding.listed v.hubs)
    (models : w.models.gather Model.owed = v.models.gather Model.owed)
    (bindings : w.bindings.gather Binding.owed = v.bindings.gather Binding.owed) :
    (LiveBinding.listed w.hubs).Perm (w.owed ledger) := by
  rw [hubs, owed, models, bindings]
  exact balanced.listed

/-- What the models of one world are owed more than those of another, where bindings are owed
the same. -/
theorem owed_models {own : List (Subscription × Reaction)}
    (models : (v.models.gather Model.owed).Perm (own ++ w.models.gather Model.owed))
    (bindings : w.bindings.gather Binding.owed = v.bindings.gather Binding.owed) :
    (v.owed ledger).Perm (own ++ w.owed ledger) := by
  rw [owed, owed, bindings]
  refine ((models.append_right _).append_left _).trans ?_
  rw [List.append_assoc]
  exact List.perm_append_comm_assoc _ _ _

/-- And what its bindings are owed more. -/
theorem owed_bindings {own : List (Subscription × Reaction)}
    (bindings : (v.bindings.gather Binding.owed).Perm (own ++ w.bindings.gather Binding.owed))
    (models : w.models.gather Model.owed = v.models.gather Model.owed) :
    (v.owed ledger).Perm (own ++ w.owed ledger) := by
  rw [owed, owed, models]
  exact ((bindings.append_left _).append_left _).trans
    (((List.perm_append_comm_assoc _ own _).append_left _).trans (List.perm_append_comm_assoc _ own _))

theorem Balanced.listed_enrolled (balanced : v.Balanced ledger) {reaction : Reaction}
    {ds : List Dependency} {subs : List Subscription}
    (enrolled : Enrolled reaction ds v.hubs w.hubs subs)
    (owed : (w.owed ledger).Perm ((subs.map fun s => (s, reaction)) ++ v.owed ledger)) :
    (LiveBinding.listed w.hubs).Perm (w.owed ledger) :=
  (enrolled.listed.trans ((balanced.listed.append_right _).trans List.perm_append_comm)).trans owed.symm

/-! ## Steps -/

theorem Balanced.listed_retire (balanced : v.Balanced ledger) (model : Ref .model) :
    (LiveBinding.listed (v.retire model).hubs).Perm ((v.retire model).owed ledger) := by
  by_cases kept : v.keepsModel model = true
  · rw [retire, if_pos kept]
    exact balanced.listed
  · rcases present : v.models.get? model with _ | m
    · rw [retire, if_neg kept, present]
      exact balanced.listed
    · obtain ⟨rest, before, -, after⟩ := Table.gather_apart Model.owed present
      have same := (tables_retire model v).1
      rw [retire_eq kept present] at same ⊢
      refine balanced.listed_released (m.subscriptions_owed model) (listed_cancelAll _ _)
        (owed_models ?_ (by rw [same]))
      rw [models_cancelAll]
      exact before.trans (after.symm.append_left _)

theorem Balanced.listed_unbindComputed (balanced : v.Balanced ledger) (model : Ref .model) :
    (LiveBinding.listed (v.unbindComputed model).hubs).Perm ((v.unbindComputed model).owed ledger) := by
  have same := (tables_unbindComputed model v).1
  unfold unbindComputed at same ⊢
  split
  · exact balanced.listed
  · rename_i m present
    rw [present] at same
    dsimp only at same
    split
    · exact balanced.listed
    · rename_i some_
      rw [if_neg some_] at same
      obtain ⟨rest, before, after, -⟩ := Table.gather_apart Model.owed present
      refine balanced.listed_released (m.subscriptions_owed model) (listed_cancelAll _ _)
        (owed_models ?_ (by rw [same]))
      rw [models_cancelAll]
      exact before.trans ((after fun m => { m with properties := [] }).symm.append_left _)

theorem Balanced.listed_install (balanced : v.Balanced ledger) (model : Ref .model) (p : Property σ)
    (there : (v.models.get? model).isSome)
    (named : ∀ d ∈ p.dependencies, (v.hubs.get? d.hub).isSome) :
    (LiveBinding.listed (v.install model p).hubs).Perm ((v.install model p).owed ledger) := by
  obtain ⟨m, present⟩ := Option.isSome_iff_exists.mp there
  have models := (tables_subscribeAll model p.name p.dependencies v).1
  obtain ⟨rest, before, after, -⟩ := Table.gather_apart Model.owed present
  refine balanced.listed_enrolled (w := v.install model p) (enrolled_subscribeAll model p.name named)
    (owed_models ?_ (by rw [(tables_install model p v).1]))
  rw [install]
  dsimp only
  rw [models]
  refine (after _).trans ?_
  refine List.Perm.trans ?_ (before.symm.append_left _)
  rw [Model.owed, List.flatMap_append, List.flatMap_singleton, ← List.append_assoc]
  exact List.perm_append_comm.append_right _

theorem Balanced.listed_fit (balanced : v.Balanced ledger) {binding : Ref .binding} {b : Binding}
    (present : v.bindings.get? binding = some b) (live : b.disposed = false) (editable : Bool)
    (name : String) (operator : Operator) (c : Compilation) :
    (LiveBinding.listed (v.fit binding b editable name operator c).hubs).Perm
        ((v.fit binding b editable name operator c).owed ledger) ∧
      ∀ found, (v.fit binding b editable name operator c).bindings.get? binding = some found →
        found.IsWired := by
  have wired := balanced.bindings binding b present
  obtain ⟨subs, ids, row, enrolled⟩ := enrolled_fit editable name operator c present
    (balanced.announced.dependencies c)
  have named := enrolled.events
  have only := onlyRow_fit binding b editable name operator c v
  have table : (v.fit binding b editable name operator c).bindings =
      v.bindings.update binding fun _ => { b with
        slots := b.slots ++ [⟨name, operator, c.compiled, c.compiled.isDirty,
          Collector.events (c.dependencies v.sight), 0⟩]
        subscriptions := b.subscriptions ++ subs
        listeners := b.listeners ++ ids } := by
    refine Table.eq_of_get? (only.fresh.trans (Table.fresh_update _ _ _).symm) fun other => ?_
    by_cases same : other = binding
    · subst same
      rw [row, Table.get?_update_self, present]
      rfl
    · rw [only.others same, Table.get?_update_of_ne _ _ same]
  refine ⟨?_, fun found there => ?_⟩
  · obtain ⟨rest, before, after, -⟩ := Table.gather_apart Binding.owed present
    refine balanced.listed_enrolled enrolled
      (owed_bindings ?_ (by rw [(tables_fit binding b editable name operator c v).1]))
    rw [table]
    refine (after _).trans ?_
    rw [Binding.owed, Binding.enlisted_append wired live _ ids named, List.map_append, List.map_map]
    exact (List.perm_append_comm.append_right _).trans
      (by rw [List.append_assoc]; exact before.symm.append_left _)
  · rw [row] at there
    cases there
    exact wired.append live _ ids named

theorem Balanced.listed_dispose (balanced : v.Balanced ledger) (binding : Ref .binding) :
    (LiveBinding.listed (v.dispose binding).hubs).Perm ((v.dispose binding).owed ledger) := by
  rcases present : v.bindings.get? binding with _ | b
  · rw [dispose, present]
    exact balanced.listed
  · cases disposed : b.disposed with
    | true =>
        rw [dispose_of_disposed present disposed]
        exact balanced.listed
    | false =>
        obtain ⟨bindings, hubs, models, -⟩ := disposed_dispose present disposed
        obtain ⟨rest, before, after, -⟩ := Table.gather_apart Binding.owed present
        have none : b.ended.owed binding = [] := by
          rw [Binding.owed, Binding.enlisted, Binding.ended, List.zip_nil_right, List.map_nil]
        refine balanced.listed_released
          (Binding.subscriptions_owed binding (balanced.bindings binding b present))
          (by rw [hubs, listed_cancelAll]) (owed_bindings ?_ (by rw [models]))
        rw [bindings]
        have left := after Binding.ended
        rw [none, List.nil_append] at left
        exact before.trans (left.symm.append_left _)

theorem Balanced.listed_step (balanced : v.Balanced ledger) (step : v.Step True attaching w) :
    (LiveBinding.listed w.hubs).Perm (w.owed ledger) := by
  cases step with
  | release handle =>
      cases handle with
      | model model =>
          have freed : ({ v with held := v.held.erase (.model model) } : World σ).Balanced ledger :=
            ⟨balanced.ordered, balanced.announced, balanced.listed, balanced.models,
              balanced.bindings⟩
          exact freed.listed_retire model
      | _ => exact balanced.listed
  | openHub => exact balanced.listed_same (listed_insert _) rfl rfl
  | openModel attributes =>
      refine balanced.listed_same (listed_insert _) ?_ rfl
      exact (Table.gather_insert _ _ _).trans (List.append_nil _)
  | listen document element callback =>
      obtain ⟨hubs, models, bindings, -⟩ := tables_listen document element (.client callback) v
      exact balanced.listed_same (by rw [hubs]) (by rw [models]) (by rw [bindings])
  | @put model m m' present same =>
      refine balanced.listed_same rfl (Table.gather_update_of_eq fun found there => ?_) rfl
      rw [present] at there
      cases there
      exact Model.owed_of_shape model same
  | install model p distinct there named =>
      exact balanced.listed_install model p (there trivial) (named trivial)
  | unbindComputed model => exact balanced.listed_unbindComputed model
  | start _ document element declaration env =>
      refine balanced.listed_same rfl rfl ?_
      exact (Table.gather_insert _ _ _).trans (List.append_nil _)
  | fit _ present live editable name operator c =>
      exact (balanced.listed_fit present live editable name operator c).1
  | amend binding f same =>
      exact balanced.listed_same rfl rfl
        (Table.gather_update_of_eq fun b _ => Binding.owed_of_wiring binding (same b))
  | dispose binding => exact balanced.listed_dispose binding
  | @close _ view v' present =>
      have let_go : ({ v with views := v.views.erase view } : World σ).Balanced ledger :=
        ⟨balanced.ordered, balanced.announced, balanced.listed, balanced.models, balanced.bindings⟩
      exact let_go.listed_retire v'.model
  | _ => exact balanced.listed

theorem Balanced.models_step (balanced : v.Balanced ledger) (step : v.Step True attaching w)
    {model : Ref .model} {m : Model σ} (present : w.models.get? model = some m) : m.IsSubscribed := by
  cases step with
  | release handle =>
      cases handle with
      | model other =>
          exact balanced.models model m
            (get?_retire (w := { v with held := v.held.erase (.model other) }) present)
      | _ => exact balanced.models model m present
  | openModel attributes =>
      rcases Table.get?_insert_some.mp present with ⟨-, rfl⟩ | old
      · exact fun _ none => absurd none List.not_mem_nil
      · exact balanced.models model m old
  | listen document element callback =>
      rw [(tables_listen document element (.client callback) v).2.1] at present
      exact balanced.models model m present
  | put _ was same =>
      rcases get?_put was present with ⟨rfl, rfl⟩ | ⟨-, there⟩
      · exact (balanced.models _ _ was).of_shape same
      · exact balanced.models model m there
  | install other p distinct there named =>
      rw [install] at present
      dsimp only at present
      rw [(tables_subscribeAll _ _ _ _).1] at present
      obtain ⟨old, was, rfl⟩ := Table.get?_update_some present
      split
      · intro q listed
        rcases List.mem_append.mp listed with before | new
        · exact balanced.models model old was q before
        · rw [List.mem_singleton.mp new]
          exact ⟨(enrolled_subscribeAll other p.name (named trivial)).named, distinct⟩
      · exact balanced.models model old was
  | unbindComputed other =>
      obtain ⟨old, was, -, rfl | ⟨-, none⟩⟩ := row_unbindComputed present
      · exact balanced.models model m was
      · intro p listed
        rw [none] at listed
        cases listed
  | fit _ _ _ editable name operator c =>
      rw [(tables_fit _ _ editable name operator c v).1] at present
      exact balanced.models model m present
  | dispose binding =>
      rw [(tables_dispose binding v).1] at present
      exact balanced.models model m present
  | @close _ view _ was =>
      exact balanced.models model m
        (get?_retire (w := { v with views := v.views.erase view }) present)
  | _ => exact balanced.models model m present

theorem Balanced.bindings_step (balanced : v.Balanced ledger) (step : v.Step True attaching w)
    {binding : Ref .binding} {b : Binding} (present : w.bindings.get? binding = some b) :
    b.IsWired := by
  cases step with
  | release handle =>
      rw [(tables_release handle v).1] at present
      exact balanced.bindings binding b present
  | listen document element callback =>
      rw [(tables_listen document element (.client callback) v).2.2.1] at present
      exact balanced.bindings binding b present
  | install model p =>
      rw [(tables_install model p v).1] at present
      exact balanced.bindings binding b present
  | unbindComputed model =>
      rw [(tables_unbindComputed model v).1] at present
      exact balanced.bindings binding b present
  | start _ document element declaration env =>
      rcases Table.get?_insert_some.mp present with ⟨-, rfl⟩ | old
      · exact ⟨fun _ => rfl, fun gone => Bool.noConfusion gone⟩
      · exact balanced.bindings binding b old
  | @fit _ other b' there live editable name operator c =>
      by_cases same : binding = other
      · subst same
        exact (balanced.listed_fit there live editable name operator c).2 b present
      · rw [(onlyRow_fit other b' editable name operator c v).others same] at present
        exact balanced.bindings binding b present
  | amend other f same =>
      obtain ⟨old, was, rfl⟩ := Table.get?_update_some present
      split
      · exact (balanced.bindings binding old was).of_wiring (same old)
      · exact balanced.bindings binding old was
  | dispose other =>
      rcases there : v.bindings.get? other with _ | b'
      · rw [World.dispose, there] at present
        exact balanced.bindings binding b present
      · cases disposed : b'.disposed with
        | true =>
            rw [dispose_of_disposed there disposed] at present
            exact balanced.bindings binding b present
        | false =>
            rw [(disposed_dispose there disposed).bindings] at present
            obtain ⟨old, was, rfl⟩ := Table.get?_update_some present
            split
            · exact ⟨fun live => Bool.noConfusion live, fun _ => ⟨rfl, rfl⟩⟩
            · exact balanced.bindings binding old was
  | @close _ view v' was =>
      rw [close, (tables_retire _ _).1] at present
      exact balanced.bindings binding b present
  | _ => exact balanced.bindings binding b present

/-- Whatever is done, as long as what is named is there, a balanced world stays balanced. -/
theorem Balanced.step (balanced : v.Balanced ledger) (step : v.Step True attaching w) :
    w.Balanced ledger where
  ordered := (lasts_step step).ordered balanced.ordered
  announced := announced_step step balanced.announced
  listed := balanced.listed_step step
  models _ _ := balanced.models_step step
  bindings _ _ := balanced.bindings_step step

theorem Balanced.steps (balanced : v.Balanced ledger) (steps : v.Steps True attaching w) :
    w.Balanced ledger :=
  steps.keep _ (fun step balanced => balanced.step step) balanced

/-- A client that subscribes is owed its subscription, if it got one. -/
theorem Balanced.subscribe (balanced : v.Balanced ledger) (hub : Ref .hub) (event : String)
    (callback : Nat) :
    (v.subscribe hub event (.client callback)).2.Balanced
      (ledger ++ (v.subscribe hub event (.client callback)).1.toList.map fun s => (s, callback)) := by
  have lasts := lasts_subscribe hub event (.client callback) v
  unfold World.subscribe at lasts ⊢
  rcases present : v.hubs.get? hub with _ | h
  · simpa using balanced
  · rw [present] at lasts
    refine ⟨lasts.ordered balanced.ordered, balanced.announced.of_rows lasts fun _ m there =>
      ⟨m, there, rfl⟩, ?_, balanced.models, balanced.bindings⟩
    refine ((listed_subscribe event (.client callback) present).trans
      (balanced.listed.append_right _)).trans ?_
    rw [owed, List.append_assoc]
    refine (List.perm_append_comm.append_left _).trans (List.Perm.of_eq ?_)
    rw [owed, List.map_append, List.append_assoc]
    rfl

/-- One that cancels is not owed it any more. -/
theorem Balanced.withdraw (balanced : v.Balanced ledger) (s : Subscription) :
    (v.withdraw s).Balanced (ledger.filter fun entry => entry.1.key ≠ s.key) := by
  have lasts := lasts_withdraw s v
  refine ⟨lasts.ordered balanced.ordered, balanced.announced.of_rows lasts fun _ m there =>
    ⟨m, there, rfl⟩, ?_, balanced.models, balanced.bindings⟩
  have left : LiveBinding.listed (v.withdraw s).hubs =
      (LiveBinding.listed v.hubs).filter fun e => e.1.key ≠ s.key || !e.2.isClient := by
    refine (listed_filter v.hubs s.hub fun l => l.id ≠ s.id || !l.reaction.isClient).trans
      (List.filter_congr fun e _ => ?_)
    simp [Subscription.key, Prod.ext_iff, Decidable.imp_iff_not_or, Bool.or_assoc]
  rw [left]
  refine (balanced.listed.filter _).trans (List.Perm.of_eq ?_)
  rw [owed, owed, List.filter_append, List.filter_append, List.filter_map]
  congr 2
  · exact List.filter_congr fun entry _ => by simp [Reaction.isClient]
  · refine List.filter_eq_self.mpr fun e among => ?_
    obtain ⟨model, m, -, own⟩ := Table.mem_gather.mp among
    obtain ⟨p, -, on⟩ := List.mem_flatMap.mp own
    obtain ⟨sub, -, rfl⟩ := List.mem_map.mp on
    simp [Reaction.isClient]
  · refine List.filter_eq_self.mpr fun e among => ?_
    obtain ⟨binding, b, -, own⟩ := Table.mem_gather.mp among
    obtain ⟨entry, -, rfl⟩ := List.mem_map.mp own
    simp [Reaction.isClient]

end World

/-! ## Bindings -/

namespace World

variable {w : World σ} {ledger : List (Subscription × Nat)} {binding : Ref .binding}

/-- Whoever listens for a binding listens for one that lives. -/
theorem Balanced.lives (balanced : w.Balanced ledger) {s : Subscription} {reaction : Reaction}
    (registered : Registered w.hubs s reaction) (owns : reaction.owner = .binding binding) :
    ∃ b, w.bindings.get? binding = some b ∧ b.disposed = false := by
  have owed := balanced.listed.mem_iff.mp (mem_listed.mpr registered)
  rw [World.owed, List.mem_append, List.mem_append] at owed
  rcases owed with client | model | slot
  · obtain ⟨entry, -, same⟩ := List.mem_map.mp client
    cases same
    cases owns
  · obtain ⟨_, _, -, on⟩ := Table.mem_gather.mp model
    obtain ⟨_, -, own⟩ := List.mem_flatMap.mp on
    obtain ⟨_, -, same⟩ := List.mem_map.mp own
    cases same
    cases owns
  · obtain ⟨other, b, present, on⟩ := Table.mem_gather.mp slot
    obtain ⟨entry, among, same⟩ := List.mem_map.mp on
    cases same
    cases owns
    refine ⟨b, present, ?_⟩
    cases disposed : b.disposed with
    | false => rfl
    | true =>
        rw [Binding.enlisted, ((balanced.bindings _ b present).gone disposed).1,
          List.zip_nil_right] at among
        cases among

/-- What a binding holds is registered for it. -/
theorem Balanced.registered (balanced : w.Balanced ledger) {b : Binding}
    (present : w.bindings.get? binding = some b) {s : Subscription} (held : s ∈ b.subscriptions) :
    ∃ slot, Registered w.hubs s (.reapply binding slot) := by
  rw [← Binding.subscriptions_enlisted (balanced.bindings binding b present)] at held
  obtain ⟨⟨slot, _⟩, among, rfl⟩ := List.mem_map.mp held
  refine ⟨slot, mem_listed.mp (balanced.listed.mem_iff.mpr ?_)⟩
  refine List.mem_append_right _ (List.mem_append_right _ (Table.mem_gather.mpr ?_))
  exact ⟨binding, b, present, List.mem_map.mpr ⟨_, among, rfl⟩⟩

end World

/-! ## Hub by hub -/

/-- What the slots of the binding depend on, each dependency with its slot; nothing once the
binding is disposed. -/
def Binding.dependencies (b : Binding) : List (Nat × Dependency) :=
  if b.disposed then [] else b.enlisted.map fun entry => (entry.1, entry.2.dependency)

/-- One more slot depends on what it is subscribed to. -/
theorem Binding.dependencies_append {b : Binding} (wired : b.IsWired) (live : b.disposed = false)
    (slot : Slot) {subs : List Subscription} (ids : List Nat)
    (named : subs.map (·.event) = slot.events) :
    ({ b with
        slots := b.slots ++ [slot]
        subscriptions := b.subscriptions ++ subs
        listeners := b.listeners ++ ids } : Binding).dependencies =
      b.dependencies ++ (subs.map (·.dependency)).map fun d => (b.slots.length, d) := by
  rw [dependencies, dependencies, if_neg (by simp [live]), if_neg (by simp [live]),
    enlisted_append wired live slot ids named, List.map_append, List.map_map, List.map_map]
  rfl

namespace World

variable {w : World σ} {ledger : List (Subscription × Nat)}

/-- What is due to be listed on a hub, each listener by the event that it hears and what it
does: the subscriptions of the ledger, each computed property once for each of its
dependencies on the hub, and each slot of each live binding likewise. -/
def dues (ledger : List (Subscription × Nat)) (w : World σ) (hub : Ref .hub) :
    List (String × Reaction) :=
  ((ledger.filter (·.1.hub = hub)).map fun entry => (entry.1.event, .client entry.2)) ++
    ((w.models.gather fun model m => m.properties.flatMap fun p =>
        (p.dependencies.filter (·.hub = hub)).map fun d => (d.event, .refresh model p.name)) ++
      w.bindings.gather fun binding b => (b.dependencies.filter (·.2.hub = hub)).map fun entry =>
        (entry.2.event, .reapply binding entry.1))

/-- In a balanced world each hub lists what is due, and each as often as it is due. -/
theorem Balanced.dues (balanced : w.Balanced ledger) {hub : Ref .hub} {h : Hub}
    (present : w.hubs.get? hub = some h) :
    (h.listeners.map fun l => (l.event, l.reaction)).Perm (w.dues ledger hub) := by
  have here : h.listeners.map (fun l => (l.event, l.reaction)) =
      ((LiveBinding.listed w.hubs).filter (·.1.hub = hub)).map fun e => (e.1.event, e.2) := by
    rw [listed_of present, Hub.listed, List.map_map]
    rfl
  rw [here]
  refine ((balanced.listed.filter _).map _).trans (List.Perm.of_eq ?_)
  rw [owed, World.dues, List.filter_append, List.filter_append, List.map_append, List.map_append,
    Table.map_filter_gather, Table.map_filter_gather]
  congr 1
  · rw [List.filter_map, List.map_map]
    rfl
  congr 1
  · refine Table.gather_congr fun model m there => ?_
    rw [Model.owed, List.filter_flatMap, List.map_flatMap]
    refine List.flatMap_congr fun p listed => ?_
    rw [← (balanced.models model m there p listed).1, List.filter_map, List.filter_map,
      List.map_map, List.map_map]
    rfl
  · refine Table.gather_congr fun binding b there => ?_
    rw [Binding.dependencies, Binding.owed]
    split
    · rename_i disposed
      rw [Binding.enlisted, ((balanced.bindings binding b there).gone disposed).1,
        List.zip_nil_right]
      rfl
    · rw [List.filter_map, List.filter_map, List.map_map, List.map_map]
      rfl

end World

end LiveBinding
