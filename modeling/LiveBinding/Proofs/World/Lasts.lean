/-
# LiveBinding.Proofs.World.Lasts -- identifiers are never given out twice

A hub lists its listeners in the order of their subscription, by ascending identifiers
all of which it has given out (`Hub.Ordered`).  From one world to a later one each hub
has only gone on: it has given out more identifiers, and of those that it had given out
before none is listed that was not listed then (`Lasts`).  So a listener that is gone
never comes back.

Every step of the world is of that kind (`lasts_step`), and no step takes away the hub on
which a model announces its changes (`announced_step`).
-/
import LiveBinding.Proofs.Follower.Warranted
import LiveBinding.Proofs.World.Step
import Mathlib.Data.List.Nodup

namespace LiveBinding

set_option autoImplicit false

variable {σ : Type}

/-- Listeners are listed by ascending identifiers, all of them given out. -/
structure Hub.Ordered (hub : Hub) : Prop where
  below : ∀ l ∈ hub.listeners, l.id < hub.nextId
  ascending : hub.listeners.Pairwise fun l l' => l.id < l'.id

namespace Hub.Ordered

variable {hub : Hub}

theorem empty : Hub.empty.Ordered :=
  ⟨fun _ none => absurd none List.not_mem_nil, .nil⟩

theorem subscribe (ordered : hub.Ordered) (event : String) (reaction : Reaction) :
    (hub.subscribe event reaction).Ordered where
  below l listed := by
    rcases List.mem_append.mp listed with old | new
    · exact Nat.lt_succ_of_lt (ordered.below l old)
    · rw [List.mem_singleton.mp new]
      exact Nat.lt_succ_self _
  ascending := by
    refine List.pairwise_append.mpr ⟨ordered.ascending, List.pairwise_singleton _ _, ?_⟩
    intro l old l' new
    rw [List.mem_singleton.mp new]
    exact ordered.below l old

theorem filter (ordered : hub.Ordered) (keep : Listener → Bool) :
    ({ hub with listeners := hub.listeners.filter keep } : Hub).Ordered where
  below l listed := ordered.below l (List.mem_filter.mp listed).1
  ascending := ordered.ascending.filter keep

theorem numbered (ordered : hub.Ordered) : hub.Numbered where
  below := ordered.below
  unique l listed l' listed' same := by
    have distinct : (hub.listeners.map (·.id)).Nodup :=
      (List.pairwise_map.mpr ordered.ascending).imp Nat.ne_of_lt
    exact List.inj_on_of_nodup_map distinct listed listed' same

end Hub.Ordered

def Ordered (hubs : Hubs) : Prop :=
  ∀ ref hub, hubs.get? ref = some hub → hub.Ordered

theorem ordered_empty : Ordered Table.empty := fun ref hub present => by
  rw [Table.get?_empty] at present
  cases present

theorem Ordered.numbered {hubs : Hubs} (ordered : Ordered hubs) : Numbered hubs :=
  fun ref hub present => (ordered ref hub present).numbered

/-- The hubs of the first table have gone on to those of the second. -/
structure Lasts (hubs hubs' : Hubs) : Prop where
  ordered : Ordered hubs → Ordered hubs'
  known : ∀ ref hub, hubs.get? ref = some hub → ∃ hub', hubs'.get? ref = some hub' ∧
    hub.nextId ≤ hub'.nextId ∧ ∀ l ∈ hub'.listeners, l.id < hub.nextId → l ∈ hub.listeners

namespace Lasts

variable {hubs hubs' hubs'' : Hubs}

theorem refl (hubs : Hubs) : Lasts hubs hubs :=
  ⟨id, fun _ hub present => ⟨hub, present, Nat.le_refl _, fun _ listed _ => listed⟩⟩

theorem of_eq (same : hubs' = hubs) : Lasts hubs hubs' := same ▸ refl hubs

theorem trans (first : Lasts hubs hubs') (then_ : Lasts hubs' hubs'') : Lasts hubs hubs'' where
  ordered := then_.ordered ∘ first.ordered
  known ref hub present := by
    obtain ⟨hub', present', more, listed'⟩ := first.known ref hub present
    obtain ⟨hub'', present'', more', listed''⟩ := then_.known ref hub' present'
    exact ⟨hub'', present'', more.trans more', fun l listed old =>
      listed' l (listed'' l listed (Nat.lt_of_lt_of_le old more)) old⟩

theorem exists_ (lasts : Lasts hubs hubs') {ref : Ref .hub} (there : (hubs.get? ref).isSome) :
    (hubs'.get? ref).isSome := by
  obtain ⟨hub, present⟩ := Option.isSome_iff_exists.mp there
  obtain ⟨hub', present', -⟩ := lasts.known ref hub present
  rw [present']
  rfl

theorem insert (hubs : Hubs) : Lasts hubs (hubs.insert .empty) where
  ordered ordered ref hub present := by
    rcases Table.get?_insert_some.mp present with ⟨-, rfl⟩ | old
    · exact .empty
    · exact ordered ref hub old
  known _ hub present :=
    ⟨hub, Table.get?_insert_some.mpr (Or.inr present), Nat.le_refl _, fun _ listed _ => listed⟩

/-- Changing one hub so that it goes on. -/
theorem update (ref : Ref .hub) {f : Hub → Hub} (ordered : ∀ hub : Hub, hub.Ordered → (f hub).Ordered)
    (more : ∀ hub : Hub, hub.nextId ≤ (f hub).nextId)
    (known : ∀ hub : Hub, ∀ l ∈ (f hub).listeners, l.id < hub.nextId → l ∈ hub.listeners)
    (hubs : Hubs) : Lasts hubs (hubs.update ref f) where
  ordered was other hub present := by
    obtain ⟨old, there, rfl⟩ := Table.get?_update_some present
    split
    · exact ordered old (was other old there)
    · exact was other old there
  known other hub present := by
    by_cases same : other = ref
    · subst same
      exact ⟨f hub, by rw [Table.get?_update_self, present]; rfl, more hub, known hub⟩
    · exact ⟨hub, by rw [Table.get?_update_of_ne _ _ same, present], Nat.le_refl _,
        fun _ listed _ => listed⟩

theorem filter (ref : Ref .hub) (keep : Listener → Bool) (hubs : Hubs) :
    Lasts hubs (hubs.update ref fun hub => { hub with listeners := hub.listeners.filter keep }) :=
  update ref (fun _ ordered => ordered.filter keep) (fun _ => Nat.le_refl _)
    (fun _ _ listed _ => (List.mem_filter.mp listed).1) hubs

theorem subscribe (ref : Ref .hub) (event : String) (reaction : Reaction) (hubs : Hubs) :
    Lasts hubs (hubs.update ref (Hub.subscribe event reaction)) := by
  refine update ref (fun _ ordered => ordered.subscribe event reaction) (fun _ => Nat.le_succ _) ?_ hubs
  intro hub l listed old
  rcases List.mem_append.mp listed with before | new
  · exact before
  · rw [List.mem_singleton.mp new] at old
    exact absurd old (Nat.lt_irrefl _)

/-- Who is registered under an identifier that was given out before was so then. -/
theorem isRegistered (lasts : Lasts hubs hubs') {ref : Ref .hub} {hub hub' : Hub} {id : Nat}
    (present : hubs.get? ref = some hub) (present' : hubs'.get? ref = some hub')
    (old : id < hub.nextId) (registered : hub'.isRegistered id = true) :
    hub.isRegistered id = true := by
  obtain ⟨found, there, -, known⟩ := lasts.known ref hub present
  rw [present'] at there
  cases there
  obtain ⟨l, listed, is⟩ := List.any_eq_true.mp registered
  have same : l.id = id := by simpa using is
  exact List.any_eq_true.mpr ⟨l, known l listed (by omega), is⟩

/-- Who was registered, and still is under that identifier, is registered as before. -/
theorem registered (lasts : Lasts hubs hubs') (ordered : Ordered hubs) {s : Subscription}
    {reaction : Reaction} (was : Registered hubs s reaction) {hub' : Hub}
    (present' : hubs'.get? s.hub = some hub') (still : hub'.isRegistered s.id = true) :
    Registered hubs' s reaction := by
  obtain ⟨hub, present, listed⟩ := was
  obtain ⟨found, there, -, known⟩ := lasts.known s.hub hub present
  rw [present'] at there
  cases there
  obtain ⟨l, on, is⟩ := List.any_eq_true.mp still
  have same : l.id = s.id := by simpa using is
  have orderly := ordered s.hub hub present
  have below : l.id < hub.nextId := same ▸ orderly.below _ listed
  have one := orderly.numbered.unique _ (known l on below) _ listed same
  exact ⟨hub', present', one ▸ on⟩

end Lasts

namespace World

variable {careful attaching : Prop} {v w : World σ}

theorem lasts_subscribe (hub : Ref .hub) (event : String) (reaction : Reaction) (w : World σ) :
    Lasts w.hubs (w.subscribe hub event reaction).2.hubs := by
  unfold subscribe
  split
  · exact .subscribe hub event reaction w.hubs
  · exact .refl _

theorem lasts_cancelAll (ss : List Subscription) (w : World σ) : Lasts w.hubs (w.cancelAll ss).hubs := by
  induction ss generalizing w with
  | nil => exact .refl _
  | cons s rest ih => exact (Lasts.filter s.hub _ w.hubs).trans (ih (w.cancel s))

theorem lasts_withdraw (s : Subscription) (w : World σ) : Lasts w.hubs (w.withdraw s).hubs :=
  .filter s.hub _ w.hubs

theorem lasts_retire (model : Ref .model) (w : World σ) : Lasts w.hubs (w.retire model).hubs := by
  unfold retire
  split
  · exact .refl _
  · split
    · exact lasts_cancelAll _ w
    · exact .refl _

theorem lasts_release (handle : Handle) (w : World σ) : Lasts w.hubs (w.release handle).hubs := by
  cases handle with
  | model model => exact lasts_retire model { w with held := w.held.erase (.model model) }
  | _ => exact .refl _

theorem lasts_unbindComputed (model : Ref .model) (w : World σ) :
    Lasts w.hubs (w.unbindComputed model).hubs := by
  unfold unbindComputed
  split
  · exact .refl _
  · split
    · exact .refl _
    · exact lasts_cancelAll _ (World.report _ { w with
        models := w.models.update model fun m => { m with properties := [] } })

theorem lasts_dispose (binding : Ref .binding) (w : World σ) :
    Lasts w.hubs (w.dispose binding).hubs := by
  unfold dispose
  split
  · exact .refl _
  · rename_i b _
    split
    · exact .refl _
    · dsimp only
      have released := lasts_cancelAll b.subscriptions { w with
        bindings := w.bindings.update binding fun b =>
          { b with disposed := true, subscriptions := [], listeners := [] } }
      split
      · exact released.trans (.of_eq (editDocuments_tables _ _ _ _).1)
      · exact released

theorem lasts_subscribeAll (model : Ref .model) (name : String) (ds : List Dependency)
    (w : World σ) : Lasts w.hubs (subscribeAll model name ds w).2.hubs := by
  induction ds generalizing w with
  | nil => exact .refl _
  | cons d rest ih => exact (lasts_subscribe d.hub d.event (.refresh model name) w).trans (ih _)

theorem lasts_fit (binding : Ref .binding) (b : Binding) (editable : Bool) (name : String)
    (operator : Operator) (c : Compilation) (w : World σ) :
    Lasts w.hubs (w.fit binding b editable name operator c).hubs := by
  have enlisted : ∀ (ds : List Dependency) (v : World σ),
      Lasts v.hubs (ds.foldl (enlist binding b.slots.length) v).hubs := by
    intro ds
    induction ds with
    | nil => exact fun v => .refl _
    | cons d rest ih =>
        exact fun v => (lasts_subscribe d.hub d.event (.reapply binding b.slots.length) v).trans
          (ih (v.enlist binding b.slots.length d))
  exact (Lasts.of_eq (tables_equip binding b editable name operator c w).2.2.2).trans (enlisted _ _)

/-- Hubs only go on. -/
theorem lasts_step (step : v.Step careful attaching w) : Lasts v.hubs w.hubs := by
  cases step with
  | release handle => exact lasts_release handle v
  | openHub => exact .insert v.hubs
  | openModel attributes => exact .insert v.hubs
  | listen document element callback => exact .of_eq (tables_listen _ _ _ v).1
  | install model p => exact lasts_subscribeAll model p.name p.dependencies v
  | unbindComputed model => exact lasts_unbindComputed model v
  | fit _ present live editable name operator c => exact lasts_fit _ _ editable name operator c v
  | dispose binding => exact lasts_dispose binding v
  | @close _ view v' present => exact lasts_retire v'.model { v with views := v.views.erase view }
  | _ => exact .refl _

theorem Steps.lasts (steps : v.Steps careful attaching w) : Lasts v.hubs w.hubs :=
  steps.keep (fun w => Lasts v.hubs w.hubs) (fun step lasts => lasts.trans (lasts_step step))
    (.refl _)

/-! ## The hubs of models -/

def Announced (w : World σ) : Prop :=
  ∀ model m, w.models.get? model = some m → (w.hubs.get? m.hub).isSome

/-- What shows of a model shows on a hub that is there. -/
theorem Announced.sight (announced : w.Announced) {model : Ref .model} {name : String}
    {seen : Seen} (shown : w.sight model name = some seen) : (w.hubs.get? seen.hub).isSome := by
  obtain ⟨m, present, rfl⟩ := Option.map_eq_some_iff.mp shown
  exact announced model m present

/-- Models that are left announce their changes where they did. -/
theorem Announced.of_rows (announced : v.Announced) (lasts : Lasts v.hubs w.hubs)
    (rows : ∀ model m', w.models.get? model = some m' →
      ∃ m, v.models.get? model = some m ∧ m'.hub = m.hub) : w.Announced := by
  intro model m' present
  obtain ⟨m, was, same⟩ := rows model m' present
  rw [same]
  exact lasts.exists_ (announced model m was)

theorem get?_retire {model other : Ref .model} {m : Model σ}
    (present : (w.retire model).models.get? other = some m) : w.models.get? other = some m := by
  unfold retire at present
  split at present
  · exact present
  · split at present
    · dsimp only at present
      rw [models_cancelAll] at present
      exact (Table.get?_of_get?_erase present).2
    · exact present

/-- A step leaves each model on its hub; only a new model has a new hub. -/
theorem row_step (step : v.Step careful attaching w) {model : Ref .model} {m' : Model σ}
    (present : w.models.get? model = some m') :
    (∃ m, v.models.get? model = some m ∧ m'.hub = m.hub) ∨
      model = v.models.fresh ∧ m'.hub = v.hubs.fresh ∧ w.hubs = v.hubs.insert .empty := by
  cases step with
  | release handle =>
      refine Or.inl ⟨m', ?_, rfl⟩
      cases handle with
      | model other => exact get?_retire (w := { v with held := v.held.erase (.model other) }) present
      | _ => exact present
  | openModel attributes =>
      rcases Table.get?_insert_some.mp present with ⟨rfl, rfl⟩ | old
      · exact Or.inr ⟨rfl, rfl, rfl⟩
      · exact Or.inl ⟨m', old, rfl⟩
  | listen document element callback =>
      rw [(tables_listen _ _ _ v).2.1] at present
      exact Or.inl ⟨m', present, rfl⟩
  | put other there same =>
      rcases get?_put there present with ⟨rfl, rfl⟩ | ⟨-, was⟩
      · exact Or.inl ⟨_, there, same.1⟩
      · exact Or.inl ⟨m', was, rfl⟩
  | install other p =>
      rw [install, (tables_subscribeAll _ _ _ _).1] at present
      obtain ⟨m, was, rfl⟩ := Table.get?_update_some present
      refine Or.inl ⟨m, was, ?_⟩
      split <;> rfl
  | unbindComputed other =>
      obtain ⟨m, was, same, -⟩ := row_unbindComputed present
      exact Or.inl ⟨m, was, same.symm⟩
  | fit _ _ _ editable name operator c =>
      rw [(tables_fit _ _ editable name operator c v).1] at present
      exact Or.inl ⟨m', present, rfl⟩
  | dispose binding =>
      rw [(tables_dispose binding v).1] at present
      exact Or.inl ⟨m', present, rfl⟩
  | @close _ view _ _ =>
      exact Or.inl ⟨m', get?_retire (w := { v with views := v.views.erase view }) present, rfl⟩
  | _ => exact Or.inl ⟨m', present, rfl⟩

theorem announced_step (step : v.Step careful attaching w) (announced : v.Announced) : w.Announced := by
  intro model m' present
  rcases row_step step present with ⟨m, was, same⟩ | ⟨-, new, hubs⟩
  · rw [same]
    exact (lasts_step step).exists_ (announced model m was)
  · rw [new, hubs, Table.get?_insert_fresh]
    rfl

theorem Steps.announced (steps : v.Steps careful attaching w) (announced : v.Announced) : w.Announced :=
  steps.keep _ announced_step announced

def OwnHubs (w : World σ) : Prop :=
  ∀ model other m m', w.models.get? model = some m → w.models.get? other = some m' →
    m.hub = m'.hub → model = other

theorem OwnHubs.of_models (own : v.OwnHubs) (same : w.models = v.models) : w.OwnHubs := by
  unfold OwnHubs
  rw [same]
  exact own

theorem ownHubs_step (step : v.Step careful attaching w) (announced : v.Announced)
    (own : v.OwnHubs) : w.OwnHubs := by
  -- a hub that is new announces nothing of an old model
  have new : ∀ {model : Ref .model} {m : Model σ}, v.models.get? model = some m →
      m.hub ≠ v.hubs.fresh := by
    intro model m was same
    have there := announced model m was
    rw [same, Table.get?_fresh] at there
    cases there
  intro model other m m' present present' same
  rcases row_step step present with ⟨old, was, hub⟩ | ⟨rfl, hub, -⟩ <;>
    rcases row_step step present' with ⟨old', was', hub'⟩ | ⟨rfl, hub', -⟩
  · exact own model other old old' was was' (hub.symm.trans (same.trans hub'))
  · exact absurd (hub.symm.trans (same.trans hub')) (new was)
  · exact absurd (hub'.symm.trans (same.symm.trans hub)) (new was')
  · rfl

theorem Steps.ownHubs (steps : v.Steps careful attaching w) (announced : v.Announced)
    (own : v.OwnHubs) : w.OwnHubs :=
  (steps.keep (fun w => w.Announced ∧ w.OwnHubs)
    (fun step ⟨announced, own⟩ => ⟨announced_step step announced, ownHubs_step step announced own⟩)
    ⟨announced, own⟩).2

/-! ## Models that were opened -/

/-- Of the models that had been opened in the first world only those are there in the second
that were there in the first, and they announce their changes on the same hubs. -/
structure ModelsLast (v w : World σ) : Prop where
  issued : v.models.rows.length ≤ w.models.rows.length
  known : ∀ (model : Ref .model) m', model.index < v.models.rows.length →
    w.models.get? model = some m' → ∃ m, v.models.get? model = some m ∧ m'.hub = m.hub

namespace ModelsLast

variable {u : World σ}

theorem of_eq (same : w.models = v.models) : v.ModelsLast w :=
  ⟨by rw [same], fun _ m' _ present => ⟨m', by rw [← same]; exact present, rfl⟩⟩

theorem refl (w : World σ) : w.ModelsLast w := of_eq rfl

theorem trans (first : u.ModelsLast v) (then_ : v.ModelsLast w) : u.ModelsLast w where
  issued := first.issued.trans then_.issued
  known model m'' opened present := by
    obtain ⟨m', was', same'⟩ :=
      then_.known model m'' (Nat.lt_of_lt_of_le opened first.issued) present
    obtain ⟨m, was, same⟩ := first.known model m' opened was'
    exact ⟨m, was, same'.trans same⟩

instance : IsPreorder (World σ) ModelsLast where
  refl := refl
  trans _ _ _ := trans

/-- What an attribute shows of a model that had been opened, it shows on the hub on which it
did. -/
theorem sight (lasts : v.ModelsLast w) {model : Ref .model} {name : String} {seen : Seen}
    (opened : model.index < v.models.rows.length) (shown : w.sight model name = some seen) :
    ∃ seen', v.sight model name = some seen' ∧ seen'.hub = seen.hub := by
  obtain ⟨m', present, rfl⟩ := Option.map_eq_some_iff.mp shown
  obtain ⟨m, was, same⟩ := lasts.known model m' opened present
  exact ⟨⟨m.hub, m.read name⟩, by rw [World.sight, was]; rfl, same.symm⟩

end ModelsLast

theorem issued_retire (model : Ref .model) (w : World σ) :
    (w.retire model).models.rows.length = w.models.rows.length := by
  unfold retire
  split
  · rfl
  · split
    · simp [Table.erase]
    · rfl

theorem issued_step (step : v.Step careful attaching w) :
    v.models.rows.length ≤ w.models.rows.length := by
  cases step with
  | release handle =>
      cases handle with
      | model other =>
          exact (issued_retire other { v with held := v.held.erase (.model other) }).ge
      | _ => exact Nat.le_refl _
  | openModel attributes => simp [openModel, hold, Table.insert]
  | listen document element callback => rw [(tables_listen _ _ _ v).2.1]
  | put other there same => simp [World.put, Table.update]
  | install other p => simp [install, (tables_subscribeAll _ _ _ _).1, Table.update]
  | unbindComputed other =>
      unfold unbindComputed
      split
      · exact Nat.le_refl _
      · split
        · exact Nat.le_refl _
        · simp [report, happen, Table.update]
  | fit _ _ _ editable name operator c => rw [(tables_fit _ _ editable name operator c v).1]
  | dispose binding => rw [(tables_dispose binding v).1]
  | @close _ view row _ => exact (issued_retire row.model { v with views := v.views.erase view }).ge
  | _ => exact Nat.le_refl _

theorem modelsLast_step (step : v.Step careful attaching w) : v.ModelsLast w where
  issued := issued_step step
  known model m' opened present := by
    rcases row_step step present with there | ⟨rfl, -, -⟩
    · exact there
    · exact absurd opened (Nat.lt_irrefl _)

theorem Steps.modelsLast (steps : v.Steps careful attaching w) : v.ModelsLast w :=
  steps.keep (fun w => v.ModelsLast w) (fun step lasts => lasts.trans (modelsLast_step step))
    (.refl v)

end World

end LiveBinding
