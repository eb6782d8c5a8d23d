/-
# LiveBinding.Proofs.World.Fit -- applying an operator for the first time

Once an expression is compiled, applying its operator is a change of the world and
cannot fail (`World.fit`).  The element changes, the binding has one more slot, and
the slot hears of everything that was read.
-/
import LiveBinding.Proofs.World.Registered

namespace LiveBinding

set_option autoImplicit false

variable {σ : Type}

namespace World

def enlist (binding : Ref .binding) (slot : Nat) (w : World σ) (d : Dependency) : World σ :=
  let result := w.subscribe d.hub d.event (.reapply binding slot)
  { result.2 with
    bindings := result.2.bindings.update binding fun b =>
      { b with subscriptions := b.subscriptions ++ result.1.toList } }

def attend (binding : Ref .binding) (b : Binding) (w : World σ) : World σ :=
  let result := w.listen b.document b.element (.push binding b.slots.length)
  { result.2 with
    bindings := result.2.bindings.update binding fun b =>
      { b with listeners := b.listeners ++ [result.1] } }

/-- Apply an operator and add its slot to the binding, its expression being compiled. -/
def equip (binding : Ref .binding) (b : Binding) (editable : Bool) (name : String)
    (operator : Operator) (c : Compilation) (w : World σ) : World σ :=
  let dependencies := c.dependencies w.sight
  let applied := w.editDocument b.document
    (.amend b.element (operator.apply (c.compiled.value w.sight)))
  let attended :=
    if editable && operator.readable && c.compiled.isLeaf then applied.attend binding b else applied
  let reported := attended.report
    (.operatorApplied b.selector name c.compiled.isDirty dependencies.length)
  { reported with
    bindings := reported.bindings.update binding fun b =>
      { b with slots := b.slots ++ [⟨name, operator, c.compiled, c.compiled.isDirty,
          Collector.events dependencies, 0⟩] } }

def fit (binding : Ref .binding) (b : Binding) (editable : Bool) (name : String)
    (operator : Operator) (c : Compilation) (w : World σ) : World σ :=
  (c.dependencies w.sight).foldl (enlist binding b.slots.length)
    (w.equip binding b editable name operator c)

variable {w : World σ} {binding : Ref .binding} {slot : Nat} {b : Binding} {editable : Bool}
  {name : String} {operator : Operator} {c : Compilation}

/-! ## What is left of the binding -/

/-- A slot that is subscribed to a dependency of an existing hub hears of it. -/
theorem enlist_row (slot : Nat) (present : w.bindings.get? binding = some b) (d : Dependency) :
    ∃ sub, (w.enlist binding slot d).bindings.get? binding =
        some { b with subscriptions := b.subscriptions ++ sub } ∧
      ((w.hubs.get? d.hub).isSome → ∃ s ∈ sub, s.hub = d.hub ∧ s.event = d.event ∧
        Registered (w.enlist binding slot d).hubs s (.reapply binding slot)) := by
  have bindings : (w.subscribe d.hub d.event (.reapply binding slot)).2.bindings = w.bindings := by
    unfold subscribe
    split <;> rfl
  refine ⟨(w.subscribe d.hub d.event (.reapply binding slot)).1.toList, ?_, fun there => ?_⟩
  · rw [enlist]
    dsimp only
    rw [bindings, Table.get?_update_self, present]
    rfl
  · obtain ⟨s, subscribed⟩ := Option.isSome_iff_exists.mp
      (subscribe_isSome d.event (.reapply binding slot) there)
    obtain ⟨registered, hub, event⟩ := registered_subscribe subscribed
    exact ⟨s, by rw [subscribed]; exact List.mem_singleton.mpr rfl, hub, event, registered⟩

theorem continues_enlist (binding : Ref .binding) (slot : Nat) (d : Dependency) (w : World σ) :
    Continues w.hubs (w.enlist binding slot d).hubs :=
  continues_subscribe d.hub d.event (.reapply binding slot) w

theorem continues_enlistAll (binding : Ref .binding) (slot : Nat) (ds : List Dependency)
    (w : World σ) :
    Continues w.hubs (ds.foldl (enlist binding slot) w).hubs := by
  induction ds generalizing w with
  | nil => exact .refl _
  | cons d rest ih => exact (continues_enlist binding slot d w).trans (ih (w.enlist binding slot d))

theorem enlistAll_row (slot : Nat) (present : w.bindings.get? binding = some b)
    (ds : List Dependency) :
    ∃ subs, (ds.foldl (enlist binding slot) w).bindings.get? binding =
        some { b with subscriptions := b.subscriptions ++ subs } ∧
      ∀ d ∈ ds, (w.hubs.get? d.hub).isSome → ∃ s ∈ subs, s.hub = d.hub ∧ s.event = d.event ∧
        Registered (ds.foldl (enlist binding slot) w).hubs s (.reapply binding slot) := by
  induction ds generalizing w b with
  | nil => exact ⟨[], by simpa using present, by simp⟩
  | cons d rest ih =>
      obtain ⟨sub, there, hears⟩ := enlist_row slot present d
      obtain ⟨subs, thereThen, hearsThen⟩ := ih there
      refine ⟨sub ++ subs, ?_, fun d' listed isThere => ?_⟩
      · rw [List.foldl_cons, thereThen, List.append_assoc]
      · rcases List.mem_cons.mp listed with rfl | later
        · obtain ⟨s, among, hub, event, registered⟩ := hears isThere
          exact ⟨s, List.mem_append_left _ among, hub, event,
            (continues_enlistAll binding slot rest _).stands registered⟩
        · obtain ⟨s, among, facts⟩ :=
            hearsThen d' later ((continues_enlist binding slot d w).exists_ isThere)
          exact ⟨s, List.mem_append_right _ among, facts⟩

theorem row_attend (present : w.bindings.get? binding = some b) :
    ∃ ids, (w.attend binding b).bindings.get? binding = some { b with listeners := b.listeners ++ ids } := by
  refine ⟨[(w.listen b.document b.element (.push binding b.slots.length)).1], ?_⟩
  have bindings : (w.listen b.document b.element (.push binding b.slots.length)).2.bindings =
      w.bindings := by
    unfold listen
    split <;> rfl
  rw [attend]
  dsimp only
  rw [bindings, Table.get?_update_self, present]
  rfl

theorem tables_enlistAll (binding : Ref .binding) (slot : Nat) (ds : List Dependency)
    (w : World σ) :
    (ds.foldl (enlist binding slot) w).models = w.models ∧
      (ds.foldl (enlist binding slot) w).views = w.views ∧
      (ds.foldl (enlist binding slot) w).held = w.held ∧
      (ds.foldl (enlist binding slot) w).documents = w.documents := by
  induction ds generalizing w with
  | nil => exact ⟨rfl, rfl, rfl, rfl⟩
  | cons d rest ih =>
      obtain ⟨models, views, held, documents⟩ := ih (w.enlist binding slot d)
      have once : (w.enlist binding slot d).models = w.models ∧
          (w.enlist binding slot d).views = w.views ∧ (w.enlist binding slot d).held = w.held ∧
          (w.enlist binding slot d).documents = w.documents := by
        unfold enlist subscribe
        split <;> exact ⟨rfl, rfl, rfl, rfl⟩
      exact ⟨models.trans once.1, views.trans once.2.1, held.trans once.2.2.1,
        documents.trans once.2.2.2⟩

theorem tables_attend (b : Binding) (w : World σ) :
    (w.attend binding b).models = w.models ∧ (w.attend binding b).views = w.views ∧
      (w.attend binding b).held = w.held ∧ (w.attend binding b).hubs = w.hubs := by
  unfold attend listen
  split <;> exact ⟨rfl, rfl, rfl, rfl⟩

theorem tables_equip (binding : Ref .binding) (b : Binding) (editable : Bool) (name : String)
    (operator : Operator) (c : Compilation) (w : World σ) :
    (w.equip binding b editable name operator c).models = w.models ∧
      (w.equip binding b editable name operator c).views = w.views ∧
      (w.equip binding b editable name operator c).held = w.held ∧
      (w.equip binding b editable name operator c).hubs = w.hubs := by
  unfold equip
  dsimp only
  split
  · exact tables_attend b (w.editDocument b.document _)
  · exact ⟨rfl, rfl, rfl, rfl⟩

theorem row_equip (editable : Bool) (name : String) (operator : Operator) (c : Compilation)
    (present : w.bindings.get? binding = some b) :
    ∃ ids, (w.equip binding b editable name operator c).bindings.get? binding =
      some { b with
        slots := b.slots ++ [⟨name, operator, c.compiled, c.compiled.isDirty,
          Collector.events (c.dependencies w.sight), 0⟩]
        listeners := b.listeners ++ ids } := by
  unfold equip
  dsimp only
  rw [Table.get?_update_self]
  split
  · have applied : (w.editDocument b.document
        (.amend b.element (operator.apply (c.compiled.value w.sight)))).bindings.get? binding =
        some b := present
    obtain ⟨ids, there⟩ := row_attend applied
    refine ⟨ids, ?_⟩
    show ((attend binding b _).bindings.get? binding).map _ = _
    rw [there]
    rfl
  · refine ⟨[], ?_⟩
    show (w.bindings.get? binding).map _ = _
    rw [present, List.append_nil]
    rfl

theorem tables_fit (binding : Ref .binding) (b : Binding) (editable : Bool) (name : String)
    (operator : Operator) (c : Compilation) (w : World σ) :
    (w.fit binding b editable name operator c).models = w.models ∧
      (w.fit binding b editable name operator c).views = w.views ∧
      (w.fit binding b editable name operator c).held = w.held := by
  obtain ⟨models, views, held, -⟩ := tables_enlistAll binding b.slots.length
    (c.dependencies w.sight) (w.equip binding b editable name operator c)
  obtain ⟨modelsEquip, viewsEquip, heldEquip, -⟩ := tables_equip binding b editable name operator c w
  exact ⟨models.trans modelsEquip, views.trans viewsEquip, held.trans heldEquip⟩

theorem continues_fit (binding : Ref .binding) (b : Binding) (editable : Bool) (name : String)
    (operator : Operator) (c : Compilation) (w : World σ) :
    Continues w.hubs (w.fit binding b editable name operator c).hubs := by
  have continues := continues_enlistAll binding b.slots.length
    (c.dependencies w.sight) (w.equip binding b editable name operator c)
  rw [(tables_equip binding b editable name operator c w).2.2.2] at continues
  exact continues

/-- The binding after one more operator was applied: it hears of what was read. -/
theorem row_fit (editable : Bool) (name : String) (operator : Operator) (c : Compilation)
    (present : w.bindings.get? binding = some b) :
    ∃ subs ids, (w.fit binding b editable name operator c).bindings.get? binding =
        some { b with
          slots := b.slots ++ [⟨name, operator, c.compiled, c.compiled.isDirty,
            Collector.events (c.dependencies w.sight), 0⟩]
          subscriptions := b.subscriptions ++ subs
          listeners := b.listeners ++ ids } ∧
      ∀ d ∈ c.dependencies w.sight, (w.hubs.get? d.hub).isSome →
        ∃ s ∈ subs, s.hub = d.hub ∧ s.event = d.event ∧
          Registered (w.fit binding b editable name operator c).hubs s
            (.reapply binding b.slots.length) := by
  obtain ⟨ids, there⟩ := row_equip editable name operator c present
  obtain ⟨subs, thereThen, hears⟩ := enlistAll_row b.slots.length there (c.dependencies w.sight)
  rw [(tables_equip binding b editable name operator c w).2.2.2] at hears
  exact ⟨subs, ids, thereThen, hears⟩

/-! ## What is left of other bindings -/

/-- Two tables that differ in one row only. -/
structure OnlyRow (binding : Ref .binding) (before after : Table .binding Binding) : Prop where
  fresh : after.fresh = before.fresh
  others : ∀ {other}, other ≠ binding → after.get? other = before.get? other

theorem OnlyRow.refl (bindings : Table .binding Binding) : OnlyRow binding bindings bindings :=
  ⟨rfl, fun _ => rfl⟩

theorem OnlyRow.trans {bindings bindings' bindings'' : Table .binding Binding}
    (first : OnlyRow binding bindings bindings') (then_ : OnlyRow binding bindings' bindings'') :
    OnlyRow binding bindings bindings'' :=
  ⟨then_.fresh.trans first.fresh, fun distinct =>
    (then_.others distinct).trans (first.others distinct)⟩

theorem OnlyRow.update (bindings : Table .binding Binding) (f : Binding → Binding) :
    OnlyRow binding bindings (bindings.update binding f) :=
  ⟨Table.fresh_update _ _ _, Table.get?_update_of_ne _ _⟩

theorem onlyRow_enlist (binding : Ref .binding) (slot : Nat) (d : Dependency) (w : World σ) :
    OnlyRow binding w.bindings (w.enlist binding slot d).bindings := by
  unfold enlist subscribe
  split <;> exact .update _ _

theorem onlyRow_equip (binding : Ref .binding) (b : Binding) (editable : Bool) (name : String)
    (operator : Operator) (c : Compilation) (w : World σ) :
    OnlyRow binding w.bindings (w.equip binding b editable name operator c).bindings := by
  unfold equip attend listen
  dsimp only
  split
  · split <;> exact (OnlyRow.update _ _).trans (.update _ _)
  · exact .update _ _

theorem onlyRow_fit (binding : Ref .binding) (b : Binding) (editable : Bool) (name : String)
    (operator : Operator) (c : Compilation) (w : World σ) :
    OnlyRow binding w.bindings (w.fit binding b editable name operator c).bindings := by
  have enlisted : ∀ (ds : List Dependency) (v : World σ),
      OnlyRow binding v.bindings (ds.foldl (enlist binding b.slots.length) v).bindings := by
    intro ds
    induction ds with
    | nil => exact fun v => .refl _
    | cons d rest ih => exact fun v => (onlyRow_enlist _ _ d v).trans (ih _)
  exact (onlyRow_equip _ _ _ _ _ _ _).trans (enlisted _ _)

end World

end LiveBinding
