/-
# LiveBinding.Proofs.Run.Lodge -- what attaching leaves alone

Attaching a declaration adds one binding and touches no other, whether it succeeds or not;
if it does not, the one that was added is disposed (`attach_lodges`).  Attaching many adds
as many, and either all of them are handed over or all are disposed (`attachAll_lodges`).
Views and handles stay as they are.
-/
import LiveBinding.Proofs.Run.Concludes
import LiveBinding.Proofs.Run.Leads
import LiveBinding.Proofs.World.Tenure

namespace LiveBinding

set_option autoImplicit false

variable {σ : Type}

namespace World

/-- Of the models, the bindings, the views and what is held nothing changes but the rows of
these bindings. -/
structure Lodges (mine : List (Ref .binding)) (v w : World σ) : Prop where
  others : ∀ other, other ∉ mine → w.bindings.get? other = v.bindings.get? other
  fresh : v.bindings.fresh.index ≤ w.bindings.fresh.index
  views : w.views = v.views
  held : w.held = v.held
  models : w.models = v.models

namespace Lodges

variable {mine : List (Ref .binding)} {u v w : World σ}

theorem refl (w : World σ) : Lodges mine w w := ⟨fun _ _ => rfl, Nat.le_refl _, rfl, rfl, rfl⟩

theorem trans (first : u.Lodges mine v) (then_ : v.Lodges mine w) : u.Lodges mine w :=
  ⟨fun other apart => (then_.others other apart).trans (first.others other apart),
    Nat.le_trans first.fresh then_.fresh, then_.views.trans first.views,
    then_.held.trans first.held, then_.models.trans first.models⟩

theorem mono {more : List (Ref .binding)} (lodges : v.Lodges mine w)
    (among : mine ⊆ more) : v.Lodges more w :=
  ⟨fun other apart => lodges.others other fun listed => apart (among listed), lodges.fresh,
    lodges.views, lodges.held, lodges.models⟩

/-- Bindings that are added leave the others what they are. -/
theorem bindingsLast (lodges : v.Lodges mine w)
    (new : ∀ b ∈ mine, v.bindings.fresh.index ≤ b.index) : v.BindingsLast w := by
  intro binding b present
  have old : binding ∉ mine := fun among =>
    absurd (Table.lt_of_get? present) (Nat.not_lt_of_le (new binding among))
  exact ⟨b, by rw [lodges.others binding old, present], fun _ => rfl⟩

/-- Models show what they showed. -/
theorem sight (lodges : v.Lodges mine w) : w.sight = v.sight := by
  unfold World.sight
  rw [lodges.models]

/-- And they are all that can get loose. -/
theorem loose {binding : Ref .binding} (lodges : v.Lodges mine w) (old : binding ∉ mine)
    (loose : w.IsLoose binding) : v.IsLoose binding :=
  ⟨lodges.others binding old ▸ loose.lives, lodges.views ▸ loose.unowned⟩

end Lodges

instance (mine : List (Ref .binding)) : IsPreorder (World σ) (Lodges mine) where
  refl := Lodges.refl
  trans _ _ _ := Lodges.trans

variable {w : World σ} {binding : Ref .binding} {b : Binding}

theorem lodges_happen (mine : List (Ref .binding)) (happening : Happening) (w : World σ) :
    w.Lodges mine (w.happen happening) :=
  ⟨fun _ _ => rfl, Nat.le_refl _, rfl, rfl, rfl⟩

theorem lodges_of_onlyRow {v w : World σ} (only : OnlyRow binding v.bindings w.bindings)
    (views : w.views = v.views) (held : w.held = v.held) (models : w.models = v.models) :
    v.Lodges [binding] w :=
  ⟨fun _ apart => only.others fun same => apart (List.mem_singleton.mpr same),
    Nat.le_of_eq (congrArg Ref.index only.fresh).symm, views, held, models⟩

theorem lodges_fit (binding : Ref .binding) (b : Binding) (editable : Bool) (name : String)
    (operator : Operator) (c : Compilation) (w : World σ) :
    w.Lodges [binding] (w.fit binding b editable name operator c) :=
  lodges_of_onlyRow (onlyRow_fit binding b editable name operator c w)
    (tables_fit binding b editable name operator c w).2.1
    (tables_fit binding b editable name operator c w).2.2
    (tables_fit binding b editable name operator c w).1

theorem lodges_dispose (binding : Ref .binding) (w : World σ) :
    w.Lodges [binding] (w.dispose binding) := by
  rcases present : w.bindings.get? binding with _ | b
  · rw [dispose, present]
    exact .refl w
  · cases disposed : b.disposed with
    | true =>
        rw [dispose_of_disposed present disposed]
        exact .refl w
    | false =>
        have left := disposed_dispose present disposed
        refine lodges_of_onlyRow ?_ left.views left.held left.models
        rw [left.bindings]
        exact .update _ _

theorem lodges_start (document : Ref .document) (element : Ref .element)
    (declaration : Declaration) (env : Environment) (w : World σ) :
    w.Lodges [w.bindings.fresh]
      { w with bindings := w.bindings.insert (.start document element declaration env) } where
  others other apart :=
    Table.get?_insert_of_ne _ fun same => apart (List.mem_singleton.mpr same)
  fresh := by simp [Table.fresh, Table.insert]
  views := rfl
  held := rfl
  models := rfl

end World

namespace Run

variable {s : State σ}

theorem lodges_applySlots (binding : Ref .binding) (editable : Bool)
    (operators : List (String × Operator)) :
    Leads (World.Lodges [binding]) (applySlots binding editable operators) s := by
  induction operators generalizing s with
  | nil => exact leads_pure _
  | cons entry rest ih =>
      obtain ⟨name, operator⟩ := entry
      refine Leads.bind ?_ fun _ _ _ => ih
      rcases present : s.world.bindings.get? binding with _ | b
      · rw [applySlot, Leads, result_world_bind, present]
        exact .refl _
      · rcases compiled : b.declaration.compileOperator name b.env s.world.sight with e | c
        · rw [Leads, result_applySlot_error editable operator present compiled]
          exact World.lodges_happen _ _ _
        · rw [Leads, result_applySlot editable operator present compiled]
          exact World.lodges_fit _ _ _ _ _ _ _

/-- The binding that attaching adds is handed over, or disposed. -/
theorem attach_lodges {document : Ref .document} {element : Ref .element} {env : Environment}
    {editable : Bool} {resolved : Resolved} {ended : Except Halt (Ref .binding)} {t : State σ}
    (worked : (attach document element env editable resolved).result s = (ended, t)) :
    s.world.Lodges [s.world.bindings.fresh] t.world ∧
      s.world.bindings.fresh.index < t.world.bindings.fresh.index ∧
      (ended = .ok s.world.bindings.fresh ∨ (∃ error, ended = .error error) ∧
        ∀ b, t.world.bindings.get? s.world.bindings.fresh = some b → b.disposed = true) := by
  let started := s.alter fun w => { w with
    bindings := w.bindings.insert (.start document element resolved.declaration env) }
  have begun : s.world.Lodges [s.world.bindings.fresh] started.world :=
    World.lodges_start document element resolved.declaration env s.world
  have more : s.world.bindings.fresh.index < started.world.bindings.fresh.index := by
    simp [started, Table.fresh, Table.insert]
  have applied : started.world.Lodges [s.world.bindings.fresh]
      ((applySlots s.world.bindings.fresh editable resolved.operators).result started).2.world :=
    lodges_applySlots (s := started) s.world.bindings.fresh editable resolved.operators
  rw [attach, result_bind_ok (result_produce _ s)] at worked
  obtain ⟨_, ran, rfl⟩ | ⟨error, u, ran, rfl, rfl⟩ | ran := undone worked (fun _ => rfl) fun _ => rfl
  · rw [ran] at applied
    exact ⟨begun.trans applied, Nat.lt_of_lt_of_le more applied.fresh, Or.inl rfl⟩
  · rw [ran] at applied
    have disposed := (World.lodges_dispose s.world.bindings.fresh u.world).trans
      (World.lodges_happen _ (.failed error) _)
    exact ⟨(begun.trans applied).trans disposed,
      Nat.lt_of_lt_of_le more (Nat.le_trans applied.fresh disposed.fresh),
      Or.inr ⟨⟨_, rfl⟩, fun b present => World.isDisposed_dispose (w := u.world) present⟩⟩
  · exact absurd ran (concludes_applySlots _ _ _ started t)

/-- So are the bindings that attaching many adds. -/
theorem attachAll_lodges {v : View} {env : Environment} {resolved : List (Ref .element × Resolved)}
    {ended : Except Halt (List (Ref .binding))} {t : State σ}
    (worked : (attachAll v env resolved).result s = (ended, t)) :
    ∃ mine, (∀ b ∈ mine, s.world.bindings.fresh.index ≤ b.index) ∧ s.world.Lodges mine t.world ∧
      (ended = .ok mine ∨ (∃ error, ended = .error error) ∧
        ∀ binding ∈ mine, ∀ b, t.world.bindings.get? binding = some b → b.disposed = true) := by
  induction resolved generalizing s ended t with
  | nil =>
      cases worked
      exact ⟨[], nofun, .refl _, Or.inl rfl⟩
  | cons entry rest ih =>
      obtain ⟨element, r⟩ := entry
      rw [attachAll, result_world_bind] at worked
      rcases first : (attach v.document element env
        (v.isEditable (tagOf s.world v.document element)) r).result s with ⟨halt | binding, u⟩
      · obtain ⟨lodges, -, none | ⟨-, disposed⟩⟩ := attach_lodges first
        · cases none
        · dsimp only at worked
          rw [result_bind_error first] at worked
          cases worked
          refine ⟨[s.world.bindings.fresh], ?_, lodges, Or.inr ⟨⟨_, rfl⟩, ?_⟩⟩
          · rintro b (_ | ⟨_, ⟨⟩⟩)
            exact Nat.le_refl _
          · rintro b (_ | ⟨_, ⟨⟩⟩)
            exact disposed
      · obtain ⟨lodges, more, handed | ⟨⟨_, failed⟩, -⟩⟩ := attach_lodges first
        · cases handed
          dsimp only at worked
          rw [result_bind_ok first] at worked
          have joined : ∀ {mine : List (Ref .binding)} {w : World σ}, u.world.Lodges mine w →
              s.world.Lodges (s.world.bindings.fresh :: mine) w := fun lodgesThen =>
            (lodges.mono (by simp)).trans (lodgesThen.mono (by simp))
          have newer : ∀ {mine : List (Ref .binding)},
              (∀ b ∈ mine, u.world.bindings.fresh.index ≤ b.index) →
              ∀ b ∈ s.world.bindings.fresh :: mine, s.world.bindings.fresh.index ≤ b.index := by
            intro mine new b among
            rcases List.mem_cons.mp among with rfl | later
            · exact Nat.le_refl _
            · exact Nat.le_trans (Nat.le_of_lt more) (new b later)
          obtain ⟨others, ran, rfl⟩ | ⟨error, u', ran, rfl, rfl⟩ | ran :=
            undone worked (fun _ => rfl) fun _ => rfl
          · obtain ⟨mine, new, lodgesThen, handed | ⟨⟨_, failed⟩, -⟩⟩ := ih ran
            · cases handed
              exact ⟨_, newer new, joined lodgesThen, Or.inl rfl⟩
            · cases failed
          · obtain ⟨mine, new, lodgesThen, none | ⟨-, disposed⟩⟩ := ih ran
            · cases none
            refine ⟨s.world.bindings.fresh :: mine, newer new, ?_, Or.inr ⟨⟨_, rfl⟩, ?_⟩⟩
            · refine ((joined lodgesThen).trans ?_).trans (World.lodges_happen _ (.failed error) _)
              exact (World.lodges_dispose s.world.bindings.fresh u'.world).mono (by simp)
            · intro other among b present
              by_cases same : other = s.world.bindings.fresh
              · subst same
                exact World.isDisposed_dispose (w := u'.world) present
              · refine disposed other ((List.mem_cons.mp among).resolve_left same) b ?_
                rwa [← (World.lodges_dispose s.world.bindings.fresh u'.world).others other
                  (by simpa using same)]
          · exact absurd ran (concludes_attachAll _ _ _ u t)
        · cases failed

/-- A declaration that is attached leaves no binding loose but the one that it hands over. -/
theorem loose_attach {document : Ref .document} {element : Ref .element} {env : Environment}
    {editable : Bool} {resolved : Resolved} {ended : Except Halt (Ref .binding)} {t : State σ}
    {binding : Ref .binding}
    (worked : (attach document element env editable resolved).result s = (ended, t))
    (loose : t.world.IsLoose binding) : s.world.IsLoose binding ∨ ended = .ok binding := by
  obtain ⟨lodges, -, handed⟩ := attach_lodges worked
  by_cases same : binding = s.world.bindings.fresh
  · subst same
    rcases handed with given | ⟨-, disposed⟩
    · exact Or.inr given
    · obtain ⟨b, present, live⟩ := loose.lives
      exact absurd (live.symm.trans (disposed b present)) Bool.false_ne_true
  · exact Or.inl (lodges.loose (by simpa using same) loose)

theorem lodges_resolveAll (v : View) (env : Environment) (declarations : List (String × String)) :
    Leads (World.Lodges []) (resolveAll v env declarations) s := by
  induction declarations generalizing s with
  | nil => exact leads_pure _
  | cons entry rest ih =>
      obtain ⟨selector, text⟩ := entry
      refine Leads.world_bind ?_
      split
      · exact .alter_bind (World.lodges_happen _ _ _) ih
      · refine Leads.bind ?_ fun _ _ _ => ih.bind fun _ _ _ => leads_pure _
        cases resolve selector text v.catalog env with
        | ok r => exact leads_pure _
        | error error => exact leads_fail (World.lodges_happen _ _ _)

/-- A view is released before it is bound.  If it cannot be bound, or has nothing to bind,
all that was attached is disposed; else it is given what was attached. -/
theorem bindView_lodges (view : Ref .view) (s : State σ) :
    (∃ mine, (∀ b ∈ mine, (s.world.unbindView view).bindings.fresh.index ≤ b.index) ∧
      (s.world.unbindView view).Lodges mine ((bindView view).result s).2.world ∧
      ∀ binding ∈ mine, ∀ b, ((bindView view).result s).2.world.bindings.get? binding = some b →
        b.disposed = true) ∨
    ∃ v env found t u bindings, (s.world.unbindView view).views.get? view = some v ∧
      (resolveAll v env v.declarations).result (s.alter (.unbindView view)) = (.ok found, t) ∧
      (s.world.unbindView view).Lodges [] t.world ∧
      (attachAll v env found).result t = (.ok bindings, u) ∧
      ((bindView view).result s).2.world = { u.world.report
          (.viewBound v.declarations.length bindings.length) with
        views := u.world.views.update view fun v => { v with bindings := bindings } } := by
  have bare : (s.world.unbindView view).Lodges [] (s.world.unbindView view) := .refl _
  rw [bindView, result_alter_bind, result_world_bind]
  rcases present : (s.alter (.unbindView view)).world.views.get? view with _ | v
  · exact Or.inl ⟨[], nofun, bare, nofun⟩
  · dsimp only
    by_cases none : v.declarations.isEmpty = true
    · rw [if_pos none]
      exact Or.inl ⟨[], nofun, bare, nofun⟩
    · rw [if_neg none]
      have resolves := lodges_resolveAll (s := s.alter (.unbindView view)) v
        (environmentOf (s.alter (.unbindView view)).world v.model) v.declarations
      rw [Leads] at resolves
      rcases resolved : (resolveAll v (environmentOf (s.alter (.unbindView view)).world v.model)
        v.declarations).result (s.alter (.unbindView view)) with ⟨halt | found, t⟩
      · rw [resolved] at resolves
        rw [result_bind_error resolved]
        exact Or.inl ⟨[], nofun, resolves, nofun⟩
      · rw [resolved] at resolves
        rw [result_bind_ok resolved]
        rcases attached : (attachAll v (environmentOf (s.alter (.unbindView view)).world v.model)
          found).result t with ⟨halt | bindings, u⟩
        · obtain ⟨mine, new, lodges, ended | ⟨-, disposed⟩⟩ := attachAll_lodges attached
          · cases ended
          rw [result_bind_error attached]
          exact Or.inl ⟨mine, fun b among => Nat.le_trans resolves.fresh (new b among),
            (resolves.mono (List.nil_subset _)).trans lodges, disposed⟩
        · rw [result_bind_ok attached, result_alter_bind, result_alter]
          exact Or.inr ⟨v, _, found, t, u, bindings, present, resolved, resolves, attached, rfl⟩

/-- A view that is bound has all that was attached for it, and one that cannot be bound left
nothing behind. -/
theorem tenure_bindView (view : Ref .view) (s : State σ) :
    s.world.BindingsLast ((bindView view).result s).2.world ∧
      ∀ binding, ((bindView view).result s).2.world.IsLoose binding → s.world.IsLoose binding := by
  have released := World.bindingsLast_unbindView view s.world
  rcases bindView_lodges view s with
    ⟨mine, new, lodges, disposed⟩ | ⟨v, env, found, t, u, bindings, present, -, resolves, attached, ended⟩
  · refine ⟨released.trans (lodges.bindingsLast new), fun binding loose => ?_⟩
    refine (lodges.loose (fun among => ?_) loose).of_unbindView
    obtain ⟨b, there, live⟩ := loose.lives
    exact Bool.false_ne_true (live.symm.trans (disposed binding among b there))
  · obtain ⟨mine, new, lodges, handed | ⟨⟨_, handed⟩, -⟩⟩ := attachAll_lodges attached
    · cases handed
      rw [ended]
      refine ⟨(released.trans (resolves.bindingsLast nofun)).trans
        ((lodges.bindingsLast new).trans (.of_eq rfl)), fun binding loose => ?_⟩
      have here : u.world.views.get? view = some v := by
        rw [lodges.views, resolves.views, present]
      have owns : binding ∉ bindings := by
        refine loose.unowned view { v with bindings := bindings } ?_
        show (u.world.views.update view _).get? view = _
        rw [Table.get?_update_self, here]
        rfl
      have before : u.world.IsLoose binding := by
        refine ⟨loose.lives, fun at_ row there => ?_⟩
        by_cases same : at_ = view
        · subst same
          rw [here] at there
          cases there
          rw [World.bindings_unbindView present]
          exact List.not_mem_nil
        · refine loose.unowned at_ row ?_
          show (u.world.views.update view _).get? at_ = _
          rw [Table.get?_update_of_ne _ _ same, there]
      exact (resolves.loose List.not_mem_nil (lodges.loose owns before)).of_unbindView
    · cases handed

end Run

end LiveBinding
