/-
# LiveBinding.Proofs.AnyOrder -- building a model with its computed entries in any order

Building a model evaluates its computed entries one after another, so a template may
read a name before the entry of that name is bound.  Storing the first values makes
good for that where the entry stores its value: the change is announced, and the
template is rendered anew, and all that is made of it.  A virtual entry announces
nothing then, and what was read of it too early stays.

So building succeeds in any order (`build_in_any_order`), and what does not refer to
virtual entries further down reads as its template rendered, whatever the order.
-/
import LiveBinding.Proofs.Follower.Property
import LiveBinding.Proofs.Run.Script
import LiveBinding.Proofs.Run.Settle

namespace LiveBinding

set_option autoImplicit false

variable {σ : Type}

namespace Run

variable {s : State σ} {model : Ref .model} {hub : Ref .hub} {attributes : Attributes}
  {plans : List Plan} {depth : Nat}

/-! ## The first write -/

/-- Storing first values keeps the model planned. -/
theorem private_initialWrites {m : Model σ} (distinct : (plans.map Plan.name).Nodup)
    (private_ : s.world.Private model hub attributes plans)
    (present : s.world.models.get? model = some m) :
    (s.world.put model { m with store := (m.store.apply m.initialWrites).1 }).Private
      model hub attributes plans := by
  obtain ⟨⟨m', present', rfl, planned⟩, heard, held⟩ := private_
  rw [present] at present'
  cases present'
  have regular := planned.isRegular distinct
  refine ⟨⟨_, World.get?_put_self (by rw [present]; rfl), rfl, ?_⟩, heard, held⟩
  refine planned.of_sameShape (Model.sameShape_store _ m) fun name unplanned => ?_
  refine Attributes.get?_apply_of_unwritten fun written => unplanned ?_
  rw [(Model.initialWrites_of_distinct regular.distinct).2, Fields.keys, List.map_map] at written
  obtain ⟨p, listed, rfl⟩ := List.mem_map.mp written
  rw [← planned.names]
  exact List.mem_map_of_mem (List.mem_filter.mp listed).1

/-- Announcing first values brings a property in step that refers to nothing virtual
further down. -/
theorem isFresh_of_announced {m m' : Model σ} {t : State σ} {p : Property σ}
    (planned : m.Planned attributes plans) (distinct : (plans.map Plan.name).Nodup)
    (acyclic : Acyclic plans) (inTurn : m.InTurn) (building : s.world.Building model)
    (present : s.world.models.get? model = some m)
    (announced : (announce (dispatch depth) m.hub (m.store.apply m.initialWrites).2).result
      (s.alter (.put model { m with store := (m.store.apply m.initialWrites).1 })) = (.ok (), t))
    (undisturbed : (s.world.put model
      { m with store := (m.store.apply m.initialWrites).1 }).Undisturbed t.world)
    (listed : p ∈ m.properties) (behind : ¬ RefersAhead plans p.name)
    (present' : t.world.models.get? model = some m') :
    ∀ p', m'.property? p.name = some p' → p'.IsFresh m' := by
  generalize stored : ({ m with store := (m.store.apply m.initialWrites).1 } : Model σ) = M
    at announced undisturbed
  have there : (s.world.put model M).models.get? model = some M :=
    World.get?_put_self (by rw [present]; rfl)
  have sound : (s.world.put model M).Sound := by
    rw [← stored]
    exact sound_initialWrites building present
  have regular : M.IsRegular := by
    rw [← stored]
    exact (Model.sameShape_store _ m).isRegular (planned.isRegular distinct)
  have listed' : p ∈ M.properties := by rw [← stored]; exact listed
  have admits := Model.admits_of_mem regular.distinct listed'
  have ready : (Follower.ofProperty model M p).Ready [] (s.alter (.put model M)) :=
    Follower.ofProperty_ready sound there
  -- it is in step, or one of its fields is about to be announced
  have start : (Follower.ofProperty model M p).fresh (s.world.put model M) ∨
      (Follower.ofProperty model M p).HearsOneOf m.hub (m.store.apply m.initialWrites).2 := by
    rcases Model.isFresh_or_reported planned distinct acyclic inTurn listed behind with
      fresh | ⟨plan, is, change, reported, among⟩
    · refine Or.inl fun m'' again q computed => ?_
      rw [there] at again
      cases again
      rw [admits q computed, ← stored]
      exact fresh
    · have wired := (sound.wired.models model M there).properties p listed'
      have hears := wired.hears is.asks among
      rw [← stored] at hears
      exact Or.inr ⟨change, reported, hears⟩
  have attentive : (Follower.ofProperty model M p).Attentive (dispatch depth) :=
    Follower.attentive_ofProperty regular admits depth
  have takes := (Follower.takes_announce attentive m.hub _ _ _ announced (by simp)).2.1
  exact (takes ready undisturbed.2).2 undisturbed.1 start m' present'

/-! ## Binding -/

/-- Planned properties can be bound to a new model, and those that refer to nothing
virtual further down are fresh then. -/
theorem bindComputed_ends (attributes : Attributes)
    (distinct : (plans.map Plan.name).Nodup) (acyclic : Acyclic plans)
    (deep : plans.length + 2 ≤ depth) (sound : s.world.Sound)
    (present : s.world.models.get? model = some ⟨hub, attributes, []⟩)
    (silent : s.world.hubs.get? hub = some .empty) (held : .model model ∈ s.world.held) :
    ∃ t m, (bindComputed (dispatch depth) model
        (plans.map fun plan => (plan.name, plan.definition))).result s = (.ok (), t) ∧
      t.world.models.get? model = some m ∧ m.Planned attributes plans ∧
      ∀ p ∈ m.properties, ¬ RefersAhead plans p.name → p.IsFresh m := by
  have bare : (s.alter (.hold (.model model))).world.Building model := by
    refine ((World.apart_hold (.model model) s.world).sound sound).building fun m there => ?_
    have same : some m = some _ := there.symm.trans present
    cases same
    rfl
  -- everything is bound
  obtain ⟨u, built, privateThen, heldThen, ⟨m, there, rfl, inTurn⟩, comes⟩ :=
    bindComputed_builds plans attributes present silent held
  have building := (buildAll_builds _ _ _ built (by simp)).2.1 bare
  obtain ⟨_, there', rfl, planned⟩ := privateThen.row
  rw [there] at there'
  cases there'
  -- first values are stored and announced
  obtain ⟨rank, rises, bounded⟩ := acyclic.exists_rank
  have each : ∀ name, Answers model m.hub m.store plans (dispatch (σ := σ) depth) (changeOf name) := by
    intro name
    have low := bounded name
    exact answers_changeOf rises (by omega)
  have all : Answers model m.hub m.store plans (dispatch (σ := σ) depth) changeEvent := by
    obtain ⟨less, rfl⟩ : ∃ less, depth = less + 1 := ⟨depth - 1, by omega⟩
    exact answers_changeEvent less
  have stored : (u.alter (.put model
      { m with store := (m.store.apply m.initialWrites).1 })).world.Private model m.hub m.store plans :=
    private_initialWrites distinct privateThen there
  obtain ⟨t, announced, settled, heldLast, -, undisturbed⟩ :=
    announce_settles (m.store.apply m.initialWrites).2 stored (fun change _ => each change.1) all
  obtain ⟨m', last, -, plannedThen⟩ := settled.row
  have twice : t.world.held = .model model :: s.world.held := by
    rw [heldLast, State.alter_world]
    exact heldThen
  refine ⟨t.alter (.release (.model model)), m', ?_, ?_, plannedThen, fun p listed behind => ?_⟩
  · rw [comes, result_lastly, concludeBinding,
      result_bind_ok (refuseCycle_ends privateThen acyclic), result_world_bind, there]
    dsimp only
    rw [result_writeStore there, announced]
  · rw [State.alter_world, World.release_model twice held]
    exact last
  · obtain ⟨plan, among, is⟩ := plannedThen.mem listed
    obtain ⟨q, listedFirst, isFirst⟩ := planned.exists_property among
    have named : q.name = p.name := isFirst.name.trans is.name.symm
    have found := Model.property?_of_mem (plannedThen.isRegular distinct).distinct listed
    rw [← named] at behind found
    exact isFresh_of_announced planned distinct acyclic inTurn building there announced undisturbed
      listedFirst behind last p found

end Run

/-! ## Building -/

/-- A new model can be opened with planned properties. -/
theorem openModel_ends (attributes : Attributes) {s : State σ} {plans : List Plan} {depth : Nat}
    (distinct : (plans.map Plan.name).Nodup) (acyclic : Acyclic plans)
    (deep : plans.length + 2 ≤ depth) (sound : s.world.Sound) :
    ∃ model t m, Script.Ends (Run.dispatch depth) (Configuration.openModel attributes
        (plans.map fun plan => (plan.name, plan.definition))) s (.ok model) t ∧
      t.world.models.get? model = some m ∧ m.Planned attributes plans ∧
      ∀ p ∈ m.properties, ¬ RefersAhead plans p.name → p.IsFresh m := by
  obtain ⟨t, m, bound, present, facts⟩ := Run.bindComputed_ends attributes
    (s := s.alter fun w => (w.openModel attributes).2) distinct acyclic deep
    ((World.apart_openModel attributes s.world).sound sound)
    (Table.get?_insert_fresh s.world.models _) (Table.get?_insert_fresh s.world.hubs _)
    List.mem_cons_self
  refine ⟨s.world.models.fresh, t, m, ?_, present, facts⟩
  exact (Script.ends_openModel attributes).bind
    ((Script.ends_bindComputed bound).attempt.bind (Script.ends_done _))

/-- A model can be built in any order of its computed entries, as long as templates can
be read and none leads back to itself.  A name whose template refers to no virtual
entry further down reads as its template rendered; one of which that is true through
and through reads the same in every order. -/
theorem build_in_any_order {c : Configuration} (distinct : (Fields.keys c.computed).Nodup)
    (parses : c.Parses) (acyclic : Acyclic c.plans) {listed : Fields ComputedEntry}
    (order : listed.Perm c.computed) {s : State σ} (reachable : Reachable s) {depth : Nat}
    (deep : c.computed.length + 2 ≤ depth) :
    ∃ model t,
      Script.Ends (Run.dispatch depth)
        (Configuration.buildModel { c with computed := listed }) s (.ok model) t ∧
      (∀ plan ∈ c.plans, ¬ RefersAhead (listed.map Plan.ofEntry) plan.name →
        t.world.read model plan.name = .text (plan.template.render (t.world.read model))) ∧
      ∀ name, (∀ other, BuildsOn c.plans name other → ¬ RefersAhead (listed.map Plan.ofEntry) other) →
        t.world.read model name = c.meaning name := by
  generalize plansAre : listed.map Plan.ofEntry = plans
  have orderPlans : plans.Perm c.plans := by
    rw [← plansAre]
    exact order.map Plan.ofEntry
  have distinctNames : (c.plans.map Plan.name).Nodup := by
    rw [Configuration.plans, List.map_map]
    exact distinct
  have distinctPlans : (plans.map Plan.name).Nodup :=
    (orderPlans.map Plan.name).nodup_iff.mpr distinctNames
  have acyclicPlans : Acyclic plans := by
    rw [Acyclic, refers_perm orderPlans]
    exact acyclic
  have definitions : Configuration.definitions (σ := σ) listed =
      .ok (plans.map fun plan => (plan.name, plan.definition)) := by
    rw [← plansAre]
    exact definitions_of_plans fun entry among => parses entry (order.mem_iff.mp among)
  have deepPlans : plans.length + 2 ≤ depth := by
    rw [← plansAre, List.length_map, order.length_eq]
    exact deep
  obtain ⟨model, t, m, ends, present, planned, fresh⟩ := openModel_ends c.attributes
    distinctPlans acyclicPlans deepPlans (sound_of_reachable reachable)
  have reads : t.world.read model = m.read := by
    funext name
    rw [World.read, Run.sight_of_present present]
  have rendered : ∀ plan ∈ c.plans, ¬ RefersAhead plans plan.name →
      m.read plan.name = .text (plan.template.render m.read) := by
    intro plan among behind
    obtain ⟨p, has, is⟩ := planned.exists_property (orderPlans.mem_iff.mpr among)
    have found := Model.property?_of_mem (planned.isRegular distinctPlans).distinct has
    rw [← is.name] at behind ⊢
    rw [Model.read_of_property? found]
    exact is.value_of_isFresh (fresh p has behind)
  refine ⟨model, t, ?_, ?_, fun name behind => ?_⟩
  · have defined : Script.Ends (Run.dispatch depth) (Script.ofExcept (Configuration.definitions listed))
        s (.ok (plans.map fun plan => (plan.name, plan.definition (σ := σ)))) s := by
      rw [definitions]
      exact Script.ends_ofExcept _
    exact defined.bind ends
  · rw [reads]
    exact rendered
  · rw [reads]
    refine eq_meaning distinctNames acyclic (fun name unplanned => ?_) rendered behind
    refine planned.read_of_unplanned fun among => unplanned ?_
    exact (orderPlans.map Plan.name).mem_iff.mp among

/-! ## Two configurations -/

namespace Sample

/-- A card that says a greeting, both stored. -/
def card : Configuration :=
  { Configuration.empty with
    attributes := [("name", .text "Ada")]
    computed := [("greeting", ⟨"Hello \x7bname\x7d", false⟩), ("card", ⟨"\x7bgreeting\x7d!", false⟩)] }

/-- An echo of a text, both virtual, and the echo comes first. -/
def echo : Configuration :=
  { Configuration.empty with
    attributes := [("word", .text "1")]
    computed := [("echo", ⟨"\x7btext\x7d", true⟩), ("text", ⟨"\x7bword\x7d", true⟩)] }

/-- Says by how it ends whether the echo is that of the text. -/
def checkEcho : Except Error (Ref .model) → Program Unit
  | .ok model => .look fun world _ =>
      if (world.read model "echo").displayText = (world.read model "text").displayText then .done
      else .fail (.noGetter "echo")
  | .error error => .fail error

end Sample

open Sample in
/-- The card comes first and is rendered once more when the greeting is stored. -/
theorem build_in_any_order_card :
    ∃ model t, Script.Ends (Run.dispatch 4)
        (Configuration.buildModel { card with computed := card.computed.reverse })
        (⟨.empty, [], ()⟩ : State Unit) (.ok model) t ∧
      t.world.read model "card" = .text "Hello Ada!" := by
  have acyclic : Acyclic card.plans :=
    acyclic_of_rank (fun name => if name = "card" then 0 else if name = "greeting" then 1 else 2)
      (by decide +kernel)
  have reachable : Reachable (⟨.empty, [], ()⟩ : State Unit) := ⟨(), 0, .done, .ok (), nofun, rfl⟩
  have deep : card.computed.length + 2 ≤ 4 := by decide
  obtain ⟨model, t, ends, -, reads⟩ := build_in_any_order (c := card) (by decide +kernel)
    (by decide +kernel) acyclic (List.reverse_perm card.computed) reachable deep
  refine ⟨model, t, ends, (reads "card" fun other _ => ?_).trans rfl⟩
  exact not_refersAhead (by decide +kernel) other

open Sample in
/-- It is not so that every computed name reads as its template rendered over the
finished model, in whatever order the entries are listed: the echo of a text that is
listed after it stays empty. -/
theorem not_all_rendered_in_any_order :
    ¬ ∀ c : Configuration, (Fields.keys c.computed).Nodup → c.Parses → Acyclic c.plans →
      ∀ listed, listed.Perm c.computed → ∀ s : State Unit, Reachable s → ∀ depth,
        c.computed.length + 2 ≤ depth → ∃ model t,
          Script.Ends (Run.dispatch depth)
            (Configuration.buildModel { c with computed := listed }) s (.ok model) t ∧
          ∀ plan ∈ c.plans,
            t.world.read model plan.name = .text (plan.template.render (t.world.read model)) := by
  intro claimed
  have acyclic : Acyclic echo.plans :=
    acyclic_of_rank (fun name => if name = "echo" then 0 else if name = "text" then 1 else 2)
      (by decide +kernel)
  obtain ⟨model, t, ends, renders⟩ := claimed echo (by decide +kernel) (by decide +kernel) acyclic
    echo.computed (List.Perm.refl _) ⟨.empty, [], ()⟩ ⟨(), 0, .done, .ok (), nofun, rfl⟩ 4 (by decide)
  have echoes : t.world.read model "echo" = .text (t.world.read model "text").displayText :=
    renders ⟨"echo", ⟨[.field "text"]⟩, true⟩ (by decide +kernel)
  -- so the check would end well, but it does not
  have well : (Run.exec (Run.dispatch 4) (checkEcho (.ok model))).result t = (.ok (), t) := by
    rw [checkEcho, Run.exec, Run.result_bind_ok (Run.result_get t), echoes, if_pos]
    · rfl
    · rfl
  have fails : ((Run.exec (Run.dispatch 4) (echo.buildModel.run checkEcho)).result
      ⟨.empty, [], ()⟩).1.isOk = false := by decide +kernel
  have same := ends checkEcho
  rw [well] at same
  rw [show echo.buildModel = Configuration.buildModel { echo with computed := echo.computed } from rfl,
    same] at fails
  cases fails

end LiveBinding
