/-
# LiveBinding.Proofs.Model.Planned -- models whose properties were planned

The properties of a planned model are those of the plans, in their order, and but for
their names the attributes are the given ones (`Model.Planned`).  Such a model is
regular.

Each property was evaluated when those before it were bound already and those after
it were not (`Model.InTurn`).  Storing first values makes good for what was read too
early, unless it was read of a virtual property (`isFresh_or_reported`).
-/
import LiveBinding.Proofs.Configuration.Plan
import LiveBinding.Proofs.Model.Basic

namespace LiveBinding

set_option autoImplicit false

variable {σ : Type}

/-- The property, but for its value and its subscriptions. -/
def Property.outline (p : Property σ) : Property σ :=
  { p with value := .null, subscriptions := [] }

/-- The property that is planned for a model with this hub. -/
def Plan.outline (hub : Ref .hub) (plan : Plan) : Property σ :=
  ⟨plan.name, plan.template.getter, none, plan.isVirtual, .null,
    Collector.recordAll (plan.template.fields.map (.ofRead hub)) .empty, []⟩

def Property.Planned (hub : Ref .hub) (plan : Plan) (p : Property σ) : Prop :=
  p.outline = plan.outline hub

namespace Property.Planned

variable {hub : Ref .hub} {plan : Plan} {p : Property σ}

theorem name (planned : p.Planned hub plan) : p.name = plan.name :=
  congrArg Property.name planned

theorem getter (planned : p.Planned hub plan) : p.getter = plan.template.getter :=
  congrArg Property.getter planned

theorem setter (planned : p.Planned hub plan) : p.setter = none :=
  congrArg Property.setter planned

theorem isVirtual (planned : p.Planned hub plan) : p.isVirtual = plan.isVirtual :=
  congrArg Property.isVirtual planned

theorem dependencies (planned : p.Planned hub plan) :
    p.dependencies = Collector.recordAll (plan.template.fields.map (.ofRead hub)) .empty :=
  congrArg Property.dependencies planned

/-- It captured the fields of its template. -/
theorem reads (planned : p.Planned hub plan) {name : String} :
    .ofRead hub name ∈ p.dependencies ↔ name ∈ plan.template.fields := by
  rw [planned.dependencies, Collector.mem_recordAll]
  simp only [List.mem_map, Collector.empty, List.not_mem_nil, or_false]
  constructor
  · rintro ⟨field, has, same⟩
    rw [← Dependency.ofRead_injective same]
    exact has
  · exact fun has => ⟨name, has, rfl⟩

theorem asks (planned : p.Planned hub plan) : p.getter.Asks plan.template.fields := by
  rw [planned.getter]
  exact plan.template.getter_asks

/-- A fresh one reads as its template renders. -/
theorem value_of_isFresh {m : Model σ} (planned : p.Planned hub plan) (fresh : p.IsFresh m) :
    p.value = .text (plan.template.render m.read) := by
  obtain ⟨asked, value, gives, same⟩ := fresh
  rw [planned.getter] at gives
  obtain ⟨-, answered⟩ := gives.unique plan.template.getter_gives
  cases answered
  cases kept : p.value with
  | text text =>
      rw [kept] at same
      rw [of_decide_eq_true same]
  | _ =>
      rw [kept] at same
      cases same

end Property.Planned

/-- The properties are the planned ones, and but for them the attributes are as given. -/
structure Model.Planned (attributes : Attributes) (plans : List Plan) (m : Model σ) : Prop where
  outlined : m.properties.map Property.outline = plans.map (Plan.outline m.hub)
  plain : ∀ name, name ∉ plans.map Plan.name → Fields.get? name m.store = Fields.get? name attributes

namespace Model.Planned

variable {attributes : Attributes} {plans : List Plan} {m m' : Model σ}

theorem names (planned : m.Planned attributes plans) :
    m.properties.map (·.name) = plans.map Plan.name := by
  have named := congrArg (List.map Property.name) planned.outlined
  rw [List.map_map, List.map_map] at named
  exact named

theorem mem (planned : m.Planned attributes plans) {p : Property σ} (listed : p ∈ m.properties) :
    ∃ plan ∈ plans, p.Planned m.hub plan := by
  have there : p.outline ∈ plans.map (Plan.outline m.hub) := by
    rw [← planned.outlined]
    exact List.mem_map_of_mem listed
  obtain ⟨plan, among, same⟩ := List.mem_map.mp there
  exact ⟨plan, among, same.symm⟩

theorem exists_property (planned : m.Planned attributes plans) {plan : Plan} (listed : plan ∈ plans) :
    ∃ p ∈ m.properties, p.Planned m.hub plan := by
  have there : plan.outline m.hub ∈ m.properties.map Property.outline := by
    rw [planned.outlined]
    exact List.mem_map_of_mem listed
  exact List.mem_map.mp there

theorem of_sameShape (planned : m.Planned attributes plans) (same : m.SameShape m')
    (stored : ∀ name, name ∉ plans.map Plan.name →
      Fields.get? name m'.store = Fields.get? name m.store) : m'.Planned attributes plans where
  outlined := by
    have shaped : ∀ ps : List (Property σ), ps.map Property.outline =
        (ps.map Property.shape).map Property.outline := by
      intro ps
      rw [List.map_map]
      rfl
    rw [shaped, same.2, ← shaped, same.1]
    exact planned.outlined
  plain name unplanned := (stored name unplanned).trans (planned.plain name unplanned)

theorem isRegular (planned : m.Planned attributes plans) (distinct : (plans.map Plan.name).Nodup) :
    m.IsRegular where
  distinct := by
    rw [planned.names]
    exact distinct
  asks p listed := by
    obtain ⟨plan, -, is⟩ := planned.mem listed
    exact ⟨_, is.asks⟩
  maps p listed setter given := by
    obtain ⟨plan, -, is⟩ := planned.mem listed
    rw [is.setter] at given
    cases given

theorem mem_dependents (planned : m.Planned attributes plans) {node next : String} :
    next ∈ Graph.dependents m.dependents node ↔
      node ∈ plans.map Plan.name ∧ Refers plans next node := by
  rw [Model.mem_dependents, ← planned.names, List.mem_map]
  refine and_congr_right fun _ => ?_
  constructor
  · rintro ⟨q, listed, rfl, captured⟩
    obtain ⟨plan, among, is⟩ := planned.mem listed
    exact ⟨plan, among, is.name.symm, is.reads.mp captured⟩
  · rintro ⟨plan, among, rfl, has⟩
    obtain ⟨q, listed, is⟩ := planned.exists_property among
    exact ⟨q, listed, is.name, is.reads.mpr has⟩

/-- Plans in which no cycle is found are acyclic. -/
theorem acyclic (planned : m.Planned attributes plans) (none : Graph.findCycle m.dependents = none) :
    Acyclic plans := by
  obtain ⟨rank, falls, -⟩ := m.exists_rank none
  refine acyclic_of_rank rank fun plan among field has => falls field plan.name ?_
  obtain ⟨p, listed, is⟩ := planned.exists_property among
  exact ⟨p, listed, is.name, is.reads.mpr has⟩

theorem property?_eq_none (planned : m.Planned attributes plans) {name : String}
    (unplanned : name ∉ plans.map Plan.name) : m.property? name = none := by
  refine List.find?_eq_none.mpr fun p listed named => unplanned ?_
  rw [← planned.names]
  exact List.mem_map.mpr ⟨p, listed, by simpa using named⟩

/-- What is not planned reads as the attribute it is. -/
theorem read_of_unplanned (planned : m.Planned attributes plans) {name : String}
    (unplanned : name ∉ plans.map Plan.name) : m.read name = attributes.read name := by
  rw [Model.read, planned.property?_eq_none unplanned]
  exact congrArg (·.getD .null) (planned.plain name unplanned)

/-- What comes after a property comes after its plan. -/
theorem split (planned : m.Planned attributes plans) {before after : List (Property σ)}
    {p : Property σ} (listed : m.properties = before ++ p :: after) :
    ∃ earlier plan later, plans = earlier ++ plan :: later ∧ p.Planned m.hub plan ∧
      ∀ q ∈ after, ∃ plan' ∈ later, q.Planned m.hub plan' := by
  have outlined := planned.outlined
  rw [listed, List.map_append, List.map_cons] at outlined
  obtain ⟨earlier, others, rfl, -, others_⟩ := List.map_eq_append_iff.mp outlined.symm
  obtain ⟨plan, later, rfl, here, after_⟩ := List.map_eq_cons_iff.mp others_
  refine ⟨earlier, plan, later, rfl, here.symm, fun q follows => ?_⟩
  have there : q.outline ∈ later.map (Plan.outline m.hub) := by
    rw [after_]
    exact List.mem_map_of_mem follows
  obtain ⟨plan', among, same⟩ := List.mem_map.mp there
  exact ⟨plan', among, same.symm⟩

end Model.Planned

/-! ## First values -/

/-- Each property is fresh as far as the ones before it go. -/
def Model.InTurn (m : Model σ) : Prop :=
  ∀ before p after, m.properties = before ++ p :: after →
    p.IsFresh { m with properties := before }

namespace Model

variable {attributes : Attributes} {plans : List Plan} {m : Model σ}

theorem inTurn_append {p : Property σ} (inTurn : m.InTurn) (fresh : p.IsFresh m) :
    InTurn { m with properties := m.properties ++ [p] } := by
  intro before q after listed
  rcases List.eq_nil_or_concat after with rfl | ⟨front, last, rfl⟩
  · obtain ⟨same, here⟩ := List.append_inj' listed rfl
    cases here
    rw [← same]
    exact fresh
  · rw [List.concat_eq_append, ← List.cons_append, ← List.append_assoc] at listed
    exact inTurn before q front (List.append_inj_left' listed rfl)

/-- What is written and not reported was held already. -/
theorem get?_of_unreported {name text : String} {store pending : Attributes}
    (written : (name, Json.text text) ∈ pending) (once : (Fields.keys pending).Nodup)
    (silent : ∀ change ∈ (store.apply pending).2, change.1 ≠ name) :
    Fields.get? name store = some (.text text) := by
  have held : Attributes.holds name (.text text) (store.apply pending).1 = true :=
    Attributes.holds_apply written once rfl
  rw [Attributes.holds_congr (Attributes.get?_apply_of_unreported silent), Attributes.holds] at held
  split at held
  · rename_i old found
    cases old with
    | text old =>
        rw [found, of_decide_eq_true held]
    | _ => cases held
  · cases held

/-- What the properties of a model keep before anything of it is stored. -/
theorem InTurn.exists_text (inTurn : m.InTurn) (planned : m.Planned attributes plans)
    {p : Property σ} (listed : p ∈ m.properties) : ∃ text, p.value = .text text := by
  obtain ⟨before, after, split⟩ := List.append_of_mem listed
  obtain ⟨plan, -, is⟩ := planned.mem listed
  exact ⟨_, is.value_of_isFresh (inTurn before p after split)⟩

/-- Once first values are stored, a property is fresh or one of its fields is reported,
if it refers to nothing virtual that comes after it. -/
theorem isFresh_or_reported (planned : m.Planned attributes plans)
    (distinct : (plans.map Plan.name).Nodup) (acyclic : Acyclic plans) (inTurn : m.InTurn)
    {p : Property σ} (listed : p ∈ m.properties) (behind : ¬ RefersAhead plans p.name) :
    p.IsFresh { m with store := (m.store.apply m.initialWrites).1 } ∨
      ∃ plan, p.Planned m.hub plan ∧
        ∃ change ∈ (m.store.apply m.initialWrites).2, change.1 ∈ plan.template.fields := by
  obtain ⟨before, after, split⟩ := List.append_of_mem listed
  obtain ⟨earlier, plan, later, rfl, is, follows⟩ := planned.split split
  have regular := planned.isRegular distinct
  by_cases reported : ∃ change ∈ (m.store.apply m.initialWrites).2, change.1 ∈ plan.template.fields
  · exact Or.inr ⟨plan, is, reported⟩
  refine Or.inl ((inTurn before p after split).congr is.asks rfl rfl fun name among => ?_)
  have silent : ∀ change ∈ (m.store.apply m.initialWrites).2, change.1 ≠ name := by
    rintro change told rfl
    exact reported ⟨change, told, among⟩
  rw [read_apply_of_unreported silent]
  have search : m.property? name =
      (before.find? (·.name = name)).or ((p :: after).find? (·.name = name)) := by
    rw [property?, split, List.find?_append]
  have early : ({ m with properties := before } : Model σ).property? name =
      before.find? (·.name = name) := rfl
  rcases found : before.find? (·.name = name) with _ | q
  · rw [found] at search early
    rcases foundThen : (p :: after).find? (·.name = name) with _ | q
    · rw [foundThen] at search
      simp only [read, search, early, Option.or_none]
    · rw [foundThen] at search
      have named : q.name = name := name_of_property? search
      rcases List.mem_cons.mp (List.mem_of_find?_eq_some foundThen) with rfl | comes
      · -- it would refer to itself
        refine absurd (Relation.TransGen.single ?_) (acyclic plan.name)
        refine ⟨plan, List.mem_append_right _ List.mem_cons_self, rfl, ?_⟩
        rwa [← is.name, named]
      · have real : q.isVirtual = false := by
          refine Bool.eq_false_iff.mpr fun isVirtual => behind ?_
          obtain ⟨next, lists, isNext⟩ := follows q comes
          refine ⟨earlier, plan, later, rfl, is.name.symm, next, lists, ?_, ?_⟩
          · rw [← isNext.isVirtual, isVirtual]
          · rwa [← isNext.name, named]
        have present : q ∈ m.properties := mem_of_property? search
        obtain ⟨text, keeps⟩ := inTurn.exists_text planned present
        have written := mem_initialWrites regular.distinct present real
        rw [named, keeps] at written
        have once := (initialWrites_of_distinct regular.distinct).1
        have held := get?_of_unreported written once silent
        rw [read_of_property? search, keeps, read, early]
        exact (congrArg (·.getD .null) held).symm
  · rw [found] at search early
    rw [read_of_property? search, read, early]

end Model

end LiveBinding
