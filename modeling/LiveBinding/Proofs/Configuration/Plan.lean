/-
# LiveBinding.Proofs.Configuration.Plan -- computed entries and what they stand for

A plan is a computed entry with its template read.  Where no template leads back to
itself, templates can be filled in from the attributes up, and then every name
stands for something (`Configuration.meaning`) that has nothing to do with the order
in which the entries are listed.

Whatever reads as the attributes do, but for the planned names, and reads these as
their own templates rendered, reads as that (`eq_meaning`).
-/
import LiveBinding.Proofs.Configuration.Template
import LiveBinding.Proofs.Model.Cycle

namespace LiveBinding

set_option autoImplicit false

variable {σ : Type}

/-- A computed entry with its template read. -/
structure Plan where
  name : String
  template : Template
  isVirtual : Bool
  deriving DecidableEq

namespace Plan

/-- The plan of an entry; one whose template cannot be read has no fields. -/
def ofEntry (entry : String × ComputedEntry) : Plan :=
  ⟨entry.1, (Template.read entry.2.template).toOption.getD ⟨[]⟩, entry.2.isVirtual⟩

def definition (plan : Plan) : Definition σ :=
  ⟨some plan.template.getter, none, plan.isVirtual, []⟩

end Plan

/-- The template of a planned name has the field. -/
def Refers (plans : List Plan) (name field : String) : Prop :=
  ∃ plan ∈ plans, plan.name = name ∧ field ∈ plan.template.fields

/-- The template of a planned name has a field that a virtual plan further down the
list is about. -/
def RefersAhead (plans : List Plan) (name : String) : Prop :=
  ∃ before plan after, plans = before ++ plan :: after ∧ plan.name = name ∧
    ∃ later ∈ after, later.isVirtual = true ∧ later.name ∈ plan.template.fields

/-- The value of a name is made of the value of the other, or is that. -/
def BuildsOn (plans : List Plan) (name other : String) : Prop :=
  other = name ∨ Relation.TransGen (Refers plans) name other

def Acyclic (plans : List Plan) : Prop :=
  ∀ name, ¬ Relation.TransGen (Refers plans) name name

/-- What a name stands for when templates are filled in, one inside another at most
`depth` deep. -/
def meaningWithin (attributes : Attributes) (plans : List Plan) : Nat → String → Json
  | 0, _ => .null
  | depth + 1, name =>
      match plans.find? (·.name = name) with
      | some plan => .text (plan.template.render (meaningWithin attributes plans depth))
      | none => attributes.read name

namespace Configuration

def plans (c : Configuration) : List Plan :=
  c.computed.map Plan.ofEntry

def meaning (c : Configuration) (name : String) : Json :=
  meaningWithin c.attributes c.plans (c.plans.length + 1) name

def Parses (c : Configuration) : Prop :=
  ∀ entry ∈ c.computed, (Template.read entry.2.template).isOk = true

instance (c : Configuration) : Decidable c.Parses :=
  inferInstanceAs (Decidable (∀ entry ∈ c.computed, (Template.read entry.2.template).isOk = true))

end Configuration

/-! ## Reading entries -/

/-- The definitions of entries are those of their plans. -/
theorem definitions_of_plans {entries : Fields ComputedEntry}
    (parses : ∀ entry ∈ entries, (Template.read entry.2.template).isOk = true) :
    Configuration.definitions (σ := σ) entries =
      .ok ((entries.map Plan.ofEntry).map fun plan => (plan.name, plan.definition)) := by
  induction entries with
  | nil => rfl
  | cons entry rest ih =>
      obtain ⟨name, entry⟩ := entry
      have readable := parses _ List.mem_cons_self
      rcases reads : Template.read entry.template with fault | template
      · rw [reads] at readable
        cases readable
      · have first : Configuration.definition (σ := σ) name entry =
            .ok (Plan.ofEntry (name, entry)).definition := by
          simp only [Configuration.definition, Plan.ofEntry, Plan.definition, reads]
          rfl
        rw [Configuration.definitions, first, ih fun other later => parses other (List.mem_cons_of_mem _ later)]
        rfl

/-! ## Order -/

section Order

variable {plans plans' : List Plan} {name field : String}

theorem refers_perm (order : plans'.Perm plans) : Refers plans' = Refers plans := by
  funext name field
  refine propext ⟨?_, ?_⟩
  · rintro ⟨plan, listed, facts⟩
    exact ⟨plan, order.mem_iff.mp listed, facts⟩
  · rintro ⟨plan, listed, facts⟩
    exact ⟨plan, order.mem_iff.mpr listed, facts⟩

theorem BuildsOn.refers {other : String} (builds : BuildsOn plans field other)
    (refers : Refers plans name field) : BuildsOn plans name other := by
  rcases builds with rfl | chain
  · exact Or.inr (.single refers)
  · exact Or.inr (.trans (.single refers) chain)

/-- Acyclic plans have a rank, larger for the fields of a template than for its
name. -/
theorem Acyclic.exists_rank (acyclic : Acyclic plans) : ∃ rank : String → Nat,
    (∀ plan ∈ plans, ∀ field ∈ plan.template.fields, rank plan.name < rank field) ∧
      ∀ name, rank name ≤ plans.length := by
  have named : ∀ name next, Refers plans name next → name ∈ plans.map Plan.name := by
    rintro _ next ⟨plan, listed, rfl, -⟩
    exact List.mem_map_of_mem listed
  obtain ⟨rank, rises, bounded⟩ := LiveBinding.exists_rank acyclic named
  refine ⟨rank, fun plan listed field among => rises _ _ ⟨plan, listed, rfl, among⟩, ?_⟩
  simpa using bounded

/-- Plans that have such a rank are acyclic. -/
theorem acyclic_of_rank (rank : String → Nat)
    (rises : ∀ plan ∈ plans, ∀ field ∈ plan.template.fields, rank plan.name < rank field) :
    Acyclic plans := by
  have rise : ∀ {name field}, Refers plans name field → rank name < rank field := by
    rintro _ field ⟨plan, listed, rfl, among⟩
    exact rises plan listed field among
  have climb : ∀ {name field}, Relation.TransGen (Refers plans) name field → rank name < rank field := by
    intro name field chain
    induction chain with
    | single refers => exact rise refers
    | tail _ refers ih => exact Nat.lt_trans ih (rise refers)
  exact fun name chain => Nat.lt_irrefl _ (climb chain)

/-- Where no plan is virtual, none refers ahead to such a one. -/
theorem not_refersAhead (real : ∀ plan ∈ plans, plan.isVirtual = false) (name : String) :
    ¬ RefersAhead plans name := by
  rintro ⟨before, plan, after, rfl, -, later, follows, isVirtual, -⟩
  have no := real later (List.mem_append_right _ (List.mem_cons_of_mem _ follows))
  rw [no] at isVirtual
  cases isVirtual

/-- With names of their own, plans are found under their names. -/
theorem find?_of_distinct (distinct : (plans.map Plan.name).Nodup) {plan : Plan}
    (listed : plan ∈ plans) : plans.find? (·.name = plan.name) = some plan := by
  induction plans with
  | nil => cases listed
  | cons first rest ih =>
      obtain ⟨unrepeated, distinctRest⟩ := List.nodup_cons.mp distinct
      rcases List.mem_cons.mp listed with rfl | later
      · exact List.find?_cons_of_pos (by simp)
      · have other : first.name ≠ plan.name := by
          intro same
          rw [same] at unrepeated
          exact unrepeated (List.mem_map_of_mem later)
        rw [List.find?_cons_of_neg (by simpa using other)]
        exact ih distinctRest later

end Order

/-! ## Meaning -/

/-- Where the attributes are read as they are, and the templates of all that a name is
made of are read as they render, the name is read as what it stands for. -/
theorem eq_meaning {c : Configuration} (distinct : (c.plans.map Plan.name).Nodup)
    (acyclic : Acyclic c.plans) {look : String → Json} {clear : String → Prop}
    (plain : ∀ name, name ∉ c.plans.map Plan.name → look name = c.attributes.read name)
    (rendered : ∀ plan ∈ c.plans, clear plan.name → look plan.name = .text (plan.template.render look))
    {name : String} (allClear : ∀ other, BuildsOn c.plans name other → clear other) :
    look name = c.meaning name := by
  obtain ⟨rank, rises, bounded⟩ := acyclic.exists_rank
  have within : ∀ depth name, c.plans.length < depth + rank name →
      (∀ other, BuildsOn c.plans name other → clear other) →
      look name = meaningWithin c.attributes c.plans depth name := by
    intro depth
    induction depth with
    | zero =>
        intro name deep _
        have low := bounded name
        omega
    | succ depth ih =>
        intro name deep allClear
        by_cases planned : name ∈ c.plans.map Plan.name
        · obtain ⟨plan, listed, rfl⟩ := List.mem_map.mp planned
          rw [meaningWithin, find?_of_distinct distinct listed,
            rendered plan listed (allClear _ (Or.inl rfl))]
          refine congrArg Json.text (Template.render_congr _ fun field among => ?_)
          have higher := rises plan listed field among
          refine (ih field (by omega) fun other builds => allClear other ?_)
          exact builds.refers ⟨plan, listed, rfl, among⟩
        · have none : c.plans.find? (·.name = name) = none := by
            refine List.find?_eq_none.mpr fun plan listed named => planned ?_
            exact List.mem_map.mpr ⟨plan, listed, by simpa using named⟩
          rw [meaningWithin, none]
          exact plain name planned
  exact within _ name (by omega) allClear

end LiveBinding
