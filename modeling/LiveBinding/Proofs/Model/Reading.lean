/-
# LiveBinding.Proofs.Model.Reading -- getters that only ask their own model

`Gives look reading asked outcome` says that the code asks its own model for the
names `asked`, one after another, is answered what `look` shows, and ends in
`outcome`.  Code of any other kind (which reads other models, leaves its reads
unrecorded, or has to do with the client's state) gives nothing.

`Asks names` is what a getter owes for its property to be kept up to date: that
whatever is answered it asks for the same names, and that what it ends with is
neither a list nor an object.  `ReadsOwn` is far less: the code may have to do with the
client's state, give anything, and ask for this today and that tomorrow, if only it asks
no other model.
-/
import LiveBinding.Model.Reading

namespace LiveBinding

set_option autoImplicit false

variable {σ α : Type}

theorem changeOf_injective {name other : String} (same : changeOf name = changeOf other) :
    name = other :=
  String.append_right_inj _ |>.mp same

theorem changeOf_ne_changeEvent (name : String) : changeOf name ≠ changeEvent := by
  intro same
  have lengths : "change:".length + name.length = "change".length := by
    simpa [changeOf, changeEvent] using congrArg String.length same
  have longer : "change".length < "change:".length := by decide
  omega

theorem Dependency.ofRead_injective {hub : Ref .hub} {name other : String}
    (same : ofRead hub name = ofRead hub other) : name = other :=
  changeOf_injective (congrArg Dependency.event same)

namespace Collector

theorem mem_record {d e : Dependency} {c : Collector} : e ∈ record d c ↔ e = d ∨ e ∈ c := by
  unfold record
  split
  · rename_i present
    constructor
    · exact Or.inr
    · rintro (rfl | there)
      · exact present
      · exact there
  · simp [or_comm]

theorem mem_recordAll {e : Dependency} {ds : List Dependency} {c : Collector} :
    e ∈ recordAll ds c ↔ e ∈ ds ∨ e ∈ c := by
  induction ds generalizing c with
  | nil => simp [recordAll]
  | cons d rest ih =>
      show e ∈ recordAll rest (record d c) ↔ _
      rw [ih, mem_record, List.mem_cons]
      constructor
      · rintro (there | rfl | there)
        · exact Or.inl (Or.inr there)
        · exact Or.inl (Or.inl rfl)
        · exact Or.inr there
      · rintro ((rfl | there) | there)
        · exact Or.inr (Or.inl rfl)
        · exact Or.inl there
        · exact Or.inr (Or.inr there)

theorem nodup_record {d : Dependency} {c : Collector} (distinct : c.Nodup) : (record d c).Nodup := by
  unfold record
  split
  · exact distinct
  · rename_i new
    rw [List.nodup_append]
    exact ⟨distinct, by simp, fun e old f same => by
      rw [List.mem_singleton.mp same]
      rintro rfl
      exact new old⟩

theorem nodup_recordAll {ds : List Dependency} {c : Collector} (distinct : c.Nodup) :
    (recordAll ds c).Nodup := by
  induction ds generalizing c with
  | nil => exact distinct
  | cons d rest ih => exact ih (nodup_record distinct)

end Collector

namespace Reading

/-- The code asks its own model for the names `asked`, recording each, and ends
in `outcome` when it is answered what `look` shows. -/
inductive Gives (look : String → Json) :
    Reading σ α → List String → Except String α → Prop
  | done (value : α) : Gives look (.done value) [] (.ok value)
  | fail (reason : String) : Gives look (.fail reason) [] (.error reason)
  | read {name : String} {next : Json → Reading σ α} {asked : List String}
      {outcome : Except String α} (rest : Gives look (next (look name)) asked outcome) :
      Gives look (.read none true name next) (name :: asked) outcome

/-- Whatever the attributes show, the getter asks for these names of its own
model and no others, and what it gives is neither a list nor an object. -/
def Asks (names : List String) (getter : Getter σ) : Prop :=
  ∀ look, ∃ asked outcome, Gives look getter asked outcome ∧
    (∀ name, name ∈ asked ↔ name ∈ names) ∧ ∀ value, outcome = .ok value → value.isScalar = true

/-- What code gives depends on nothing but the answers it gets. -/
theorem Gives.congr {look look' : String → Json} {reading : Reading σ α} {asked : List String}
    {outcome : Except String α} (gives : Gives look reading asked outcome)
    (same : ∀ name ∈ asked, look' name = look name) : Gives look' reading asked outcome := by
  induction gives with
  | done value => exact .done value
  | fail reason => exact .fail reason
  | @read name next asked outcome rest ih =>
      have answered : look' name = look name := same name List.mem_cons_self
      refine .read ?_
      rw [answered]
      exact ih fun other listed => same other (List.mem_cons_of_mem name listed)

theorem Gives.unique {look : String → Json} {reading : Reading σ α} {asked asked' : List String}
    {outcome outcome' : Except String α} (gives : Gives look reading asked outcome)
    (gives' : Gives look reading asked' outcome') : asked = asked' ∧ outcome = outcome' := by
  induction gives generalizing asked' outcome' with
  | done value => cases gives'; exact ⟨rfl, rfl⟩
  | fail reason => cases gives'; exact ⟨rfl, rfl⟩
  | read rest ih =>
      cases gives' with
      | read rest' =>
          obtain ⟨rfl, rfl⟩ := ih rest'
          exact ⟨rfl, rfl⟩

/-- Running such code gives just that, leaves the client's state alone, and
captures what is asked for when it is asked to. -/
theorem Gives.run_eq {look : String → Json} {reading : Reading σ α} {asked : List String}
    {outcome : Except String α} (gives : Gives look reading asked outcome) {sight : Sight}
    {owner : Ref .model} {hub : Ref .hub} (shown : ∀ name, sight owner name = some ⟨hub, look name⟩)
    (capturing : Bool) (client : σ) (captured : Collector) :
    reading.run sight owner capturing client captured =
      ⟨outcome, client,
        if capturing then Collector.recordAll (asked.map (.ofRead hub)) captured
        else captured⟩ := by
  induction gives generalizing captured with
  | done value => cases capturing <;> rfl
  | fail reason => cases capturing <;> rfl
  | read rest ih =>
      simp only [run, Option.getD_none, shown, Bool.and_true]
      rw [ih]
      cases capturing <;> rfl

/-- The code reads no model but its owner. -/
inductive ReadsOwn (owner : Ref .model) : Reading σ α → Prop
  | done (value : α) : ReadsOwn owner (.done value)
  | fail (reason : String) : ReadsOwn owner (.fail reason)
  | read {source : Option (Ref .model)} {recorded : Bool} {name : String}
      {next : Json → Reading σ α} (own : source.getD owner = owner)
      (rest : ∀ value, ReadsOwn owner (next value)) :
      ReadsOwn owner (.read source recorded name next)
  | capturing {next : Bool → Reading σ α} (rest : ∀ b, ReadsOwn owner (next b)) :
      ReadsOwn owner (.capturing next)
  | look {next : σ → Reading σ α} (rest : ∀ client, ReadsOwn owner (next client)) :
      ReadsOwn owner (.look next)
  | change {f : σ → σ} {next : Reading σ α} (rest : ReadsOwn owner next) :
      ReadsOwn owner (.change f next)

/-- All it captures are changes of its owner's attributes. -/
theorem ReadsOwn.captured {owner : Ref .model} {reading : Reading σ α}
    (own : reading.ReadsOwn owner) {sight : Sight} {hub : Ref .hub} {look : String → Json}
    (shown : ∀ name, sight owner name = some ⟨hub, look name⟩) (capturing : Bool) (client : σ)
    {captured : Collector} (before : ∀ d ∈ captured, ∃ name, d = .ofRead hub name) :
    ∀ d ∈ (reading.run sight owner capturing client captured).captured,
      ∃ name, d = .ofRead hub name := by
  induction own generalizing client captured with
  | done => exact before
  | fail => exact before
  | read own rest ih =>
      simp only [run, own, shown]
      refine ih _ client ?_
      split
      · intro d among
        rcases Collector.mem_record.mp among with rfl | old
        · exact ⟨_, rfl⟩
        · exact before d old
      · exact before
  | capturing rest ih => exact ih capturing client before
  | look rest ih => exact ih client client before
  | change rest ih => exact ih _ before

end Reading

end LiveBinding
