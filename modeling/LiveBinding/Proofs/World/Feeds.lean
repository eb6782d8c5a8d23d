/-
# LiveBinding.Proofs.World.Feeds -- which changes set off which updates

When a name of a model changes, two events are dispatched on the hub of the model: that of
the name, and that of the change as such.  So the name feeds every computed property, of
whatever model, that listens to one of them (`World.Feeds`).

Within a model the check for cycles sees to it that no property feeds itself.  Nobody does so
across models, or for events that definitions declare.  Where no other model has a property
that changes of the model get to and that feeds itself (`World.Unwinds`), what feeds ranks
above what is fed, and there are no more ranks than properties (`World.exists_rank`).
-/
import LiveBinding.Proofs.Follower.Warranted
import LiveBinding.Proofs.Model.Cycle
import LiveBinding.Proofs.World.Listing

namespace LiveBinding

set_option autoImplicit false

variable {σ : Type}

def Model.IsOwn (m : Model σ) : Prop :=
  ∀ p ∈ m.properties, ∀ d ∈ p.dependencies, ∃ name, d = .ofRead m.hub name

theorem Model.SameShape.isOwn {m m' : Model σ} (same : m.SameShape m') (own : m.IsOwn) :
    m'.IsOwn := by
  intro q listed d depends
  obtain ⟨p, listed', shape⟩ := same.symm.mem listed
  rw [← Property.dependencies_of_shape shape] at depends
  rw [same.1]
  exact own p listed' d depends

namespace World

def computed (w : World σ) : List Accessor :=
  w.models.gather fun model m => m.properties.map fun p => ⟨p.name, model⟩

/-- When the name changes, such an event is dispatched on the hub. -/
def Announces (w : World σ) (a : Accessor) (hub : Ref .hub) (event : String) : Prop :=
  (∃ m, w.models.get? a.model = some m ∧ m.hub = hub) ∧
    (event = changeOf a.name ∨ event = changeEvent)

/-- The second is a computed property, and it listens to an event that is dispatched when the
first changes. -/
def Feeds (w : World σ) (before after : Accessor) : Prop :=
  after ∈ w.computed ∧ ∃ s, Registered w.hubs s (.refresh after.model after.name) ∧
    w.Announces before s.hub s.event

/-- A name of the model, or what such a name feeds, directly or through others. -/
def Reaches (w : World σ) (model : Ref .model) (a : Accessor) : Prop :=
  a.model = model ∨ ∃ name, Relation.TransGen w.Feeds ⟨name, model⟩ a

/-- Changes of the model get to the first, and the first feeds the second. -/
def Passes (w : World σ) (model : Ref .model) (before after : Accessor) : Prop :=
  w.Reaches model before ∧ w.Feeds before after

/-- No property of another model that changes of the model get to feeds itself, directly or
through others. -/
def Unwinds (w : World σ) (model : Ref .model) : Prop :=
  ∀ a, w.Reaches model a → a.model ≠ model → ¬ Relation.TransGen w.Feeds a a

variable {w : World σ} {model : Ref .model} {m : Model σ} {a b : Accessor}

theorem mem_computed : a ∈ w.computed ↔
    ∃ m, w.models.get? a.model = some m ∧ ∃ p ∈ m.properties, p.name = a.name := by
  obtain ⟨name, model⟩ := a
  rw [computed, Table.mem_gather]
  constructor
  · rintro ⟨_, m, present, listed⟩
    obtain ⟨p, among, same⟩ := List.mem_map.mp listed
    cases same
    exact ⟨m, present, p, among, rfl⟩
  · rintro ⟨m, present, p, listed, rfl⟩
    exact ⟨model, m, present, List.mem_map_of_mem listed⟩

theorem Reaches.step (reaches : w.Reaches model a) (feeds : w.Feeds a b) : w.Reaches model b := by
  rcases reaches with rfl | ⟨name, path⟩
  · exact Or.inr ⟨a.name, .single feeds⟩
  · exact Or.inr ⟨name, path.tail feeds⟩

theorem Reaches.path (reaches : w.Reaches model a) (path : Relation.ReflTransGen w.Feeds a b) :
    w.Reaches model b := by
  induction path with
  | refl => exact reaches
  | tail _ feeds ih => exact ih.step feeds

/-! ## Within the model -/

/-- Of properties of one model that reads only itself, the one that is fed captured the change
of the other. -/
theorem Feeds.own (warranted : w.Warranted) (present : w.models.get? model = some m) (own : m.IsOwn)
    (feeds : w.Feeds a b) (from_ : a.model = model) (onto : b.model = model) :
    m.Feeds a.name b.name := by
  obtain ⟨-, s, registered, ⟨m', there, on⟩, event⟩ := feeds
  rw [from_] at there
  cases present.symm.trans there
  rcases warranted s _ registered with free | ⟨other, name, same, row⟩
  · exact free.elim
  · cases same
    rw [onto] at row
    obtain ⟨p, listed, subscribed⟩ := row m present on.symm
    obtain ⟨_, refreshes⟩ := Reaction.refresh.inj subscribed.refreshes
    obtain ⟨name, depends⟩ := own p listed _ subscribed.depends
    have named : s.event = changeOf name := congrArg Dependency.event depends
    refine ⟨p, listed, refreshes.symm, ?_⟩
    rcases event with event | event
    · rw [← changeOf_injective (named.symm.trans event), ← depends]
      exact subscribed.depends
    · exact absurd (named.symm.trans event) (changeOf_ne_changeEvent name)

/-- A path stays within the model, or it passes another. -/
theorem path_cases (model : Ref .model) (path : Relation.TransGen w.Feeds a b) :
    Relation.TransGen (fun a b => w.Feeds a b ∧ a.model = model ∧ b.model = model) a b ∨
      ∃ c, c.model ≠ model ∧ Relation.ReflTransGen w.Feeds a c ∧
        Relation.ReflTransGen w.Feeds c b := by
  induction path with
  | @single b feeds =>
      by_cases from_ : a.model = model
      · by_cases onto : b.model = model
        · exact Or.inl (.single ⟨feeds, from_, onto⟩)
        · exact Or.inr ⟨b, onto, .single feeds, .refl⟩
      · exact Or.inr ⟨a, from_, .refl, .single feeds⟩
  | @tail b c path feeds ih =>
      rcases ih with within | ⟨other, apart, before, after⟩
      · by_cases onto : c.model = model
        · obtain ⟨_, _, -, -, from_⟩ := Relation.TransGen.tail'_iff.mp within
          exact Or.inl (within.tail ⟨feeds, from_, onto⟩)
        · exact Or.inr ⟨c, onto, path.to_reflTransGen.tail feeds, .refl⟩
      · exact Or.inr ⟨other, apart, before, after.tail feeds⟩

/-- Nothing that changes of the model get to feeds itself, if in the model what feeds ranks
above what is fed. -/
theorem Unwinds.acyclic (unwinds : w.Unwinds model) {rank : String → Nat}
    (falls : ∀ a b, w.Feeds a b → a.model = model → b.model = model → rank b.name < rank a.name)
    (reaches : w.Reaches model a) : ¬ Relation.TransGen w.Feeds a a := by
  intro cycle
  rcases path_cases model cycle with within | ⟨c, apart, before, after⟩
  · have lower : ∀ {a b}, Relation.TransGen
        (fun a b => w.Feeds a b ∧ a.model = model ∧ b.model = model) a b →
          rank b.name < rank a.name := by
      intro a b path
      induction path with
      | single edge => exact falls _ _ edge.1 edge.2.1 edge.2.2
      | tail _ edge ih => exact Nat.lt_trans (falls _ _ edge.1 edge.2.1 edge.2.2) ih
    exact Nat.lt_irrefl _ (lower within)
  · -- the other model's property is on the cycle too
    refine unwinds c (reaches.path before) apart ?_
    rcases Relation.reflTransGen_iff_eq_or_transGen.mp after with rfl | after
    · exact cycle
    · exact after.trans_left before

/-- Nothing comes back to another model that no property listens to. -/
theorem unwinds_of_unheard (unheard : ∀ a ∈ w.computed, a.model ≠ model →
    ∀ m, w.models.get? a.model = some m → ∀ (s : Subscription) (b : Accessor), s.hub = m.hub →
      ¬ Registered w.hubs s (.refresh b.model b.name)) : w.Unwinds model := by
  intro a _ apart cycle
  obtain ⟨_, -, listed, -⟩ := Relation.TransGen.tail'_iff.mp cycle
  obtain ⟨b, ⟨-, s, registered, ⟨m, present, on⟩, -⟩, -⟩ := Relation.TransGen.head'_iff.mp cycle
  exact unheard a listed apart m present s b on.symm registered

/-! ## Ranks -/

/-- Where nothing that changes of the model get to feeds itself, what feeds ranks above what is
fed. -/
theorem exists_rank (acyclic : ∀ a, w.Reaches model a → ¬ Relation.TransGen w.Feeds a a) :
    ∃ rank : Accessor → Nat, (∀ a b, w.Passes model a b → rank b < rank a) ∧
      ∀ a, rank a ≤ w.computed.length := by
  have open_ : ∀ a, ¬ Relation.TransGen (Function.swap (w.Passes model)) a a := by
    intro a cycle
    have turned := Relation.transGen_swap.mp cycle
    obtain ⟨_, ⟨reaches, -⟩, -⟩ := Relation.TransGen.head'_iff.mp turned
    exact acyclic a reaches (Relation.TransGen.mono (fun _ _ passes => passes.2) _ _ turned)
  obtain ⟨rank, rises, bounded⟩ := LiveBinding.exists_rank open_ fun _ _ passes => passes.2.1
  exact ⟨rank, fun a b passes => rises b a passes, bounded⟩

end World

end LiveBinding
