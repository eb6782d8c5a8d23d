/-
# LiveBinding.Proofs.Model.Cycle -- what has a rank has no cycle

The search for cycles only follows edges, so where every edge goes down in rank it
never comes back to the path it is on (`Graph.findCycle_of_rank`).  An acyclic
relation has such a rank: how many of finitely many nodes lead to a node
(`exists_rank`).

The other way round, a search that finds no cycle has left every node it visited, so
none of them leads back to itself (`Graph.acyclic_of_findCycle`).  The depth allowed is
enough: the nodes of a path are listed, and no two are the same.
-/
import Mathlib.Data.List.Perm.Subperm
import Mathlib.Order.WellFounded
import LiveBinding.Model.Cycle
import LiveBinding.Proofs.Model.Basic

namespace LiveBinding

set_option autoImplicit false

namespace Graph

variable {g : Graph} {rank : String → Nat}

theorem sweep_ok {visit : String → List String → Except (List String) (List String)}
    {path nodes : List String} (off : ∀ node ∈ nodes, node ∉ path)
    (visits : ∀ node ∈ nodes, ∀ visited, ∃ after, visit node visited = .ok after)
    (visited : List String) : ∃ after, sweep visit path nodes visited = .ok after := by
  induction nodes generalizing visited with
  | nil => exact ⟨visited, rfl⟩
  | cons node rest ih =>
      have others := fun visited => ih (fun other later => off other (List.mem_cons_of_mem _ later))
        (fun other later => visits other (List.mem_cons_of_mem _ later)) visited
      rw [sweep, if_neg (off node List.mem_cons_self)]
      by_cases seen : node ∈ visited
      · rw [if_pos seen]
        exact others visited
      · rw [if_neg seen]
        obtain ⟨after, visits⟩ := visits node List.mem_cons_self visited
        obtain ⟨last, swept⟩ := others after
        exact ⟨last, by rw [visits]; exact swept⟩

/-- The path to a node lies above it, so what depends on the node is not on it. -/
theorem visit_ok (falls : ∀ node, ∀ next ∈ g.dependents node, rank next < rank node) (depth : Nat)
    {path : List String} {node : String} (above : ∀ other ∈ path, rank node < rank other)
    (visited : List String) : ∃ after, visit g depth path node visited = .ok after := by
  induction depth generalizing path node visited with
  | zero => exact ⟨node :: visited, rfl⟩
  | succ depth ih =>
      have aboveNext : ∀ next ∈ g.dependents node, ∀ other ∈ path ++ [node],
          rank next < rank other := by
        intro next edge other on
        have lower := falls node next edge
        rcases List.mem_append.mp on with before | last
        · have higher := above other before
          omega
        · rw [List.mem_singleton.mp last]
          exact lower
      refine sweep_ok (fun next edge on => ?_) (fun next edge => ih (aboveNext next edge)) _
      have same := aboveNext next edge next on
      omega

theorem findCycle_of_rank (falls : ∀ node, ∀ next ∈ g.dependents node, rank next < rank node) :
    g.findCycle = none := by
  obtain ⟨after, swept⟩ : ∃ after,
      sweep (visit g (g.length + 1) []) [] (g.map (·.1)) [] = .ok after :=
    sweep_ok (by simp) (fun node _ => visit_ok falls _ (by simp)) []
  rw [findCycle, swept]

/-! ## What a search that finds nothing has seen -/

/-- Following dependents from the node comes to an end. -/
def Grounded (g : Graph) (node : String) : Prop :=
  Acc (fun next node => next ∈ g.dependents node) node

/-- What was visited lies on the path or is done with. -/
def Settled (g : Graph) (path visited : List String) : Prop :=
  ∀ node ∈ visited, node ∈ path ∨ g.Grounded node

theorem listed_of_mem_dependents {node next : String} (edge : next ∈ g.dependents node) :
    node ∈ g.map (·.1) := by
  rw [dependents] at edge
  split at edge
  · rename_i entry found
    have named : entry.1 = node := by simpa using List.find?_some found
    have among := List.mem_reverse.mp (List.mem_of_find?_eq_some found)
    exact List.mem_map.mpr ⟨entry, among, named⟩
  · cases edge

theorem sweep_settles {visit : String → List String → Except (List String) (List String)}
    {path nodes visited after : List String}
    (each : ∀ node ∈ nodes, node ∉ path → ∀ visited after, g.Settled path visited →
      visit node visited = .ok after → g.Settled path after ∧ visited ⊆ after ∧ node ∈ after)
    (settled : g.Settled path visited) (swept : sweep visit path nodes visited = .ok after) :
    g.Settled path after ∧ visited ⊆ after ∧ ∀ node ∈ nodes, node ∈ after ∧ node ∉ path := by
  induction nodes generalizing visited with
  | nil =>
      cases swept
      exact ⟨settled, List.Subset.refl _, nofun⟩
  | cons node rest ih =>
      have eachRest := fun other later => each other (List.mem_cons_of_mem _ later)
      rw [sweep] at swept
      split at swept
      · cases swept
      rename_i off
      split at swept
      · rename_i seen
        obtain ⟨settledThen, more, all⟩ := ih eachRest settled swept
        refine ⟨settledThen, more, fun other listed => ?_⟩
        rcases List.mem_cons.mp listed with rfl | later
        · exact ⟨more seen, off⟩
        · exact all other later
      · rcases visits : visit node visited with cycle | between
        · rw [visits] at swept
          cases swept
        · rw [visits] at swept
          obtain ⟨settledHere, moreHere, here⟩ :=
            each node List.mem_cons_self off visited between settled visits
          obtain ⟨settledThen, more, all⟩ := ih eachRest settledHere swept
          refine ⟨settledThen, fun _ among => more (moreHere among), fun other listed => ?_⟩
          rcases List.mem_cons.mp listed with rfl | later
          · exact ⟨more here, off⟩
          · exact all other later

theorem visit_settles (depth : Nat) {path visited after : List String} {node : String}
    (off : node ∉ path) (distinct : path.Nodup) (listed : path ⊆ g.map (·.1))
    (deep : depth + path.length = g.length + 1) (settled : g.Settled path visited)
    (visits : visit g depth path node visited = .ok after) :
    g.Settled path after ∧ visited ⊆ after ∧ node ∈ after := by
  induction depth generalizing path node visited after with
  | zero =>
      -- a path cannot be longer than the list of nodes
      have short := (distinct.subperm listed).length_le
      rw [List.length_map] at short
      omega
  | succ depth ih =>
      have started : g.Settled (path ++ [node]) (node :: visited) := by
        intro other among
        rcases List.mem_cons.mp among with rfl | before
        · exact Or.inl (by simp)
        · exact (settled other before).imp_left (List.mem_append_left _)
      have distinctThen : (path ++ [node]).Nodup := by
        refine List.nodup_append.mpr ⟨distinct, by simp, fun other on last isLast same => ?_⟩
        exact off (List.mem_singleton.mp isLast ▸ same ▸ on)
      obtain ⟨settledThen, more, all⟩ := sweep_settles (fun next edge offThen between last start goes => by
        refine ih offThen distinctThen (fun other on => ?_) (by simp; omega) start goes
        rcases List.mem_append.mp on with before | last
        · exact listed before
        · exact List.mem_singleton.mp last ▸ listed_of_mem_dependents edge) started visits
      have grounded : g.Grounded node := by
        refine Acc.intro _ fun next edge => ?_
        obtain ⟨seen, offThen⟩ := all next edge
        exact (settledThen next seen).resolve_left offThen
      refine ⟨fun other among => ?_, fun _ before => more (List.mem_cons_of_mem _ before),
        more List.mem_cons_self⟩
      rcases settledThen other among with on | done
      · rcases List.mem_append.mp on with before | last
        · exact Or.inl before
        · exact Or.inr (List.mem_singleton.mp last ▸ grounded)
      · exact Or.inr done

/-- Where the search finds no cycle, following dependents never comes back. -/
theorem acyclic_of_findCycle (none : g.findCycle = none) (node : String) :
    ¬ Relation.TransGen (fun next node => next ∈ g.dependents node) node node := by
  rcases swept : sweep (visit g (g.length + 1) []) [] (g.map (·.1)) [] with cycle | after
  · rw [findCycle, swept] at none
    cases none
  · obtain ⟨settled, -, all⟩ := sweep_settles (g := g)
      (fun next _ off between last start goes =>
        visit_settles (g.length + 1) off List.nodup_nil (List.nil_subset _) (by simp) start goes)
      (fun _ none => absurd none List.not_mem_nil) swept
    have grounded : ∀ node, g.Grounded node := by
      intro node
      by_cases listed : node ∈ g.map (·.1)
      · exact (settled node (all node listed).1).resolve_left List.not_mem_nil
      · exact Acc.intro _ fun next edge => absurd (listed_of_mem_dependents edge) listed
    have wellFounded : WellFounded (fun next node => next ∈ g.dependents node) := ⟨grounded⟩
    exact fun back => wellFounded.transGen.irrefl.irrefl node back

end Graph

theorem countP_lt_of_strict {α : Type} {p q : α → Bool} {l : List α}
    (weaker : ∀ a ∈ l, p a = true → q a = true) (more : ∃ a ∈ l, q a = true ∧ p a = false) :
    l.countP p < l.countP q := by
  induction l with
  | nil =>
      obtain ⟨a, none, -⟩ := more
      cases none
  | cons first rest ih =>
      have weakerRest : ∀ a ∈ rest, p a = true → q a = true :=
        fun a later => weaker a (List.mem_cons_of_mem _ later)
      have atMost := List.countP_mono_left weakerRest
      have here := weaker first List.mem_cons_self
      rw [List.countP_cons, List.countP_cons]
      obtain ⟨a, among, isQ, notP⟩ := more
      rcases List.mem_cons.mp among with rfl | later
      · simp only [isQ, notP, if_true, Bool.false_eq_true, if_false]
        omega
      · have strict := ih weakerRest ⟨a, later, isQ, notP⟩
        by_cases isP : p first = true
        · simp only [isP, here isP, if_true]
          omega
        · simp only [isP, Bool.false_eq_true, if_false]
          omega

/-- Where nothing leads back to itself, the number of nodes that lead to a node is a
rank, and none is larger than the number of nodes. -/
theorem exists_rank {α : Type} {r : α → α → Prop} {nodes : List α}
    (acyclic : ∀ node, ¬ Relation.TransGen r node node)
    (listed : ∀ node next, r node next → node ∈ nodes) :
    ∃ rank : α → Nat, (∀ node next, r node next → rank node < rank next) ∧
      ∀ node, rank node ≤ nodes.length := by
  classical
  refine ⟨fun node => nodes.countP fun other => decide (Relation.TransGen r other node),
    fun node next edge => ?_, fun node => List.countP_le_length⟩
  refine countP_lt_of_strict (fun other _ leads => ?_) ⟨node, listed node next edge, ?_, ?_⟩
  · have path : Relation.TransGen r other node := of_decide_eq_true leads
    exact decide_eq_true (path.tail edge)
  · exact decide_eq_true (.single edge)
  · exact decide_eq_false (acyclic node)

/-- Where the search finds no cycle, dependents lie lower in rank. -/
theorem Graph.exists_rank_of_findCycle {g : Graph} {nodes : List String}
    (none : g.findCycle = none)
    (listed : ∀ node, ∀ next ∈ g.dependents node, next ∈ nodes) :
    ∃ rank : String → Nat, (∀ node, ∀ next ∈ g.dependents node, rank next < rank node) ∧
      ∀ node, rank node ≤ nodes.length := by
  obtain ⟨rank, rises, bounded⟩ := exists_rank (g.acyclic_of_findCycle none)
    (fun next node edge => listed node next edge)
  exact ⟨rank, fun node next edge => rises next node edge, bounded⟩

namespace Model

variable {σ : Type} {m : Model σ}

/-- The property named `after` captured the event of the change of `before`. -/
def Feeds (m : Model σ) (before after : String) : Prop :=
  ∃ p ∈ m.properties, p.name = after ∧ .ofRead m.hub before ∈ p.dependencies

theorem SameShape.feeds {m' : Model σ} (same : m.SameShape m') {before after : String}
    (fed : m'.Feeds before after) : m.Feeds before after := by
  obtain ⟨q, listed, named, depends⟩ := fed
  obtain ⟨p, listed', shape⟩ := same.symm.mem listed
  refine ⟨p, listed', (Property.name_of_shape shape).trans named, ?_⟩
  rw [Property.dependencies_of_shape shape, ← same.1]
  exact depends

/-- In the graph of a model, what depends on a property is what it feeds. -/
theorem mem_dependents {node next : String} :
    next ∈ Graph.dependents m.dependents node ↔
      (∃ p ∈ m.properties, p.name = node) ∧ m.Feeds node next := by
  have captured : next ∈ m.dependentsOf node ↔ m.Feeds node next := by
    simp only [dependentsOf, Feeds, List.mem_map, List.mem_filter, List.any_eq_true,
      Bool.and_eq_true, decide_eq_true_eq]
    constructor
    · rintro ⟨q, ⟨listed, d, depends, event, hub⟩, named⟩
      refine ⟨q, listed, named, ?_⟩
      cases d
      cases event
      cases hub
      exact depends
    · rintro ⟨q, listed, named, depends⟩
      exact ⟨q, ⟨listed, _, depends, rfl, rfl⟩, named⟩
  rw [← captured, Graph.dependents]
  split
  · rename_i entry found
    have among := List.mem_reverse.mp (List.mem_of_find?_eq_some found)
    have named : entry.1 = node := by simpa using List.find?_some found
    obtain ⟨p, listed, rfl⟩ := List.mem_map.mp among
    subst named
    exact ⟨fun depends => ⟨⟨p, listed, rfl⟩, depends⟩, fun both => both.2⟩
  · rename_i unfound
    refine ⟨nofun, ?_⟩
    rintro ⟨⟨p, listed, rfl⟩, -⟩
    have absent := List.find?_eq_none.mp unfound (p.name, m.dependentsOf p.name)
      (List.mem_reverse.mpr (List.mem_map_of_mem listed))
    simp at absent

/-- Where no cycle is found, what is fed lies lower in rank.  Names that are no
properties' feed, but are not fed, so they may rank above all. -/
theorem exists_rank (none : Graph.findCycle m.dependents = none) :
    ∃ rank : String → Nat, (∀ before after, m.Feeds before after → rank after < rank before) ∧
      ∀ name, rank name ≤ m.properties.length + 1 := by
  classical
  have listed : ∀ node, ∀ next ∈ Graph.dependents m.dependents node,
      next ∈ m.properties.map (·.name) := by
    intro node next edge
    obtain ⟨-, p, among, rfl, -⟩ := mem_dependents.mp edge
    exact List.mem_map_of_mem among
  obtain ⟨rank, falls, bounded⟩ := Graph.exists_rank_of_findCycle none listed
  rw [List.length_map] at bounded
  refine ⟨fun name => if ∃ p ∈ m.properties, p.name = name then rank name
    else m.properties.length + 1, fun before after feeds => ?_, fun name => ?_⟩
  · have below := bounded after
    have fed : ∃ p ∈ m.properties, p.name = after := by
      obtain ⟨p, among, named, -⟩ := feeds
      exact ⟨p, among, named⟩
    dsimp only
    rw [if_pos fed]
    split
    · rename_i property
      exact falls before after (mem_dependents.mpr ⟨property, feeds⟩)
    · omega
  · have below := bounded name
    dsimp only
    split <;> omega

end Model

end LiveBinding
