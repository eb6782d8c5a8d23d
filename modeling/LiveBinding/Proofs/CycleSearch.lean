/-
# LiveBinding.Proofs.CycleSearch -- the search for cycles is exact

A graph has a cycle when its edges lead from some node back to it.  The search says
`none` exactly when there is none, and what it finds otherwise is a cycle of the graph,
walked once (`Graph.findCycle_exact`).

That nothing is missed is `Graph.acyclic_of_findCycle`: a node is left only when all that
can be reached from it was left before.  That what is found is a cycle rests on the path:
it follows edges and has no node twice, each visit makes it longer by a node that is not
on it, and a dependent that is on it closes the part of it from there on.
-/
import Mathlib.Data.List.Chain
import Mathlib.Data.List.Nodup
import LiveBinding.Proofs.Model.Cycle

namespace LiveBinding

set_option autoImplicit false

namespace Graph

variable {g : Graph} {node next : String} {path cycle : List String}

/-! ## Cycles -/

/-- The graph lists `next` among the dependents of `node`. -/
def Edge (g : Graph) (node next : String) : Prop :=
  ∃ entry ∈ g, entry.1 = node ∧ next ∈ entry.2

def HasCycle (g : Graph) : Prop :=
  ∃ node, Relation.TransGen g.Edge node node

/-- A way along edges that ends where it begins and comes by no other node twice. -/
structure IsCycle (g : Graph) (cycle : List String) : Prop where
  long : 2 ≤ cycle.length
  closed : cycle.head? = cycle.getLast?
  distinct : cycle.dropLast.Nodup
  edges : cycle.IsChain g.Edge

theorem edge_of_mem_dependents (depends : next ∈ g.dependents node) : g.Edge node next := by
  rw [dependents] at depends
  split at depends
  · rename_i entry found
    have named : entry.1 = node := by simpa using List.find?_some found
    exact ⟨entry, List.mem_reverse.mp (List.mem_of_find?_eq_some found), named, depends⟩
  · cases depends

/-- Where no node is listed twice, dependents are what the graph lists. -/
theorem mem_dependents_of_edge (distinct : (g.map (·.1)).Nodup) (edge : g.Edge node next) :
    next ∈ g.dependents node := by
  obtain ⟨entry, listed, rfl, depends⟩ := edge
  rw [dependents]
  split
  · rename_i other found
    have among := List.mem_reverse.mp (List.mem_of_find?_eq_some found)
    have named : other.1 = entry.1 := by simpa using List.find?_some found
    obtain rfl := List.inj_on_of_nodup_map distinct among listed named
    exact depends
  · rename_i unfound
    have absent := List.find?_eq_none.mp unfound entry (List.mem_reverse.mpr listed)
    simp at absent

theorem IsCycle.hasCycle (is : g.IsCycle cycle) : g.HasCycle := by
  match cycle, is with
  | [], is => exact absurd is.long (by simp)
  | [_], is => exact absurd is.long (by simp)
  | first :: second :: rest, is =>
      obtain ⟨edge, onward⟩ := List.isChain_cons_cons.mp is.edges
      have ends : (second :: rest).getLast (List.cons_ne_nil _ _) = first := by
        have closed := is.closed
        rw [List.head?_cons, List.getLast?_cons_cons,
          List.getLast?_eq_some_getLast (List.cons_ne_nil _ _)] at closed
        exact (Option.some.inj closed).symm
      exact ⟨first, .head' edge (List.relationReflTransGen_of_exists_isChain_cons rest onward ends)⟩

/-! ## What the search finds -/

/-- The path from a node on it, closed by that node, is a cycle. -/
theorem isCycle_of_mem_path (distinct : path.Nodup) (edges : (path ++ [node]).IsChain g.Edge)
    (on : node ∈ path) : g.IsCycle (path.dropWhile (· ≠ node) ++ [node]) := by
  obtain ⟨before, after, rfl, first⟩ := List.eq_append_cons_of_mem on
  have loop : (before ++ node :: after).dropWhile (· ≠ node) = node :: after := by
    rw [List.dropWhile_append_of_pos fun other among => ?_]
    · simp
    · refine decide_eq_true fun same => first ?_
      exact same ▸ among
  rw [loop]
  rw [List.append_assoc] at edges
  exact {
    long := by simp
    closed := by rw [List.getLast?_concat, List.cons_append, List.head?_cons]
    distinct := by
      rw [List.dropLast_concat]
      exact (List.nodup_append.mp distinct).2.1
    edges := edges.right_of_append }

theorem sweep_finds {visit : String → List String → Except (List String) (List String)}
    {nodes visited : List String}
    (closes : ∀ next ∈ nodes, next ∈ path → g.IsCycle (path.dropWhile (· ≠ next) ++ [next]))
    (each : ∀ next ∈ nodes, next ∉ path → ∀ visited,
      visit next visited = .error cycle → g.IsCycle cycle)
    (found : sweep visit path nodes visited = .error cycle) : g.IsCycle cycle := by
  induction nodes generalizing visited with
  | nil => cases found
  | cons next rest ih =>
      have others : ∀ visited, sweep visit path rest visited = .error cycle → g.IsCycle cycle :=
        fun _ => ih (fun other later => closes other (List.mem_cons_of_mem _ later))
          (fun other later => each other (List.mem_cons_of_mem _ later))
      rw [sweep] at found
      split at found
      · rename_i on
        cases found
        exact closes next List.mem_cons_self on
      rename_i off
      split at found
      · exact others visited found
      · rcases visits : visit next visited with loop | between
        · rw [visits] at found
          cases found
          exact each next List.mem_cons_self off visited visits
        · rw [visits] at found
          exact others between found

/-- The path goes along edges and comes by no node twice, also one visit further. -/
theorem visit_finds (depth : Nat) {visited : List String} (distinct : (path ++ [node]).Nodup)
    (edges : (path ++ [node]).IsChain g.Edge)
    (found : visit g depth path node visited = .error cycle) : g.IsCycle cycle := by
  induction depth generalizing path node visited with
  | zero => cases found
  | succ depth ih =>
      have further : ∀ next ∈ g.dependents node, (path ++ [node] ++ [next]).IsChain g.Edge := by
        intro next depends
        refine edges.append (.singleton next) fun last isLast first isFirst => ?_
        rw [List.getLast?_concat] at isLast
        cases isLast
        cases isFirst
        exact edge_of_mem_dependents depends
      refine sweep_finds (fun next depends => isCycle_of_mem_path distinct (further next depends))
        (fun next depends off visited => ih ?_ (further next depends)) found
      refine List.nodup_append.mpr ⟨distinct, by simp, fun other on last isLast same => ?_⟩
      exact off (List.mem_singleton.mp isLast ▸ same ▸ on)

theorem isCycle_of_findCycle (found : g.findCycle = some cycle) : g.IsCycle cycle := by
  rw [findCycle] at found
  split at found
  · cases found
  · rename_i loop swept
    cases found
    exact sweep_finds (fun _ _ on => absurd on List.not_mem_nil)
      (fun next _ _ visited => visit_finds _ (by simp) (by simp)) swept

/-- The search says that there is no cycle exactly when there is none, and what it finds
is a cycle.  Dependents may be listed repeatedly, and need not be nodes themselves. -/
theorem findCycle_exact (distinct : (g.map (·.1)).Nodup) :
    (g.findCycle = none ↔ ¬ g.HasCycle) ∧ ∀ cycle, g.findCycle = some cycle → g.IsCycle cycle := by
  refine ⟨⟨?_, fun acyclic => ?_⟩, fun cycle found => isCycle_of_findCycle found⟩
  · rintro none ⟨node, back⟩
    have backwards : Relation.TransGen (fun next node => next ∈ g.dependents node) node node :=
      Relation.transGen_swap.mp
        (Relation.TransGen.mono (fun _ _ edge => mem_dependents_of_edge distinct edge) _ _ back)
    exact acyclic_of_findCycle none node backwards
  · rcases found : g.findCycle with _ | cycle
    · rfl
    · exact absurd (isCycle_of_findCycle found).hasCycle acyclic

end Graph

namespace Sample

/-- A loop that is not entered where it is first listed, with a dependent listed twice and
one that is no node. -/
def roundabout : Graph :=
  [("a", ["b", "b"]), ("b", ["x", "c"]), ("c", ["d"]), ("d", ["b", "a"])]

end Sample

open Sample in
/-- The loop is found without the way to it. -/
theorem Graph.findCycle_exact_roundabout :
    (roundabout.map (·.1)).Nodup ∧ roundabout.findCycle = some ["b", "c", "d", "b"] ∧
      roundabout.HasCycle ∧ roundabout.IsCycle ["b", "c", "d", "b"] := by
  have distinct : (roundabout.map (·.1)).Nodup := by decide
  have found : roundabout.findCycle = some ["b", "c", "d", "b"] := by decide
  obtain ⟨exactly, genuine⟩ := Graph.findCycle_exact distinct
  refine ⟨distinct, found, ?_, genuine _ found⟩
  by_contra acyclic
  rw [exactly.mpr acyclic] at found
  cases found

end LiveBinding
