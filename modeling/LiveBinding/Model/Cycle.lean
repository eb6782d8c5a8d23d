/-
# LiveBinding.Model.Cycle -- cycles among computed properties

A graph lists each node with the nodes that depend on it.  The search goes
depth first, in the order of the lists, and keeps the path from where it
started: a dependent that stands on the path closes a cycle, which is the path
from it on, with itself once more at the end.  A node is left only once.

The depth of the search is bounded by the number of nodes listed, and one more
for a dependent that is not listed.
-/
import LiveBinding.Fields

namespace LiveBinding

set_option autoImplicit false

/-- Nodes, each with the nodes that depend on it. -/
abbrev Graph := List (String × List String)

namespace Graph

/-- The dependents of a node; of a node listed twice, those listed last. -/
def dependents (g : Graph) (node : String) : List String :=
  match g.reverse.find? (·.1 = node) with
  | some entry => entry.2
  | none => []

/-- Go to each of `nodes` that is not visited yet.  `path` is the way here; a
node on it closes a cycle, which is the error. -/
def sweep (visit : String → List String → Except (List String) (List String))
    (path : List String) : List String → List String → Except (List String) (List String)
  | [], visited => .ok visited
  | node :: rest, visited =>
      if node ∈ path then .error (path.dropWhile (· ≠ node) ++ [node])
      else if node ∈ visited then sweep visit path rest visited
      else do sweep visit path rest (← visit node visited)

/-- Visit a node and everything that can be reached from it: the nodes visited
then, or the cycle found. -/
def visit (g : Graph) : Nat → List String → String → List String →
    Except (List String) (List String)
  | 0, _, node, visited => .ok (node :: visited)
  | depth + 1, path, node, visited =>
      sweep (visit g depth (path ++ [node])) (path ++ [node]) (g.dependents node) (node :: visited)

/-- A cycle of the graph, first and last entry being the same node. -/
def findCycle (g : Graph) : Option (List String) :=
  match sweep (visit g (g.length + 1) []) [] (g.map (·.1)) [] with
  | .ok _ => none
  | .error cycle => some cycle

end Graph

end LiveBinding
