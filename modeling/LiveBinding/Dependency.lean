/-
# LiveBinding.Dependency -- what a value was read from

Reading an attribute depends on the event that announces its change, on the hub
of the model it was read from.  A collector gathers dependencies in the order
in which they are first met, each once; equal names on different hubs are
different dependencies.
-/
import LiveBinding.Hub

namespace LiveBinding

set_option autoImplicit false

structure Dependency where
  hub : Ref .hub
  event : String
  deriving DecidableEq

def Dependency.ofRead (hub : Ref .hub) (name : String) : Dependency :=
  ⟨hub, changeOf name⟩

/-- The dependencies met so far. -/
abbrev Collector := List Dependency

namespace Collector

def empty : Collector := []

/-- Add a dependency unless it is there. -/
def record (d : Dependency) (c : Collector) : Collector :=
  if d ∈ c then c else c ++ [d]

def recordAll (ds : List Dependency) (c : Collector) : Collector :=
  ds.foldl (fun c d => record d c) c

def events (c : Collector) : List String :=
  c.map (·.event)

end Collector

end LiveBinding
