/-
# LiveBinding.Binding.Accessor -- compiled right-hand sides

An accessor names an attribute of a model without keeping the model alive: when
the model is gone it reads as null.  A compiled expression is an accessor, an
object of compiled expressions in key order, or a constant.

Reading a compiled expression gives its value; it is dirty when a constant was
met on the way, since a constant can only be found anew by compiling anew.
-/
import LiveBinding.Model.Reading

namespace LiveBinding

set_option autoImplicit false

/-- An attribute of a model. -/
structure Accessor where
  name : String
  model : Ref .model
  deriving DecidableEq

namespace Accessor

def value (sight : Sight) (a : Accessor) : Json :=
  match sight a.model a.name with
  | some seen => seen.value
  | none => .null

/-- What reading the accessor depends on: nothing when the model is gone. -/
def dependency? (sight : Sight) (a : Accessor) : Option Dependency :=
  (sight a.model a.name).map fun seen => .ofRead seen.hub a.name

end Accessor

/-- A compiled expression. -/
inductive Compiled where
  | leaf (accessor : Accessor)
  | composite (entries : List (String × Compiled))
  | constant (value : Json)
  deriving Inhabited

namespace Compiled

mutual

def value (sight : Sight) : Compiled → Json
  | .leaf a => a.value sight
  | .composite entries => .object (entryValues sight entries)
  | .constant v => v

def entryValues (sight : Sight) : List (String × Compiled) → List (String × Json)
  | [] => []
  | (key, nested) :: rest => (key, nested.value sight) :: entryValues sight rest

end

mutual

/-- A constant is met when reading. -/
def isDirty : Compiled → Bool
  | .leaf _ => false
  | .composite entries => anyDirty entries
  | .constant _ => true

def anyDirty : List (String × Compiled) → Bool
  | [] => false
  | (_, nested) :: rest => nested.isDirty || anyDirty rest

end

mutual

def accessors : Compiled → List Accessor
  | .leaf a => [a]
  | .composite entries => entryAccessors entries
  | .constant _ => []

def entryAccessors : List (String × Compiled) → List Accessor
  | [] => []
  | (_, nested) :: rest => nested.accessors ++ entryAccessors rest

end

/-- The accessor of a bare name. -/
def leaf? : Compiled → Option Accessor
  | .leaf a => some a
  | _ => none

def isLeaf (c : Compiled) : Bool :=
  c.leaf?.isSome

end Compiled

/-- The names visible to a declaration. -/
abbrev Environment := Index Accessor

namespace Environment

def ofNames (model : Ref .model) (names : List String) : Environment :=
  Index.ofEntries (names.map fun name => (name, ⟨name, model⟩))

def add (a : Accessor) (env : Environment) : Environment :=
  Index.place a.name a env

end Environment

end LiveBinding
