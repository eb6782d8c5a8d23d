/-
# LiveBinding.Binding.Basic -- one element wired to models

A declaration is resolved before its element is touched: every operator is
looked up in the catalog, then every name in the environment.  An attached
binding holds one slot for each operator, with the compiled expression it reads
at present and the events it is applied anew on.

A slot is dirty when the first reading of its expression met a constant; a
dirty slot compiles its expression anew each time it is applied.
-/
import LiveBinding.Binding.Compile
import LiveBinding.Binding.Operator
import LiveBinding.Error

namespace LiveBinding

set_option autoImplicit false

/-- A declaration whose operators and names are all known. -/
structure Resolved where
  declaration : Declaration
  operators : List (String × Operator)

namespace Resolved

/-- Look up operators by name, from the first to the last. -/
def lookup (selector : String) (catalog : Catalog) :
    List String → Except Error (List (String × Operator))
  | [] => .ok []
  | name :: rest =>
      match Index.get? name catalog with
      | some operator => do
          let others ← lookup selector catalog rest
          .ok ((name, operator) :: others)
      | none => .error (.unknownOperator selector name)

end Resolved

/-- Check every operator, then every name, of a declaration. -/
def Declaration.resolve (d : Declaration) (catalog : Catalog) (env : Environment) :
    Except Error Resolved := do
  let operators ← Resolved.lookup d.selector catalog d.operators
  match d.checkNames env with
  | .ok _ => .ok ⟨d, operators⟩
  | .error e => .error (.declaration e)

/-- An operator at work on an element. -/
structure Slot where
  name : String
  operator : Operator
  compiled : Compiled
  dirty : Bool
  /-- The events on which the operator is applied anew. -/
  events : List String
  recompilations : Nat

/-- An element wired to models through its declaration. -/
structure Binding where
  document : Ref .document
  element : Ref .element
  declaration : Declaration
  env : Environment
  slots : List Slot
  subscriptions : List Subscription
  listeners : List Nat
  disposed : Bool

namespace Binding

/-- Nothing applied yet. -/
def start (document : Ref .document) (element : Ref .element) (declaration : Declaration)
    (env : Environment) : Binding :=
  ⟨document, element, declaration, env, [], [], [], false⟩

def selector (b : Binding) : String :=
  b.declaration.selector

def isDirty (b : Binding) : Bool :=
  b.slots.any (·.dirty)

inductive Standing where
  | compiled (dirty : Bool)
  | disposed
  deriving DecidableEq

def standing (b : Binding) : Standing :=
  if b.disposed then .disposed else .compiled b.isDirty

def modifySlot (index : Nat) (f : Slot → Slot) (b : Binding) : Binding :=
  { b with slots := b.slots.modify index f }

end Binding

end LiveBinding
