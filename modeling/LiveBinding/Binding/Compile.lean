/-
# LiveBinding.Binding.Compile -- from expressions to accessors

| Expression        | Compiles to                                  |
|-------------------|----------------------------------------------|
| name              | its accessor in the environment              |
| literal           | a constant                                   |
| object            | a composite, the last entry of each key      |
| negation          | the constant of the negated value            |

A negation is read while it is compiled, so what it reads are dependencies of
the compilation itself.  `Compilation` keeps them, in the order of the reads.
-/
import LiveBinding.Binding.Accessor
import LiveBinding.Declaration.Basic
import LiveBinding.Declaration.Fault

namespace LiveBinding

set_option autoImplicit false

/-- A compiled expression with the accessors that were read to compile it. -/
structure Compilation where
  compiled : Compiled
  accessors : List Accessor

namespace Expr

def undefined (selector name : String) (offset : Nat) : DeclarationError :=
  ⟨selector, offset, .undefinedName name⟩

mutual

/-- Compile an expression written for `selector`. -/
def compile (selector : String) (env : Environment) (sight : Sight) :
    Expr → Except DeclarationError Compilation
  | .name word offset =>
      match Index.get? word env with
      | some accessor => .ok ⟨.leaf accessor, []⟩
      | none => .error (undefined selector word offset)
  | .literal value => .ok ⟨.constant value, []⟩
  | .object entries => do
      let result ← compileEntries selector env sight entries
      .ok ⟨.composite (Index.ofEntries result.1), result.2⟩
  | .negation operand => do
      let result ← operand.compile selector env sight
      .ok ⟨.constant (.bool (!(result.compiled.value sight).isTruthy)),
        result.accessors ++ result.compiled.accessors⟩

/-- Compile the entries of an object, from the first to the last. -/
def compileEntries (selector : String) (env : Environment) (sight : Sight) :
    List (String × Expr) → Except DeclarationError (List (String × Compiled) × List Accessor)
  | [] => .ok ([], [])
  | (key, value) :: rest => do
      let first ← value.compile selector env sight
      let others ← compileEntries selector env sight rest
      .ok ((key, first.compiled) :: others.1, first.accessors ++ others.2)

end

end Expr

namespace Declaration

def firstUndefined? (env : Environment) : List (String × Nat) → Option (String × Nat)
  | [] => none
  | (name, offset) :: rest =>
      if Index.contains name env then firstUndefined? env rest else some (name, offset)

/-- Refuse a declaration that uses a name the environment does not define. -/
def checkNames (d : Declaration) (env : Environment) : Except DeclarationError Unit :=
  match firstUndefined? env d.names with
  | none => .ok ()
  | some (name, offset) => .error (Expr.undefined d.selector name offset)

/-- Compile the expression of an operator. -/
def compileOperator (d : Declaration) (operator : String) (env : Environment) (sight : Sight) :
    Except DeclarationError Compilation :=
  match d.pair? operator with
  | some pair => pair.expr.compile d.selector env sight
  | none => .error ⟨d.selector, 0, .unboundOperator operator⟩

/-- Compile the expressions of some pairs, from the first to the last. -/
def compilePairs (selector : String) (env : Environment) (sight : Sight) :
    List Pair → Except DeclarationError (List (String × Compiled))
  | [] => .ok []
  | pair :: rest => do
      let first ← pair.expr.compile selector env sight
      let others ← compilePairs selector env sight rest
      .ok ((pair.key, first.compiled) :: others)

def compileAll (d : Declaration) (env : Environment) (sight : Sight) :
    Except DeclarationError (List (String × Compiled)) :=
  compilePairs d.selector env sight d.pairs

end Declaration

/-- The dependencies of reading some accessors, each once. -/
def Collector.ofAccessors (sight : Sight) (accessors : List Accessor) : Collector :=
  Collector.recordAll (accessors.filterMap (Accessor.dependency? sight)) .empty

/-- What compiling and then reading depends on. -/
def Compilation.dependencies (sight : Sight) (c : Compilation) : Collector :=
  Collector.ofAccessors sight (c.accessors ++ c.compiled.accessors)

end LiveBinding
