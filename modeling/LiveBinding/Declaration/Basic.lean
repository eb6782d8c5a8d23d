/-
# LiveBinding.Declaration.Basic -- what an element's binding declaration says

A declaration lists pairs of an operator and an expression, such as

    text: fullName, className: \x7b active: isActive, 'is-empty': !items \x7d

An expression names an attribute, is a literal, an object of expressions, or a
negation.  Names keep the byte offset where they stand, so that a name nobody
defines can be pointed at.

The grammar, over the tokens of `LiveBinding.Declaration.Token`:

    declaration := ( pair ( ',' pair )* ','? )?
    pair        := key ':' expression
    key         := name | text
    expression  := '!' expression | primary
    primary     := name | text | number
                 | '\x7b' ( pair ( ',' pair )* ','? )? '\x7d'
                 | '(' expression ')'

`true`, `false` and `null` are literals where an expression stands and plain
names where a key stands.
-/
import LiveBinding.Json.Basic

namespace LiveBinding

set_option autoImplicit false

/-- The right-hand side of a pair. -/
inductive Expr where
  | name (name : String) (offset : Nat)
  | literal (value : Json)
  | object (entries : List (String × Expr))
  | negation (operand : Expr)
  deriving Inhabited

namespace Expr

mutual

/-- The names in an expression, depth first, with their offsets. -/
def names : Expr → List (String × Nat)
  | .name word offset => [(word, offset)]
  | .literal _ => []
  | .object entries => entryNames entries
  | .negation operand => operand.names

def entryNames : List (String × Expr) → List (String × Nat)
  | [] => []
  | (_, value) :: rest => value.names ++ entryNames rest

end

/-- The expression that a bare name writes. -/
def ofName (word : String) (offset : Nat) : Expr :=
  if word = "true" then .literal (.bool true)
  else if word = "false" then .literal (.bool false)
  else if word = "null" then .literal .null
  else .name word offset

end Expr

/-- A key with its expression; the offset is where the key stands. -/
structure Pair where
  key : String
  offset : Nat
  expr : Expr
  deriving Inhabited

namespace Pair

/-- Add a pair to a list of pairs.  A key already there keeps its place and
its offset and takes the new expression. -/
def merge (key : String) (offset : Nat) (expr : Expr) : List Pair → List Pair
  | [] => [⟨key, offset, expr⟩]
  | pair :: rest =>
      if pair.key = key then { pair with expr := expr } :: rest
      else pair :: merge key offset expr rest

end Pair

/-- The declaration written for one selector. -/
structure Declaration where
  selector : String
  source : String
  pairs : List Pair
  deriving Inhabited

namespace Declaration

def operators (d : Declaration) : List String :=
  d.pairs.map (·.key)

def pair? (d : Declaration) (operator : String) : Option Pair :=
  d.pairs.find? (·.key = operator)

/-- The names used anywhere in the declaration, in order. -/
def names (d : Declaration) : List (String × Nat) :=
  d.pairs.flatMap (·.expr.names)

end Declaration

end LiveBinding
