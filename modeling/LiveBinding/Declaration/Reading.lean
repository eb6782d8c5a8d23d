/-
# LiveBinding.Declaration.Reading -- declarations from tokens

The tokens are taken one at a time, with a stack of what is still open.  A
state says what may come next; a token that may not come next is the fault,
and it stands at that token.  The end of the text is a fault at its length
unless the outermost list of pairs may end there.

The stack lists the expressions that are waited for, innermost first: the
operand of a negation, the inside of parentheses, the right-hand side of a
pair.  An empty stack means the outermost list of pairs; an object always
stands as the right-hand side of some pair, so its stack is not empty.
-/
import LiveBinding.Declaration.Basic
import LiveBinding.Declaration.Token

namespace LiveBinding.Declaration

set_option autoImplicit false

/-- What an expression is waited for by. -/
inductive Frame where
  | negation
  | parenthesis
  | pair (before : List Pair) (key : String) (offset : Nat)

/-- What may come next. -/
inductive State where
  /-- A key, or the end of the list of pairs. -/
  | key (pairs : List Pair) (stack : List Frame)
  /-- The colon after a key. -/
  | colon (pairs : List Pair) (key : String) (offset : Nat) (stack : List Frame)
  /-- An expression. -/
  | expression (stack : List Frame)
  /-- The parenthesis that closes an expression. -/
  | closing (inner : Expr) (stack : List Frame)
  /-- A comma, or the end of the list of pairs. -/
  | separator (pairs : List Pair) (stack : List Frame)

/-- Hand a finished expression to what waited for it. -/
def deliver (e : Expr) : List Frame → State
  | [] => .separator [] []
  | .negation :: stack => deliver (.negation e) stack
  | .parenthesis :: stack => .closing e stack
  | .pair before key offset :: stack => .separator (Pair.merge key offset e before) stack

/-- The object that a list of pairs writes. -/
def objectOf (pairs : List Pair) : Expr :=
  .object (pairs.map fun pair => (pair.key, pair.expr))

/-- Take one token. -/
def step (state : State) (placed : Placed) : Except Misplaced State :=
  match state with
  | .key pairs stack =>
      match placed.token with
      | .name key => .ok (.colon pairs key placed.offset stack)
      | .text key => .ok (.colon pairs key placed.offset stack)
      | .closeBrace =>
          if stack.isEmpty then .error ⟨.expectedKey (some .closeBrace), placed.offset⟩
          else .ok (deliver (objectOf pairs) stack)
      | token => .error ⟨.expectedKey (some token), placed.offset⟩
  | .colon pairs key offset stack =>
      match placed.token with
      | .colon => .ok (.expression (.pair pairs key offset :: stack))
      | token => .error ⟨.expectedColon (some token), placed.offset⟩
  | .expression stack =>
      match placed.token with
      | .bang => .ok (.expression (.negation :: stack))
      | .openParen => .ok (.expression (.parenthesis :: stack))
      | .openBrace => .ok (.key [] stack)
      | .name name => .ok (deliver (.ofName name placed.offset) stack)
      | .text value => .ok (deliver (.literal (.text value)) stack)
      | .number value => .ok (deliver (.literal (.number value)) stack)
      | token => .error ⟨.expectedExpression (some token), placed.offset⟩
  | .closing inner stack =>
      match placed.token with
      | .closeParen => .ok (deliver inner stack)
      | token => .error ⟨.expectedParen (some token), placed.offset⟩
  | .separator pairs stack =>
      match placed.token with
      | .comma => .ok (.key pairs stack)
      | .closeBrace =>
          if stack.isEmpty then .error ⟨.expectedCommaOrEnd (some .closeBrace), placed.offset⟩
          else .ok (deliver (objectOf pairs) stack)
      | token =>
          if stack.isEmpty then .error ⟨.expectedCommaOrEnd (some token), placed.offset⟩
          else .error ⟨.expectedCommaOrBrace (some token), placed.offset⟩

/-- Come to the end of the text, which is `length` bytes long. -/
def finish (length : Nat) (state : State) : Except Misplaced (List Pair) :=
  match state with
  | .key pairs [] => .ok pairs
  | .key _ _ => .error ⟨.expectedKey none, length⟩
  | .colon _ _ _ _ => .error ⟨.expectedColon none, length⟩
  | .expression _ => .error ⟨.expectedExpression none, length⟩
  | .closing _ _ => .error ⟨.expectedParen none, length⟩
  | .separator pairs [] => .ok pairs
  | .separator _ _ => .error ⟨.expectedCommaOrBrace none, length⟩

def run (length : Nat) (state : State) : List Placed → Except Misplaced (List Pair)
  | [] => finish length state
  | placed :: rest => do run length (← step state placed) rest

def readPairs (text : String) : Except Misplaced (List Pair) := do
  run text.utf8ByteSize (.key [] []) (← tokens text)

def read (selector text : String) : Except DeclarationError Declaration :=
  match readPairs text with
  | .ok pairs => .ok ⟨selector, text, pairs⟩
  | .error e => .error ⟨selector, e.offset, e.fault⟩

end LiveBinding.Declaration
