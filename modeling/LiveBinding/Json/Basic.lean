/-
# LiveBinding.Json.Basic -- the values that attributes hold

A value is null, a truth value, a number, a text, a list or an object.  The
members of an object keep their order, but the order is no part of equality:
`Json.same` holds of two objects when they have the same names with the same
values.  `null` is also what a missing value reads as.

Two readings of a value are used everywhere:

* `isTruthy`: null, `false`, zero and the empty text are false, all else true;
* `displayText`: null shows as nothing, a text as itself, anything else as its
  JSON text (`LiveBinding.Json.Text`).
-/
import LiveBinding.Fields
import LiveBinding.Number.Basic

namespace LiveBinding

set_option autoImplicit false

/-- A value of an attribute. -/
inductive Json where
  | null
  | bool (value : Bool)
  | number (value : Number)
  | text (value : String)
  | list (items : List Json)
  | object (members : List (String × Json))
  deriving Inhabited

/-- Named values as a model stores them. -/
abbrev Attributes := Fields Json

namespace Json

def int (n : Int) : Json := .number (.int n)

def isNull : Json → Bool
  | .null => true
  | _ => false

/-- Loose truth: null, `false`, zero and the empty text are false. -/
def isTruthy : Json → Bool
  | .null => false
  | .bool b => b
  | .number n => !n.isZero
  | .text s => s ≠ ""
  | .list _ => true
  | .object _ => true

/-- Neither a list nor an object. -/
def isScalar : Json → Bool
  | .list _ => false
  | .object _ => false
  | _ => true

/-- The members of an object; of anything else none. -/
def members : Json → Attributes
  | .object fields => fields
  | _ => []

mutual

/-- Equal as data: members of objects are compared by name. -/
def same : Json → Json → Bool
  | .null, .null => true
  | .bool a, .bool b => a = b
  | .number a, .number b => Number.same a b
  | .text a, .text b => a = b
  | .list as, .list bs => sameItems as bs
  | .object as, .object bs => as.length = bs.length && sameMembers as bs
  | _, _ => false

def sameItems : List Json → List Json → Bool
  | [], [] => true
  | a :: as, b :: bs => same a b && sameItems as bs
  | _, _ => false

/-- Each member on the left is in `others`, with an equal value. -/
def sameMembers : List (String × Json) → List (String × Json) → Bool
  | [], _ => true
  | (name, value) :: rest, others =>
      (match Fields.get? name others with
        | some other => same value other
        | none => false) && sameMembers rest others

end

end Json

end LiveBinding
