/-
# LiveBinding.Number.Basic -- the numbers of data, and their text

A number is a whole number or a double.  The two never mix: `1` and `1.0` are
different numbers, while `0.0` and `-0.0` are the same one (`Number.same`).

Text of a double: its shortest digits, written positionally from `1e-5` up to
below `1e16`, always with a point or an exponent, the sign of the exponent
always shown and its digits never padded.
-/
import LiveBinding.Number.Shortest

namespace LiveBinding

set_option autoImplicit false

open Number (Double Decimal)

/-- A whole number or a double. -/
inductive Number where
  | int (value : Int)
  | float (value : Double)
  deriving DecidableEq

namespace Number

/-- Equal as data. -/
def same : Number → Number → Bool
  | .int a, .int b => a = b
  | .float a, .float b => a.same b
  | _, _ => false

def isZero : Number → Bool
  | .int a => a = 0
  | .float a => a.isZero

/-- How decimals are laid out. -/
structure Layout where
  /-- The point may stand this far left of the first digit. -/
  leadingZeros : Int
  /-- At most this many digits stand before the point. -/
  wholeDigits : Int

/-- Doubles are positional from `0.00001` up to sixteen whole digits. -/
def layout : Layout := ⟨5, 16⟩

def zeros (count : Int) : List Char :=
  List.replicate count.toNat '0'

/-- The text of a positive decimal. -/
def decimalText (d : Decimal) : List Char :=
  let digits := Nat.toDigits 10 d.digits
  let count : Int := digits.length
  let point := count + d.power
  if 0 ≤ d.power ∧ point ≤ layout.wholeDigits then digits ++ zeros d.power ++ ['.', '0']
  else if 0 < point ∧ point ≤ layout.wholeDigits then
    digits.take point.toNat ++ '.' :: digits.drop point.toNat
  else if -layout.leadingZeros < point ∧ point ≤ 0 then '0' :: '.' :: zeros (-point) ++ digits
  else
    let exponent := point - 1
    let mantissa :=
      match digits with
      | first :: [] => [first]
      | first :: rest => first :: '.' :: rest
      | [] => []
    let sign := if exponent < 0 then '-' else '+'
    mantissa ++ 'e' :: sign :: Nat.toDigits 10 exponent.natAbs

def doubleText (x : Double) : List Char :=
  let magnitude := if x.isZero then ['0', '.', '0'] else decimalText x.shortest
  if x.negative then '-' :: magnitude else magnitude

def intText (n : Int) : List Char :=
  if n < 0 then '-' :: Nat.toDigits 10 n.natAbs else Nat.toDigits 10 n.natAbs

def text : Number → String
  | .int n => String.ofList (intText n)
  | .float x => String.ofList (doubleText x)

theorem same_refl (n : Number) : same n n = true := by
  cases n <;> simp [same, Double.same_refl]

end Number

end LiveBinding
