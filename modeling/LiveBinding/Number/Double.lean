/-
# LiveBinding.Number.Double -- finite binary64 numbers, exactly

A `Double` is `± mantissa * 2 ^ exponent` in the one canonical form of the
binary64 format: the mantissa has 53 bits unless the exponent is the least one.
Zero has both signs; infinities and NaN are no values of the type.

Every operation is exact arithmetic on natural numbers followed by one rounding
to the nearest value, a tie going to the even mantissa (`ofRatio?`).  What is
too large for the format is `none`.
-/
namespace LiveBinding.Number

set_option autoImplicit false

/-- `mantissa` and `exponent` are the one way to write a value of the format. -/
def Canonical (mantissa : Nat) (exponent : Int) : Prop :=
  mantissa < Nat.pow 2 53 ∧ -1074 ≤ exponent ∧ exponent ≤ 971 ∧
    (Nat.pow 2 52 ≤ mantissa ∨ exponent = -1074)

instance (mantissa : Nat) (exponent : Int) : Decidable (Canonical mantissa exponent) :=
  inferInstanceAs (Decidable (_ ∧ _))

/-- A finite binary64 number, `± mantissa * 2 ^ exponent`. -/
structure Double where
  negative : Bool
  mantissa : Nat
  exponent : Int
  canonical : Canonical mantissa exponent
  deriving DecidableEq

namespace Double

/-- Zero of the given sign. -/
def zero (negative : Bool) : Double where
  negative := negative
  mantissa := 0
  exponent := -1074
  canonical := by decide

def isZero (x : Double) : Bool :=
  x.mantissa = 0

/-- Equal as numbers: the two zeros are the same number. -/
def same (x y : Double) : Bool :=
  x = y || (x.isZero && y.isZero)

def negate (x : Double) : Double :=
  { x with negative := !x.negative }

/-- `num / den` rounded to a whole number, a half going to the even one. -/
def roundHalfEven (num den : Nat) : Nat :=
  let floor := num / den
  let rest := 2 * (num % den)
  if rest < den then floor
  else if den < rest then floor + 1
  else if floor % 2 = 0 then floor else floor + 1

/-- The greatest `k` with `2 ^ k ≤ num / den`, for positive `num` and `den`. -/
def binaryOrder (num den : Nat) : Int :=
  let guess : Int := (Nat.log2 num : Int) - (Nat.log2 den : Int)
  let reached :=
    if guess < 0 then den ≤ num * Nat.pow 2 (-guess).toNat else den * Nat.pow 2 guess.toNat ≤ num
  if reached then guess else guess - 1

/-- The value nearest to `± num / den`; `none` when it is too large. -/
def ofRatio? (negative : Bool) (num den : Nat) : Option Double :=
  if num = 0 ∨ den = 0 then some (zero negative)
  else
    let exponent := max (binaryOrder num den - 52) (-1074)
    let rounded :=
      if exponent < 0 then roundHalfEven (num * Nat.pow 2 (-exponent).toNat) den
      else roundHalfEven num (den * Nat.pow 2 exponent.toNat)
    let fitted : Nat × Int :=
      if rounded = Nat.pow 2 53 then (Nat.pow 2 52, exponent + 1) else (rounded, exponent)
    if h : Canonical fitted.1 fitted.2 then some ⟨negative, fitted.1, fitted.2, h⟩ else none

def num (x : Double) : Nat :=
  x.mantissa * Nat.pow 2 x.exponent.toNat

def den (x : Double) : Nat :=
  Nat.pow 2 (-x.exponent).toNat

def mul? (x y : Double) : Option Double :=
  ofRatio? (x.negative != y.negative) (x.num * y.num) (x.den * y.den)

/-- The quotient by a number that is not zero, rounded once. -/
def div? (x y : Double) : Option Double :=
  ofRatio? (x.negative != y.negative) (x.num * y.den) (x.den * y.num)

def decimalLength (n : Nat) : Nat :=
  (Nat.toDigits 10 n).length

/-- The value nearest to `± digits * 10 ^ power`. -/
def ofDecimal? (negative : Bool) (digits : Nat) (power : Int) : Option Double :=
  let order : Int := decimalLength digits + power
  if digits = 0 then some (zero negative)
  else if 310 < order then none
  else if order < -330 then some (zero negative)
  else if power < 0 then ofRatio? negative digits (Nat.pow 10 (-power).toNat)
  else ofRatio? negative (digits * Nat.pow 10 power.toNat) 1

theorem same_refl (x : Double) : same x x = true := by
  simp [same]

end Double

end LiveBinding.Number
