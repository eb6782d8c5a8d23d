/-
# LiveBinding.Number.Reading -- numbers in JSON text

A whole number from `-2 ^ 63` to `2 ^ 64 - 1` is read as it stands; `-0` and any
other number is read as a double.

The double of a decimal is found in two roundings: its leading digits, as far
as they fit into 64 bits, are rounded to a double, which is then multiplied or
divided by the double nearest to the power of ten.  A whole digit that does not
fit only moves the point; a fraction digit that does not fit is dropped.
-/
import LiveBinding.Number.Basic

namespace LiveBinding.Number

set_option autoImplicit false

/-- The greatest number of 64 bits. -/
def wordLimit : Nat := Nat.pow 2 64 - 1

def digitValue (c : Char) : Nat :=
  c.toNat - '0'.toNat

/-- The leading digits of a decimal and the power of ten they are worth. -/
structure Leading where
  significand : Nat
  power : Int

/-- Take in one digit before the point. -/
def Leading.whole (l : Leading) (digit : Nat) : Leading :=
  if l.power = 0 ∧ l.significand * 10 + digit ≤ wordLimit then
    { l with significand := l.significand * 10 + digit }
  else { l with power := l.power + 1 }

/-- Take in the digits after the point, up to the first that does not fit. -/
def Leading.fraction (l : Leading) : List Nat → Leading
  | [] => l
  | digit :: rest =>
      if l.significand * 10 + digit ≤ wordLimit then
        Leading.fraction ⟨l.significand * 10 + digit, l.power - 1⟩ rest
      else l

/-- The double nearest to a power of ten. -/
def powerOfTen? (power : Nat) : Option Double :=
  Double.ofDecimal? false 1 power

/-- `x * 10 ^ power`, rounded once for each step of at most `10 ^ 308`.  Two
steps down reach zero from anywhere. -/
def scale? (x : Double) (power : Int) : Nat → Option Double
  | 0 => some (Double.zero x.negative)
  | steps + 1 =>
      if x.isZero then some x
      else if 308 < power then none
      else if 0 ≤ power then do x.mul? (← powerOfTen? power.toNat)
      else if -308 ≤ power then do x.div? (← powerOfTen? (-power).toNat)
      else do scale? (← x.div? (← powerOfTen? 308)) (power + 308) steps

/-- The double of the leading digits times a power of ten. -/
def Leading.double? (l : Leading) (negative : Bool) : Option Double := do
  let magnitude ← scale? (← Double.ofDecimal? false l.significand 0) l.power 3
  some (if negative then magnitude.negate else magnitude)

def spanDigits (cs : List Char) : List Char × List Char :=
  (cs.takeWhile Char.isDigit, cs.dropWhile Char.isDigit)

/-- The power of ten after the letter of an exponent, and the rest. -/
def readExponent? (cs : List Char) : Option (Int × List Char) :=
  let signed : Bool × List Char :=
    match cs with
    | '+' :: rest => (false, rest)
    | '-' :: rest => (true, rest)
    | _ => (false, cs)
  let digits := spanDigits signed.2
  if digits.1.isEmpty then none
  else
    let size : Int := (digits.1.foldl (fun n c => n * 10 + digitValue c) 0 : Nat)
    some (if signed.1 then -size else size, digits.2)

/-- The digits before the point, of which the first is no zero unless it is
the only one, and the rest. -/
def readWhole? (cs : List Char) : Option (Leading × List Char) :=
  let digits := spanDigits cs
  if digits.1.isEmpty || (1 < digits.1.length && digits.1.head? = some '0') then none
  else
    let start : Leading := ⟨0, 0⟩
    some (digits.1.foldl (fun l c => l.whole (digitValue c)) start, digits.2)

/-- The point and the digits after it, if there is a point: what is read so
far, whether there was a point, and the rest. -/
def readPlaces? (l : Leading) (cs : List Char) : Option (Leading × Bool × List Char) :=
  match cs with
  | '.' :: rest =>
      let places := spanDigits rest
      if places.1.isEmpty then none
      else some (l.fraction (places.1.map digitValue), true, places.2)
  | rest => some (l, false, rest)

/-- A number without point and exponent.  It is whole when all its digits fit;
the least negative whole number is `-2 ^ 63`, and `-0` is none. -/
def Leading.plain? (l : Leading) (negative : Bool) : Option Number :=
  if l.power = 0 ∧ negative = false then some (.int l.significand)
  else if l.power = 0 ∧ 0 < l.significand ∧ l.significand ≤ Nat.pow 2 63 then
    some (.int (-(l.significand : Int)))
  else (l.double? negative).map .float

/-- The number without its sign that stands at the front, and the rest. -/
def readMagnitude? (negative : Bool) (cs : List Char) : Option (Number × List Char) := do
  let whole ← readWhole? cs
  let places ← readPlaces? whole.1 whole.2
  let leading := places.1
  match places.2.2 with
  | 'e' :: rest | 'E' :: rest =>
      let exponent ← readExponent? rest
      let scaled : Leading := { leading with power := leading.power + exponent.1 }
      let value ← scaled.double? negative
      some (.float value, exponent.2)
  | rest =>
      if places.2.1 then
        let value ← leading.double? negative
        some (.float value, rest)
      else
        let value ← leading.plain? negative
        some (value, rest)

/-- The number that stands at the front of a JSON text, and the rest. -/
def read? : List Char → Option (Number × List Char)
  | '-' :: rest => readMagnitude? true rest
  | cs => readMagnitude? false cs

end LiveBinding.Number
