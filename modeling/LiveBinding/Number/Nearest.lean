/-
# LiveBinding.Number.Nearest -- decimals rounded once

A decimal is digits with at most one point among them, at least one digit, and
then perhaps an exponent.  Its double is the nearest one; a decimal beyond the
greatest double is refused.

`ofLiteral?` reads the numbers of declarations: a whole number of 64 bits with
sign as it stands (so `-0` is `0`), anything else as a double.
-/
import LiveBinding.Number.Reading

namespace LiveBinding.Number

set_option autoImplicit false

/-- The number that decimal digits write. -/
def digitsValue (digits : List Char) : Nat :=
  digits.foldl (fun n c => n * 10 + digitValue c) 0

/-- The whole number written by digits after an optional minus sign. -/
def readWhole64? (cs : List Char) : Option Int :=
  let signed : Bool × List Char :=
    match cs with
    | '-' :: rest => (true, rest)
    | _ => (false, cs)
  if signed.2.isEmpty || !signed.2.all Char.isDigit then none
  else
    let size := digitsValue signed.2
    if signed.1 then if size ≤ Nat.pow 2 63 then some (-(size : Int)) else none
    else if size < Nat.pow 2 63 then some size else none

/-- The double nearest to a decimal without sign. -/
def nearestMagnitude? (negative : Bool) (cs : List Char) : Option Double := do
  let whole := spanDigits cs
  let places : List Char × List Char :=
    match whole.2 with
    | '.' :: rest => spanDigits rest
    | rest => ([], rest)
  if whole.1.isEmpty && places.1.isEmpty then none
  else
    let digits := digitsValue (whole.1 ++ places.1)
    let power : Int := -(places.1.length : Int)
    match places.2 with
    | [] => Double.ofDecimal? negative digits power
    | 'e' :: rest | 'E' :: rest =>
        let exponent ← readExponent? rest
        if exponent.2.isEmpty then Double.ofDecimal? negative digits (power + exponent.1)
        else none
    | _ => none

/-- The double nearest to a decimal with an optional sign. -/
def nearest? : List Char → Option Double
  | '-' :: rest => nearestMagnitude? true rest
  | '+' :: rest => nearestMagnitude? false rest
  | cs => nearestMagnitude? false cs

/-- The number a literal of a declaration writes. -/
def ofLiteral? (cs : List Char) : Option Number :=
  match readWhole64? cs with
  | some n => some (.int n)
  | none => (nearest? cs).map .float

end LiveBinding.Number
