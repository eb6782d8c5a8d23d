/-
# LiveBinding.Number.Shortest -- the fewest digits that read back

The reals that round to a positive double form an interval around it.  Its
shortest decimal is found grid by grid: with one digit, then two, and so on,
the two neighbours of the value on that decimal grid are tried, and the first
grid with a neighbour inside the interval gives the digits.  Of two neighbours
inside, the nearer is taken, and of two equally near the even one.

Seventeen digits always suffice.
-/
import LiveBinding.Number.Double

namespace LiveBinding.Number

set_option autoImplicit false

/-- A decimal `digits * 10 ^ power`. -/
structure Decimal where
  digits : Nat
  power : Int
  deriving DecidableEq

/-- The same decimal without the zeros at the end of its digits, of which at
most `fuel` are dropped. -/
def Decimal.stripZeros : Nat → Decimal → Decimal
  | 0, d => d
  | fuel + 1, d =>
      if d.digits ≠ 0 ∧ d.digits % 10 = 0 then stripZeros fuel ⟨d.digits / 10, d.power + 1⟩ else d

namespace Double

/-- The greatest `k` with `10 ^ k ≤ num / den`, for positive `num` and `den`. -/
def decimalOrder (num den : Nat) : Int :=
  if den ≤ num then (decimalLength (num / den) : Int) - 1
  else -(decimalLength ((den + num - 1) / num - 1) : Int)

/-- The reals that round to one double, and the double itself, as multiples of
one unit `1 / den`.  The ends belong to the interval when `closed` holds. -/
structure Interval where
  low : Nat
  value : Nat
  high : Nat
  den : Nat
  closed : Bool

/-- The interval of a positive double.  Below a power of two the neighbour is
half as far as above it. -/
def interval (x : Double) : Interval :=
  let scale := Nat.pow 2 (x.exponent - 2).toNat
  let narrow := x.mantissa = Nat.pow 2 52 ∧ -1074 < x.exponent
  { low := (4 * x.mantissa - if narrow then 1 else 2) * scale
    value := 4 * x.mantissa * scale
    high := (4 * x.mantissa + 2) * scale
    den := Nat.pow 2 (2 - x.exponent).toNat
    closed := x.mantissa % 2 = 0 }

/-- The multiple of `10 ^ power` inside the interval that is nearest to its
value, if one of the value's two neighbours is inside. -/
def Interval.nearest? (i : Interval) (power : Int) : Option Nat :=
  let grid := Nat.pow 10 power.toNat * i.den
  let fine := Nat.pow 10 (-power).toNat
  let value := i.value * fine
  let below := value / grid
  let above := below + 1
  let inside (n : Nat) : Bool :=
    if i.closed then i.low * fine ≤ n * grid && n * grid ≤ i.high * fine
    else i.low * fine < n * grid && n * grid < i.high * fine
  match inside below, inside above with
  | true, true =>
      let left := value - below * grid
      let right := above * grid - value
      if left < right then some below
      else if right < left then some above
      else if below % 2 = 0 then some below else some above
  | true, false => some below
  | false, true => some above
  | false, false => none

/-- Try grids of more and more digits, `tries` of them. -/
def Interval.search (i : Interval) : Nat → Int → Decimal
  | 0, power => ⟨i.value * Nat.pow 10 (-power).toNat / (Nat.pow 10 power.toNat * i.den), power⟩
  | tries + 1, power =>
      match i.nearest? power with
      | some digits => ⟨digits, power⟩
      | none => i.search tries (power - 1)

/-- The shortest decimal that rounds to the magnitude of `x`. -/
def shortest (x : Double) : Decimal :=
  if x.mantissa = 0 then ⟨0, 0⟩
  else ((x.interval).search 17 (decimalOrder x.num x.den)).stripZeros 17

end Double

end LiveBinding.Number
