/-
# LiveBinding.Yaml.Value -- what plain scalars mean

A plain scalar is null, a truth value, a number or a text, by its spelling
alone:

* null: nothing, `~`, `null`, `Null`, `NULL`;
* truth values: `true`, `True`, `TRUE` and the same for `false`;
* whole numbers: decimal without superfluous zeros, or hexadecimal, octal and
  binary after `0x`, `0o`, `0b`, with a sign;
* other numbers: digits with a point or an exponent; infinities and
  not-a-number have spellings too, but no value among numbers, and are null.

Anything else is a text.  A whole number that fits into 128 bits but not into
64 has no value at all; a greater one is read as a double.
-/
import LiveBinding.Json.Reading
import LiveBinding.Number.Nearest

namespace LiveBinding.Yaml

set_option autoImplicit false

def isNullWord (s : String) : Bool :=
  s ∈ ["", "~", "null", "Null", "NULL"]

def flag? (s : String) : Option Bool :=
  if s ∈ ["true", "True", "TRUE"] then some true
  else if s ∈ ["false", "False", "FALSE"] then some false
  else none

def isUnboundedWord (s : String) : Bool :=
  s ∈ [".inf", ".Inf", ".INF", "+.inf", "+.Inf", "+.INF", "-.inf", "-.Inf", "-.INF",
    ".nan", ".NaN", ".NAN"]

/-- The value of a digit below `base`. -/
def digitBelow? (base : Nat) (c : Char) : Option Nat := do
  let value ← Json.hexValue? c
  if value < base then some value else none

/-- The number that digits write; there is at least one digit. -/
def natOf? (base : Nat) (digits : List Char) : Option Nat := do
  let values ← digits.mapM (digitBelow? base)
  if values.isEmpty then none else some (values.foldl (fun n d => n * base + d) 0)

/-- Digits with a zero before them are a text. -/
def isPadded (digits : List Char) : Bool :=
  match digits with
  | '0' :: _ :: _ => digits.all Char.isDigit
  | _ => false

/-- The whole number that is written without its sign. -/
def magnitude? (cs : List Char) : Option Nat :=
  match cs with
  | '0' :: 'x' :: digits => natOf? 16 digits
  | '0' :: 'o' :: digits => natOf? 8 digits
  | '0' :: 'b' :: digits => natOf? 2 digits
  | digits => if isPadded digits then none else natOf? 10 digits

/-- The sign of a number, and what follows it. -/
def splitSign (cs : List Char) : Bool × List Char :=
  match cs with
  | '-' :: rest => (true, rest)
  | '+' :: rest => (false, rest)
  | _ => (false, cs)

def whole? (cs : List Char) : Option Int :=
  let parts := splitSign cs
  (magnitude? parts.2).map fun n => if parts.1 then -(n : Int) else n

def double? (cs : List Char) : Option Number.Double :=
  let parts := splitSign cs
  if isPadded parts.2 then none else Number.nearestMagnitude? parts.1 parts.2

/-- The least and the greatest whole number with a value. -/
def fitsWord (n : Int) : Bool :=
  -(Int.pow 2 63) ≤ n && n < Int.pow 2 64

/-- The whole number is of 128 bits. -/
def fitsLongWord (n : Int) : Bool :=
  -(Int.pow 2 127) ≤ n && n < Int.pow 2 128

/-- The value of a plain scalar that is no number of 64 bits. -/
def valueBeyondWords (s : String) : Json :=
  match double? s.toList with
  | some x => .number (.float x)
  | none => .text s

/-- The value of a plain scalar. -/
def plainValue? (s : String) : Option Json :=
  if isNullWord s || isUnboundedWord s then some .null
  else
    match flag? s, whole? s.toList with
    | some b, _ => some (.bool b)
    | none, some n =>
        if fitsWord n then some (.int n)
        else if fitsLongWord n then none
        else some (valueBeyondWords s)
    | none, none => some (valueBeyondWords s)

end LiveBinding.Yaml
