import CardText.Decimal.Shortest
import CardText.Json.Value
import CardText.Text.Numeral

/-!
# JSON numbers

How a number is written in JSON and what it stands for.

* `Json.Numeral`: the parts of a written number;
* `Json.Numeral.value?`: its value, which is missing if it is too large;
* `Json.numberText`: how a number is written.

A whole number of 64 bits is exact. Any other number is computed from the digits that fit 64 bits
and a power of ten, in floating-point arithmetic.
-/

namespace CardText

namespace Json

/-- A number as written. -/
structure Numeral where
  negative : Bool := false
  /-- The digits in front of the point. -/
  whole : Text
  /-- The digits behind the point, if there is one. -/
  fraction : Option Text := none
  /-- The exponent, if there is one. -/
  exponent : Option Int := none
  deriving Repr, DecidableEq

namespace Numeral

/-- Significands and whole numbers stay below this, 2 to the power 64. -/
def bound : Nat := 18446744073709551616

/-- Negative whole numbers do not lie below the negative of this, 2 to the power 63. -/
def negativeBound : Nat := 9223372036854775808

/-- Adds digits to a significand as long as it stays below `bound`: the significand, and the digits
left out. -/
def extend (n : Nat) : Text → Nat × Text
  | [] => (n, [])
  | c :: r => if Text.pushDigit n c < bound then extend (Text.pushDigit n c) r else (n, c :: r)

/-- The powers of ten that floating-point numbers reach. -/
def maxPower : Nat := 308

/-- The power of ten as a floating-point number. -/
def power (n : Nat) : Float := Float.ofScientific 1 false n

/-- `x · 10 ^ (-n)`, in steps that each fit. -/
def shrink (x : Float) (n : Nat) : Float :=
  if n ≤ maxPower then x / power n
  else if x == 0 then x
  else shrink (x / power maxPower) (n - maxPower)
termination_by n
decreasing_by
  simp only [maxPower] at *
  omega

/-- The significand times a power of ten; `none` if that is out of range. -/
def scale? (significand : Nat) (exponent : Int) : Option Float :=
  let x := (UInt64.ofNat significand).toFloat
  if exponent < 0 then some (shrink x exponent.natAbs)
  else if exponent.toNat ≤ maxPower then
    let y := x * power exponent.toNat
    if y.isInf then none else some y
  else if x == 0 then some x
  else none

/-- The number with its sign. -/
def signed (negative : Bool) (x : Float) : Float := if negative then -x else x

/-- The value of a number with a point, an exponent or too many digits. Digits of the whole part
that do not fit raise the exponent; those of the fraction do not count. -/
def float? (n : Numeral) : Option Float :=
  let (s, dropped) := extend 0 n.whole
  let fraction := n.fraction.getD []
  let (s, unused) := extend s fraction
  let exponent : Int :=
    dropped.length - (fraction.length - unused.length : Nat) + n.exponent.getD 0
  (scale? s exponent).map (signed n.negative)

/-- The value of a number of 64 bits without a point and an exponent. There is no negative zero
among the whole numbers. -/
def integer? (n : Numeral) : Option Int :=
  if n.fraction.isSome || n.exponent.isSome then none
  else
    let m := Text.digitsValue n.whole
    if n.negative then
      if 0 < m ∧ m ≤ negativeBound then some (-(m : Int)) else none
    else if m < bound then some m
    else none

/-- The value of a number. -/
def value? (n : Numeral) : Option Value :=
  match n.integer? with
  | some z => some (.integer z)
  | none => n.float?.map .float

end Numeral

/-! ### Writing -/

/-- Numbers with a decimal point at most this many places behind the first digit are written out in
full. -/
def widest : Int := 16

/-- Numbers with less than this many zeros behind the point are written out in full. -/
def smallest : Int := 5

/-- A positive decimal: written out between `10 ^ (-smallest)` and `10 ^ widest`, with one digit in
front of the point and an exponent otherwise. -/
def decimalText (d : Decimal) : Text :=
  let ds := Text.ofNat d.digits
  -- the place of the point, counted from the first digit
  let point : Int := ds.length + d.exponent
  if 0 ≤ d.exponent ∧ point ≤ widest then
    ds ++ List.replicate d.exponent.toNat '0' ++ ".0".toList
  else if 0 < point ∧ point ≤ widest then
    ds.take point.toNat ++ '.' :: ds.drop point.toNat
  else if -smallest < point ∧ point ≤ 0 then
    "0.".toList ++ List.replicate (-point).toNat '0' ++ ds
  else
    let exponent := point - 1
    let mantissa := if ds.length = 1 then ds else ds.take 1 ++ '.' :: ds.drop 1
    mantissa ++ 'e' :: (if exponent < 0 then Text.ofInt exponent else '+' :: Text.ofInt exponent)

/-- A finite floating-point number. -/
def floatText (x : Float) : Text :=
  let p := Decimal.partsOfBits x.toBits.toNat
  let t :=
    if p.significand == 0 then "0.0".toList
    else decimalText (Decimal.shortest p.significand p.exponent p.narrow)
  if p.negative then '-' :: t else t

end Json

end CardText
