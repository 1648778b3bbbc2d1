/-!
# Shortest decimals

A binary floating-point number stands for all reals that round to it. `Decimal.shortest` finds,
among the decimals in that interval, one with the fewest digits, and of those the nearest to the
number itself.

* `Decimal.Interval`: a number as an exact fraction together with its interval;
* `Decimal.gridHit?`: the decimals `d · 10 ^ e` for one `e` that lie in the interval;
* `Decimal.shortest`: the coarsest such grid that has one.
-/

namespace CardText

/-- A decimal number `digits · 10 ^ exponent`. -/
structure Decimal where
  digits : Nat
  exponent : Int
  deriving Repr, DecidableEq

namespace Decimal

/-- A positive number `value / scale` and the interval of the reals that round to it, with its ends
if `closed`. -/
structure Interval where
  low : Nat
  value : Nat
  high : Nat
  scale : Nat
  closed : Bool
  deriving Repr, DecidableEq

namespace Interval

/-- The decimal `d · 10 ^ e` as a fraction with denominator `scale · 10 ^ (-e)`. -/
def gridPoint (i : Interval) (e : Int) (d : Nat) : Nat :=
  d * Nat.pow 10 e.toNat * i.scale

/-- A numerator over `scale` brought to the same denominator as `gridPoint`. -/
def scaled (e : Int) (n : Nat) : Nat := n * Nat.pow 10 (-e).toNat

/-- The decimal `d · 10 ^ e` lies in the interval. -/
def contains (i : Interval) (e : Int) (d : Nat) : Bool :=
  let p := i.gridPoint e d
  let low := scaled e i.low
  let high := scaled e i.high
  if i.closed then low ≤ p && p ≤ high else low < p && p < high

/-- The distance of `d · 10 ^ e` from the number, in units of the common denominator. -/
def distance (i : Interval) (e : Int) (d : Nat) : Nat :=
  let p := i.gridPoint e d
  let v := scaled e i.value
  (p - v) + (v - p)

/-- The point of the grid `10 ^ e` below the number or at it. -/
def below (i : Interval) (e : Int) : Nat :=
  scaled e i.value / (Nat.pow 10 e.toNat * i.scale)

end Interval

/-- The point of the grid `10 ^ e` in the interval that is nearest to the number; of two points as
near as each other, the even one. Only the neighbors of the number can be nearest. -/
def gridHit? (i : Interval) (e : Int) : Option Nat :=
  let d := i.below e
  match i.contains e d && d != 0, i.contains e (d + 1) with
  | false, false => none
  | true, false => some d
  | false, true => some (d + 1)
  | true, true =>
    let down := i.distance e d
    let up := i.distance e (d + 1)
    if down < up then some d
    else if up < down then some (d + 1)
    else if d % 2 == 0 then some d else some (d + 1)

/-- The first hit on the grids `10 ^ e`, `10 ^ (e - 1)`, …, at most `n` of them. -/
def searchGrids (i : Interval) : Nat → Int → Option Decimal
  | 0, _ => none
  | n + 1, e =>
    match gridHit? i e with
    | some d => some ⟨d, e⟩
    | none => searchGrids i n (e - 1)

/-- Moves trailing zeros into the exponent, at most `n` of them. -/
def dropZeros : Nat → Decimal → Decimal
  | 0, d => d
  | n + 1, d =>
    if d.digits != 0 && d.digits % 10 == 0 then dropZeros n ⟨d.digits / 10, d.exponent + 1⟩ else d

/-- The interval of the positive number `m · 2 ^ q`. Below the least number with its exponent the
numbers lie twice as close, where `narrow` says that there are any. -/
def interval (m : Nat) (q : Int) (narrow : Bool) : Interval :=
  -- in quarters of the unit, so that all ends are whole numbers
  let q := q - 2
  let up := Nat.pow 2 q.toNat
  { low := (4 * m - (if narrow then 1 else 2)) * up
    value := 4 * m * up
    high := (4 * m + 2) * up
    scale := Nat.pow 2 (-q).toNat
    closed := m % 2 == 0 }

/-- An exponent of ten that is at most two above that of the number `value / scale`. -/
def startExponent (i : Interval) : Int :=
  let bits : Int := (Nat.log2 i.value : Int) - (Nat.log2 i.scale : Int) + 1
  bits * 30103 / 100000 + 2

/-- The shortest decimal of `m · 2 ^ q`. -/
def shortest (m : Nat) (q : Int) (narrow : Bool) : Decimal :=
  let i := interval m q narrow
  match searchGrids i 25 (startExponent i) with
  | some d => dropZeros 25 d
  | none => ⟨m, 0⟩

/-- The significand, the exponent and the sign of a finite number, and whether the numbers below it
lie closer. -/
structure Parts where
  negative : Bool
  significand : Nat
  exponent : Int
  narrow : Bool
  deriving Repr, DecidableEq

/-- Takes the 64 bits of a number apart: a sign, 11 bits of exponent and 52 of fraction. -/
def partsOfBits (bits : Nat) : Parts :=
  let unit := Nat.pow 2 52
  let fraction : Nat := bits % unit
  let biased : Nat := bits / unit % Nat.pow 2 11
  { negative := bits / Nat.pow 2 63 % 2 == 1
    significand := if biased == 0 then fraction else unit + fraction
    exponent := (if biased == 0 then 1 else Int.ofNat biased) - 1075
    narrow := fraction == 0 && 1 < biased }

end Decimal

end CardText
