import CardText.Text.Basic

/-!
# Numerals

How rules text writes numbers.

* `Text.digits?`: a run of plain digits;
* `Text.natural?`, `Text.integer?`: numerals that fit 32 bits, with an optional sign in front;
* `Text.count?`: a number word ("a", "two") or a numeral;
* `Text.signed?`: a signed numeral such as "+2".

A numeral out of range is no number at all: it is never cut down to one that fits.
-/

namespace CardText

namespace Text

/-- The number that a digit adds to the number of the digits before it. -/
def pushDigit (n : Nat) (c : Char) : Nat := 10 * n + (c.toNat - '0'.toNat)

/-- The number that digits stand for. -/
def digitsValue (t : Text) : Nat := t.foldl pushDigit 0

/-- The number written by one or more digits 0 to 9 and nothing else. -/
def digits? (t : Text) : Option Nat :=
  if !t.isEmpty && t.all Char.isDigit then some (digitsValue t) else none

/-- Counts stay below this, 2 to the power 32. -/
def naturalBound : Nat := 4294967296

/-- Signed numbers lie below this, 2 to the power 31, and not below its negative. -/
def integerBound : Int := 2147483648

/-- A count: digits after at most one `+`, below `naturalBound`. -/
def natural? (t : Text) : Option Nat :=
  match t with
  | '+' :: r => (digits? r).filter (· < naturalBound)
  | t => (digits? t).filter (· < naturalBound)

/-- A signed number: digits after at most one sign, in the range of `integerBound`. -/
def integer? (t : Text) : Option Int :=
  match t with
  | '-' :: r => ((digits? r).map fun n => -(n : Int)).filter (-integerBound ≤ ·)
  | '+' :: r => ((digits? r).map fun n => (n : Int)).filter (· < integerBound)
  | t => ((digits? t).map fun n => (n : Int)).filter (· < integerBound)

/-- The number words of rules text. -/
def numberWords : List (String × Nat) :=
  [("a", 1), ("an", 1), ("one", 1), ("another", 1), ("two", 2), ("three", 3), ("four", 4),
   ("five", 5), ("six", 6), ("seven", 7)]

/-- A count in words or digits. -/
def count? (t : Text) : Option Nat :=
  match lookup? numberWords t.fold with
  | some n => some n
  | none => natural? t.fold

/-- A signed number between blanks. A `+` in front is printed for emphasis and is taken off
before the number is read. -/
def signed? (t : Text) : Option Int :=
  match t.trim with
  | '+' :: r => integer? r
  | t => integer? t

end Text

end CardText
