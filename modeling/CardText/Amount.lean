import CardText.Template
import CardText.Text.Numeral

/-!
# Amounts

The size of an effect.

* `Amount.ofText?`: an amount as printed ("2", "up to 3", "all", "a");
* `isElliptical`: an amount of damage whose verb was left out, as in "and 1 damage to …".
-/

namespace CardText

/-- The size of an effect. -/
inductive Amount where
  /-- This many; a loss is negative. -/
  | exact (n : Int)
  /-- Any number from none to `n`; a loss is negative. -/
  | upTo (n : Int)
  | all
  /-- `per` for each of the things counted. -/
  | perEach (per : Int) (counted : Text)
  /-- A number that the game computes, as printed. -/
  | computed (formula : Text)
  deriving Repr, DecidableEq

namespace Amount

/-- The amount is an upper limit. -/
def isUpTo : Amount → Bool
  | upTo _ => true
  | _ => false

/-- The opposite change: what is gained is lost. -/
def negate : Amount → Amount
  | exact n => exact (-n)
  | upTo n => upTo (-n)
  | a => a

/-- A count as a signed number, if it is in range. -/
def integerOfCount? (t : Text) : Option Int :=
  (t.count?.map fun n => (n : Int)).filter (· < Text.integerBound)

/-- An amount as printed. -/
def ofText? (t : Text) : Option Amount :=
  let t := t.trim.fold
  match "up to ".toList.isPrefixOf? t with
  | some rest => (integerOfCount? (Text.trim rest)).map upTo
  | none =>
    if t = "all".toList then some all
    else if t = "x".toList then some (computed "X".toList)
    else (t.signed?.or (integerOfCount? t)).map exact

end Amount

/-- An amount and its noun without a verb. -/
def ellipticalAmount : Template Empty :=
  .phrase [.opt ["up to "],
    .alt .digits (.oneOf ["a", "an", "one", "two", "three", "four", "five"]), " damage", .edge]

/-- The text begins with an amount of damage and leaves the verb to an earlier clause. -/
def isElliptical (t : Text) : Bool := ellipticalAmount.isMatch t.trim

end CardText
