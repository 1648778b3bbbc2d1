import CardText.Selector.Basic

/-!
# Options

What a user can choose about the reading of a card (`Options`), and what a reader has to know
beside the text (`Context`). A switch outside the program can ask for strict reading
(`Options.ofSwitch`).
-/

namespace CardText

/-- How cards are read. -/
structure Options where
  /-- The hints that come with a card go before its text. -/
  useHints : Bool := true
  /-- A clause that is not understood gives no step at all. -/
  strict : Bool := false
  /-- A trigger for each of several events becomes one ability for each of them. -/
  splitCompoundTriggers : Bool := true
  deriving Repr, DecidableEq

/-- A switch is on if it says so; one that is not set is off. -/
def isSwitchedOn (value : Option Text) : Bool :=
  value.any fun v => (Text.lexicon ["1", "true", "yes"]).contains v.trim.fold

/-- The usual options, with strict reading if the switch is on. -/
def Options.ofSwitch (value : Option Text) : Options := { strict := isSwitchedOn value }

/-- What a text is read for. -/
structure Context where
  /-- The kind of the card that the text stands on: what "this" means. -/
  source : ObjectKind
  options : Options := {}
  deriving Repr, DecidableEq

end CardText
