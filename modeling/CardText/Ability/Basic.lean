import CardText.Cost
import CardText.Effect.Basic
import CardText.Trigger.Basic

/-!
# Abilities

An ability as the rules of the game see it: its type, its costs, its trigger and the steps of its
effect (`Draft`), and the same with an id on a card (`Ability`).
-/

namespace CardText

/-- The types of abilities. -/
inductive AbilityType where
  | static
  | triggered
  | activated
  deriving Repr, DecidableEq

/-- An ability that has no id yet. -/
structure Draft where
  abilityType : AbilityType
  /-- The printed name. -/
  name : Option Text := none
  /-- The keyword that stands for the ability. -/
  keyword : Option Keyword := none
  /-- The text that the ability was read from. -/
  rawText : Text
  costs : List Cost := []
  trigger : Option Trigger := none
  effects : List Step := []
  deriving Repr, DecidableEq

/-- An ability of a card. -/
structure Ability where
  id : Text
  cardId : Text
  abilityType : AbilityType
  name : Option Text
  keyword : Option Keyword
  rawText : Text
  costs : List Cost
  trigger : Option Trigger
  effects : List Step
  deriving Repr, DecidableEq

/-- A step was not understood. -/
def Draft.hasOpaque (d : Draft) : Bool := d.effects.any Step.isOpaque

/-- The ability with an id on a card. -/
def Draft.toAbility (d : Draft) (id cardId : Text) : Ability :=
  { id
    cardId
    abilityType := d.abilityType
    name := d.name
    keyword := d.keyword
    rawText := d.rawText
    costs := d.costs
    trigger := d.trigger
    effects := d.effects }

/-- A step was not understood. -/
def Ability.hasOpaque (a : Ability) : Bool := a.effects.any Step.isOpaque

@[simp] theorem Draft.hasOpaque_toAbility (d : Draft) (id cardId : Text) :
    (d.toAbility id cardId).hasOpaque = d.hasOpaque := rfl

end CardText
