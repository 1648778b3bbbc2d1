import CardText.Amount
import CardText.Condition
import CardText.Keyword.Basic
import CardText.Selector.Basic

/-!
# Effect steps

The effect of an ability is a list of steps, each one action of the game.

* `Effect`: the kinds of action, with `Stat`, `DeckPosition`, `GameAction`, `Permission`;
* `Duration`: how long a step lasts;
* `Step`: an action with its targets, amount, duration and condition.
-/

namespace CardText

/-- The printed stats of characters and locations. -/
inductive Stat where
  | strength
  | willpower
  | lore
  deriving Repr, DecidableEq

/-- Where in a deck a card is put. -/
inductive DeckPosition where
  | top
  | bottom
  | shuffled
  deriving Repr, DecidableEq

/-- What a restriction is about. -/
inductive GameAction where
  | quest
  | challenge
  | beChallenged
  | ready
  | singSongs
  | move
  | challengeReadyCharacters
  /-- An action as printed. -/
  | other (text : Text)
  deriving Repr, DecidableEq

/-- What a restriction says about its action. -/
inductive Permission where
  | cannot
  | must
  /-- Allowed beyond the normal rules. -/
  | can
  deriving Repr, DecidableEq

/-- How long a step lasts. -/
inductive Duration where
  /-- Until the object changes its zone; also of an action that is over at once. -/
  | permanent
  | thisTurn
  | untilStartOfYourNextTurn
  /-- During the next turn of the affected player. -/
  | theirNextTurn
  /-- Another end as printed. -/
  | until (text : Text)
  deriving Repr, DecidableEq

/-- The kinds of action. -/
inductive Effect where
  /-- The amount of the step is added to a stat. -/
  | modifyStat (stat : Stat)
  | damage
  /-- Damage is removed. -/
  | heal
  /-- Damage is moved from the target onto `destination`. -/
  | moveDamage (destination : Selector)
  /-- The amount of the step is added to the players' lore. -/
  | loreChange
  | drawCards
  | discard (random : Bool)
  /-- Cards go from one zone to another. -/
  | moveCard (origin : Option Zone) (destination : Zone) (position : Option DeckPosition)
      (exerted : Bool)
  | lookAtCards
  | reveal
  | playCard (free : Bool)
  | banish
  | exert
  | ready
  | grantKeyword (keyword : Keyword) (value : Option Int)
  /-- An ability printed in quotes is granted. -/
  | grantAbility (text : Text)
  | restriction (action : GameAction) (mode : Permission)
  /-- Matching cards cost less ink by the amount of the step. -/
  | costReduction
  /-- The card is played onto one of the same name for the amount of the step. -/
  | shiftPlay
  /-- Text that was not understood, as printed. -/
  | opaqueText (text : Text)
  deriving Repr, DecidableEq

namespace Effect

/-- The text was not understood. -/
def isOpaque : Effect → Bool
  | opaqueText _ => true
  | _ => false

/-- The effect lasts over time and can share a duration printed at the end of the sentence. -/
def isContinuous : Effect → Bool
  | modifyStat _ => true
  | grantKeyword _ _ => true
  | grantAbility _ => true
  | restriction _ _ => true
  | costReduction => true
  | _ => false

end Effect

/-- One action of the game. -/
structure Step where
  effect : Effect
  target : Selector
  /-- Further targets of the same action. -/
  additionalTargets : List Selector := []
  amount : Option Amount := none
  duration : Duration := .permanent
  /-- The controller can decline. -/
  optional : Bool := false
  condition : Option Condition := none
  /-- What the clause says beyond the other fields. -/
  note : Option Text := none
  deriving Repr, DecidableEq

namespace Step

/-- The step of a text that was not understood. -/
def ofOpaque (t : Text) : Step :=
  { effect := .opaqueText t.trim, target := { quantifier := .this } }

/-- The step holds text that was not understood. -/
def isOpaque (s : Step) : Bool := s.effect.isOpaque

end Step

end CardText
