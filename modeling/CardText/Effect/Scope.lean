import CardText.Effect.Basic
import CardText.Selector.Compound

/-!
# Scope

The targets that a clause names are read in its `Scope`: the kind of the source card, what an
earlier clause picked, and what the clause counts.

* `Scope.targets`, `Scope.player`: the objects and the players of a phrase;
* `Scope.step`: an action on the objects of a phrase;
* `Scope.scaled`: an amount for each of the things counted.
-/

namespace CardText

/-- What the phrases of a clause refer to. -/
structure Scope where
  source : ObjectKind
  /-- What an earlier clause picked. -/
  antecedent : Option Selector := none
  /-- What the amount of the clause holds for each of. -/
  counted : Option Text := none
  deriving Repr, DecidableEq

namespace Scope

/-- The selector of one phrase. -/
def selector (s : Scope) (phrase : Text) : Selector := .ofPhrase s.source s.antecedent phrase

/-- The objects of a phrase: the first target and the further ones. Without a phrase they are what
was picked before. -/
def targets (s : Scope) (phrase : Option Text) : Selector × List Selector :=
  match phrase with
  | none => (.ofAntecedent s.source s.antecedent, [])
  | some phrase =>
    if phrase.isVoid then (.ofAntecedent s.source s.antecedent, [])
    else
      match (Selector.parts phrase).map s.selector with
      | [] => (.this s.source, [])
      | first :: more => (first, more)

/-- The players of a phrase; without one it is the controller. -/
def player (s : Scope) (phrase : Option Text) : Selector :=
  match phrase with
  | none => .you
  | some phrase => if phrase.isVoid then .you else s.selector phrase

/-- An action on the objects of a phrase. -/
def step (s : Scope) (effect : Effect) (phrase : Option Text) : Step :=
  let (target, additionalTargets) := s.targets phrase
  { effect, target, additionalTargets }

/-- A literal amount holds for each of the things counted, if the clause counts any. -/
def scaled (s : Scope) (amount : Amount) : Amount :=
  match s.counted, amount with
  | some counted, .exact per => .perEach per counted
  | _, amount => amount

end Scope

end CardText
