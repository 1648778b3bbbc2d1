import CardText.Text.Basic

/-!
# Selectors

A selector tells which objects of the game an effect, a cost or a trigger is about.

* `ObjectKind`, `Owner`, `Quantifier`, `Bound`, `Zone`: the parts of a selector;
* `Selector`: their combination, with the source card (`Selector.this`), the controller
  (`Selector.you`) and players in general (`Selector.players`) as the common cases;
* `Selector.asPrevious`: the back-reference to what a selector picked.
-/

namespace CardText

/-- The kind of object that a selector picks. -/
inductive ObjectKind where
  | character
  | item
  | location
  | action
  /-- Any card, mostly in a hidden zone. -/
  | card
  | player
  deriving Repr, DecidableEq

/-- Whose objects a selector picks. -/
inductive Owner where
  | you
  | opponent
  | any
  deriving Repr, DecidableEq

/-- How many of the matching objects a selector picks. -/
inductive Quantifier where
  /-- The source card itself. -/
  | this
  /-- Exactly `n` chosen objects. -/
  | chosen (n : Nat)
  /-- Up to `n` chosen objects. -/
  | upTo (n : Nat)
  /-- Each matching object, one at a time. -/
  | each
  /-- All matching objects at once. -/
  | all
  /-- What an earlier step of the same ability picked. -/
  | previous
  deriving Repr, DecidableEq

/-- Zones of the game. -/
inductive Zone where
  | play
  | hand
  | deck
  | discard
  | inkwell
  deriving Repr, DecidableEq

/-- The attributes that a numeric filter compares. -/
inductive Attribute where
  | cost
  | strength
  | willpower
  | lore
  | damage
  deriving Repr, DecidableEq

/-- The ways to compare. -/
inductive Comparison where
  | atMost
  | atLeast
  | exactly
  deriving Repr, DecidableEq

/-- A numeric filter such as "with cost 3 or less". -/
structure Bound where
  compared : Attribute
  comparison : Comparison
  value : Nat
  deriving Repr, DecidableEq

/-- Which objects are meant. A filter that is `none` or empty lets every object pass. -/
structure Selector where
  quantifier : Quantifier
  owner : Owner := .any
  /-- The kinds allowed. -/
  kinds : List ObjectKind := []
  /-- The classifications asked for ("Hero", "Song"). -/
  traits : List Text := []
  /-- The name asked for. -/
  name : Option Text := none
  /-- The source card is never picked. -/
  excludeSelf : Bool := false
  bound : Option Bound := none
  damaged : Option Bool := none
  exerted : Option Bool := none
  /-- The zone to pick from, where it is not the play area. -/
  zone : Option Zone := none
  /-- Words of the phrase that no other field says. -/
  qualifier : Option Text := none
  deriving Repr, DecidableEq

namespace Selector

/-- One more kind allowed, each kind only once. -/
def withKind (s : Selector) (k : ObjectKind) : Selector :=
  if s.kinds.contains k then s else { s with kinds := s.kinds ++ [k] }

/-- One more classification asked for, each only once. A possessive ending is no part of it. -/
def withTrait (s : Selector) (name : Text) : Selector :=
  let name := name.dropSuffixes "'s".toList
  if s.traits.contains name then s else { s with traits := s.traits ++ [name] }

/-- The source card, as an object of kind `k`. -/
def this (k : ObjectKind) : Selector := { quantifier := .this, kinds := [k] }

/-- One chosen object of kind `k`. -/
def chosen (k : ObjectKind) : Selector := { quantifier := .chosen 1, kinds := [k] }

/-- Players. -/
def players (q : Quantifier) (o : Owner) : Selector :=
  { quantifier := q, owner := o, kinds := [.player] }

/-- The controller of the ability. -/
def you : Selector := players .each .you

/-- Every opponent. -/
def eachOpponent : Selector := players .each .opponent

/-- Players and nothing else are picked. -/
def isPlayer (s : Selector) : Bool := s.kinds == [.player]

/-- The source card is picked. -/
def isThis (s : Selector) : Bool := s.quantifier == .this

/-- The same objects once more. -/
def asPrevious (s : Selector) : Selector := { s with quantifier := .previous }

/-- What a phrase without words of its own refers to: the objects of the antecedent, or the source
card where there is none. -/
def ofAntecedent (source : ObjectKind) (antecedent : Option Selector) : Selector :=
  match antecedent with
  | some s => s.asPrevious
  | none => this source

end Selector

end CardText
