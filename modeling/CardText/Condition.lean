import CardText.Template

/-!
# Conditions

`Condition.ofPhrase` reads the phrase of a condition, without its "if" or "while". A phrase outside
the known ones is kept as it is printed.
-/

namespace CardText

/-- What has to hold when a trigger or an effect is carried out. -/
inductive Condition where
  | duringYourTurn
  | duringOpponentsTurn
  | thisHasNoDamage
  | thisIsDamaged
  | thisIsExerted
  | thisAtLocation
  | youHaveCharacterNamed (name : Text)
  | yourHandIsEmpty
  /-- The optional step before was carried out. -/
  | ifYouDo
  /-- A condition as printed. -/
  | printed (text : Text)
  deriving Repr, DecidableEq

namespace Condition

/-- The phrases with a meaning of their own. -/
def phrases : List (String × Condition) :=
  [("during your turn", duringYourTurn), ("it's your turn", duringYourTurn),
   ("it is your turn", duringYourTurn), ("during an opponent's turn", duringOpponentsTurn),
   ("during opponents' turns", duringOpponentsTurn),
   ("it's an opponent's turn", duringOpponentsTurn),
   ("this character has no damage", thisHasNoDamage),
   ("this character has no damage on them", thisHasNoDamage),
   ("this character is undamaged", thisHasNoDamage),
   ("this character has damage", thisIsDamaged), ("this character is damaged", thisIsDamaged),
   ("this character has damage on them", thisIsDamaged),
   ("this character is exerted", thisIsExerted),
   ("this character is at a location", thisAtLocation),
   ("you have no cards in your hand", yourHandIsEmpty), ("you do", ifYouDo)]

/-- The condition on a name; its open place is the name. -/
def namedCharacter : Template Unit :=
  .phrase ["you have a ", .oneOf ["character", "card"], " named ", .slot () .words,
    .opt [" in play"], .stop]

/-- The condition that a phrase states. -/
def ofPhrase (t : Text) : Condition :=
  let t := t.tidy
  match Text.lookup? phrases t.fold with
  | some c => c
  | none =>
    match namedCharacter.match? t with
    | some m => youHaveCharacterNamed (m.slot ()).trim
    | none => printed t

end Condition

end CardText
