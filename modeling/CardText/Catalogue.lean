import CardText.Card.Reading
import CardText.Table

/-!
# Catalogue

A catalogue keeps the abilities of many cards by card id, with the reports on all of them and the
errors of the cards that were refused.

* `Catalogue.addCard`: adds a card, in place of an earlier one with its id, and tells its abilities;
  a refused card changes nothing (`Catalogue.run_addCard`);
* `Catalogue.registerAll`: adds cards one after the other and keeps the errors of the refused ones;
* `Catalogue.abilitiesOf`, `Catalogue.ability?`: what is found by a card id and by an ability id.
-/

namespace CardText

/-- The abilities of many cards. -/
structure Catalogue where
  options : Options := {}
  /-- The abilities by card id, in the order in which the ids came first. -/
  entries : Table (List Ability) := []
  diagnostics : List Diagnostic := []
  /-- The errors of the cards refused. -/
  rejected : List CardError := []
  deriving Repr

namespace Catalogue

/-- Adds the reading of a card: what was there under its id goes, the reports of the new reading
come last. -/
def store (c : Catalogue) (id : Text) (a : Assembly) : Catalogue :=
  { c with
    entries := c.entries.put id a.abilities
    diagnostics := c.diagnostics.filter (fun d => d.cardId != id) ++ a.diagnostics }

/-- Adds a card and tells its abilities, or the error of a card that is refused. -/
def addCard (card : Card) : EStateM CardError Catalogue (List Ability) := do
  let a ← MonadExcept.ofExcept (card.read (← get).options)
  modify (·.store card.id a)
  return a.abilities

/-- The card is read before anything changes. -/
theorem run_addCard (c : Catalogue) (card : Card) : (addCard card).run c =
    match card.read c.options with
    | .ok a => .ok a.abilities (c.store card.id a)
    | .error e => .error e c := by
  simp only [addCard, EStateM.run_bind, EStateM.run_get]
  cases card.read c.options <;> rfl

/-- The catalogue with a further card, if it is not refused. -/
def register (c : Catalogue) (card : Card) : Except CardError Catalogue :=
  match (addCard card).run c with
  | .ok _ c => .ok c
  | .error e _ => .error e

/-- Adds a card, or keeps its error. -/
def registerOrReject (c : Catalogue) (card : Card) : Catalogue :=
  match (addCard card).run c with
  | .ok _ c => c
  | .error e c => { c with rejected := c.rejected ++ [e] }

/-- Adds cards one after the other. -/
def registerAll (c : Catalogue) (cards : List Card) : Catalogue := cards.foldl registerOrReject c

/-- The abilities of a card id; none for an unknown one. -/
def abilitiesOf (c : Catalogue) (id : Text) : List Ability := (c.entries.get? id).getD []

/-- The ability with an id. -/
def ability? (c : Catalogue) (id : Text) : Option Ability :=
  (c.entries.flatMap (·.2)).find? fun a => a.id == id

/-- The ids of all cards, sorted by their characters. -/
def cardIds (c : Catalogue) : List Text := c.entries.keys.mergeSort Text.isAtMost

/-- The number of cards. -/
def size (c : Catalogue) : Nat := c.entries.length

end Catalogue

end CardText
