import CardText.Ability.Basic

/-!
# Assembly

The abilities of a card get their ids from the place of their segment (`Ability.makeId`). An ability
without any step is left out, and what could not be understood is reported (`Diagnostic`).

* `Assembly.ofSegments`: the abilities and reports of all segments.
-/

namespace CardText

/-- The id of the ability number `n`, counted from zero, of a segment that has `count` abilities:
one ability needs no number of its own. -/
def Ability.makeId (cardId : Text) (segment n count : Nat) : Text :=
  let id := cardId ++ '-' :: Text.ofNat segment
  if 1 < count then id ++ '-' :: Text.ofNat (n + 1) else id

/-- What is to be reported about a segment. -/
inductive DiagnosticKind where
  /-- An ability has no step and was left out. -/
  | noEffects
  /-- An ability has a step that was not understood. -/
  | opaqueFallback
  deriving Repr, DecidableEq

/-- A report on the reading of a segment. -/
structure Diagnostic where
  cardId : Text
  segment : Nat
  rawText : Text
  kind : DiagnosticKind
  deriving Repr, DecidableEq

/-- The abilities of a card and the reports on them. -/
structure Assembly where
  abilities : List Ability := []
  diagnostics : List Diagnostic := []
  deriving Repr, DecidableEq

namespace Assembly

/-- The abilities of one segment. One without steps keeps its number and is left out. -/
def abilitiesOf (cardId : Text) (segment : Nat) (drafts : List Draft) : List Ability :=
  (drafts.zipIdx.filter fun e => !e.1.effects.isEmpty).map fun e =>
    e.1.toAbility (Ability.makeId cardId segment e.2 drafts.length) cardId

/-- The reports on the abilities of one segment, in their order: each one that is left out, and the
first one that has a step not understood; `flagged` tells that there was one before. -/
def diagnose (cardId : Text) (segment : Nat) : Bool → List Draft → List Diagnostic
  | _, [] => []
  | flagged, d :: ds =>
    if d.effects.isEmpty then
      ⟨cardId, segment, d.rawText, .noEffects⟩ :: diagnose cardId segment flagged ds
    else if d.hasOpaque && !flagged then
      ⟨cardId, segment, d.rawText, .opaqueFallback⟩ :: diagnose cardId segment true ds
    else diagnose cardId segment flagged ds

/-- The abilities and reports of segments, each given by its place and its abilities. -/
def ofSegments (cardId : Text) (segments : List (Nat × List Draft)) : Assembly :=
  { abilities := segments.flatMap fun s => abilitiesOf cardId s.1 s.2
    diagnostics := segments.flatMap fun s => diagnose cardId s.1 false s.2 }

end Assembly

end CardText
