import CardText.Ability.Assembly
import CardText.Ability.Draft

/-!
# Reading cards

The abilities of a card (`Card.read`), of loose text (`readLines`) and of a bare effect
(`readEffect`). A card without id or name is refused; nothing in its text can make a card fail.
-/

namespace CardText

/-- The abilities of segments. -/
def Assembly.read (cardId : Text) (ctx : Context) (segments : List Segment) : Assembly :=
  ofSegments cardId (segments.map fun s => (s.index, Draft.ofSegment ctx s))

/-- What a card's text is read for. -/
def Card.context (options : Options) (c : Card) : Context := ⟨c.cardType.objectKind, options⟩

/-- The abilities of a card and the reports on them. -/
def Card.read (options : Options) (c : Card) : Except CardError Assembly :=
  match c.problem? with
  | some e => .error e
  | none => .ok (.read c.id (c.context options) (Segment.ofCard options c))

/-- The abilities of a card with the usual options. -/
def Card.abilities? (c : Card) : Except CardError (List Ability) := (c.read {}).map (·.abilities)

/-- The abilities of loose text as if it stood on a card, one in each line. -/
def readLines (options : Options) (cardType : CardType) (cardId t : Text) : Assembly :=
  .read cardId ⟨cardType.objectKind, options⟩ (Segment.ofLines t)

/-- The steps of a bare effect on a character, with the usual options. -/
def readEffect (t : Text) : List Step := Step.ofEffect ⟨.character, {}⟩ t.normalize

end CardText
