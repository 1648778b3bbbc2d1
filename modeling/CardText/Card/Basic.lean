import CardText.Options
import CardText.Text.Basic

/-!
# Cards

A card as the reader gets it: its printed fields, its rules text in one of several forms, and hints
about its abilities that some collections add to the text.

* `InkColor`, `CardType`, `HintType`: the words that tell colors, card types and kinds of hints;
* `Hint`, `Card`: the records;
* `Card.fullName`, `Card.isSong`, `Card.isVanilla`: what follows from a record;
* `Card.problem?`: what makes a card unusable (`CardError`).
-/

namespace CardText

/-- The colors of ink. -/
inductive InkColor where
  | amber
  | amethyst
  | emerald
  | ruby
  | sapphire
  | steel
  deriving Repr, DecidableEq

/-- The types of cards. -/
inductive CardType where
  | character
  | action
  | item
  | location
  deriving Repr, DecidableEq

/-- The kinds of ability that a hint can name. -/
inductive HintType where
  | keyword
  | static
  | triggered
  | activated
  deriving Repr, DecidableEq

/-- The color of a word. -/
def InkColor.ofText? (t : Text) : Option InkColor :=
  Text.lookup? [("amber", amber), ("amethyst", amethyst), ("emerald", emerald), ("ruby", ruby),
    ("sapphire", sapphire), ("steel", steel)] t.trim.fold

/-- The card type of a word; a character for any other word. -/
def CardType.ofText (t : Text) : CardType :=
  (Text.lookup? [("action", action), ("item", item), ("location", location)] t.trim.fold).getD
    character

/-- The kind of a hint by its word. -/
def HintType.ofText? (t : Text) : Option HintType :=
  Text.lookup? [("keyword", keyword), ("static", static), ("triggered", triggered),
    ("activated", activated)] t.trim.fold

/-- What "this" means on a card of a type. -/
def CardType.objectKind : CardType → ObjectKind
  | character => .character
  | action => .action
  | item => .item
  | location => .location

/-- What is known about an ability beside its text. A field that is there goes before the text. -/
structure Hint where
  hintType : Option HintType := none
  /-- The printed name of the ability. -/
  name : Option Text := none
  /-- The name of the keyword. -/
  keyword : Option Text := none
  /-- The value of the keyword as printed. -/
  keywordValue : Option Text := none
  keywordValueNumber : Option Int := none
  reminderText : Option Text := none
  /-- The effect without name, costs and reminder text. -/
  effect : Option Text := none
  /-- The costs, one by one. -/
  costs : List Text := []
  /-- The cost side as printed. -/
  costsText : Option Text := none
  /-- The whole printed text. -/
  fullText : Text := []
  deriving Repr, DecidableEq

/-- A card. -/
structure Card where
  id : Text := []
  name : Text := []
  version : Option Text := none
  cardType : CardType := .character
  /-- The ink to play it. -/
  cost : Nat := 0
  color : Option InkColor := none
  /-- It can be put into the inkwell. -/
  inkwell : Bool := false
  strength : Option Nat := none
  willpower : Option Nat := none
  lore : Option Nat := none
  moveCost : Option Nat := none
  /-- The classifications. -/
  subtypes : List Text := []
  /-- The printed paragraphs. -/
  fullTextSections : List Text := []
  /-- The paragraphs of an action. -/
  effects : List Text := []
  /-- The whole rules text. -/
  fullText : Option Text := none
  /-- Hints, one for each ability. -/
  abilities : List Hint := []
  deriving Repr, DecidableEq

namespace Card

/-- The name with the version behind it. -/
def fullName (c : Card) : Text :=
  match c.version with
  | some version => c.name ++ " - ".toList ++ version
  | none => c.name

/-- A song is an action of this classification. -/
def isSong (c : Card) : Bool := c.cardType == .action && c.subtypes.contains "Song".toList

/-- The card has no rules text. -/
def isVanilla (c : Card) : Bool :=
  c.abilities.isEmpty && c.fullTextSections.all Text.isVoid && c.effects.all Text.isVoid &&
    c.fullText.all Text.isVoid

end Card

/-- What makes a card unusable. -/
inductive CardError where
  /-- There is no id. -/
  | missingId (name : Text)
  /-- There is no name. -/
  | missingName (id : Text)
  deriving Repr, DecidableEq

/-- The wording of a problem. -/
def CardError.message : CardError → Text
  | missingId name => "card has no id (name: '".toList ++ name ++ "')".toList
  | missingName id => "card '".toList ++ id ++ "' has no name".toList

/-- The problem of a card; a missing id goes before a missing name. -/
def Card.problem? (c : Card) : Option CardError :=
  if c.id.isVoid then some (.missingId c.name)
  else if c.name.isVoid then some (.missingName c.id)
  else none

end CardText
