import CardText.Selector.Phrase
import CardText.Text.Typography

/-!
# Costs

An activated ability has its costs printed in front of a dash: "{E}, 2 {I} — Draw a card."

* `Cost.ofToken`: one cost; a token outside the known wordings is kept as printed;
* `Cost.listOfText`, `Cost.listOfTokens`: the costs of a text and of a list of tokens;
* `splitActivated?`: the cost side and the effect side of an activated ability.
-/

namespace CardText

/-- One cost of an activated ability. -/
inductive Cost where
  /-- The source card is exerted. -/
  | exertSelf
  | payInk (amount : Nat)
  /-- The source card is banished. -/
  | banishSelf
  /-- Cards are discarded; `filter` is the restriction on them as printed. -/
  | discardCard (count : Nat) (filter : Option Text)
  | exertOther (target : Selector)
  | banishOther (target : Selector)
  /-- A cost as printed. -/
  | other (text : Text)
  deriving Repr, DecidableEq

namespace Cost

/-- The open places of a cost. -/
inductive Slot where
  | count
  | filter
  | target
  deriving Repr, DecidableEq

/-- The template "2 {I}". -/
def inkToken : Template Slot :=
  .phrase [.opt ["pay "], .slot .count .digits, " \x7bi\x7d", .stop]

/-- The template "banish this item". -/
def banishSelfToken : Template Slot :=
  .phrase ["banish this ", .oneOf ["character", "item", "location", "card"], .stop]

/-- The template "discard a song card". -/
def discardToken : Template Slot :=
  .phrase [.opt ["choose and "], "discard ",
    .slot .count (.alt (.oneOf ["a", "an", "one", "two", "three"]) .digits), " ",
    .opt [.slot .filter .words, " "], "card", .opt ["s"], .stop]

/-- The template "exert one of your characters". -/
def exertToken : Template Slot := .phrase ["exert ", .slot .target .toLineEnd, .stop]

/-- The template "banish one of your items". -/
def banishToken : Template Slot := .phrase ["banish ", .slot .target .toLineEnd, .stop]

/-- The amount of ink that a token asks for. -/
def ink? (token : Text) : Option Nat :=
  (inkToken.match? token).bind fun m => (m.slot .count).natural?

/-- The cost that a token states, on a card of kind `source`. An amount of ink out of range is no
known cost; a number of cards out of range counts as one. -/
def ofToken (source : ObjectKind) (token : Text) : Cost :=
  let token := Text.dropTrailing (· == '.') token.trim
  if Text.samePlain token Text.exertSymbol then exertSelf
  else
    match ink? token with
    | some n => payInk n
    | none =>
      if banishSelfToken.isMatch token then banishSelf
      else
        match discardToken.match? token with
        | some m => discardCard ((m.slot .count).count?.getD 1) (m.slot? .filter)
        | none =>
          match exertToken.match? token with
          | some m => exertOther (Selector.ofPhrase source none (m.slot .target))
          | none =>
            match banishToken.match? token with
            | some m => banishOther (Selector.ofPhrase source none (m.slot .target))
            | none => other token

/-- The cost is in one of the known wordings. -/
def isKnown : Cost → Bool
  | other _ => false
  | _ => true

/-- The tokens of a cost text: what stands between commas and between "and"s. -/
def tokens (t : Text) : List Text :=
  (Text.cut (· == ',') t).flatMap (Text.cutOn " and ".toList (by decide))

/-- The costs of a list of tokens, blank ones left out. -/
def listOfTokens (source : ObjectKind) (ts : List Text) : List Cost :=
  ((ts.map Text.trim).filter fun t => !t.isEmpty).map (ofToken source)

/-- The costs of a text. -/
def listOfText (source : ObjectKind) (t : Text) : List Cost := listOfTokens source (tokens t)

end Cost

/-- The two sides of an activated ability as printed. -/
structure Activated where
  cost : Text
  effect : Text
  deriving Repr, DecidableEq

/-- The sides `left` and `right` of a separator, if they are a cost and an effect: neither is
blank, and what stands in front of the first comma is a known cost. -/
def activated? (source : ObjectKind) (left right : Text) : Option Activated :=
  let cost := left.trim
  let effect := right.trim
  let first := ((Text.cut (· == ',') cost).head?.getD []).trim
  if cost.isEmpty || effect.isEmpty || !(Cost.ofToken source first).isKnown then none
  else some { cost, effect }

/-- The cost side and the effect side of an activated ability. They are separated by the first
dash, or else by the first hyphen between spaces. -/
def splitActivated? (source : ObjectKind) (t : Text) : Option Activated :=
  ((Text.breakOn? [Text.dash] t).bind fun b => activated? source b.1 b.2).or
    ((Text.breakOn? " - ".toList t).bind fun b => activated? source b.1 b.2)

end CardText
