import CardText.Card.Basic
import CardText.Text.Paragraph
import CardText.Text.Reminder
import CardText.Text.Typography

/-!
# Segments

A segment is the text of one ability of a card. `Segment.ofCard` takes the segments from the first
of these sources that has text: the hints together with the paragraphs of an action, the printed
paragraphs, the paragraphs of an action alone, the whole text by paragraphs. `Segment.ofLines` takes
loose text, one segment in each line.
-/

namespace CardText

/-- The text of one ability. -/
structure Segment where
  /-- The place on the card. -/
  index : Nat
  /-- The text as it came. -/
  raw : Text
  /-- The text in plain form. -/
  text : Text
  /-- What is known about the ability. -/
  hint : Option Hint := none
  deriving Repr, DecidableEq

/-- The text of a hint. Where the whole text is missing it is put together from the parts. -/
def Hint.text (h : Hint) : Text :=
  if !h.fullText.isVoid then h.fullText
  else
    let name := h.name.toList
    let keyword := h.keyword.toList.map fun k =>
      match h.keywordValue with
      | some v => k ++ ' ' :: v
      | none => k
    let costs :=
      match h.costsText with
      | some costs => [costs ++ [' ', Text.dash]]
      | none =>
        if h.costs.isEmpty then []
        else [List.intercalate ", ".toList h.costs ++ [' ', Text.dash]]
    Text.unwords (name ++ keyword ++ costs ++ h.effect.toList)

namespace Segment

/-- The text has more than reminders in it. -/
def hasBody (t : Text) : Bool := !t.body.isVoid

/-- The texts of a card with their hints, from the first source that has any. -/
def sources (options : Options) (c : Card) : List (Text × Option Hint) :=
  if options.useHints && !c.abilities.isEmpty then
    c.abilities.map (fun h => (h.text, some h)) ++ c.effects.map fun e => (e, none)
  else if c.fullTextSections.any fun s => !s.isVoid then
    c.fullTextSections.map fun s => (s, none)
  else if c.effects.any fun e => !e.isVoid then
    c.effects.map fun e => (e, none)
  else
    match c.fullText with
    | some t => t.paragraphs.map fun p => (p, none)
    | none => []

/-- Numbers the texts. -/
def number (ts : List (Text × Option Hint)) : List Segment :=
  ts.zipIdx.map fun e => ⟨e.2, e.1.1, e.1.1.normalize, e.1.2⟩

/-- The segments of a card. A text that only reminds is left out unless a hint belongs to it. -/
def ofCard (options : Options) (c : Card) : List Segment :=
  number ((sources options c).filter fun e => e.2.isSome || hasBody e.1.normalize)

/-- The segments of loose text. -/
def ofLines (t : Text) : List Segment := number (t.lines.map fun l => (l, none))

end Segment

end CardText
