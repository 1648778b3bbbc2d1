import CardText.Ability.Basic
import CardText.Card.Segment
import CardText.Keyword.Line
import CardText.Text.Label

/-!
# The shape of an ability

A segment is a keyword line, an activated, a triggered or a static ability.

* `Shape.ofBody`: the shape that text has on its own, keyword lines apart;
* `Classified.ofText`: the shape of a segment without a hint;
* `Classified.ofHint`: the shape of a segment with a hint. Its keyword goes before all else, then a
  keyword line, then its type with the parts that belong to the type, and last the text.
-/

namespace CardText

/-- What a segment turns out to be. -/
inductive Shape where
  | keyword (entries : List Keyword.Entry)
  | activated (costs : List Cost) (effect : Text)
  /-- Without a trigger if a hint calls the ability triggered and no trigger is found. -/
  | triggered (trigger : Option Triggered) (effect : Text)
  | static (effect : Text)
  deriving Repr, DecidableEq

/-- A segment with its shape. -/
structure Classified where
  /-- The printed name. -/
  name : Option Text
  /-- The text without reminders and name. -/
  body : Text
  shape : Shape
  deriving Repr, DecidableEq

namespace Shape

/-- A triggered ability taken apart. -/
def ofTriggered (t : Triggered) : Shape := .triggered (some t) t.effect

/-- The shape of a text without its name. -/
def ofBody (ctx : Context) (body : Text) : Shape :=
  match splitActivated? ctx.source body with
  | some a => .activated (Cost.listOfText ctx.source a.cost) a.effect
  | none =>
    match Triggered.ofText? ctx body with
    | some t => ofTriggered t
    | none => .static body

/-- The shape of a triggered ability with a given effect; the trigger may stand in the effect or
else in the whole text. -/
def ofTriggeredHint (ctx : Context) (body effect : Text) : Shape :=
  match Triggered.ofText? ctx effect with
  | some t => ofTriggered t
  | none =>
    match Triggered.ofText? ctx body with
    | some t => ofTriggered t
    | none => .triggered none effect

/-- The shape of an activated ability with a given effect; the costs come from the hint or else from
the whole text. -/
def ofActivatedHint (ctx : Context) (h : Hint) (body effect : Text) : Shape :=
  if !h.costs.isEmpty then
    .activated (Cost.listOfTokens ctx.source (h.costs.map Text.normalize)) effect
  else
    match h.costsText with
    | some costs => .activated (Cost.listOfText ctx.source costs.normalize) effect
    | none => ofBody ctx body

/-- The shape of a segment that is no keyword line, by its hint. The type of a hint counts only
together with an effect. -/
def ofHint (ctx : Context) (h : Hint) (body : Text) : Shape :=
  match h.hintType, h.effect.map Text.normalize with
  | some .activated, some effect => ofActivatedHint ctx h body effect
  | some .triggered, some effect => ofTriggeredHint ctx body effect
  | some .static, some effect => .static effect
  | _, _ => ofBody ctx body

end Shape

namespace Keyword

/-- The keyword of a hint. Its values go before printed ones. -/
def entryOfHint? (h : Hint) : Option Entry :=
  (h.keyword.bind ofName?).map fun keyword =>
    { keyword
      value := h.keywordValueNumber.or (h.keywordValue.bind Text.signed?)
      valueText := h.keywordValue.or (h.keywordValueNumber.map Text.ofInt)
      reminder := h.reminderText }

/-- An entry without a value takes the one printed next to the same keyword. -/
def Entry.orPrinted (e : Entry) (printed : List Entry) : Entry :=
  if e.value.isSome then e
  else
    match printed.find? fun p => p.keyword == e.keyword with
    | some p => { e with value := p.value, valueText := e.valueText.or p.valueText }
    | none => e

end Keyword

namespace Classified

/-- The text without reminders and without a name in front of it. -/
def bodyAfterName (name : Option Text) (body : Text) : Text :=
  match name with
  | some n =>
    match n.isPrefixOf? body with
    | some rest => Text.trim rest
    | none => body
  | none => body.stripLabel.2

/-- The shape of a segment with a hint. -/
def ofHint (ctx : Context) (h : Hint) (text : Text) : Classified :=
  let printed := Keyword.entries? text
  let body := text.body
  match Keyword.entryOfHint? h with
  | some e => ⟨h.name, body, .keyword [e.orPrinted (printed.getD [])]⟩
  | none =>
    match printed with
    | some entries => ⟨h.name, body, .keyword entries⟩
    | none =>
      let body := bodyAfterName h.name body
      ⟨h.name, body, Shape.ofHint ctx h body⟩

/-- The shape of a segment without a hint. -/
def ofText (ctx : Context) (text : Text) : Classified :=
  match Keyword.entries? text with
  | some entries => ⟨none, text.body, .keyword entries⟩
  | none =>
    let (name, body) := text.body.stripLabel
    ⟨name, body, Shape.ofBody ctx body⟩

/-- The shape of a segment. -/
def ofSegment (ctx : Context) (s : Segment) : Classified :=
  match s.hint with
  | some h => ofHint ctx h s.text
  | none => ofText ctx s.text

end Classified

end CardText
