import CardText.Ability.Shape
import CardText.Effect.Steps

/-!
# Abilities of a segment

`Draft.ofSegment` reads one segment as the abilities that it stands for: one for each keyword of a
keyword line, one for each trigger of a compound trigger, and one otherwise.

* `Draft.ofKeyword`: the ability that a keyword stands for;
* `Draft.effectSteps`: the steps of an effect, which are never none where text is left and reading
  is not strict.
-/

namespace CardText

namespace Draft

/-! ### Keywords -/

/-- The strength that a supporting character adds. -/
def supportAmount : Amount := .computed "this character's strength".toList

/-- The ability of the keyword Shift: the card is played for its value, or for another price that is
kept as printed. -/
def ofShift (source : ObjectKind) (e : Keyword.Entry) (raw : Text) : Draft :=
  let step : Step := { effect := .shiftPlay, target := .this source }
  { abilityType := .static
    keyword := some e.keyword
    rawText := raw
    effects := [match e.value with
      | some ink => { step with amount := some (.exact ink) }
      | none => { step with note := e.valueText }] }

/-- The ability of the keyword Support: whenever the character quests, another one may get its
strength for the turn. -/
def ofSupport (source : ObjectKind) (e : Keyword.Entry) (raw : Text) : Draft :=
  { abilityType := .triggered
    keyword := some e.keyword
    rawText := raw
    trigger := some { event := .quest, subject := .this source }
    effects :=
      [{ effect := .modifyStat .strength
         target := { Selector.chosen .character with excludeSelf := true }
         amount := some supportAmount
         duration := .thisTurn
         optional := true }] }

/-- The ability of any other keyword: the card has the keyword. -/
def ofPlainKeyword (source : ObjectKind) (e : Keyword.Entry) (raw : Text) : Draft :=
  { abilityType := .static
    keyword := some e.keyword
    rawText := raw
    effects :=
      [{ effect := .grantKeyword e.keyword e.value
         target := .this source
         amount := e.value.map .exact }] }

/-- The ability that a keyword stands for. -/
def ofKeyword (source : ObjectKind) (e : Keyword.Entry) (raw : Text) : Draft :=
  match e.keyword with
  | .shift => ofShift source e raw
  | .support => ofSupport source e raw
  | _ => ofPlainKeyword source e raw

/-! ### Effects -/

/-- The steps of an effect. Where nothing is understood and reading is not strict, the text is kept
as one step: that of the effect, or of the whole body if the effect is blank. -/
def effectSteps (ctx : Context) (effect body : Text) : List Step :=
  let steps := Step.ofEffect ctx effect
  if !steps.isEmpty || ctx.options.strict then steps
  else
    let clause := if effect.isVoid then body else effect
    if clause.isVoid then [] else [.ofOpaque clause]

/-- A step without a condition takes the one given. -/
def withCondition (c : Option Condition) (s : Step) : Step :=
  { s with condition := s.condition.or c }

/-- The abilities of a classified segment. -/
def ofClassified (ctx : Context) (raw : Text) (c : Classified) : List Draft :=
  match c.shape with
  | .keyword entries =>
    entries.map fun e => { ofKeyword ctx.source e raw with name := c.name }
  | .activated costs effect =>
    [{ abilityType := .activated
       name := c.name
       rawText := raw
       costs
       effects := effectSteps ctx effect c.body }]
  | .triggered (some t) effect =>
    let effects := (effectSteps ctx effect c.body).map (withCondition t.condition)
    t.triggers.map fun trigger =>
      { abilityType := .triggered
        name := c.name
        rawText := raw
        trigger := some trigger
        effects }
  | .triggered none effect =>
    [{ abilityType := .triggered
       name := c.name
       rawText := raw
       trigger := some { event := .other c.body, subject := .this ctx.source }
       effects := effectSteps ctx effect c.body }]
  | .static effect =>
    [{ abilityType := .static
       name := c.name
       rawText := raw
       effects := effectSteps ctx effect c.body }]

/-- The abilities of a segment. -/
def ofSegment (ctx : Context) (s : Segment) : List Draft :=
  ofClassified ctx s.raw (Classified.ofSegment ctx s)

end Draft

end CardText
