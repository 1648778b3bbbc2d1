import CardText.Condition
import CardText.Options
import CardText.Trigger.Event

/-!
# Triggers

A triggered ability says in front of its effect when the effect happens: "During your turn,
whenever this character quests, draw a card."

* `Triggered.begins`: a text begins like a triggered ability;
* `Triggered.ofText?`: the triggers of such a text, one for each event, and its effect.
-/

namespace CardText

/-- When a triggered ability happens. -/
structure Trigger where
  event : Event
  /-- Who or what does or suffers the event. -/
  subject : Selector
  /-- What has to hold besides. -/
  guard : Option Condition := none
  oncePerTurn : Bool := false
  deriving Repr, DecidableEq

/-- A triggered ability taken apart. -/
structure Triggered where
  /-- One trigger for each event. -/
  triggers : List Trigger
  /-- The effect as printed. -/
  effect : Text
  /-- A condition of the effect, where the guard of the triggers is another one. -/
  condition : Option Condition := none
  deriving Repr, DecidableEq

namespace Triggered

open Template

/-! ### Wordings -/

/-- What can stand in front of the trigger word; the open place is all of it but the comma. -/
def limit : Template Unit :=
  phrase [slot () (oneOf ["once per turn", "once during your turn", "during your turn",
    "during an opponent's turn", "during opponents' turns"]), ",", optGap]

/-- The trigger word; the open place is the word alone. -/
def triggerWord : Template Unit := phrase [slot () (oneOf ["whenever", "when", "at"]), gap]

/-- What joins two trigger clauses. -/
def joint : Template Unit :=
  phrase [opt [","], gap, oneOf ["and", "or"], gap, oneOf ["whenever", "when"], gap]

theorem width_joint : 0 < joint.width := by decide

/-- An effect behind a condition. -/
def leadingIf : Template Side :=
  phrase ["if ", slot .head (longest (· != ',')), ",", optGap, slot .tail toLineEnd, stop]

/-- An event during a condition. -/
def innerWhile : Template Side :=
  phrase [slot .head words, " while ", slot .tail toLineEnd, stop]

/-- The ways to go on behind "at" in front of a turn's start or end. -/
def turnPoints : List Text :=
  Text.lexicon
    ["the start of", "the end of", "the beginning of", "start of", "end of"]

/-! ### Reading -/

/-- The text begins like a triggered ability. "At" needs the start or end of a turn behind it. -/
def begins (t : Text) : Bool :=
  let rest := match limit.match? t with
    | some m => m.rest
    | none => t
  match triggerWord.match? rest with
  | none => false
  | some m =>
    if Text.samePlain (m.slot ()) "at".toList then
      turnPoints.any fun p => p.isPrefixOf (Text.fold m.rest)
    else true

/-- The guard that a limit in front of the trigger word sets, and whether it allows one time per
turn only. -/
def limitOf (t : Text) : Option Condition × Bool :=
  if t.fold = "once per turn".toList then (none, true)
  else if t.fold = "once during your turn".toList then (some .duringYourTurn, true)
  else if t.fold = "during your turn".toList then (some .duringYourTurn, false)
  else (some .duringOpponentsTurn, false)

/-- The guard and the once-per-turn mark of a text, and the text behind its limit. -/
def takeLimit (t : Text) : (Option Condition × Bool) × Text :=
  match limit.match? t with
  | some m => (limitOf (m.slot ()), m.rest)
  | none => ((none, false), t)

/-- The trigger clause, which goes up to the first comma, and the effect behind it. -/
def takeClause (t : Text) : Text × Text :=
  match Text.breakOn? [','] t with
  | some (clause, effect) => (clause.trim, effect.trim)
  | none => (t.trim, [])

/-- The condition in front of an effect, and the effect without it. -/
def takeIf (effect : Text) : Option Condition × Text :=
  match leadingIf.match? effect with
  | some m => (some (.ofPhrase (m.slot .head)), m.slot .tail)
  | none => (none, effect)

/-- The condition inside a trigger clause, and the clause without it. -/
def takeWhile (clause : Text) : Option Condition × Text :=
  match innerWhile.match? clause with
  | some m => (some (.ofPhrase (m.slot .tail)), m.slot .head)
  | none => (none, clause)

/-- The clauses of the single events. -/
def clauses (options : Options) (clause : Text) : List Text :=
  let parts := if options.splitCompoundTriggers then joint.split width_joint clause else [clause]
  (parts.map Text.trim).filter fun p => !p.isEmpty

/-- The trigger of one clause. A condition inside the clause is the guard if there is no other. -/
def trigger (source : ObjectKind) (guard : Option Condition) (oncePerTurn : Bool)
    (clause : Text) : Trigger :=
  let (inner, clause) := takeWhile clause
  let (event, subject) := Event.ofClause source clause
  { event, subject, guard := guard.or inner, oncePerTurn }

/-- The triggers and the effect of a triggered ability. A condition in front of the effect is the
guard of the triggers if the limit has set none. -/
def ofText? (ctx : Context) (t : Text) : Option Triggered :=
  if !begins t then none
  else
    let ((limited, oncePerTurn), rest) := takeLimit t.trim
    match triggerWord.match? rest with
    | none => none
    | some m =>
      let (clause, effect) := takeClause m.rest
      let (condition, effect) := takeIf effect
      let guard := limited.or condition
      some
        { triggers := (clauses ctx.options clause).map (trigger ctx.source guard oncePerTurn)
          effect
          condition := if limited.isSome then condition else none }

end Triggered

end CardText
