import CardText.Effect.Clause
import CardText.Effect.Modifier
import CardText.Effect.Wording
import CardText.Options
import CardText.Text.Reminder
import CardText.Text.Sentence

/-!
# The steps of an effect

`Step.ofEffect` reads the effect of an ability as a list of steps, sentence by sentence and clause
by clause.

* `Wording.best?`: of all wordings that match an action, the one that says most;
* `Step.ofAction?`: the steps of one action;
* `Reading`, `Reading.ofClauses`: the clauses of a sentence with their steps, where a clause hands
  on to the next what it picked, its verb, and whether it was optional;
* `Step.ofSentence`: the steps of a sentence, which share its duration and its condition.

A clause that is not understood is one step with its text, or none at all in strict reading.
-/

namespace CardText

open Template

/-! ### The wording that says most -/

namespace Wording

/-- How well a match fits: the length of what it matches outside the free slots, and the length of
all of it. -/
def fit (m : Match Slot) : Nat × Nat :=
  let length := Text.byteCount m.whole
  let free := Text.byteCount (Slot.free.flatMap m.slot)
  (length - free, length)

/-- A fit is worse than another: it says less, or as much on less text. -/
def worse (a b : Nat × Nat) : Bool := a.1 < b.1 || a.1 == b.1 && a.2 < b.2

/-- The wordings that match, with their matches. -/
def matching (ws : List Wording) (t : Text) : List (Wording × Match Slot) :=
  ws.filterMap fun w => (w.template.match? t).map fun m => (w, m)

/-- The first of the matches that no other fits better. -/
def pick? : List (Wording × Match Slot) → Option (Wording × Match Slot)
  | [] => none
  | c :: cs =>
    match pick? cs with
    | none => some c
    | some d => if worse (fit c.2) (fit d.2) then some d else some c

/-- The wording that says most about an action. -/
def best? (t : Text) : Option (Wording × Match Slot) := pick? (matching all t)

end Wording

/-! ### Actions -/

namespace Step

/-- Adds to the note of a step. -/
def addNote (t : Text) (s : Step) : Step :=
  { s with note := some (match s.note with
    | some note => note ++ "; ".toList ++ t
    | none => t) }

/-- What a match leaves over, without the punctuation around it. -/
def remainder (m : Match Slot) : Text :=
  (Text.dropAround Text.isPause (Text.trim m.rest)).trim

/-- Puts what a match leaves over into the note of the last step. -/
def noteLast (rest : Text) : List Step → List Step
  | [] => []
  | [s] => if rest.isEmpty then [s] else [s.addNote rest]
  | s :: ss => s :: noteLast rest ss

/-- The steps of an action, if it is understood. -/
def ofAction? (scope : Scope) (action : Text) : Option (List Step) :=
  match Wording.best? action with
  | none => none
  | some (w, m) =>
    let steps := w.read m scope
    if steps.isEmpty then none else some (noteLast (remainder m) steps)

/-- The step with the modifiers of its clause. -/
def modify (optional : Bool) (mods : Modifiers) (s : Step) : Step :=
  { s with
    optional
    duration := mods.duration.getD s.duration
    condition := mods.condition.or s.condition }

end Step

/-! ### Clauses -/

/-- What a clause hands on to the next one. -/
structure Thread where
  /-- What was picked last. -/
  antecedent : Option Selector := none
  /-- A clause of the sentence is optional, and so are all that follow it. -/
  optional : Bool := false
  /-- The last imperative of the sentence. -/
  verb : Option Text := none
  deriving Repr, DecidableEq

/-- A clause and its steps. -/
structure Reading where
  clause : Text
  mods : Modifiers
  steps : List Step
  deriving Repr, DecidableEq

namespace Reading

/-- The action of a clause; an amount that leaves out its verb takes the last one. -/
def completeAction (verb : Option Text) (action : Text) : Text :=
  match verb with
  | some v => if isElliptical action then v ++ ' ' :: action else action
  | none => action

/-- What the steps picked last; steps on players and steps that were not understood pick
nothing. -/
def picked? (steps : List Step) : Option Selector :=
  (steps.reverse.find? fun s => !s.isOpaque && !s.target.isPlayer).map (·.target)

/-- The reading of a clause, and what it hands on. A clause that strict reading leaves out hands on
only its verb. -/
def ofClause (ctx : Context) (thread : Thread) (clause : Text) : Reading × Thread :=
  let (mods, action) := Modifiers.ofClause clause
  let action := completeAction thread.verb action
  let verb := (Clause.leadingVerb? action).or thread.verb
  let scope : Scope := ⟨ctx.source, thread.antecedent, mods.counted⟩
  let understood := if action.isEmpty then none else Step.ofAction? scope action
  if understood.isNone && ctx.options.strict then (⟨clause, mods, []⟩, { thread with verb })
  else
    let optional := thread.optional || mods.optional
    let steps := (understood.getD [.ofOpaque clause]).map (Step.modify optional mods)
    (⟨clause, mods, steps⟩, ⟨(picked? steps).or thread.antecedent, optional, verb⟩)

/-- The readings of the clauses of a sentence, and what the last one hands on. -/
def ofClauses (ctx : Context) : Thread → List Text → List Reading × Thread
  | thread, [] => ([], thread)
  | thread, clause :: rest =>
    let (reading, next) := ofClause ctx thread clause
    let (readings, last) := ofClauses ctx next rest
    (reading :: readings, last)

end Reading

/-! ### Sentences -/

namespace Step

/-- The duration that is printed last. -/
def lastDuration? (steps : List Step) : Option Duration :=
  (steps.reverse.map (·.duration)).find? (· != .permanent)

/-- The duration printed last also holds for the lasting effects without one. -/
def shareDuration (steps : List Step) : List Step :=
  match lastDuration? steps with
  | none => steps
  | some d =>
    steps.map fun s =>
      if s.duration = .permanent ∧ s.effect.isContinuous then { s with duration := d } else s

/-- The step within its sentence: the duration of the sentence counts more than its own, its own
condition more than that of the sentence. -/
def inFrame (frame : Frame) (s : Step) : Step :=
  { s with
    duration := frame.duration.getD s.duration
    condition := s.condition.or frame.condition }

/-- The steps of a sentence, and what its clauses picked last; `antecedent` is what was picked
before. -/
def ofSentence (ctx : Context) (antecedent : Option Selector) (sentence : Text) :
    List Step × Option Selector :=
  let (frame, rest) := Frame.ofSentence sentence
  let (readings, thread) := Reading.ofClauses ctx { antecedent } (Clause.ofSentence rest)
  ((shareDuration (readings.flatMap (·.steps))).map (inFrame frame), thread.antecedent)

/-- The steps of sentences, each reading with what was picked in those before it. -/
def ofSentences (ctx : Context) : Option Selector → List Text → List Step
  | _, [] => []
  | antecedent, sentence :: rest =>
    let (steps, next) := ofSentence ctx antecedent sentence
    steps ++ ofSentences ctx next rest

/-- The steps of an effect. Reminder text is no part of it. -/
def ofEffect (ctx : Context) (t : Text) : List Step :=
  ofSentences ctx none t.body.sentences

end Step

end CardText
