import CardText.Effect.Basic
import CardText.Template

/-!
# Modifiers

Words around an action say when it happens, how long it lasts, how often, and whether it has to.

* `Frame.ofSentence`: what the front of a sentence says about all of it, and the sentence without
  it (`Frame.front?` takes one such phrase off);
* `Modifiers.ofClause`: what a clause says around its action, and the action.
-/

namespace CardText

open Template

/-! ### The front of a sentence -/

/-- What holds for all steps of a sentence. -/
structure Frame where
  condition : Option Condition := none
  duration : Option Duration := none
  deriving Repr, DecidableEq

namespace Frame

/-- The template "Then, ". -/
def thenFront : Template Unit := phrase ["then", opt [","], gap]

/-- The template "If you do, ". -/
def ifFront : Template Unit := phrase ["if ", slot () (longest (· != ',')), ",", optGap]

/-- The template "While this character is exerted, ". -/
def whileFront : Template Unit := phrase ["while ", slot () (longest (· != ',')), ",", optGap]

/-- The template "During your turn, ". -/
def duringFront : Template Unit :=
  phrase [slot () (oneOf ["during your turn", "during an opponent's turn",
    "during opponents' turns"]), ",", optGap]

/-- The template "This turn, ". -/
def thisTurnFront : Template Unit :=
  phrase [oneOf ["for the rest of this turn", "this turn"], ",", optGap]

/-- The template "Until the start of your next turn, ". -/
def nextTurnFront : Template Unit := phrase ["until the start of your next turn,", optGap]

/-- The template "Once per turn, ". -/
def delayFront : Template Unit :=
  phrase [slot () (alt "once per turn"
    (phrase ["at the end of ", oneOf ["the", "your", "this"], " turn"])), ",", optGap]

/-- What a phrase at the front of a sentence says. -/
inductive Front where
  | nothing
  | condition (c : Condition)
  | duration (d : Duration)
  deriving Repr, DecidableEq

/-- The phrases at the front of a sentence in the order in which they are tried, with what they
say. -/
def fronts : List (Template Unit × (Text → Front)) :=
  [(thenFront, fun _ => .nothing),
   (ifFront, fun t => .condition (.ofPhrase t)),
   (whileFront, fun t => .condition (.ofPhrase t)),
   (duringFront, fun t => .condition (.ofPhrase t)),
   (thisTurnFront, fun _ => .duration .thisTurn),
   (nextTurnFront, fun _ => .duration .untilStartOfYourNextTurn),
   (delayFront, fun t => .condition (.printed t))]

theorem width_of_mem_fronts : ∀ f ∈ fronts, 0 < f.1.width := by decide

/-- The phrase that a sentence opens with, and the sentence without it. -/
def front? (t : Text) : Option (Front × Text) :=
  fronts.findSome? fun f =>
    (f.1.match? t).map fun m => (f.2 (m.slot ()), Text.dropLeading Text.isBlank m.rest)

theorem length_of_front? {t : Text} {f : Front × Text} (h : front? t = some f) :
    f.2.length < t.length := by
  obtain ⟨e, he, hf⟩ := List.exists_of_findSome?_eq_some h
  simp only [Option.map_eq_some_iff] at hf
  obtain ⟨m, hm, rfl⟩ := hf
  have h₁ := width_of_mem_fronts e he
  have h₂ := length_of_match? hm
  have h₃ := Text.length_dropLeading_le Text.isBlank m.rest
  simp only
  omega

/-- The frame together with one more phrase. The first condition stays, and the last duration
counts. -/
def add (frame : Frame) : Front → Frame
  | .nothing => frame
  | .condition c => { frame with condition := frame.condition.or (some c) }
  | .duration d => { frame with duration := some d }

/-- Takes phrases off the front of a sentence as long as there are any. -/
def take (frame : Frame) (t : Text) : Frame × Text :=
  match h : front? t with
  | none => (frame, t)
  | some (front, rest) =>
    have : rest.length < t.length := length_of_front? h
    take (frame.add front) rest
termination_by t.length

/-- The frame of a sentence, and the sentence without it. -/
def ofSentence (t : Text) : Frame × Text := take {} t.trim

end Frame

/-! ### Around an action -/

/-- What a clause says around its action. -/
structure Modifiers where
  optional : Bool := false
  duration : Option Duration := none
  condition : Option Condition := none
  /-- What is counted, where the amount holds for each of several things. -/
  counted : Option Text := none
  deriving Repr, DecidableEq

namespace Modifiers

/-- The template "they may draw a card". -/
def mayClause : Template Side :=
  phrase [opt [slot .head words, gap], "may", gap, slot .tail toLineEnd, stop]

/-- The template "draw a card if you have none". -/
def ifClause : Template Side :=
  phrase [slot .head words, opt [","], gap, "if ", slot .tail toLineEnd, stop]

/-- The template "gain 1 lore for each character". -/
def forEachClause : Template Side :=
  phrase [slot .head words, gap, "for each ", slot .tail toLineEnd, stop]

/-- The ends of a clause that tell its duration: the rest of this turn. -/
def thisTurnEnd : Template Side :=
  phrase [opt [","], gap,
    alt "for the rest of this turn" (alt "during this turn"
      (alt (phrase ["until the end of ", oneOf ["the", "this"], " turn"]) "this turn")), stop]

/-- The ends of a clause that tell its duration: the controller's next turn. -/
def nextTurnEnd : Template Side :=
  phrase [opt [","], gap, "until the start of your next turn", stop]

/-- The ends of a clause that tell its duration: the next turn of other players. -/
def theirTurnEnd : Template Side :=
  phrase [opt [","], gap, oneOf ["during", "at the start of", "until the end of"],
    " their next turn", stop]

/-- The ends of a clause that tell its duration: any other. -/
def otherEnd : Template Side :=
  phrase [opt [","], gap,
    slot .tail (phrase ["until ", oneOf ["the end of", "the start of"], " ", toLineEnd]), stop]

/-- The ends of a clause in the order in which they are tried, with the duration that they tell. -/
def endings : List (Template Side × (Text → Duration)) :=
  [(thisTurnEnd, fun _ => .thisTurn), (nextTurnEnd, fun _ => .untilStartOfYourNextTurn),
   (theirTurnEnd, fun _ => .theirNextTurn), (otherEnd, .until)]

/-- A clause without its "may", if it has one. The subject stays, unless it is the controller. -/
def takeMay (t : Text) : Bool × Text :=
  match mayClause.match? t with
  | none => (false, t)
  | some m =>
    match (m.slot? .head).map Text.trim with
    | none => (true, m.slot .tail)
    | some subject =>
      if Text.samePlain subject "you".toList then (true, m.slot .tail)
      else (true, subject ++ ' ' :: m.slot .tail)

/-- The duration at the end of a clause, and the clause without it. -/
def takeDuration (t : Text) : Option Duration × Text :=
  match endings.findSome? fun e => (e.1.search? t).map fun b => (e.2 (b.2.slot .tail), b.1) with
  | some (d, front) => (some d, front)
  | none => (none, t)

/-- The condition at the end of a clause, and the clause without it. -/
def takeIf (t : Text) : Option Condition × Text :=
  match ifClause.match? t with
  | some m => (some (.ofPhrase (m.slot .tail)), m.slot .head)
  | none => (none, t)

/-- What a clause counts at its end, and the clause without it. -/
def takeForEach (t : Text) : Option Text × Text :=
  match forEachClause.match? t with
  | some m => (some (m.slot .tail).trim, m.slot .head)
  | none => (none, t)

/-- The modifiers of a clause, and its action. A clause with quotes keeps its "may", "if" and "for
each": they belong to the quoted ability. -/
def ofClause (clause : Text) : Modifiers × Text :=
  let t := clause.tidy
  if t.contains '"' then
    let (duration, t) := takeDuration t
    ({ duration }, t.trim)
  else
    let (optional, t) := takeMay t
    let (duration, t) := takeDuration t
    let (condition, t) := takeIf t
    let (counted, t) := takeForEach t
    ({ optional, duration, condition, counted }, t.trim)

end Modifiers

end CardText
