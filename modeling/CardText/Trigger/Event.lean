import CardText.Selector.Phrase

/-!
# Events

`Event.ofClause` reads the clause behind "when", "whenever" or "at": the event, and who or what it
happens to. The wordings are tried in the order of `Event.wordings`; a clause in none of them is
kept as printed.
-/

namespace CardText

/-- The two sides of a challenge. -/
inductive ChallengeRole where
  | attacker
  | defender
  deriving Repr, DecidableEq

/-- What sets off a triggered ability. -/
inductive Event where
  | play
  | quest
  | challenge (role : ChallengeRole)
  | banished (inChallenge : Bool)
  /-- The subject banishes another character in a challenge. -/
  | banishesInChallenge
  | ready
  | exerted
  | sing
  | moveToLocation
  | dealtDamage
  | drawCard
  | putIntoInkwell
  | startOfTurn (whose : Owner)
  | endOfTurn (whose : Owner)
  /-- An event as printed. -/
  | other (text : Text)
  deriving Repr, DecidableEq

namespace Event

open Template

/-! ### Subjects -/

/-- The subjects that are the source card; `none` is the kind of the source card. -/
def selfSubjects : List (String × Option ObjectKind) :=
  [("she", none), ("he", none), ("it", none), ("they", none),
   ("this character", some .character), ("this item", some .item),
   ("this location", some .location), ("this card", none)]

/-- The subject of an event: a pronoun is the source card, and a choice means any object that could
be chosen. -/
def subject (source : ObjectKind) (t : Text) : Selector :=
  match Text.lookup? selfSubjects t.trim.fold with
  | some kind => .this (kind.getD source)
  | none =>
    let s := Selector.ofPhrase source none t
    match s.quantifier with
    | .chosen _ => { s with quantifier := .each }
    | _ => s

/-- Whose turn is meant. -/
def turnOwner (whose : Text) : Owner :=
  if whose.fold = "your".toList then .you
  else if Text.has "opponent".toList whose.fold then .opponent
  else .any

/-- The players whose turn is meant. -/
def turnSubject (whose : Text) : Selector :=
  match turnOwner whose with
  | .you => .you
  | .opponent => .eachOpponent
  | .any => .players .each .any

/-! ### Wordings -/

/-- A wording of an event; its open place names the subject, or whose turn is meant. -/
structure Wording where
  template : Template Unit
  read : ObjectKind → Text → Event × Selector

/-- A wording of the event `e` with a subject. -/
def wording (e : Event) (ts : List (Template Unit)) : Wording :=
  ⟨phrase ts, fun source t => (e, subject source t)⟩

/-- A wording of the event `e` with a subject that belongs to `o`. -/
def wordingOf (o : Owner) (e : Event) (ts : List (Template Unit)) : Wording :=
  ⟨phrase ts, fun source t => (e, { subject source t with owner := o })⟩

/-- A wording of a turn's start or end. -/
def turnWording (e : Owner → Event) (ts : List (Template Unit)) : Wording :=
  ⟨phrase ts, fun _ t => (e (turnOwner t), turnSubject t)⟩

/-- The place of the subject in front of the verb. -/
def who : Template Unit := slot () words

/-- The place of the subject at the end. -/
def whom : Template Unit := slot () toLineEnd

/-- The wordings of events, the one to try first in front. -/
def wordings : List Wording :=
  [wording .play
    ["you play ",
      slot () (phrase ["this ", oneOf ["character", "item", "location", "card"]]), stop],
   wordingOf .you .play ["you play ", whom, stop],
   wordingOf .opponent .play
    [opt [oneOf ["an ", "each "]], oneOf ["opponents", "opponent"], " ",
      oneOf ["plays", "play"], " ", whom, stop],
   wording .banishesInChallenge
    [who, " ", oneOf ["banishes", "banish"], " ", toLineEnd, " in a challenge", stop],
   wording (.banished true) [who, " ", oneOf ["is", "are"], " banished in a challenge", stop],
   wording (.banished false) [who, " ", oneOf ["is", "are"], " banished", stop],
   wording (.challenge .defender) [who, " ", oneOf ["is", "are"], " challenged", stop],
   wording (.challenge .attacker)
    [who, " ", oneOf ["challenges", "challenge"], opt [" ", toLineEnd], stop],
   wording .quest [who, " ", oneOf ["quests", "quest"], stop],
   wording .ready ["you ready ", whom, stop],
   wording .ready [who, " ", oneOf ["is", "are", "becomes", "become"], " readied", stop],
   wording .exerted [who, " ", oneOf ["is", "are", "becomes", "become"], " exerted", stop],
   wording .sing
    [who, " ", oneOf ["sings", "sing"], " ", opt [oneOf ["a ", "another "]],
      oneOf ["songs", "song"], stop],
   wording .moveToLocation
    ["you move ", who, " ",
      alt "here" (phrase ["to ", oneOf ["a", "this"], " location"]), stop],
   wording .moveToLocation [who, " ", oneOf ["moves", "move"], " to a location", stop],
   wording .dealtDamage [who, " ", oneOf ["is", "are"], " dealt damage", stop],
   wording .drawCard
    [slot () (oneOf ["you", "an opponent", "each opponent", "a player"]), " ",
      oneOf ["draws", "draw"], " ", opt [oneOf ["a ", "another "]], oneOf ["cards", "card"], stop],
   wording .putIntoInkwell ["you put ", who, " into your inkwell", stop],
   wording .putIntoInkwell [slot () "this card", " is put into your inkwell", stop],
   turnWording .startOfTurn
    [opt ["the "], oneOf ["start", "beginning"], " of ", who, " ", oneOf ["turns", "turn"], stop],
   turnWording .endOfTurn [opt ["the "], "end of ", who, " ", oneOf ["turns", "turn"], stop]]

/-- The event of a clause and its subject, on a card of kind `source`. -/
def ofClause (source : ObjectKind) (clause : Text) : Event × Selector :=
  let clause := Text.dropTrailing (· == ',') clause.trim
  match wordings.findSome? fun w => (w.template.match? clause).map fun m =>
      w.read source (m.slot ()) with
  | some r => r
  | none => (.other clause, .this source)

end Event

end CardText
