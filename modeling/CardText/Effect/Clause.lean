import CardText.Amount
import CardText.Selector.Phrase

/-!
# Clauses

A sentence of rules text joins its actions by "and" and "then". `Clause.ofSentence` cuts it where
what stands in front of the conjunction has a verb and what stands behind it is an action of its
own, or an amount of damage that leaves out the verb. Quoted text is never cut.
-/

namespace CardText

namespace Clause

/-! ### Verbs -/

/-- The verbs that can open an instruction. -/
def imperatives : List Text :=
  Text.lexicon
    ["draw", "deal", "remove", "banish", "exert", "ready", "gain", "lose", "return", "put",
     "shuffle", "discard", "look", "reveal", "play", "move", "choose", "pay", "search", "give"]

/-- The verb forms that can follow a subject. -/
def verbForms : List Text :=
  Text.lexicon
    ["get", "gets", "gain", "gains", "lose", "loses", "can't", "cannot", "can", "must", "draw",
     "draws", "discard", "discards", "deal", "deals", "has", "have", "return", "returns",
     "choose", "chooses", "put", "puts", "reveal", "reveals", "banish", "banishes", "exert",
     "exerts", "ready", "readies", "pay", "pays", "remove", "removes", "look", "looks", "play",
     "plays", "move", "moves", "shuffle", "shuffles", "cost", "costs", "may", "search", "take",
     "takes"]

/-- The verb forms that go on with the subject of the clause before. -/
def continuations : List Text :=
  Text.lexicon
    ["gets", "gains", "loses", "can't", "cannot", "must", "draws", "deals", "returns"]

/-- The words that can open a subject. -/
def subjectOpenings : List Text :=
  Text.lexicon
    ["they", "he", "she", "it", "you", "each", "chosen", "your", "that", "this", "all",
     "opponents", "opposing", "another", "up", "one", "a", "an", "characters", "players", "their"]

/-- A word in lower case without the punctuation around it. -/
def bare (w : Text) : Text := (Text.dropAround Selector.isPunctuation w).fold

/-- The words have a verb among them. -/
def hasVerb (ws : List Text) : Bool :=
  ws.any fun w => imperatives.contains (bare w) || verbForms.contains (bare w)

/-- The imperative that a clause opens with. -/
def leadingVerb? (clause : Text) : Option Text :=
  (clause.words.head?.map bare).filter imperatives.contains

/-- The words are an action of their own: they open with a verb, or have one behind their subject
and in front of the next "and". -/
def isAction : List Text → Bool
  | [] => false
  | w :: ws =>
    imperatives.contains (bare w) || continuations.contains (bare w) ||
      subjectOpenings.contains (bare w) &&
        (ws.takeWhile fun v => bare v != "and".toList).any fun v => verbForms.contains (bare v)

/-- The words are an action of their own, where "you may" can stand in front of it. -/
def startsAction (ws : List Text) : Bool :=
  isAction (if (ws.take 2).map bare = Text.lexicon ["you", "may"] then ws.drop 2 else ws)

/-! ### Cutting -/

/-- The words of a clause in a row, without a comma at the end. -/
def join (ws : List Text) : Text := (Text.unwords ws).trimEnd (· == ',')

/-- The word opens or closes a quote. -/
def turnsQuote (w : Text) : Bool := w.count '"' % 2 == 1

/-- The word is a conjunction that can separate clauses. -/
def isConjunction (w : Text) : Bool := w.fold = "and".toList ∨ w.fold = "then".toList

/-- A clause can end in front of a conjunction: `left` is the clause, `right` are the words behind
the conjunction. -/
def endsHere (left right : List Text) : Bool :=
  1 < left.length && hasVerb left && (startsAction right || isElliptical (Text.unwords right))

/-- The clauses of the words that follow: `left` are, last first, the words of the open clause and
`quoted` tells whether a quote is open. "And then" is one conjunction. -/
def cutWords (left : List Text) (quoted : Bool) : List Text → List Text
  | [] => if left.isEmpty then [] else [join left.reverse]
  | w :: rest =>
    if quoted || turnsQuote w then cutWords (w :: left) (quoted != turnsQuote w) rest
    else if isConjunction w && !left.isEmpty then
      match rest with
      | [] => cutWords (w :: left) false []
      | next :: rest' =>
        if w.fold = "and".toList ∧ next.fold = "then".toList then
          if endsHere left.reverse rest' then join left.reverse :: cutWords [] false rest'
          else cutWords (w :: left) false (next :: rest')
        else if endsHere left.reverse (next :: rest') then
          join left.reverse :: cutWords [] false (next :: rest')
        else cutWords (w :: left) false (next :: rest')
    else cutWords (w :: left) false rest

/-- The clauses of a sentence. -/
def ofSentence (t : Text) : List Text := (cutWords [] false t.words).filter fun c => !c.isEmpty

end Clause

end CardText
