import CardText.Effect.Scope
import CardText.Template
import CardText.Text.Numeral

/-!
# Wordings of effects

Each kind of action has its wordings. A wording has a template with open places, and the steps that
a match stands for. Templates are tied to the start of a clause only; what a match leaves over is a
note on its last step.

* `Slot`: the open places, of which `Slot.isFree` tells those that hold any text;
* `Wording`: the wordings by name;
* `Wording.template`, `Wording.read`: how each is printed and what it stands for;
* `Wording.all`: the table, in its order.
-/

namespace CardText

open Template

/-- The open places of an effect's wording. -/
inductive Slot where
  /-- Who or what the action is about. -/
  | target
  /-- Where damage is moved to. -/
  | destination
  /-- A number to compute, or a granted ability. -/
  | formula
  /-- Who acts, or the restriction on a card. -/
  | agent
  /-- An action outside the known ones. -/
  | action
  /-- How much or how many. -/
  | number
  /-- The change of a stat, and the stat. -/
  | delta
  | stat
  /-- The second change of a stat, and its stat. -/
  | secondDelta
  | secondStat
  | verb
  | atRandom
  | position
  | faceDown
  | exerted
  | keyword
  | mode
  | knownAction
  deriving Repr, DecidableEq

namespace Slot

/-- The place holds any text. What fills it does not speak for the wording. -/
def isFree : Slot → Bool
  | target => true
  | destination => true
  | formula => true
  | agent => true
  | action => true
  | _ => false

/-- The free places. -/
def free : List Slot := [target, destination, formula, agent, action]

example (s : Slot) : s ∈ free ↔ s.isFree = true := by cases s <;> decide

end Slot

/-- What fills the slot `s`, trimmed; a blank filling counts as none. -/
def Template.Match.filling? (m : Match Slot) (s : Slot) : Option Text :=
  ((m.slot? s).map Text.trim).filter fun t => !t.isEmpty

/-- The wordings of effects. -/
inductive Wording where
  -- changes of stats
  | modifyStat
  | loseStat
  -- damage dealt, put, removed and moved
  | dealDamage
  | dealDamageEqual
  | sourceDealsDamage
  | putDamage
  | removeDamage
  | moveDamage
  -- lore gained and lost
  | loreChange
  | loreEqual
  -- cards drawn and discarded
  | draw
  | drawUntil
  | discard
  | discardHand
  -- cards that go into another zone
  | returnToHand
  | putIntoHand
  | putIntoInkwell
  | shuffleIntoDeck
  | putOnDeck
  | putIntoDiscard
  -- cards played, looked at and revealed
  | playFree
  | play
  | lookAtTop
  | lookAtHand
  | revealHand
  | reveal
  | searchDeck
  -- changes on the board
  | banish
  | exert
  | ready
  | choosesAndActs
  | gainKeyword
  | gainAbility
  | restrictKnown
  | restrictOther
  -- ink saved
  | payLess
  | costsLess
  deriving Repr, DecidableEq

namespace Wording

/-! ### Readings of the places -/

/-- The amount in the number slot. -/
def amount? (m : Match Slot) : Option Amount := (m.filling? .number).bind Amount.ofText?

/-- The signed number in the number slot; one out of range counts as zero. -/
def number (m : Match Slot) : Int := ((m.filling? .number).bind Text.signed?).getD 0

/-- What fills the formula slot. -/
def formula (m : Match Slot) : Text := (m.filling? .formula).getD []

/-- The stat of a symbol's letter. -/
def statOf (letter : Text) : Stat :=
  if letter.lowerPlain = ['w'] then .willpower
  else if letter.lowerPlain = ['l'] then .lore
  else .strength

/-- The stat change of a pair of slots. -/
def statChange (m : Match Slot) (s : Scope) (change symbol : Slot) : List Step :=
  match (m.filling? change).bind Text.signed?, m.filling? symbol with
  | some n, some letter =>
    [{ s.step (.modifyStat (statOf letter)) (m.filling? .target) with
        amount := some (s.scaled (.exact n)) }]
  | _, _ => []

/-- An action on the target slot. -/
def onTarget (effect : Effect) (m : Match Slot) (s : Scope) : List Step :=
  [s.step effect (m.filling? .target)]

/-- An action on the target slot by the amount of the number slot. -/
def onTargetBy (effect : Effect) (m : Match Slot) (s : Scope) : List Step :=
  [{ s.step effect (m.filling? .target) with amount := amount? m }]

/-- An action of the players in the target slot. -/
def byPlayer (effect : Effect) (m : Match Slot) (s : Scope) (amount : Option Amount) :
    List Step :=
  [{ effect, target := s.player (m.filling? .target), amount }]

/-- The cards in the target slot go into a zone. They come from the play area unless the phrase
names a zone; a card that stays in its zone comes from nowhere. -/
def moveTo (zone : Zone) (position : Option DeckPosition) (exerted : Bool) (m : Match Slot)
    (s : Scope) : List Step :=
  let (target, additionalTargets) := s.targets (m.filling? .target)
  let origin := some (target.zone.getD .play)
  [{ effect := .moveCard (origin.filter (· != zone)) zone position exerted
     target
     additionalTargets }]

/-- The ink saved on the cards in the target slot. -/
def inkLess (m : Match Slot) (s : Scope) : List Step :=
  [{ s.step .costReduction (m.filling? .target) with
      amount := some (s.scaled (.exact (number m))) }]

/-- The granted keyword and its number. A number out of range is no number of a keyword. -/
def grantKeyword (m : Match Slot) (s : Scope) : List Step :=
  match m.filling? .keyword with
  | none => []
  | some t =>
    let valued : Option (Text × Int) :=
      (Text.breakOn? [' '] t.reverse).bind fun b =>
        (Text.signed? b.1.reverse).map fun n => (b.2.reverse, n)
    let name := (valued.map (·.1)).getD t
    let value := valued.map (·.2)
    match Keyword.ofName? name with
    | none => []
    | some k =>
      [{ s.step (.grantKeyword k value) (m.filling? .target) with amount := value.map .exact }]

/-- The words of a restriction. -/
def permissions : List (String × Permission) := [("must", .must), ("can", .can)]

/-- The actions that restrictions know by name. -/
def knownActions : List (String × GameAction) :=
  [("quest", .quest), ("challenge", .challenge), ("be challenged", .beChallenged),
   ("ready", .ready), ("sing songs", .singSongs), ("move", .move), ("move to locations", .move),
   ("challenge ready characters", .challengeReadyCharacters)]

/-- A restriction on the target slot. -/
def restrict (m : Match Slot) (s : Scope) : List Step :=
  let mode := ((m.filling? .mode).bind fun t => Text.lookup? permissions t.fold).getD .cannot
  let action := ((m.filling? .knownAction).bind fun t => Text.lookup? knownActions t.fold).getD
    (.other ((m.filling? .action).getD []))
  onTarget (.restriction action mode) m s

/-- The actions that players choose an object for; any other returns it to the hand. -/
def chosenActions : List (String × Effect) :=
  [("banishes", .banish), ("exerts", .exert), ("readies", .ready)]

/-- An action on an object that a player chooses; the note says who. -/
def chooseAndAct (m : Match Slot) (s : Scope) : List Step :=
  let chooser := ((m.filling? .agent).getD []).fold
  let effect := ((m.filling? .verb).bind fun t => Text.lookup? chosenActions t.fold).getD
    (.moveCard (some .play) .hand none false)
  let step := s.step effect (m.filling? .target)
  let owner := if Text.has "opponent".toList chooser then .opponent else step.target.owner
  [{ step with
      target.owner := owner
      note := some ("chosen by ".toList ++ chooser) }]

/-- The change of lore; a loss is negative. -/
def lore (m : Match Slot) (s : Scope) : List Step :=
  let n := (amount? m).getD (.exact 0)
  let loses := "lose".toList.isPrefixOf ((m.filling? .verb).getD []).fold
  byPlayer .loreChange m s (some (s.scaled (if loses then n.negate else n)))

/-- The owner of the deck that is looked at. -/
def deckOwner (m : Match Slot) (s : Scope) : Selector :=
  match m.filling? .target with
  | none => .you
  | some t =>
    if t.fold = "your".toList then .you
    else if t.fold = "each opponent's".toList then .eachOpponent
    else s.player (some (t.dropSuffixes "'s".toList))

/-! ### Parts of templates -/

/-- Who or what acts, in front of the verb, where it may be missing. -/
def subject : Template Slot := opt [slot .target words, " "]

/-- The target, as short as possible. -/
def object : Template Slot := slot .target words

/-- The target, up to the end of the clause. -/
def objectToEnd : Template Slot := slot .target toLineEnd

/-- The letter of a stat symbol. -/
def statLetter : Template Slot := oneOf ["s", "w", "l"]

/-- Digits behind "up to". -/
def upToDigits : Template Slot := phrase ["up to ", digits]

/-- Whose zone, with the owner that may follow. -/
def ownersZone : Template Slot :=
  phrase [oneOf ["your", "their", "its", "his", "her"], " ", opt [oneOf ["owner's ", "player's "]]]

/-- The keywords that can be granted, with their numbers. -/
def grantedKeyword : Template Slot :=
  alt "alert" (alt "bodyguard" (alt (phrase ["boost ", digits])
    (alt (phrase ["challenger ", signedDigits]) (alt "evasive" (alt "reckless"
      (alt (phrase ["resist ", signedDigits]) (alt "rush" (alt (phrase ["singer ", digits])
        (alt (phrase ["sing together ", digits]) (alt "support" (alt "vanish" "ward")))))))))))

/-! ### Templates -/

/-- How the wording is printed. -/
def template : Wording → Template Slot
  | .modifyStat => phrase [subject, oneOf ["gets", "get", "has", "have"], " ",
      slot .delta signedDigits, " \x7b", slot .stat statLetter, "\x7d",
      opt [" and ", slot .secondDelta signedDigits, " \x7b", slot .secondStat statLetter, "\x7d"]]
  | .loseStat => phrase [subject, oneOf ["loses", "lose"], " ", slot .number digits, " \x7b",
      slot .stat statLetter, "\x7d"]
  | .dealDamage => phrase ["deal ", slot .number (alt upToDigits (alt digits
      (oneOf ["a", "an", "one", "two", "three", "four", "five"]))), " damage to ", objectToEnd,
      stop]
  | .dealDamageEqual => phrase ["deal damage to ", object, " equal to ",
      slot .formula toLineEnd, stop]
  | .sourceDealsDamage => phrase [slot .agent words, " ", oneOf ["deals", "deal"], " ",
      slot .number digits, " damage to ", objectToEnd, stop]
  | .putDamage => phrase ["put ", slot .number (alt (oneOf ["a", "an", "one", "two", "three"])
      digits), " damage ", opt [oneOf ["counters ", "counter "]], "on ", objectToEnd, stop]
  | .removeDamage => phrase ["remove ", slot .number (alt upToDigits (alt digits "all")),
      " damage ", opt [oneOf ["counters ", "counter "]], "from ", objectToEnd, stop]
  | .moveDamage => phrase ["move ", slot .number (alt upToDigits (alt digits
      (oneOf ["all", "a", "an", "one"]))), " damage ", opt [oneOf ["counters ", "counter "]],
      "from ", object, " to ", slot .destination toLineEnd, stop]
  | .loreChange => phrase [subject, slot .verb (oneOf ["gains", "gain", "loses", "lose"]), " ",
      slot .number (alt upToDigits digits), " lore"]
  | .loreEqual => phrase [subject, oneOf ["gains", "gain"], " lore equal to ",
      slot .formula toLineEnd, stop]
  | .draw => phrase [subject, oneOf ["draws", "draw"], " ", slot .number (alt upToDigits
      (alt (oneOf ["a", "an", "one", "two", "three", "four", "five"]) digits)), " card",
      opt ["s"]]
  | .drawUntil => phrase [subject, oneOf ["draws", "draw"], " cards until ",
      slot .formula toLineEnd, stop]
  | .discard => phrase [lazyOpt [slot .target words, " "],
      opt [oneOf ["chooses", "choose"], " and "], oneOf ["discards", "discard"], " ",
      slot .number (alt upToDigits (alt (oneOf ["a", "an", "one", "two", "three"]) digits)), " ",
      opt [slot .agent words, " "], "card", opt ["s"], opt [slot .atRandom " at random"]]
  | .discardHand => phrase [subject, oneOf ["discards", "discard"], " ",
      oneOf ["your", "their", "his", "her"], " hand"]
  | .returnToHand => phrase ["return ", object, " to ",
      oneOf ["their", "your", "its", "his", "her"], " ",
      opt [oneOf ["owner's ", "owners' ", "player's ", "players' "]], "hand", opt ["s"]]
  | .putIntoHand => phrase ["put ", object, " into ",
      oneOf ["your", "their", "its owner's", "his", "her"], " hand"]
  | .putIntoInkwell => phrase ["put ", object, " into ", ownersZone, "inkwell",
      opt [slot .faceDown " facedown"], opt [slot .exerted " and exerted"]]
  | .shuffleIntoDeck => phrase ["shuffle ", object, " into ", ownersZone, "deck"]
  | .putOnDeck => phrase ["put ", object, " on the ", slot .position (oneOf ["top", "bottom"]),
      " of ", ownersZone, "deck"]
  | .putIntoDiscard => phrase ["put ", object, " into ", ownersZone, "discard"]
  | .playFree => phrase ["play ", object, " for free"]
  | .play => phrase ["play ", objectToEnd, stop]
  | .lookAtTop => phrase ["look at the top ", slot .number (alt
      (oneOf ["a", "one", "two", "three", "four", "five", "six", "seven"]) digits), " card",
      opt ["s"], " of ",
      slot .target (oneOf ["your", "their", "chosen player's", "each opponent's"]), " deck"]
  | .lookAtHand => phrase ["look at ", object, opt ["'s"], " hand", opt ["s"], stop]
  | .revealHand => phrase [object, " reveal", opt ["s"], " ",
      oneOf ["their", "his", "her", "your"], " hand"]
  | .reveal => phrase ["reveal ", objectToEnd, stop]
  | .searchDeck => phrase ["search ", oneOf ["your", "their"], " deck for ", objectToEnd, stop]
  | .banish => phrase ["banish ", objectToEnd, stop]
  | .exert => phrase ["exert ", objectToEnd, stop]
  | .ready => phrase ["ready ", objectToEnd, stop]
  | .choosesAndActs => phrase [
      slot .agent (oneOf ["each opponent", "each player", "chosen opponent", "an opponent"]),
      " chooses ", opt ["and "],
      slot .verb (oneOf ["banishes", "exerts", "readies", "returns"]), " ", object,
      opt [" to ", oneOf ["their", "his", "her"], " hand"], stop]
  | .gainKeyword => phrase [subject, oneOf ["gains", "gain", "has", "have", "gets", "get"], " ",
      slot .keyword grantedKeyword, edge]
  | .gainAbility => phrase [subject, oneOf ["gains", "gain", "has", "have"], " \"",
      slot .formula (longest (· != '"')), "\""]
  | .restrictKnown => phrase [subject, slot .mode (oneOf ["can't", "cannot", "must", "can"]), " ",
      slot .knownAction (oneOf ["challenge ready characters", "be challenged", "sing songs",
        "quest", "challenge", "ready", "move to locations", "move"]), edge]
  | .restrictOther => phrase [subject, slot .mode (oneOf ["can't", "cannot", "must"]), " ",
      slot .action toLineEnd, stop]
  | .payLess => phrase [opt ["you "], "pay", opt ["s"], " ", slot .number digits,
      " \x7bi\x7d less ", oneOf ["to play", "for"], " ", object, stop]
  | .costsLess => phrase [object, " cost", opt ["s"], " ", slot .number digits,
      " \x7bi\x7d less"]

/-! ### Readings -/

/-- The steps that a match of the wording stands for. -/
def read : Wording → Match Slot → Scope → List Step
  | .modifyStat => fun m s => statChange m s .delta .stat ++ statChange m s .secondDelta .secondStat
  | .loseStat => fun m s =>
    [{ s.step (.modifyStat (statOf ((m.filling? .stat).getD []))) (m.filling? .target) with
        amount := some (.exact (-number m)) }]
  | .dealDamage => onTargetBy .damage
  | .dealDamageEqual => fun m s =>
    [{ s.step .damage (m.filling? .target) with amount := some (.computed (formula m)) }]
  | .sourceDealsDamage => fun m s =>
    [{ s.step .damage (m.filling? .target) with
        amount := amount? m
        note := (m.filling? .agent).map ("dealt by ".toList ++ ·) }]
  | .putDamage => onTargetBy .damage
  | .removeDamage => onTargetBy .heal
  | .moveDamage => fun m s =>
    onTargetBy (.moveDamage (s.targets (m.filling? .destination)).1) m s
  | .loreChange => lore
  | .loreEqual => fun m s => byPlayer .loreChange m s (some (.computed (formula m)))
  | .draw => fun m s => byPlayer .drawCards m s (some (s.scaled ((amount? m).getD (.exact 1))))
  | .drawUntil => fun m s =>
    byPlayer .drawCards m s (some (.computed ("until ".toList ++ formula m)))
  | .discard => fun m s =>
    (byPlayer (.discard (m.filling? .atRandom).isSome) m s (amount? m)).map fun step =>
      { step with note := (m.filling? .agent).map (· ++ " card".toList) }
  | .discardHand => fun m s => byPlayer (.discard false) m s (some .all)
  | .returnToHand => moveTo .hand none false
  | .putIntoHand => moveTo .hand none false
  | .putIntoInkwell => fun m s => moveTo .inkwell none (m.filling? .exerted).isSome m s
  | .shuffleIntoDeck => moveTo .deck (some .shuffled) false
  | .putOnDeck => fun m s =>
    let top := ((m.filling? .position).getD []).fold = "top".toList
    moveTo .deck (some (if top then .top else .bottom)) false m s
  | .putIntoDiscard => moveTo .discard none false
  | .playFree => onTarget (.playCard true)
  | .play => onTarget (.playCard false)
  | .lookAtTop => fun m s =>
    [{ effect := .lookAtCards, target := deckOwner m s, amount := amount? m }]
  | .lookAtHand => fun m s => byPlayer .lookAtCards m s (some .all)
  | .revealHand => fun m s => byPlayer .reveal m s (some .all)
  | .reveal => onTarget .reveal
  | .searchDeck => fun m s =>
    (onTarget .reveal m s).map fun step => { step with target.zone := some .deck }
  | .banish => onTarget .banish
  | .exert => onTarget .exert
  | .ready => onTarget .ready
  | .choosesAndActs => chooseAndAct
  | .gainKeyword => grantKeyword
  | .gainAbility => fun m s => onTarget (.grantAbility (formula m)) m s
  | .restrictKnown => restrict
  | .restrictOther => restrict
  | .payLess => inkLess
  | .costsLess => inkLess

/-! ### The table -/

/-- All wordings. Of two that say as much, the one in front counts. -/
def all : List Wording :=
  [modifyStat, loseStat,
   dealDamage, dealDamageEqual, sourceDealsDamage, putDamage, removeDamage, moveDamage,
   loreChange, loreEqual,
   draw, drawUntil, discard, discardHand,
   returnToHand, putIntoHand, putIntoInkwell, shuffleIntoDeck, putOnDeck, putIntoDiscard,
   playFree, play, lookAtTop, lookAtHand, revealHand, reveal, searchDeck,
   banish, exert, ready, choosesAndActs, gainKeyword, gainAbility, restrictKnown, restrictOther,
   payLess, costsLess]

theorem mem_all (w : Wording) : w ∈ all := by cases w <;> decide

end Wording

end CardText
