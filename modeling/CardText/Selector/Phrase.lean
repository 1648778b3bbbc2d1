import CardText.Selector.Basic
import CardText.Template
import CardText.Text.Letter
import CardText.Text.Numeral

/-!
# Selector phrases

`Selector.ofPhrase` reads a noun phrase of rules text such as "chosen opposing character with 3
{S} or less" as a selector.

* `Selector.fixed?`: the phrases that name one selector as a whole ("this character", "they");
* `Selector.takeBound`, `Selector.takeZone`, `Selector.takeName`, `Selector.takeQualifiers`: the
  filters of several words, each cut out of the phrase as it is read;
* `Selector.Walk`: the reading of the words that are left, one after the other. A word that says
  nothing known ends up in the qualifier.
-/

namespace CardText

namespace Selector

open Template

/-! ### Phrases read as a whole -/

/-- The phrases for the source card, with the kind of object they name; `none` is the kind of the
source card. -/
def selfPhrases : List (String × Option ObjectKind) :=
  [("this character", some .character), ("this item", some .item),
   ("this location", some .location), ("this card", none), ("itself", none), ("himself", none),
   ("herself", none), ("themselves", none)]

/-- The phrases for what was picked before. -/
def pronouns : List Text :=
  Text.lexicon
    ["they", "them", "it", "he", "she", "him", "her", "that character", "those characters",
     "that card", "that item", "that location", "the chosen character"]

/-- The phrases for players. -/
def playerPhrases : List (String × Selector) :=
  [("you", you), ("each opponent", eachOpponent), ("each of your opponents", eachOpponent),
   ("your opponents", eachOpponent), ("opponents", eachOpponent), ("your opponent", eachOpponent),
   ("all opponents", eachOpponent), ("each player", players .each .any),
   ("all players", players .each .any), ("players", players .each .any),
   ("chosen opponent", players (.chosen 1) .opponent),
   ("an opponent", players (.chosen 1) .opponent),
   ("target opponent", players (.chosen 1) .opponent),
   ("chosen player", players (.chosen 1) .any), ("a player", players (.chosen 1) .any)]

/-- The selector of a phrase that is read as a whole, given in lower case. -/
def fixed? (source : ObjectKind) (antecedent : Option Selector) (phrase : Text) :
    Option Selector :=
  match Text.lookup? selfPhrases phrase with
  | some kind => some (this (kind.getD source))
  | none =>
    if pronouns.contains phrase then some (ofAntecedent source antecedent)
    else Text.lookup? playerPhrases phrase

/-! ### Filters of several words -/

/-- The open places of the filters. -/
inductive Slot where
  | value
  | symbol
  | comparison
  | holder
  | zone
  | name
  deriving Repr, DecidableEq

/-- The words of a comparison, as in "3 or less". -/
def comparisonTail : Template Slot :=
  opt [" or ", slot .comparison (oneOf ["less", "lower", "more", "greater", "higher"])]

/-- The template "with cost 3 or less". -/
def costFilter : Template Slot :=
  phrase [edge, "with ", opt ["a "], "cost ", opt ["of "], slot .value digits, comparisonTail]

/-- The template "with 3 {S} or more". -/
def statFilter : Template Slot :=
  phrase [edge, "with ", slot .value digits, " \x7b", slot .symbol (oneOf ["s", "w", "l"]), "\x7d",
    comparisonTail]

/-- The template "with 2 or more damage". -/
def damageFilter : Template Slot :=
  phrase [edge, "with ", slot .value digits, " ", opt ["or more "], "damage", opt [" or more"]]

/-- The template "from your discard". -/
def zoneFilter : Template Slot :=
  phrase [edge, oneOf ["from", "in", "into"], " ",
    slot .holder (oneOf ["your", "their", "an opponent's", "chosen player's", "a player's",
      "each player's", "its owner's"]),
    " ", slot .zone (oneOf ["discard", "hand", "deck", "inkwell"]), edge]

/-- The template "named Ariel", up to a word that begins another part of the phrase. -/
def nameFilter : Template Slot :=
  phrase [edge, "named ", slot .name (shortest (· != ',')),
    alt (phrase [gap, oneOf ["with", "in", "at", "from", "of yours"], edge]) stop]

/-- The words of a comparison that asks for at most a value. -/
def lowerWords : List Text := Text.lexicon ["less", "lower"]

/-- The comparison that a word asks for; without a word the value has to be met exactly. -/
def comparisonOf (word : Option Text) : Comparison :=
  match word with
  | none => .exactly
  | some w => if lowerWords.contains w.fold then .atMost else .atLeast

/-- The stat of a symbol's letter. -/
def statOf (letter : Text) : Attribute :=
  match letter with
  | ['S'] => .strength
  | ['s'] => .strength
  | ['W'] => .willpower
  | ['w'] => .willpower
  | _ => .lore

/-- The value of a filter. A numeral out of range counts as zero. -/
def valueOf (m : Match Slot) : Nat := ((m.slot .value).natural?).getD 0

/-- The numeric filter of a phrase, and the phrase without it. A filter on the cost goes before one
on a stat, and that before one on the damage. -/
def takeBound (t : Text) : Option Bound × Text :=
  match costFilter.search? t with
  | some (front, m) =>
    (some ⟨.cost, comparisonOf (m.slot? .comparison), valueOf m⟩, front ++ m.rest)
  | none =>
    match statFilter.search? t with
    | some (front, m) =>
      (some ⟨statOf (m.slot .symbol), comparisonOf (m.slot? .comparison), valueOf m⟩,
        front ++ m.rest)
    | none =>
      match damageFilter.search? t with
      | some (front, m) => (some ⟨.damage, .atLeast, valueOf m⟩, front ++ m.rest)
      | none => (none, t)

/-- The zones by name. -/
def zoneNames : List (String × Zone) :=
  [("discard", .discard), ("hand", .hand), ("deck", .deck), ("inkwell", .inkwell)]

/-- The holders of a zone that tell whose objects are meant. -/
def holderOwners : List (String × Owner) := [("your", .you), ("an opponent's", .opponent)]

/-- The zone of a phrase with the owner it tells, and the phrase without it. -/
def takeZone (t : Text) : Option (Zone × Option Owner) × Text :=
  match zoneFilter.search? t with
  | some (front, m) =>
    (some ((Text.lookup? zoneNames (m.slot .zone).fold).getD .inkwell,
        Text.lookup? holderOwners (m.slot .holder).fold),
      front ++ m.rest)
  | none => (none, t)

/-- The name that a phrase asks for, and the phrase without it. What is taken out is the first
place that reads like the filter, in its own letter case; the word behind the name stays if
"named" is in lower case. -/
def takeName (t : Text) : Option Text × Text :=
  match nameFilter.search? t with
  | some (_, m) =>
    let tail := (("named ".toList ++ m.slot .name).isPrefixOf? m.whole).getD []
    let left :=
      match Text.breakOn? m.whole t with
      | some (front, after) => front ++ tail ++ after
      | none => t
    (some (m.slot .name).trim, left)
  | none => (none, t)

/-- The phrases that are kept as printed. -/
def qualifierPhrases : List Text :=
  Text.lexicon
    ["at a location", "at this location", "while here", "here", "in a challenge", "this turn"]

/-- The text in front of the first place where `part` stands, in either letter case, between
characters that are no letters or numerals, together with the part as printed and the text behind
it; `before` stands in front of the text. -/
def breakOnWords? (part : Text) : Option Char → Text → Option (Text × Text × Text)
  | _, [] => none
  | before, c :: r =>
    let here := (c :: r).take part.length
    let after := (c :: r).drop part.length
    if Text.lowerPlain here = part ∧ !before.any Text.isAlnum ∧ !after.head?.any Text.isAlnum then
      some ([], here, after)
    else (breakOnWords? part (some c) r).map fun b => (c :: b.1, b.2)

/-- The phrases of `parts` that a text has, each taken out where it stands first, and the rest. -/
def takeQualifiers : List Text → Text → List Text × Text
  | [], t => ([], t)
  | part :: parts, t =>
    match breakOnWords? part none t with
    | some (front, found, after) =>
      let (more, left) := takeQualifiers parts (front ++ after)
      (found :: more, left)
    | none => takeQualifiers parts t

/-- A text that has none of the phrases stays as it is. -/
theorem takeQualifiers_eq_self {parts : List Text} {t : Text}
    (h : ∀ part ∈ parts, breakOnWords? part none t = none) : takeQualifiers parts t = ([], t) := by
  induction parts with
  | nil => rfl
  | cons part parts ih =>
    obtain ⟨hpart, hparts⟩ := List.forall_mem_cons.1 h
    rw [takeQualifiers, hpart]
    exact ih hparts

/-! ### Words -/

/-- What a word of a selector phrase says. -/
inductive Role where
  /-- The word "chosen". -/
  | chosen
  /-- Each or all of the objects. -/
  | every (q : Quantifier)
  /-- The word "another". -/
  | another
  /-- The word "other". -/
  | other
  | owned (o : Owner)
  /-- An article or "one". -/
  | single
  | damaged (b : Bool)
  | exerted (b : Bool)
  | noun (k : ObjectKind) (plural : Bool)
  | song (plural : Bool)
  | card (plural : Bool)
  /-- The word "up" of "up to". -/
  | up
  /-- The word "of". -/
  | of
  deriving Repr, DecidableEq

/-- The words that have a role. -/
def roles : List (String × Role) :=
  [("up", .up), ("chosen", .chosen), ("each", .every .each), ("all", .every .all),
   ("another", .another), ("other", .other), ("your", .owned .you), ("yours", .owned .you),
   ("opposing", .owned .opponent), ("opponent's", .owned .opponent),
   ("opponents'", .owned .opponent), ("a", .single), ("an", .single), ("one", .single),
   ("damaged", .damaged true), ("undamaged", .damaged false), ("exerted", .exerted true),
   ("ready", .exerted false), ("character", .noun .character false),
   ("characters", .noun .character true), ("item", .noun .item false), ("items", .noun .item true),
   ("location", .noun .location false), ("locations", .noun .location true),
   ("action", .noun .action false), ("actions", .noun .action true), ("song", .song false),
   ("songs", .song true), ("card", .card false), ("cards", .card true), ("of", .of)]

/-- Words that add nothing to a selector. -/
def fillers : List Text :=
  Text.lexicon
    ["the", "of", "in", "play", "to", "their", "its", "or", "and", "that", "is", "are", "who",
     "which", "have", "has", "from", "card", "cards"]

/-- Words that never belong to a classification, even in capitals. -/
def vocabulary : List Text :=
  Text.lexicon
    ["chosen", "each", "all", "up", "to", "your", "yours", "opposing", "another", "other", "a",
     "an", "one", "this", "that", "those", "these", "of", "with", "damaged", "undamaged",
     "exerted", "ready", "character", "characters", "item", "items", "location", "locations",
     "action", "actions", "song", "songs", "card", "cards", "player", "players", "opponent",
     "opponents", "opponent's", "in", "play", "the", "and", "or", "named", "their", "it", "them",
     "they", "you", "here"]

/-- The word begins in upper case. -/
def isCapitalized (w : Text) : Bool := w.head?.any Text.isUpper

/-- The word belongs to the name of a classification. -/
def isTraitWord (w : Text) : Bool := !vocabulary.contains w.fold && isCapitalized w

/-- Punctuation around a word. -/
def isPunctuation (c : Char) : Bool := c == ',' || c == '.' || c == ';' || c == '"'

/-- The words of a text without the punctuation around them. -/
def bareWords (t : Text) : List Text :=
  (t.words.map (Text.dropAround isPunctuation)).filter fun w => !w.isEmpty

/-! ### The walk over the words -/

/-- The reading of a phrase so far. -/
structure Walk where
  selector : Selector
  quantifier : Option Quantifier := none
  plural : Bool := false
  /-- The words of the classification that is being read. -/
  trait : List Text := []
  /-- Words that say nothing known. -/
  leftovers : List Text := []
  deriving Repr, DecidableEq

namespace Walk

/-- Ends the classification that is being read. -/
def flush (w : Walk) : Walk :=
  if w.trait.isEmpty then w
  else { w with selector := w.selector.withTrait (Text.unwords w.trait), trait := [] }

/-- Keeps a word as it is printed. -/
def keep (word : Text) (w : Walk) : Walk := { w with leftovers := w.leftovers ++ [word] }

/-- Takes the quantifier `q` unless there is one already. -/
def orQuantifier (q : Quantifier) (w : Walk) : Walk :=
  { w with quantifier := w.quantifier.or (some q) }

/-- Takes a kind of object, in the singular or plural. -/
def noun (k : ObjectKind) (plural : Bool) (w : Walk) : Walk :=
  { w with plural := w.plural || plural, selector := w.selector.withKind k }

/-- The word "chosen" leaves a number of chosen objects as it is. -/
def choose (w : Walk) : Walk :=
  match w.quantifier with
  | some (.upTo _) => w
  | some (.chosen _) => w
  | _ => { w with quantifier := some (.chosen 1) }

/-- A word without a role: a number of objects if none is known yet, else a word to keep unless it
adds nothing. -/
def other (word : Text) (w : Walk) : Walk :=
  match if w.quantifier.isNone then word.fold.natural? else none with
  | some n => { w with quantifier := some (.chosen n) }
  | none => if fillers.contains word.fold then w else w.keep word

/-- Takes the word `word` of role `role`, with `next` behind it. -/
def take (word : Text) (next : Option Text) (w : Walk) : Role → Walk
  | .chosen => w.choose
  | .every q => { w with quantifier := some q }
  | .another => { w with selector.excludeSelf := true }.orQuantifier (.chosen 1)
  | .other => { w with selector.excludeSelf := true }
  | .owned o => { w with selector.owner := o }
  | .single => w.orQuantifier (.chosen 1)
  | .damaged b => { w with selector.damaged := some b }
  | .exerted b => { w with selector.exerted := some b }
  | .noun k plural => w.noun k plural
  | .song plural =>
    let w := w.noun .action plural
    { w with selector := w.selector.withTrait "Song".toList }
  | .card plural =>
    let w := { w with plural := w.plural || plural }
    -- "card named" only introduces a name
    if w.selector.kinds.isEmpty ∧ next.map Text.fold ≠ some "named".toList then
      { w with selector := w.selector.withKind .card }
    else w
  | .up => w.keep word
  | .of => w.other word

/-- Reads the words one after the other. -/
def run : List Text → Walk → Walk
  | [], w => w.flush
  | word :: rest, w =>
    if isTraitWord word then run rest { w with trait := w.trait ++ [word] }
    else
      let w := w.flush
      match Text.lookup? roles word.fold with
      | none => run rest (w.other word)
      | some .up =>
        match rest with
        | link :: number :: rest' =>
          match if link.fold = "to".toList then number.count? else none with
          | some n => run rest' { w with quantifier := some (.upTo n) }
          | none => run (link :: number :: rest') (w.keep word)
        | rest => run rest (w.keep word)
      | some .of =>
        match rest with
        | next :: rest' =>
          if (Text.lexicon ["yours", "your"]).contains next.fold then
            run rest' { w with selector.owner := .you }
          else run (next :: rest') (w.other word)
        | [] => run [] (w.other word)
      | some role => run rest (w.take word rest.head? role)

/-- The selector of a phrase whose words are read. "Card" as a kind counts only where no other kind
is named. Without a word for the quantity, all objects are meant if the noun is in the plural or
an owner is named, and one otherwise. -/
def result (w : Walk) : Selector :=
  let s := w.selector
  { s with
    kinds := if s.kinds.length > 1 then s.kinds.filter (· != .card) else s.kinds
    quantifier := w.quantifier.getD (if w.plural || s.owner != .any then .all else .chosen 1)
    qualifier := if w.leftovers.isEmpty then none else some (Text.unwords w.leftovers) }

end Walk

/-! ### Phrases -/

/-- The walk before its first word, and its words: all filters of several words are read. -/
def openWalk (phrase : Text) : Walk × List Text :=
  let (bound, t) := takeBound phrase
  let (zone, t) := takeZone t
  let (name, t) := takeName t
  let (qualifiers, t) := takeQualifiers qualifierPhrases t
  let selector : Selector :=
    { quantifier := .chosen 1
      owner := (zone.bind (·.2)).getD .any
      name
      bound
      zone := zone.map (·.1) }
  ({ selector, leftovers := qualifiers }, bareWords t)

/-- The selector of a phrase that is read word by word. "One of" picks one object although the noun
is in the plural. -/
def ofWords (phrase : Text) : Selector :=
  let (walk, words) := openWalk phrase
  let s := (walk.run words).result
  if "one of".toList.isPrefixOf phrase.fold then { s with quantifier := .chosen 1 } else s

/-- The selector of a phrase on a card of kind `source`; pronouns refer to `antecedent`. -/
def ofPhrase (source : ObjectKind) (antecedent : Option Selector) (phrase : Text) : Selector :=
  let phrase := phrase.tidy
  match fixed? source antecedent phrase.fold with
  | some s => s
  | none => ofWords phrase

end Selector

end CardText
