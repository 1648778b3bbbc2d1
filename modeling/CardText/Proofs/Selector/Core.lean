import CardText.Proofs.Selector.Walk
import CardText.Proofs.Text.Sentence
import CardText.Text.Typography

/-!
# Core selector phrases

The phrases "up to 2 chosen opposing damaged characters with cost 3 or less" and their like: a
quantity, whose objects, which of them, their kind and a limit on one number.

* `Core.Phrase`, `Core.Phrase.text`, `Core.Phrase.selector`: the phrases, how they are printed and
  what they select;
* `Core.run_quantity`, `Core.run_owner`, …, `Core.run_noun`: the walk over the words of a phrase,
  part by part;
* `Core.vocabulary`: the words that the phrases are made of.
-/

namespace CardText

namespace Core

open Selector Template

/-! ### The phrases -/

/-- How many objects. -/
inductive Quantity where
  | chosen
  | upTo (n : Nat) (hn : n < Text.naturalBound)
  | each
  | all

/-- What kind of object. -/
inductive Noun where
  | character
  | item
  | location

/-- What a limit compares. -/
inductive Measure where
  | cost
  | strength
  | willpower
  | lore

/-- A limit on a number of the objects. -/
structure Limit where
  measure : Measure
  comparison : Comparison
  value : Nat
  value_lt : value < Text.naturalBound

/-- A core phrase. -/
structure Phrase where
  quantity : Quantity
  owner : Owner := .any
  /-- The phrase has the word "other". -/
  other : Bool := false
  damaged : Option Bool := none
  exerted : Option Bool := none
  noun : Noun
  plural : Bool := false
  limit : Option Limit := none

/-! ### Printing -/

/-- The words of a quantity. -/
def Quantity.words : Quantity → List Text
  | chosen => Text.lexicon ["chosen"]
  | upTo n _ => Text.lexicon ["up", "to"] ++ Text.ofNat n :: Text.lexicon ["chosen"]
  | each => Text.lexicon ["each"]
  | all => Text.lexicon ["all"]

/-- The words that tell whose objects are meant. -/
def ownerWords : Owner → List Text
  | .you => Text.lexicon ["of", "your"]
  | .opponent => Text.lexicon ["opposing"]
  | .any => []

/-- The words that tell whether only other objects are meant. -/
def otherWords (other : Bool) : List Text := if other then Text.lexicon ["other"] else []

/-- The words that tell whether damaged objects are meant. -/
def damagedWords : Option Bool → List Text
  | none => []
  | some true => Text.lexicon ["damaged"]
  | some false => Text.lexicon ["undamaged"]

/-- The words that tell whether exerted objects are meant. -/
def exertedWords : Option Bool → List Text
  | none => []
  | some true => Text.lexicon ["exerted"]
  | some false => Text.lexicon ["ready"]

/-- The words for the kind of object. -/
def Noun.words : Noun → Bool → List Text
  | character, plural => Text.lexicon [if plural then "characters" else "character"]
  | item, plural => Text.lexicon [if plural then "items" else "item"]
  | location, plural => Text.lexicon [if plural then "locations" else "location"]

/-- The words of a comparison. -/
def comparisonWords : Comparison → List Text
  | .exactly => []
  | .atMost => Text.lexicon ["or", "less"]
  | .atLeast => Text.lexicon ["or", "more"]

/-- The words of a limit. -/
def Limit.words (l : Limit) : List Text :=
  (match l.measure with
    | .cost => Text.lexicon ["with", "cost"] ++ [Text.ofNat l.value]
    | .strength => Text.lexicon ["with"] ++ [Text.ofNat l.value, Text.strengthSymbol]
    | .willpower => Text.lexicon ["with"] ++ [Text.ofNat l.value, Text.willpowerSymbol]
    | .lore => Text.lexicon ["with"] ++ [Text.ofNat l.value, Text.loreSymbol]) ++
  comparisonWords l.comparison

namespace Phrase

/-- The words in front of the limit. -/
def frontWords (p : Phrase) : List Text :=
  p.quantity.words ++ (ownerWords p.owner ++ (otherWords p.other ++ (damagedWords p.damaged ++
    (exertedWords p.exerted ++ p.noun.words p.plural))))

/-- The words of the phrase. -/
def words (p : Phrase) : List Text := p.frontWords ++ (p.limit.map Limit.words).getD []

/-- The phrase as it is printed. -/
def text (p : Phrase) : Text := Text.unwords p.words

end Phrase

/-! ### Meaning -/

/-- The number of objects that a quantity stands for. -/
def Quantity.quantifier : Quantity → Quantifier
  | chosen => .chosen 1
  | upTo n _ => .upTo n
  | each => .each
  | all => .all

/-- The kind of object that a noun stands for. -/
def Noun.kind : Noun → ObjectKind
  | character => .character
  | item => .item
  | location => .location

/-- The attribute that a limit compares. -/
def Measure.compared : Measure → Attribute
  | cost => .cost
  | strength => .strength
  | willpower => .willpower
  | lore => .lore

/-- The filter that a limit stands for. -/
def Limit.bound (l : Limit) : Bound := ⟨l.measure.compared, l.comparison, l.value⟩

/-- What the phrase selects. -/
def Phrase.selector (p : Phrase) : Selector :=
  { quantifier := p.quantity.quantifier
    owner := p.owner
    kinds := [p.noun.kind]
    excludeSelf := p.other
    bound := p.limit.map Limit.bound
    damaged := p.damaged
    exerted := p.exerted }

/-! ### The walk -/

section Walk

variable {w : Walk} {rest : List Text}

/-- A word that is no part of a classification does what its role says. -/
theorem run_cons {word : Text} {r : Role} (ht : isTraitWord word = false)
    (hr : Text.lookup? roles word.fold = some r) (hu : r ≠ .up) (ho : r ≠ .of)
    (hw : w.trait = []) :
    Walk.run (word :: rest) w = Walk.run rest (w.take word rest.head? r) := by
  rw [Walk.run, if_neg (by simp [ht]), Walk.flush_eq_self hw]
  simp only [hr]

theorem run_quantity (q : Quantity) (hw : w.trait = []) (hq : w.quantifier = none) :
    Walk.run (q.words ++ rest) w = Walk.run rest { w with quantifier := some q.quantifier } := by
  have hc : ∀ {v : Walk}, v.trait = [] →
      Walk.run (Text.lexicon ["chosen"] ++ rest) v = Walk.run rest v.choose := fun hv =>
    run_cons (r := .chosen) (by rfl) (by rfl) (by decide) (by decide) hv
  cases q with
  | chosen =>
    refine (hc hw).trans ?_
    simp [Walk.choose, hq, Quantity.quantifier]
  | each =>
    exact run_cons (r := .every .each) (by rfl) (by rfl) (by decide)
      (by decide) hw
  | all =>
    exact run_cons (r := .every .all) (by rfl) (by rfl) (by decide)
      (by decide) hw
  | upTo n hn =>
    have hu : Text.lookup? roles (Text.fold "up".toList) = some .up := by rfl
    have ht : isTraitWord "up".toList = false := by rfl
    have hto : Text.fold "to".toList = "to".toList := by rfl
    have : Walk.run (Quantity.words (.upTo n hn) ++ rest) w =
        Walk.run (Text.lexicon ["chosen"] ++ rest) { w with quantifier := some (.upTo n) } := by
      change Walk.run ("up".toList :: "to".toList :: Text.ofNat n :: _) w = _
      rw [Walk.run, if_neg (Bool.eq_false_iff.1 ht), Walk.flush_eq_self hw]
      simp only [hu, hto, if_pos, Text.count?_ofNat hn]
      rfl
    exact this.trans (hc (v := { w with quantifier := some (.upTo n) }) hw)

theorem run_owner (o : Owner) (hw : w.trait = []) (ho : w.selector.owner = .any) :
    Walk.run (ownerWords o ++ rest) w = Walk.run rest { w with selector.owner := o } := by
  cases o with
  | you =>
    have hu : Text.lookup? roles (Text.fold "of".toList) = some .of := by rfl
    have ht : isTraitWord "of".toList = false := by rfl
    have hy : (Text.lexicon ["yours", "your"]).contains (Text.fold "your".toList) = true := by
      rfl
    change Walk.run ("of".toList :: "your".toList :: _) w = _
    rw [Walk.run, if_neg (Bool.eq_false_iff.1 ht), Walk.flush_eq_self hw]
    simp only [hu, hy, if_true]
    rfl
  | opponent =>
    exact run_cons (r := .owned .opponent) (by rfl) (by rfl) (by decide)
      (by decide) hw
  | any => exact congrArg (Walk.run rest) (by simp [← ho])

theorem run_other (b : Bool) (hw : w.trait = []) (hs : w.selector.excludeSelf = false) :
    Walk.run (otherWords b ++ rest) w = Walk.run rest { w with selector.excludeSelf := b } := by
  cases b with
  | true =>
    exact run_cons (r := .other) (by rfl) (by rfl) (by decide)
      (by decide) hw
  | false => exact congrArg (Walk.run rest) (by simp [← hs])

theorem run_damaged (b : Option Bool) (hw : w.trait = []) (hd : w.selector.damaged = none) :
    Walk.run (damagedWords b ++ rest) w = Walk.run rest { w with selector.damaged := b } := by
  rcases b with _ | b
  · exact congrArg (Walk.run rest) (by simp [← hd])
  · cases b
    · exact run_cons (r := .damaged false) (by rfl) (by rfl) (by decide)
        (by decide) hw
    · exact run_cons (r := .damaged true) (by rfl) (by rfl) (by decide)
        (by decide) hw

theorem run_exerted (b : Option Bool) (hw : w.trait = []) (he : w.selector.exerted = none) :
    Walk.run (exertedWords b ++ rest) w = Walk.run rest { w with selector.exerted := b } := by
  rcases b with _ | b
  · exact congrArg (Walk.run rest) (by simp [← he])
  · cases b
    · exact run_cons (r := .exerted false) (by rfl) (by rfl) (by decide)
        (by decide) hw
    · exact run_cons (r := .exerted true) (by rfl) (by rfl) (by decide)
        (by decide) hw

theorem run_noun (n : Noun) (plural : Bool) (hw : w.trait = []) :
    Walk.run (n.words plural) w = (w.noun n.kind plural) := by
  have key : ∀ {word : Text} {k : ObjectKind}, isTraitWord word = false →
      Text.lookup? roles word.fold = some (.noun k plural) →
        Walk.run [word] w = w.noun k plural := by
    intro word k ht hr
    refine (run_cons ht hr (by simp) (by simp) hw).trans ?_
    simp [Walk.run, Walk.take, Walk.flush, Walk.noun, hw]
  cases n <;> cases plural <;> exact key (by rfl) (by rfl)

end Walk

/-! ### The words of a phrase -/

/-- The words of core phrases in front of the limit. -/
def frontVocabulary : List Text :=
  Text.lexicon
    ["chosen", "up", "to", "each", "all", "of", "your", "opposing", "other", "damaged",
     "undamaged", "exerted", "ready", "character", "characters", "item", "items", "location",
     "locations"]

/-- The words of limits. -/
def limitVocabulary : Measure → List Text
  | .cost => Text.lexicon ["with", "cost", "or", "less", "more"]
  | _ => Text.lexicon ["with", "\x7bS\x7d", "\x7bW\x7d", "\x7bL\x7d", "or", "less", "more"]

theorem Quantity.allFrom_words (q : Quantity) : Text.AllFrom frontVocabulary q.words := by
  cases q with
  | upTo n hn =>
    exact .append (.of_contains (by rfl))
      (.append (.number _ n) (.of_contains (by rfl)))
  | _ => exact .of_contains (by rfl)

theorem allFrom_ownerWords (o : Owner) : Text.AllFrom frontVocabulary (ownerWords o) := by
  cases o <;> exact .of_contains (by rfl)

theorem allFrom_otherWords (b : Bool) : Text.AllFrom frontVocabulary (otherWords b) := by
  cases b <;> exact .of_contains (by rfl)

theorem allFrom_damagedWords (b : Option Bool) :
    Text.AllFrom frontVocabulary (damagedWords b) := by
  rcases b with _ | _ | _ <;> exact .of_contains (by rfl)

theorem allFrom_exertedWords (b : Option Bool) :
    Text.AllFrom frontVocabulary (exertedWords b) := by
  rcases b with _ | _ | _ <;> exact .of_contains (by rfl)

theorem Noun.allFrom_words (n : Noun) (plural : Bool) :
    Text.AllFrom frontVocabulary (n.words plural) := by
  cases n <;> cases plural <;> exact .of_contains (by rfl)

theorem allFrom_limitWords (l : Limit) : Text.AllFrom (limitVocabulary l.measure) l.words := by
  have hc : Text.AllFrom (limitVocabulary l.measure) (comparisonWords l.comparison) := by
    cases l.measure <;> cases l.comparison <;> exact .of_contains (by rfl)
  rw [Limit.words]
  cases hm : l.measure <;> rw [hm] at hc <;>
    exact .append (.append (.of_contains (by rfl))
      (.append (.number _ l.value) (.of_contains (by rfl)))) hc

/-- The words of all core phrases. -/
def vocabulary : List Text :=
  frontVocabulary ++ (limitVocabulary .cost ++ limitVocabulary .strength)

end Core

end CardText
