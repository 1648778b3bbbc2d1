import CardText.Proofs.Effect.Reference
import CardText.Proofs.Text.Sequence

/-!
# Effects in a row

What stands behind a sentence has no part in its steps, and the steps of a sentence depend on those
in front of them by what these picked alone.

* `Reading.picked?_append`: of two lists of steps the later one picks, if it picks anything;
* `Reading.antecedent_ofClauses`, `Step.snd_ofSentence`: clauses and sentences hand on what their
  own steps picked, and otherwise what was picked in front of them;
* `Step.ofSentences_append`: sentences in a row;
* `Step.ofEffect_period`: the steps of an effect with another one behind it.
-/

namespace CardText

namespace Reading

open Step

variable {ctx : Context}

/-! ### What is picked -/

theorem picked?_append (steps more : List Step) :
    picked? (steps ++ more) = (picked? more).or (picked? steps) := by
  rw [picked?, List.reverse_append, List.find?_append, picked?, picked?, Option.map_or]

/-- Nothing is picked by steps that act on players or were not understood. -/
theorem picked?_eq_none_iff {steps : List Step} : picked? steps = none ↔
    ∀ s ∈ steps, s.isOpaque = false → s.target.isPlayer = true := by
  simp [picked?]

/-- Clauses hand on what their steps picked, or else what was picked in front of them. -/
theorem antecedent_ofClauses (thread : Thread) (clauses : List Text) :
    (ofClauses ctx thread clauses).2.antecedent =
      (picked? ((ofClauses ctx thread clauses).1.flatMap (·.steps))).or thread.antecedent := by
  induction clauses generalizing thread with
  | nil => rfl
  | cons clause clauses ih =>
    rw [ofClauses, List.flatMap_cons, picked?_append, Option.or_assoc, ← antecedent_ofClause]
    exact ih _

end Reading

namespace Step

open Reading

variable {ctx : Context} {antecedent : Option Selector}

/-! ### Sentences in a row -/

/-- So does a sentence: its duration and its condition do not change what its steps picked. -/
theorem snd_ofSentence (antecedent : Option Selector) (sentence : Text) :
    (ofSentence ctx antecedent sentence).2 =
      (picked? (ofSentence ctx antecedent sentence).1).or antecedent := by
  rw [ofSentence]
  simp only [shareDuration_eq, picked?_map (keepsAim_inFrame _), picked?_map (keepsAim_share _)]
  exact antecedent_ofClauses _ _

/-- Sentences behind others are read with what those picked last. -/
theorem ofSentences_append (antecedent : Option Selector) (ss ts : List Text) :
    ofSentences ctx antecedent (ss ++ ts) = ofSentences ctx antecedent ss ++
      ofSentences ctx ((picked? (ofSentences ctx antecedent ss)).or antecedent) ts := by
  induction ss generalizing antecedent with
  | nil => rfl
  | cons s ss ih =>
    rw [List.cons_append, ofSentences, ofSentences]
    simp only
    rw [ih, picked?_append, Option.or_assoc, ← snd_ofSentence, List.append_assoc]

/-! ### Effects in a row -/

variable {s t : Text}

/-- The steps of two texts with a period between them, no parenthesis and no quote left open in the
first and no mark in front of the second: the second one is read with what the first one picked. -/
theorem ofEffect_append_period (ctx : Context) (hs : Text.IsClosed '(' ')' s)
    (hq : Even ((Text.parted 0 [] s).body.count '"'))
    (ht : ∀ c ∈ t.body.head?, c ≠ '.' ∧ c ≠ ',') :
    ofEffect ctx (s ++ ". ".toList ++ t) = ofEffect ctx (s ++ ['.']) ++
      ofSentences ctx (picked? (ofEffect ctx (s ++ ['.']))) t.body.sentences := by
  have h := Text.sentences_body_period hs hq ht
  rw [ofEffect, List.append_assoc]
  change ofSentences ctx none (Text.body (s ++ '.' :: ' ' :: t)).sentences = _
  rw [h, ofSentences_append, Option.or_none]
  rfl

/-- **Later sentences never rewrite earlier steps.**  The steps of a text in front of a period are
the same whatever stands behind it, and come first.  If each of them acts on players or was not
understood, the text behind the period has the steps that it has on its own. -/
theorem ofEffect_period (ctx : Context) (hs : Text.IsClosed '(' ')' s)
    (hq : Even ((Text.parted 0 [] s).body.count '"'))
    (ht : ∀ c ∈ t.body.head?, c ≠ '.' ∧ c ≠ ',') :
    ofEffect ctx (s ++ ['.']) <+: ofEffect ctx (s ++ ". ".toList ++ t) ∧
      ((∀ u ∈ ofEffect ctx (s ++ ['.']), u.isOpaque = false → u.target.isPlayer = true) →
        ofEffect ctx (s ++ ". ".toList ++ t) = ofEffect ctx (s ++ ['.']) ++ ofEffect ctx t) := by
  have h := ofEffect_append_period ctx hs hq ht
  refine ⟨⟨_, h.symm⟩, fun hp => ?_⟩
  rw [h, picked?_eq_none_iff.2 hp]
  rfl

/-- "Banish it" behind a step that picks a character, to which it refers, and behind a step of a
player, where it means what it does on its own. -/
theorem ofEffect_period_banishIt :
    let ctx : Context := { source := .character }
    let s : Text := "Exert chosen character (the \"target.)".toList
    let s' : Text := "You may draw a card (a \"card.)".toList
    let t : Text := "Banish it (this. Not that)".toList
    ofEffect ctx (s ++ ['.']) <+: ofEffect ctx (s ++ ". ".toList ++ t) ∧
      (ofEffect ctx (s ++ ". ".toList ++ t)).map (·.target.quantifier) = [.chosen 1, .previous] ∧
      ofEffect ctx (s' ++ ". ".toList ++ t) = ofEffect ctx (s' ++ ['.']) ++ ofEffect ctx t := by
  intro ctx s s' t
  have ht : ∀ c ∈ t.body.head?, c ≠ '.' ∧ c ≠ ',' := by
    rintro c ⟨⟩
    decide
  exact ⟨(ofEffect_period ctx (by decide) (by decide +kernel) ht).1, by decide +kernel,
    (ofEffect_period ctx (by decide) (by decide +kernel) ht).2 (by decide +kernel)⟩

end Step

end CardText
