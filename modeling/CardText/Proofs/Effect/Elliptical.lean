import CardText.Proofs.Effect.Conjunction
import CardText.Proofs.Effect.Reading

/-!
# Amounts of damage in a row

"Deal 3 damage to chosen character and 2 damage to another chosen character" leaves out the verb of
its second amount, and the clause of the amount takes the verb of the clause in front.  A clause
without a verb is never cut, so that only one amount can do so.

* `Clause.cutWords_of_lacksVerb`: words without a verb stay in their clause;
* `Core.Volley.text`: a list of amounts, each but the first without its verb;
* `Core.Volley.ofSentence_unwords`: the clauses of such a list are at most two;
* `Core.Volley.ofEffect_text`: the steps of such a list are those of its first two amounts.
-/

namespace CardText

open Template

/-! ### Words without a verb -/

namespace Clause

/-- The word is no verb, and it turns no quote. -/
def lacksVerb (w : Text) : Bool :=
  !imperatives.contains (bare w) && !verbForms.contains (bare w) && !turnsQuote w

theorem bare_ofNat (n : Nat) : bare (Text.ofNat n) = Text.ofNat n := by
  have hp : ∀ {c : Char}, c.isDigit = true → Selector.isPunctuation c = false := by
    intro c hc
    simpa using Text.of_isDigit (p := fun c => !Selector.isPunctuation c) (by rfl) hc
  have hd : Text.dropAround Selector.isPunctuation (Text.ofNat n) = Text.ofNat n := by
    rw [Text.dropAround, Text.dropLeading_eq_self fun c hc => hp (Text.isDigit_of_mem_ofNat
      (List.mem_of_mem_head? hc)), Text.dropTrailing_eq_self fun c hc =>
        hp (Text.isDigit_of_mem_ofNat (List.mem_of_getLast? hc))]
  rw [bare, hd, Text.fold_ofNat]

theorem lacksVerb_ofNat (n : Nat) : lacksVerb (Text.ofNat n) = true := by
  have hv : ∀ vs : List Text, (vs.all fun v => !v.head?.any Char.isDigit) = true →
      vs.contains (Text.ofNat n) = false := by
    intro vs h
    by_contra hm
    have hm : Text.ofNat n ∈ vs := by simpa using hm
    exact Text.ofNat_ne (by simpa using List.all_eq_true.1 h _ hm) rfl
  have hq : turnsQuote (Text.ofNat n) = false := by
    have h := isInert_ofNat n
    rw [isInert, Bool.and_eq_true, Bool.not_eq_true'] at h
    exact h.1
  rw [lacksVerb, bare_ofNat, hv imperatives (by rfl), hv verbForms (by rfl), hq]
  rfl

theorem hasVerb_eq_false {ws : List Text} (h : ∀ w ∈ ws, lacksVerb w = true) :
    hasVerb ws = false := by
  rw [hasVerb, List.any_eq_false]
  intro w hw
  have hw := h w hw
  rw [lacksVerb, Bool.and_eq_true, Bool.and_eq_true, Bool.not_eq_true', Bool.not_eq_true'] at hw
  rw [hw.1.1, hw.1.2]
  decide

/-- A clause does not end where it has no verb. -/
theorem endsHere_of_lacksVerb {left : List Text} (h : ∀ w ∈ left, lacksVerb w = true)
    (right : List Text) : endsHere left.reverse right = false := by
  have hv : hasVerb left.reverse = false :=
    hasVerb_eq_false fun w hw => h w (List.mem_reverse.1 hw)
  rw [endsHere, hv, Bool.and_false, Bool.false_and]

/-- **Words without a verb stay in their clause**, whatever joins them. -/
theorem cutWords_of_lacksVerb {ws left : List Text} (hl : ∀ w ∈ left, lacksVerb w = true)
    (h : ∀ w ∈ ws, lacksVerb w = true) (hne : left ++ ws ≠ []) :
    cutWords left false ws = [join (left.reverse ++ ws)] := by
  induction ws generalizing left with
  | nil =>
    have hne : left ≠ [] := by simpa using hne
    simp [cutWords, hne]
  | cons w ws ih =>
    rw [List.forall_mem_cons] at h
    have hq : turnsQuote w = false := by
      have hw := h.1
      rw [lacksVerb, Bool.and_eq_true, Bool.not_eq_true'] at hw
      exact hw.2
    have hstep : cutWords left false (w :: ws) = cutWords (w :: left) false ws := by
      rcases cutWords_cons left false w ws with hstep | ⟨-, right, -, -, -, hend, -⟩
      · rw [hstep, hq]
        rfl
      · rw [endsHere_of_lacksVerb hl] at hend
        cases hend
    rw [hstep, ih (by simpa using ⟨h.1, hl⟩) h.2 (by simp)]
    simp

end Clause

namespace Core

/-! ### Lists of amounts -/

/-- Amounts of damage that one sentence deals. -/
structure Volley where
  first : Count
  more : List Count

namespace Volley

/-- The phrase behind the first amount. -/
def firstPhrase : Phrase := { quantity := .chosen, noun := .character }

/-- The first amount with its verb. -/
def firstAction (v : Volley) : Action := .deal v.first firstPhrase

/-- The words that go on with further amounts. -/
def joined (ks : List Count) : List Text :=
  ks.flatMap fun k => Text.lexicon ["and"] ++ Text.ofNat k.value ::
    Text.lexicon ["damage", "to", "another", "chosen", "character"]

/-- The words of the phrase behind an amount that goes on, and of all that is behind it. -/
def phraseWords (ks : List Count) : List Text :=
  Text.lexicon ["another", "chosen", "character"] ++ joined ks

/-- The words of an amount without its verb, and of all that is behind it. -/
def amountWords (k : Count) (ks : List Count) : List Text :=
  Text.ofNat k.value :: (Text.lexicon ["damage", "to"] ++ phraseWords ks)

/-- The words of the sentence. -/
def words (v : Volley) : List Text := v.firstAction.words true ++ joined v.more

/-- The sentence as it is printed: each amount but the first is one of damage to another chosen
character and leaves out its verb. -/
def text (v : Volley) : Text := Text.unwords v.words ++ ['.']

/-- The amounts. -/
def counts (v : Volley) : List Count := v.first :: v.more

/-! ### The words -/

/-- The words behind the first amount. -/
def vocabulary : List Text :=
  Text.lexicon ["and", "damage", "to", "another", "chosen", "character"]

/-- All words. -/
def sentenceVocabulary : List Text := Text.lexicon ["Deal"] ++ vocabulary

theorem joined_cons (k : Count) (ks : List Count) :
    joined (k :: ks) = "and".toList :: amountWords k ks := rfl

theorem allFrom_joined (ks : List Count) : Text.AllFrom vocabulary (joined ks) := by
  have hc : Text.AllFrom vocabulary (Text.lexicon ["and"]) := .of_contains (by rfl)
  have hd : Text.AllFrom vocabulary
      (Text.lexicon ["damage", "to", "another", "chosen", "character"]) := .of_contains (by rfl)
  induction ks with
  | nil => exact .of_contains (by rfl)
  | cons k ks ih => exact (hc.append ((Text.AllFrom.number _ k.value).append hd)).append ih

theorem allFrom_phraseWords (ks : List Count) : Text.AllFrom vocabulary (phraseWords ks) :=
  .append (.of_contains (by rfl)) (allFrom_joined ks)

theorem allFrom_amountWords (k : Count) (ks : List Count) :
    Text.AllFrom vocabulary (amountWords k ks) := by
  have hd : Text.AllFrom vocabulary (Text.lexicon ["damage", "to"]) := .of_contains (by rfl)
  exact .append (.number _ k.value) (hd.append (allFrom_phraseWords ks))

theorem allFrom_words (v : Volley) : Text.AllFrom sentenceVocabulary v.words := by
  have ho : Text.AllFrom sentenceVocabulary (Text.lexicon ["Deal"]) := .of_contains (by rfl)
  have hd : Text.AllFrom sentenceVocabulary
      (Text.lexicon ["damage", "to", "chosen", "character"]) := .of_contains (by rfl)
  have hf : Text.AllFrom sentenceVocabulary (v.firstAction.words true) :=
    ho.append ((Text.AllFrom.number _ v.first.value).append hd)
  exact hf.append ((allFrom_joined v.more).of_append_right _)

theorem isSentence_amount (k : Count) (ks : List Count) :
    (Text.unwords (amountWords k ks)).IsSentence :=
  (allFrom_amountWords k ks).isSentence_unwords (by rfl) (by simp [amountWords])

theorem isSentence_phrase (ks : List Count) : (Text.unwords (phraseWords ks)).IsSentence :=
  (allFrom_phraseWords ks).isSentence_unwords (by rfl) (by simp [phraseWords, Text.lexicon])

theorem isSentence_words (v : Volley) : (Text.unwords v.words).IsSentence :=
  (allFrom_words v).isSentence_unwords (by rfl) (by simp [words, Action.words])

theorem unwords_amountWords (k : Count) (ks : List Count) : Text.unwords (amountWords k ks) =
    Text.ofNat k.value ++ (" damage to ".toList ++ Text.unwords (phraseWords ks)) := by
  change Text.unwords (Text.ofNat k.value :: "damage".toList :: "to".toList :: phraseWords ks) = _
  rw [Text.unwords_cons_cons, Text.unwords_cons_cons, Text.unwords_cons (by simp [phraseWords,
    Text.lexicon])]
  rfl

/-- An amount without its verb is recognised as one. -/
theorem isElliptical_amount (k : Count) (ks : List Count) :
    isElliptical (Text.unwords (amountWords k ks)) = true := by
  have hl : Leads ellipticalAmount ⟨none, Text.unwords (amountWords k ks), []⟩
      ⟨some 'e', " to ".toList ++ Text.unwords (phraseWords ks), []⟩ := by
    rw [unwords_amountWords]
    exact .cons (.skip (ends_phrase_eq_nil (ends_lit_ofNat (by decide) _ _)))
      (.cons (.left (leads_digits k.value rfl)) (.cons (.lit (v := " damage".toList) rfl)
        (.cons (.edge rfl) .nil)))
  rw [isElliptical, (isSentence_amount k ks).trim_eq, isMatch, match?, hl.matchAfter?]
  rfl

/-! ### The clauses -/

/-- The clauses behind the one of the first amount: there is one at most. -/
def rest : List Count → List Text
  | [] => []
  | k :: ks => [Text.unwords (amountWords k ks)]

/-- The first "and" ends the first amount. -/
theorem cutWords_and (a : Action) (k : Count) (ks : List Count)
    (ha : (a.words true).reverse.isEmpty = false)
    (hends : Clause.endsHere (a.words true) (amountWords k ks) = true) :
    Clause.cutWords (a.words true).reverse false ("and".toList :: amountWords k ks) =
      Clause.join (a.words true) :: Clause.cutWords [] false (amountWords k ks) := by
  have hthen : Text.fold (Text.ofNat k.value) ≠ "then".toList := by
    rw [Text.fold_ofNat]
    exact Text.ofNat_ne (by rfl)
  have hc : Clause.isConjunction "and".toList = true := by rfl
  have hq : Clause.turnsQuote "and".toList = false := by rfl
  conv => lhs; unfold Clause.cutWords
  rw [hq, hc, ha, amountWords]
  simp only [List.reverse_reverse, hthen, and_false, if_false]
  rw [← amountWords, hends]
  rfl

/-- **A list of amounts is cut behind the first one only.** -/
theorem ofSentence_unwords (v : Volley) :
    Clause.ofSentence (Text.unwords v.words) = v.firstAction.text true :: rest v.more := by
  have hj : ∀ {ws : List Text}, (Text.unwords ws).IsSentence → Clause.join ws = Text.unwords ws :=
    fun hs => hs.trimEnd_eq fun c hc => by simp [Text.isPause, beq_iff_eq.1 hc]
  have hfirst := Core.isSentence_unwords
    ((allFrom_actionWords true v.firstAction).of_append_right _) (by simp [Action.words])
  have hne : (v.firstAction.words true).reverse.isEmpty = false := by simp [Action.words]
  have hinert : ∀ w ∈ v.firstAction.words true, Clause.isInert w = true :=
    ((allFrom_actionWords true v.firstAction)).forall_mem (by rfl) Clause.isInert_ofNat
  rw [Clause.ofSentence, Text.words_unwords ((allFrom_words v).ne_nil_and_not_isBlank (by rfl)),
    words, Clause.cutWords_of_isInert hinert, List.append_nil]
  cases v.more with
  | nil =>
    rw [joined, List.flatMap_nil, Clause.cutWords, hne, if_neg (by simp), List.reverse_reverse,
      hj hfirst]
    simp [hfirst.ne_nil, Action.text, rest]
  | cons k ks =>
    -- behind the first "and" stands no verb, without which no further "and" ends a clause
    have hlacks : ∀ w ∈ amountWords k ks, Clause.lacksVerb w = true :=
      (allFrom_amountWords k ks).forall_mem (by rfl) Clause.lacksVerb_ofNat
    have hends : Clause.endsHere (v.firstAction.words true) (amountWords k ks) = true := by
      rw [Clause.endsHere, isElliptical_amount, Bool.or_true, Bool.and_true, Bool.and_eq_true]
      exact ⟨rfl, rfl⟩
    rw [joined_cons, cutWords_and _ k ks hne hends,
      Clause.cutWords_of_lacksVerb (by simp) hlacks (by simp [amountWords]),
      List.reverse_nil, List.nil_append, hj hfirst, hj (isSentence_amount k ks)]
    simp [hfirst.ne_nil, (isSentence_amount k ks).ne_nil, Action.text, rest]

/-- Nothing is said in front of the sentence. -/
theorem isFrameless_sentenceVocabulary : Clause.IsFrameless sentenceVocabulary where
  plain := by rfl
  fronts := by rfl

/-- Nothing is said around an amount. -/
theorem isUnmodified_vocabulary : Clause.IsUnmodified vocabulary where
  plain := by rfl
  clauses := by rfl
  endings := by rfl

theorem modifiers_amount (k : Count) (ks : List Count) :
    Modifiers.ofClause (Text.unwords (amountWords k ks)) =
      ({}, Text.unwords (amountWords k ks)) :=
  isUnmodified_vocabulary.ofClause_unwords (allFrom_amountWords k ks) (by simp [amountWords])

/-! ### The targets -/

/-- Behind the first phrase stands an amount, which is no selector. -/
theorem breakCompound?_phrase (ks : List Count) :
    Selector.breakCompound? (Text.unwords (phraseWords ks)) = none := by
  cases ks with
  | nil => decide
  | cons k ks =>
    -- the phrases do part at the "and", but the amount behind it keeps them together
    have hb : Text.breakAt? Selector.afterJoint? (Text.unwords (phraseWords (k :: ks))) =
        some ("another chosen character".toList, Text.unwords (amountWords k ks)) := by
      change Text.breakAt? Selector.afterJoint? (Text.unwords ("another".toList ::
        "chosen".toList :: "character".toList :: "and".toList :: amountWords k ks)) = _
      rw [Text.unwords_cons_cons, Text.unwords_cons_cons, Text.unwords_cons_cons,
        Text.unwords_cons (by simp [amountWords])]
      rfl
    rw [Selector.breakCompound?, hb]
    simp only [(isSentence_amount k ks).trim_eq, isElliptical_amount]
    simp

/-! ### The steps -/

/-- The words of an amount with its verb. -/
def dealWords (k : Count) (ks : List Count) : List Text := "deal".toList :: amountWords k ks

theorem isUnrivalled_dealDamage : isUnrivalled vocabulary "deal".toList .dealDamage = true := by
  decide +kernel

/-- An amount that takes the verb of the clause in front. -/
theorem ofAction?_amount (scope : Scope) (k : Count) (ks : List Count) :
    Step.ofAction? scope (Text.unwords (dealWords k ks)) =
      some [{ effect := .damage
              target := scope.selector (Text.unwords (phraseWords ks))
              amount := some (.exact k.value) }] := by
  have hs := isSentence_phrase ks
  have ht : Text.unwords (dealWords k ks) = "deal ".toList ++ (Text.ofNat k.value ++
      (" damage to ".toList ++ Text.unwords (phraseWords ks))) := by
    rw [dealWords, Text.unwords_cons (by simp [amountWords]), unwords_amountWords]
    rfl
  have hv : Leads (lit "deal ".toList : Template Slot) ⟨none, Text.unwords (dealWords k ks), []⟩
      ⟨some ' ', Text.ofNat k.value ++ (" damage to ".toList ++ Text.unwords (phraseWords ks)),
        []⟩ := by
    rw [ht]
    exact .lit rfl
  -- the target takes all that is left, the amounts that were not cut off as well
  have hl := hv.cons (leads_damage hs k.value)
  have hw := allFrom_amountWords k ks
  have hspace : ∀ w ∈ dealWords k ks, ' ' ∉ w := by
    rw [dealWords, List.forall_mem_cons]
    exact ⟨by decide, hw.not_mem_space (by rfl)⟩
  refine Step.ofAction?_of_best?
    (best?_of_isUnrivalled isUnrivalled_dealDamage hw hspace hl.matchAfter?) rfl ?_
  exact onTargetBy_eq hs (breakCompound?_phrase ks) amount?_ofNat

/-- What a step does, but for the object of its first target. -/
def dealt (s : Step) : Effect × Option Amount × List Selector :=
  (s.effect, s.amount, s.additionalTargets)

/-- The step of an amount. -/
def dealing (k : Count) : Effect × Option Amount × List Selector :=
  (.damage, some (.exact k.value), [])

theorem dealt_eq {s u : Step} (h : s.SameAim u) : dealt u = dealt s := by
  rw [dealt, dealt, h.effect, h.amount, h.additionalTargets]

theorem modifiers_first (v : Volley) :
    Modifiers.ofClause (v.firstAction.text true) = ({}, v.firstAction.text true) :=
  isQuiet_plainVocabulary.ofClause_unwords (allFrom_actionWords true v.firstAction)
    (by simp [Action.words])

theorem nextVerb?_first (v : Volley) :
    Reading.nextVerb? none (v.firstAction.text true) = some "deal".toList := by
  have hw : Text.words (v.firstAction.text true) = v.firstAction.words true :=
    Text.words_unwords ((allFrom_actionWords true v.firstAction).ne_nil_and_not_isBlank (by rfl))
  rw [Reading.nextVerb?, modifiers_first, Reading.completeAction, Clause.leadingVerb?, hw]
  rfl

/-- The clause of the first amount has a verb, and hands it on. -/
theorem ofClause_first (ctx : Context) (antecedent : Option Selector) (v : Volley) :
    let r := Reading.ofClause ctx { antecedent } (v.firstAction.text true)
    r.1.steps.map dealt = [dealing v.first] ∧ r.2.verb = some "deal".toList := by
  have hu : Reading.understood? ctx.source antecedent none (v.firstAction.text true) =
      some [v.firstAction.step] :=
    Reading.understood?_of_ofAction? (modifiers_first v)
      (ofAction?_deal _ true v.first firstPhrase)
  rw [Reading.ofClause_of_some ctx { antecedent } hu]
  constructor
  · rw [List.map_map, List.map_singleton, Function.comp_apply,
      dealt_eq (Step.keepsAim_modify _ _ _)]
    rfl
  · simp only [nextVerb?_first]

/-- The clause of a further amount takes the verb that was handed on. -/
theorem ofClause_amount (ctx : Context) {thread : Thread} (hv : thread.verb = some "deal".toList)
    (k : Count) (ks : List Count) :
    (Reading.ofClause ctx thread (Text.unwords (amountWords k ks))).1.steps.map dealt =
      [dealing k] := by
  have hd : Text.unwords (dealWords k ks) =
      "deal".toList ++ ' ' :: Text.unwords (amountWords k ks) :=
    Text.unwords_cons (by simp [amountWords]) _
  have hc : Reading.completeAction thread.verb (Text.unwords (amountWords k ks)) =
      Text.unwords (dealWords k ks) := by
    rw [hv, Reading.completeAction, hd]
    simp only [isElliptical_amount, if_true]
  have hu : Reading.understood? ctx.source thread.antecedent thread.verb
      (Text.unwords (amountWords k ks)) = some _ :=
    Reading.understood?_of_ofAction? (modifiers_amount k ks) (hc ▸ ofAction?_amount _ k ks)
  rw [Reading.ofClause_of_some ctx thread hu, List.map_map, List.map_singleton,
    Function.comp_apply, dealt_eq (Step.keepsAim_modify _ _ _)]
  rfl

theorem ofClauses_rest (ctx : Context) {thread : Thread} (hv : thread.verb = some "deal".toList)
    (ks : List Count) :
    ((Reading.ofClauses ctx thread (rest ks)).1.flatMap (·.steps)).map dealt =
      (ks.take 1).map dealing := by
  cases ks with
  | nil => rfl
  | cons k ks =>
    simp only [rest, Reading.ofClauses, List.flatMap_cons, List.flatMap_nil, List.append_nil,
      ofClause_amount ctx hv k ks]
    rfl

/-- The sentence changes nothing in what its clauses deal. -/
theorem map_dealt_inSentence (frame : Frame) (steps : List Step) :
    ((Step.shareDuration steps).map (Step.inFrame frame)).map dealt = steps.map dealt := by
  rw [Step.shareDuration_eq, List.map_map, List.map_map]
  exact List.map_congr_left fun s _ =>
    dealt_eq ((Step.keepsAim_share _ s).trans (Step.keepsAim_inFrame frame _))

/-- **Of the amounts only the first two are dealt**, whatever card the sentence stands on and
whether the reading is strict or not. -/
theorem ofEffect_text (ctx : Context) (v : Volley) :
    (Step.ofEffect ctx v.text).map dealt = (v.counts.take 2).map dealing := by
  have hne : v.words ≠ [] := by simp [words, Action.words]
  have hs : ∀ t ∈ [Text.unwords v.words], t.IsSentence := by simpa using isSentence_words v
  have ht : v.text = Text.paragraph [Text.unwords v.words] := by
    rw [Text.paragraph_singleton, text]
  obtain ⟨hfirst, hverb⟩ := ofClause_first ctx none v
  rw [ht, Step.ofEffect, Text.body_paragraph hs, Text.sentences_paragraph hs, Step.ofSentences,
    Step.ofSentence, isFrameless_sentenceVocabulary.frame_unwords (allFrom_words v) hne]
  simp only [ofSentence_unwords, Step.ofSentences, List.append_nil, map_dealt_inSentence,
    Reading.ofClauses, List.flatMap_cons, List.map_append, hfirst, ofClauses_rest ctx hverb]
  rfl

/-- Three amounts. -/
def three : Volley := ⟨⟨3, by decide⟩, [⟨2, by decide⟩, ⟨1, by decide⟩]⟩

/-- The third of three amounts is not dealt. -/
theorem ofEffect_three_ne :
    three.text = ("Deal 3 damage to chosen character and 2 damage to another chosen character " ++
        "and 1 damage to another chosen character.").toList ∧
      (Step.ofEffect ⟨.character, {}⟩ three.text).map dealt ≠
        three.counts.map dealing := by
  decide +kernel

end Volley

end Core

end CardText
