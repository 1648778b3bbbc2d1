import CardText.Proofs.Cost.Token
import CardText.Proofs.Effect.Condition
import CardText.Proofs.Effect.Number
import CardText.Proofs.Keyword.Line

/-!
# What becomes of printed numbers

Every number of rules text is read into a range, and each place has its own way with a number that
is too large.

* `Outcome`: what a text is read as, with its numbers and the texts that it keeps as printed;
* `Outcome.Keeps`: the printed number is carried, or its digits are kept as text;
* `NumberPlace`: seven places of rules text with a number in them;
* `NumberPlace.keeps_read_iff`: how each of them is read for every number, and that the number is
  kept exactly if it is in range.
-/

namespace CardText

open Template

/-! ### Numbers and texts of a reading -/

/-- The numbers of an amount. -/
def Amount.numbers : Amount → List Int
  | exact n => [n]
  | upTo n => [n]
  | perEach per _ => [per]
  | _ => []

/-- The number that a selector compares with. -/
def Selector.numbers (s : Selector) : List Int := s.bound.toList.map fun b => (b.value : Int)

/-- The numbers of an effect besides its amount. -/
def Effect.numbers : Effect → List Int
  | moveDamage destination => destination.numbers
  | grantKeyword _ value => value.toList
  | _ => []

namespace Step

/-- The numbers of a step. -/
def numbers (s : Step) : List Int :=
  s.effect.numbers ++ s.amount.toList.flatMap Amount.numbers ++
    (s.target :: s.additionalTargets).flatMap Selector.numbers

/-- The texts that a step keeps as printed: its note, text that was not understood, and the
qualifiers of its targets. -/
def keptTexts (s : Step) : List Text :=
  s.freeTexts ++ (s.target :: s.additionalTargets).filterMap (·.qualifier)

end Step

namespace Cost

/-- The numbers of a cost. -/
def numbers : Cost → List Int
  | payInk amount => [(amount : Int)]
  | discardCard count _ => [(count : Int)]
  | exertOther target => target.numbers
  | banishOther target => target.numbers
  | _ => []

/-- The texts that a cost keeps as printed. -/
def keptTexts : Cost → List Text
  | exertOther target => target.qualifier.toList
  | banishOther target => target.qualifier.toList
  | other t => [t]
  | _ => []

end Cost

/-- What a text is read as. -/
inductive Outcome where
  | steps (ss : List Step)
  | cost (c : Cost)
  | selector (s : Selector)
  deriving DecidableEq

namespace Outcome

/-- The numbers that are carried. -/
def numbers : Outcome → List Int
  | steps ss => ss.flatMap Step.numbers
  | cost c => c.numbers
  | selector s => s.numbers

/-- The texts that are kept as printed. -/
def keptTexts : Outcome → List Text
  | steps ss => ss.flatMap Step.keptTexts
  | cost c => c.keptTexts
  | selector s => s.qualifier.toList

/-- The printed number `n`, which stands for `k`, is kept: no other number is carried, and `k` is or
its digits are kept as text. -/
structure Keeps (o : Outcome) (n : Nat) (k : Int) : Prop where
  eq_of_mem : ∀ x ∈ o.numbers, x = k
  carried : k ∈ o.numbers ∨ ∃ t ∈ o.keptTexts, Text.ofNat n <:+: t

end Outcome

/-! ### The places -/

/-- A place of rules text with a number in it. -/
inductive NumberPlace where
  | damage
  | loreLoss
  | strengthLoss
  | inkSaved
  | discard
  | costLimit
  | challenger
  deriving Repr, DecidableEq

namespace NumberPlace

/-- The text with the number `n` in its place. -/
def text (n : Nat) : NumberPlace → Text
  | damage => "Deal ".toList ++ (Text.ofNat n ++ " damage to chosen character.".toList)
  | loreLoss => "Each opponent loses ".toList ++ (Text.ofNat n ++ " lore.".toList)
  | strengthLoss => "Chosen character loses ".toList ++ (Text.ofNat n ++ " \x7bS\x7d.".toList)
  | inkSaved =>
    "You pay ".toList ++ (Text.ofNat n ++ " \x7bI\x7d less for the next item.".toList)
  | discard => "Discard ".toList ++ (Text.ofNat n ++ " cards".toList)
  | costLimit => "chosen character with cost ".toList ++ (Text.ofNat n ++ " or less".toList)
  | challenger => "Challenger +".toList ++ Text.ofNat n

/-- How a text is read: as an effect, a cost, a selector or a line of keywords. -/
def read (ctx : Context) (antecedent : Option Selector) (t : Text) : NumberPlace → Outcome
  | discard => .cost (Cost.ofToken ctx.source t)
  | costLimit => .selector (Selector.ofPhrase ctx.source antecedent t)
  | challenger => .steps (((Keyword.entries? t).getD []).flatMap fun e =>
      (Draft.ofKeyword ctx.source e t).effects)
  | _ => .steps (Step.ofEffect ctx t)

/-- What the number stands for: a loss is negative. -/
def meant (n : Nat) : NumberPlace → Int
  | loreLoss => -n
  | strengthLoss => -n
  | _ => n

/-- The numbers of the place lie below this. -/
def bound : NumberPlace → Int
  | discard => Text.naturalBound
  | costLimit => Text.naturalBound
  | _ => Text.integerBound

/-- What the text with the number `n` is read as. Out of range, the number of damage and that of
the keyword are dropped, the count of cards is one, and the others are zero. -/
def outcome (source : ObjectKind) (n : Nat) (p : NumberPlace) : Outcome :=
  let inRange : Option Int := if (n : Int) < p.bound then some (n : Int) else none
  match p with
  | damage =>
    .steps [{ effect := .damage, target := .chosen .character, amount := inRange.map .exact }]
  | loreLoss =>
    .steps [{ effect := .loreChange
              target := .eachOpponent
              amount := some (.exact (-inRange.getD 0)) }]
  | strengthLoss =>
    .steps [{ effect := .modifyStat .strength
              target := .chosen .character
              amount := some (.exact (-inRange.getD 0)) }]
  | inkSaved =>
    .steps [{ effect := .costReduction
              target := { Selector.chosen .item with qualifier := some "next".toList }
              amount := some (.exact (inRange.getD 0)) }]
  | discard => .cost (.discardCard (inRange.getD 1).toNat none)
  | costLimit =>
    .selector { Selector.chosen .character with
      bound := some ⟨.cost, .atMost, (inRange.getD 0).toNat⟩ }
  | challenger =>
    .steps [{ effect := .grantKeyword .challenger inRange
              target := .this source
              amount := inRange.map .exact }]

/-- The number of a place is kept exactly if it is in range. -/
theorem keeps_outcome_iff (source : ObjectKind) (n : Nat) (p : NumberPlace) :
    (p.outcome source n).Keeps n (p.meant n) ↔ (n : Int) < p.bound := by
  by_cases hn : (n : Int) < p.bound
  · refine iff_of_true ?_ hn
    cases p <;> constructor <;> simp [outcome, hn, Outcome.numbers, Step.numbers, Effect.numbers,
      Amount.numbers, Selector.numbers, Cost.numbers, Selector.chosen, Selector.eachOpponent,
      Selector.players, Selector.this, meant]
  · refine iff_of_false (fun hkeeps => ?_) hn
    have he := hkeeps.eq_of_mem
    have hc := hkeeps.carried
    have hbig : 1 < (n : Int) := by
      cases p <;> simp only [bound, Text.integerBound, Text.naturalBound] at hn <;> omega
    cases p with
    | damage | challenger =>
      -- nothing is carried and nothing is kept as printed
      simp [outcome, hn, Outcome.numbers, Step.numbers, Effect.numbers, Selector.numbers,
        Selector.chosen, Selector.this, Outcome.keptTexts, Step.keptTexts, Step.freeTexts] at hc
    | _ =>
      -- zero or one is carried in place of the number
      simp [outcome, hn, Outcome.numbers, Step.numbers, Effect.numbers, Amount.numbers,
        Selector.numbers, Cost.numbers, Selector.chosen, Selector.eachOpponent, Selector.players,
        meant] at he
      omega

/-! ### How the places are read -/

variable (ctx : Context) (antecedent : Option Selector) (n : Nat)

/-- The phrase "chosen character". -/
def chosenCharacter : Core.Phrase := { quantity := .chosen, noun := .character }

theorem ofEffect_damage : Step.ofEffect ctx (damage.text n) =
    [{ effect := .damage
       target := .chosen .character
       amount := if (n : Int) < Text.integerBound then some (.exact n) else none }] := by
  have ht : damage.text n =
      Text.unwords ("Deal".toList :: Core.dealtWords n chosenCharacter) ++ ['.'] := by
    change _ = Text.unwords ["Deal".toList, Text.ofNat n, "damage".toList, "to".toList,
      "chosen".toList, "character".toList] ++ ['.']
    simp only [Text.unwords_cons_cons, Text.unwords_singleton, List.append_assoc, List.cons_append]
    rfl
  rw [ht, Core.ofEffect_deal]
  rfl

theorem ofEffect_loreLoss : Step.ofEffect ctx (loreLoss.text n) =
    [{ effect := .loreChange
       target := .eachOpponent
       amount := some (.exact (-Core.orZero n)) }] := by
  have ht : loreLoss.text n = Text.unwords (Core.loseWords n) ++ ['.'] := by
    change _ = Text.unwords ["Each".toList, "opponent".toList, "loses".toList, Text.ofNat n,
      "lore".toList] ++ ['.']
    simp only [Text.unwords_cons_cons, Text.unwords_singleton, List.append_assoc, List.cons_append]
    rfl
  rw [ht, Core.ofEffect_eachOpponentLoses]

theorem ofEffect_strengthLoss : Step.ofEffect ctx (strengthLoss.text n) =
    [{ effect := .modifyStat .strength
       target := .chosen .character
       amount := some (.exact (-Core.orZero n)) }] := by
  have ht : strengthLoss.text n =
      Text.unwords ("Chosen".toList :: Core.strengthWords n) ++ ['.'] := by
    simp only [Core.unwords_strengthWords, List.append_assoc, List.cons_append]
    rfl
  rw [ht, Core.ofEffect_characterLoses]

theorem ofEffect_inkSaved : Step.ofEffect ctx (inkSaved.text n) =
    [{ effect := .costReduction
       target := { Selector.chosen .item with qualifier := some "next".toList }
       amount := some (.exact (Core.orZero n)) }] := by
  have ht : inkSaved.text n = Text.unwords ("You".toList :: Core.lessWords n) ++ ['.'] := by
    simp only [Core.unwords_lessWords, List.append_assoc]
    rfl
  rw [ht, Core.ofEffect_payLess]

/-- Words with a number among them are a sentence. -/
theorem isSentence_unwords (us vs : List Text)
    (h : ((us ++ vs).all fun v => !v.isEmpty && v.all Text.isPlain) = true) :
    (Text.unwords (us ++ Text.ofNat n :: vs)).IsSentence := by
  have hw : Text.AllFrom (us ++ vs) (us ++ Text.ofNat n :: vs) := fun w hw => by
    simp only [List.mem_append, List.mem_cons] at hw
    rcases hw with hw | rfl | hw
    · exact .inl (by simp [hw])
    · exact .inr ⟨n, rfl⟩
    · exact .inl (by simp [hw])
  exact hw.isSentence_unwords h (by simp)

theorem isSentence_discard : (discard.text n).IsSentence :=
  isSentence_unwords n ["Discard".toList] ["cards".toList] (by rfl)

theorem isSentence_costLimit : (costLimit.text n).IsSentence :=
  isSentence_unwords n (Text.lexicon ["chosen", "character", "with", "cost"])
    (Text.lexicon ["or", "less"]) (by rfl)

/-- The number of cards to discard, and no filter on them. -/
theorem match?_discard : ∃ m, Cost.discardToken.match? (discard.text n) = some m ∧
    m.slot .count = Text.ofNat n ∧ m.slot? .filter = none := by
  have hd : Leads Cost.discardToken ⟨none, discard.text n, []⟩
      ⟨some 's', [], [(.count, Text.ofNat n ++ " cards".toList, " cards".toList)]⟩ := by
    refine .cons (.skip (ends_phrase_eq_nil (ends_lit_ne (by decide)))) (.cons (.lit rfl)
      (.cons (.slot _ (.right (Core.ends_oneOf_ofNat n _ (by simp) (by rfl))
        (Core.leads_digits n rfl))) ?_))
    rfl
  refine ⟨_, hd.matchAfter?, ?_, rfl⟩
  rw [Match.slot, slot?_cons_self, between_append]
  rfl

theorem ofToken_discard (source : ObjectKind) : Cost.ofToken source (discard.text n) =
    .discardCard (if n < Text.naturalBound then n else 1) none := by
  have hs := isSentence_discard n
  have hcore : Text.dropTrailing (· == '.') (discard.text n).trim = discard.text n := by
    rw [hs.trim_eq]
    exact Text.dropTrailing_eq_self fun c hc => by
      simpa using (hs.ne_marks (List.mem_of_mem_getLast? hc)).2.2.1
  have hcons : discard.text n = 'D' :: ("iscard ".toList ++ (Text.ofNat n ++ " cards".toList)) :=
    rfl
  have he : Text.samePlain (discard.text n) Text.exertSymbol = false := by
    simp [hcons, Text.samePlain, Text.exertSymbol]
  have hi : Cost.ink? (discard.text n) = none :=
    hcons ▸ Cost.ink?_cons_eq_none (by decide) (by decide) _
  have hb : Cost.banishSelfToken.isMatch (discard.text n) = false :=
    Cost.isMatch_eq_false (hcons ▸ Cost.banishSelfToken_cons_eq_none (by decide) _)
  obtain ⟨m, hm, hc, hf⟩ := match?_discard n
  rw [Cost.ofToken]
  simp only [hcore, he, hi, hb, hm, hc, hf, Text.count?_ofNat_eq, Text.natural?_ofNat_eq,
    Bool.false_eq_true, if_false]
  split_ifs <;> rfl

theorem takeBound_costLimit : Selector.takeBound (costLimit.text n) =
    (some ⟨.cost, .atMost, if n < Text.naturalBound then n else 0⟩,
      "chosen character ".toList) := by
  obtain ⟨m, hm, hr, hc, hv⟩ := Core.costFilter_append n .atMost
  have hs := chosenCharacter.printed.search?_append hm
  have ht : costLimit.text n = Text.unwords chosenCharacter.printed.frontWords ++ ' ' ::
    ("with ".toList ++ ("cost ".toList ++ (Text.ofNat n ++ Core.comparisonText .atMost))) := rfl
  rw [ht, Selector.takeBound, Selector.costFilter, hs]
  simp only [hr, hc, hv, List.append_nil]
  rfl

theorem fold_costLimit : (costLimit.text n).fold = costLimit.text n := by
  have ht : costLimit.text n =
      "chosen character with cost ".toList ++ (Text.ofNat n ++ " or less".toList) := rfl
  rw [ht, Text.fold_append, Text.fold_append, Text.fold_ofNat]
  rfl

/-- Without its limit the phrase is "chosen character". -/
theorem openWalk_costLimit : Selector.openWalk (costLimit.text n) =
    ({ selector :=
        { quantifier := .chosen 1, bound := (Selector.takeBound (costLimit.text n)).1 } },
      chosenCharacter.printed.frontWords) := by
  rw [Selector.openWalk, takeBound_costLimit]
  generalize (⟨.cost, .atMost, if n < Text.naturalBound then n else 0⟩ : Bound) = b
  rfl

theorem ofPhrase_costLimit (source : ObjectKind) :
    Selector.ofPhrase source antecedent (costLimit.text n) =
      { Selector.chosen .character with
        bound := some ⟨.cost, .atMost, if n < Text.naturalBound then n else 0⟩ } := by
  have ht : (costLimit.text n).tidy = costLimit.text n :=
    (isSentence_costLimit n).trimEnd_eq fun _ h => h
  have hf : Selector.fixed? source antecedent (costLimit.text n) = none :=
    Selector.fixed?_eq_none (by rfl) source antecedent
  have ho : "one of".toList.isPrefixOf (costLimit.text n) = false := by rfl
  rw [Selector.ofPhrase, ht, fold_costLimit, hf]
  simp only
  rw [Selector.ofWords, openWalk_costLimit, fold_costLimit, ho]
  simp only
  rw [chosenCharacter.printed.run_frontWords, takeBound_costLimit]
  rfl

/-- The number behind a plus. -/
def plus : Text.Signed :=
  ⟨some .plus, Text.ofNat n, Text.ofNat_ne_nil n, Text.all_isDigit_ofNat n⟩

theorem value?_plus :
    (plus n).value? = if (n : Int) < Text.integerBound then some (n : Int) else none := by
  have hv : (plus n).value = n := congrArg Nat.cast (Text.digitsValue_ofNat n)
  have hl : -Text.integerBound ≤ (n : Int) := by
    simp only [Text.integerBound]
    omega
  simp only [Text.Signed.value?, hv, hl, true_and]

/-- The keyword Challenger with the number `n`. -/
def printedChallenger : Keyword.Printed :=
  ⟨.challenger, "Challenger".toList, some (plus n), false, by rfl, fun _ => rfl⟩

theorem entries?_challenger : Keyword.entries? (challenger.text n) =
    some [⟨.challenger, if (n : Int) < Text.integerBound then some (n : Int) else none,
      some ('+' :: Text.ofNat n), none⟩] := by
  have ht : (printedChallenger n).text = challenger.text n := by
    change "Challenger +".toList ++ (Text.ofNat n ++ []) = _
    rw [List.append_nil]
    rfl
  have he := (Keyword.Line.only (printedChallenger n)).entries?_text
  rw [Keyword.Line.text_only, ht, Keyword.Line.entries_only,
    Keyword.Printed.entry_of_value _ (s := plus n) rfl, value?_plus] at he
  exact he

theorem read_eq_outcome (p : NumberPlace) :
    p.read ctx antecedent (p.text n) = p.outcome ctx.source n := by
  cases p with
  | discard | costLimit =>
    by_cases hn : n < Text.naturalBound <;> simp only [read, ofToken_discard, ofPhrase_costLimit,
      outcome, bound, Int.ofNat_lt, hn, if_true, if_false] <;> rfl
  | _ =>
    by_cases hn : (n : Int) < Text.integerBound <;> simp only [read, ofEffect_damage,
      ofEffect_loreLoss, ofEffect_strengthLoss, ofEffect_inkSaved, entries?_challenger, Core.orZero,
      outcome, bound, hn, if_true, if_false] <;> rfl

/-- **Printed numbers are kept as long as they are in range.**  For every number, each place is read
as `NumberPlace.outcome` says: a number in range is carried, and one out of range is dropped or
another one is carried in its place. -/
theorem keeps_read_iff (p : NumberPlace) :
    p.read ctx antecedent (p.text n) = p.outcome ctx.source n ∧
      ((p.read ctx antecedent (p.text n)).Keeps n (p.meant n) ↔ (n : Int) < p.bound) := by
  have hr := read_eq_outcome ctx antecedent n p
  exact ⟨hr, hr ▸ keeps_outcome_iff ctx.source n p⟩

/-- **A count of cards out of range is read as one card**: not every number is kept. -/
theorem not_keeps_discard : let t := "Discard 4294967296 cards".toList
    discard.text 4294967296 = t ∧ Cost.ofToken .character t = .discardCard 1 none ∧
      ¬ (discard.read ⟨.character, {}⟩ none t).Keeps 4294967296 (discard.meant 4294967296) := by
  intro t
  have ht : Cost.ofToken .character t = .discardCard 1 none := by decide +kernel
  refine ⟨by decide +kernel, ht, fun ⟨he, _⟩ => ?_⟩
  have h := he 1 (by rw [read, ht]; simp [Outcome.numbers, Cost.numbers])
  cases h

end NumberPlace

end CardText
