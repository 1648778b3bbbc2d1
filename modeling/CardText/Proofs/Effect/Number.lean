import CardText.Proofs.Effect.Reading

/-!
# Sentences with a number of any size

The number of a sentence may be too large for the game.

* `Core.ofEffect_deal`, `Core.ofEffect_eachOpponentLoses`, `Core.ofEffect_characterLoses`,
  `Core.ofEffect_payLess`: the one step of each of four sentences, for every number.

Out of range, the number of damage is no amount at all; the other numbers count as zero.
-/

namespace CardText

namespace Core

open Template

variable (ctx : Context) (n : Nat)

/-! ### Damage and lore -/

theorem ofEffect_deal (p : Phrase) :
    Step.ofEffect ctx (Text.unwords ("Deal".toList :: dealtWords n p) ++ ['.']) =
      [{ effect := .damage
         target := p.selector
         amount := if (n : Int) < Text.integerBound then some (.exact n) else none }] := by
  have h : Text.AllFrom plainVocabulary ("Deal".toList :: dealtWords n p) :=
    ((allFrom_dealtWords n p).cons "Deal".toList).mono (by rfl)
  exact Step.ofEffect_unwords isQuiet_plainVocabulary h (by simp)
    (fun scope _ => ofAction?_dealWords scope true n p) rfl ctx

theorem ofEffect_eachOpponentLoses :
    Step.ofEffect ctx (Text.unwords (loseWords n) ++ ['.']) =
      [{ effect := .loreChange
         target := .eachOpponent
         amount := some (.exact (-orZero n)) }] :=
  Step.ofEffect_unwords isQuiet_plainVocabulary (allFrom_loseWords n)
    (by simp [loseWords, Text.lexicon]) (fun _ hs => ofAction?_loseWords hs n) rfl ctx

/-! ### Numbers that count as zero -/

theorem number_ofNat {t r u : Text} {ms : List (Slot × Text × Text)} {e : Slot × Text × Text}
    (he : e.1 ≠ .number) :
    Wording.number ⟨t, r, e :: (.number, Text.ofNat n ++ u, u) :: ms⟩ = orZero n := by
  have hs : Match.slot? ⟨t, r, e :: (.number, Text.ofNat n ++ u, u) :: ms⟩ Slot.number =
      some (Text.ofNat n) := by rw [slot?_cons_ne he, slot?_cons_self, between_append]
  rw [Wording.number, Wording.filling?_eq hs (Text.trim_ofNat _) (Text.ofNat_ne_nil _),
    Option.bind_some, Text.signed?_ofNat_eq, orZero]
  split_ifs <;> rfl

/-! ### Loss of a stat -/

/-- The words behind the first one of a loss of strength. -/
def strengthWords : List Text :=
  Text.lexicon ["character", "loses"] ++ Text.ofNat n :: Text.lexicon ["\x7bS\x7d"]

/-- The words of a loss of strength behind the first one. -/
def strengthVocabulary : List Text := Text.lexicon ["character", "loses", "\x7bS\x7d"]

theorem allFrom_strengthWords : Text.AllFrom strengthVocabulary (strengthWords n) :=
  .append (.of_contains (by rfl)) (.append (.number _ n) (.of_contains (by rfl)))

theorem isQuiet_strengthVocabulary : Clause.IsQuiet ("Chosen".toList :: strengthVocabulary) where
  plain := by rfl
  fronts := by rfl
  inert := by rfl
  clauses := by rfl
  endings := by rfl

theorem isUnrivalled_loseStat :
    isUnrivalled strengthVocabulary "Chosen".toList .loseStat = true := by
  decide +kernel

/-- The number and the symbol of a loss of strength. -/
theorem leads_strength {x : Option Char} {ms : List (Slot × Text × Text)} :
    Leads (phrase [" ", slot .number digits, " \x7b", slot .stat Wording.statLetter, "\x7d"])
      ⟨x, " ".toList ++ (Text.ofNat n ++ " \x7bS\x7d".toList), ms⟩
      ⟨some '\x7d', [], (.stat, "S\x7d".toList, "\x7d".toList) ::
        (.number, Text.ofNat n ++ " \x7bS\x7d".toList, " \x7bS\x7d".toList) :: ms⟩ :=
  .cons (.lit rfl) (.cons ((leads_digits n rfl).slot _) rfl)

/-- A loss of strength, from what fills its places. -/
theorem losesStat_eq {scope : Scope} {m : Match Slot} {t : Text} {target : Selector} {k : Int}
    (hn : Wording.number m = k) (hs : m.filling? .stat = some "S".toList)
    (ht : m.filling? .target = some t) (hc : scope.targets (some t) = (target, [])) :
    ({ scope.step (.modifyStat (Wording.statOf ((m.filling? .stat).getD [])))
        (m.filling? .target) with amount := some (.exact (-Wording.number m)) } : Step) =
      { effect := .modifyStat .strength, target, amount := some (.exact (-k)) } := by
  rw [hn, hs, ht, Scope.step, hc]
  rfl

theorem unwords_strengthWords : Text.unwords ("Chosen".toList :: strengthWords n) =
    "Chosen".toList ++ ' ' :: ("character".toList ++ ' ' :: ("loses".toList ++ (" ".toList ++
      (Text.ofNat n ++ " \x7bS\x7d".toList)))) := by
  change Text.unwords ["Chosen".toList, "character".toList, "loses".toList, Text.ofNat n,
    "\x7bS\x7d".toList] = _
  simp only [Text.unwords_cons_cons, Text.unwords_singleton]
  rfl

theorem ofAction?_characterLoses (scope : Scope) :
    Step.ofAction? scope (Text.unwords ("Chosen".toList :: strengthWords n)) =
      some [{ effect := .modifyStat .strength
              target := .chosen .character
              amount := some (.exact (-orZero n)) }] := by
  have hd : ∀ {ts : List (Template Slot)} {r : Text} (c : Cursor Slot),
      c.rest = "character".toList ++ r → ends (phrase (oneOf ["loses", "lose"] :: ts)) c = [] := by
    rintro ts r ⟨x, _, ms⟩ rfl
    exact ends_phrase_eq_nil (by rfl)
  have hv : ∀ {r : Text} {ms : List (Slot × Text × Text)}, Leads (oneOf ["loses", "lose"])
      ⟨some ' ', "loses".toList ++ r, ms⟩ ⟨some 's', r, ms⟩ := by
    intro r ms
    rfl
  have hl := Wording.leads_subject (u := "Chosen".toList) (v := "character".toList) (by simp)
    (by simp) (by rfl) (by simp) none [] hd (hv.cons (leads_strength n))
  rw [← unwords_strengthWords] at hl
  have hw := allFrom_strengthWords n
  refine Step.ofAction?_of_best? (best?_of_isUnrivalled isUnrivalled_loseStat hw
    ((hw.cons _).not_mem_space (by rfl)) hl.matchAfter?) rfl ?_
  refine congrArg (fun s => [s]) (losesStat_eq (number_ofNat n (by simp)) rfl ?_
    scope.targets_chosenCharacter)
  rw [unwords_strengthWords]
  exact filling?_subject (by simp) (by simp) (by rfl)

theorem ofEffect_characterLoses :
    Step.ofEffect ctx (Text.unwords ("Chosen".toList :: strengthWords n) ++ ['.']) =
      [{ effect := .modifyStat .strength
         target := .chosen .character
         amount := some (.exact (-orZero n)) }] :=
  Step.ofEffect_unwords isQuiet_strengthVocabulary ((allFrom_strengthWords n).cons _) (by simp)
    (fun scope _ => ofAction?_characterLoses n scope) rfl ctx

/-! ### Ink saved -/

/-- The words behind the first one of "You pay 2 {I} less for the next item". -/
def lessWords : List Text :=
  Text.lexicon ["pay"] ++ Text.ofNat n ::
    Text.lexicon ["\x7bI\x7d", "less", "for", "the", "next", "item"]

/-- The words of ink saved behind the first one. -/
def lessVocabulary : List Text :=
  Text.lexicon ["pay", "\x7bI\x7d", "less", "for", "the", "next", "item"]

theorem allFrom_lessWords : Text.AllFrom lessVocabulary (lessWords n) :=
  .append (.of_contains (by rfl)) (.append (.number _ n) (.of_contains (by rfl)))

theorem isQuiet_lessVocabulary : Clause.IsQuiet ("You".toList :: lessVocabulary) where
  plain := by rfl
  fronts := by rfl
  inert := by rfl
  clauses := by rfl
  endings := by rfl

theorem isUnrivalled_payLess : isUnrivalled lessVocabulary "You".toList .payLess = true := by
  decide +kernel

/-- The number and the target of ink saved. -/
theorem leads_less {x : Option Char} {ms : List (Slot × Text × Text)} :
    Leads (phrase [slot .number digits, " \x7bi\x7d less ", oneOf ["to play", "for"], " ",
        Wording.object, stop])
      ⟨x, Text.ofNat n ++ " \x7bI\x7d less for the next item".toList, ms⟩
      ⟨some 'm', [], (.target, "the next item".toList, []) ::
        (.number, Text.ofNat n ++ " \x7bI\x7d less for the next item".toList,
          " \x7bI\x7d less for the next item".toList) :: ms⟩ :=
  .cons ((leads_digits n rfl).slot _) rfl

theorem inkLess_eq {scope : Scope} {m : Match Slot} {t : Text} {target : Selector} {k : Int}
    (hs : scope.counted = none) (hn : Wording.number m = k) (ht : m.filling? .target = some t)
    (hc : scope.targets (some t) = (target, [])) :
    Wording.inkLess m scope =
      [{ effect := .costReduction, target, amount := some (.exact k) }] := by
  simp only [Wording.inkLess, hn, ht, Scope.step, hc, Scope.scaled, hs]

theorem unwords_lessWords : Text.unwords ("You".toList :: lessWords n) =
    "You ".toList ++ ("pay".toList ++ (" ".toList ++ (Text.ofNat n ++
      " \x7bI\x7d less for the next item".toList))) := by
  change Text.unwords ["You".toList, "pay".toList, Text.ofNat n, "\x7bI\x7d".toList,
    "less".toList, "for".toList, "the".toList, "next".toList, "item".toList] = _
  simp only [Text.unwords_cons_cons, Text.unwords_singleton]
  rfl

theorem ofAction?_payLess {scope : Scope} (hs : scope.counted = none) :
    Step.ofAction? scope (Text.unwords ("You".toList :: lessWords n)) =
      some [{ effect := .costReduction
              target := { Selector.chosen .item with qualifier := some "next".toList }
              amount := some (.exact (orZero n)) }] := by
  have hy : ∀ {r : Text}, Leads (opt ["you "] : Template Slot) ⟨none, "You ".toList ++ r, []⟩
      ⟨some ' ', r, []⟩ := .left (.cons (.lit rfl) .nil)
  have hp : ∀ {r : Text}, Leads (opt ["s"] : Template Slot) ⟨some 'y', " ".toList ++ r, []⟩
      ⟨some 'y', " ".toList ++ r, []⟩ := .skip (by rfl)
  have hl := hy.cons ((Leads.lit (w := "pay".toList) rfl).cons
    (hp.cons ((Leads.lit (w := " ".toList) rfl).cons (leads_less n))))
  rw [← unwords_lessWords] at hl
  have hw := allFrom_lessWords n
  refine Step.ofAction?_of_best? (best?_of_isUnrivalled isUnrivalled_payLess hw
    ((hw.cons _).not_mem_space (by rfl)) hl.matchAfter?) rfl ?_
  refine inkLess_eq hs (number_ofNat n (by simp))
    (Wording.filling?_eq slot?_cons_self (by rfl) (by simp [between])) ?_
  rw [between_nil]
  exact Scope.targets_of_ofWords (by rfl) (by rfl) (by simp) (by rfl) (by decide +kernel)

theorem ofEffect_payLess :
    Step.ofEffect ctx (Text.unwords ("You".toList :: lessWords n) ++ ['.']) =
      [{ effect := .costReduction
         target := { Selector.chosen .item with qualifier := some "next".toList }
         amount := some (.exact (orZero n)) }] :=
  Step.ofEffect_unwords isQuiet_lessVocabulary ((allFrom_lessWords n).cons _) (by simp)
    (fun _ hs => ofAction?_payLess n hs) rfl ctx

end Core

end CardText
