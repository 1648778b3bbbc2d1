import CardText.Proofs.Effect.Measure
import CardText.Proofs.Effect.Proper
import CardText.Proofs.Number

/-!
# Numbers at their limits

Numbers of 32 bits are read exactly as far as they go, and nothing that is done with an amount leads
out of their range.

* `fitting?`: a number, if it fits 32 bits with a sign;
* `Text.signed?_ofInt`, `Amount.ofText?_ofInt`: a number is read back just if it fits;
* `Text.signed?_bounds`, `Amount.within_of_ofText?`: whatever is read fits, and without a minus it
  is not negative;
* `Wording.losing`: the wordings that take the opposite of an amount, which is never negative
  (`Wording.nonneg_of_losing`);
* `Wording.isRanged`: the amounts of a wording fit;
* `Amount.exact_at_limits`: what is read at the limits, and that no amount of an effect leaves them.
-/

namespace CardText

open Template

/-- The number, if it fits 32 bits with a sign. -/
def fitting? (z : Int) : Option Int := if -2 ^ 31 ≤ z ∧ z < 2 ^ 31 then some z else none

theorem fitting?_natCast (n : Nat) :
    fitting? n = if (n : Int) < Text.integerBound then some (n : Int) else none := by
  have hlow : -2 ^ 31 ≤ (n : Int) := by omega
  simp only [fitting?, hlow, true_and]
  rfl

namespace Text

/-! ### Signed numbers -/

/-- The number `z` as it is printed, with a plus only where that is asked for. -/
def signedOf (z : Int) : Signed where
  sign := if z < 0 then some .minus else none
  digits := ofNat z.natAbs
  digits_ne_nil := ofNat_ne_nil _
  all_isDigit := all_isDigit_ofNat _

theorem text_signedOf (z : Int) : (signedOf z).text = ofInt z := by
  rw [Signed.text, ofInt, signedOf]
  split_ifs <;> rfl

theorem value_signedOf (z : Int) : (signedOf z).value = z := by
  rw [Signed.value, signedOf]
  by_cases hz : z < 0
  · simp only [hz, if_true, digitsValue_ofNat]
    omega
  · simp only [hz, if_false, digitsValue_ofNat]
    omega

/-- A number is read back as far as it fits. -/
theorem signed?_ofInt (z : Int) : signed? (ofInt z) = fitting? z := by
  rw [← text_signedOf, Signed.signed?_text, Signed.value?, value_signedOf]
  rfl

/-- A plus in front changes nothing. -/
theorem signed?_plus (n : Nat) : signed? ('+' :: ofNat n) = fitting? n := by
  have h := (NumberPlace.plus n).signed?_text
  rwa [NumberPlace.value?_plus, ← fitting?_natCast] at h

/-- A count is no negative number. -/
theorem nonneg_of_count {o : Option Nat} {z : Int} (h : (o >>= fun n => pure (n : Int)) = some z) :
    0 ≤ z := by
  obtain ⟨n, -, hn⟩ := Option.bind_eq_some_iff.1 h
  obtain rfl := Option.some.inj hn
  exact Int.natCast_nonneg n

theorem integer?_bounds {t : Text} {z : Int} (h : integer? t = some z) :
    (-2 ^ 31 ≤ z ∧ z < 2 ^ 31) ∧ ('-' ∉ t → 0 ≤ z) := by
  rw [integer?.eq_def] at h
  split at h
  · obtain ⟨h, hz⟩ := Option.filter_eq_some_iff.1 h
    obtain ⟨k, hk, rfl⟩ := Option.map_eq_some_iff.1 h
    have hpos := nonneg_of_count hk
    have hlow : -2 ^ 31 ≤ -k := of_decide_eq_true hz
    exact ⟨by omega, fun hm => absurd List.mem_cons_self hm⟩
  all_goals
    obtain ⟨h, hz⟩ := Option.filter_eq_some_iff.1 h
    obtain ⟨k, hk, rfl⟩ := Option.map_eq_some_iff.1 h
    have hpos := nonneg_of_count hk
    have hup : k < 2 ^ 31 := of_decide_eq_true hz
    exact ⟨by omega, fun _ => hpos⟩

/-- What is read as a signed number fits, and without a minus it is not negative. -/
theorem signed?_bounds {t : Text} {z : Int} (h : signed? t = some z) :
    (-2 ^ 31 ≤ z ∧ z < 2 ^ 31) ∧ ('-' ∉ t → 0 ≤ z) := by
  have htrim : '-' ∉ t → '-' ∉ t.trim := fun hm ht => hm ((trim_isInfix t).subset ht)
  rw [signed?] at h
  split at h
  · next r hr =>
    obtain ⟨hz, hpos⟩ := integer?_bounds h
    exact ⟨hz, fun hm => hpos fun hmr => htrim hm (hr ▸ List.mem_cons_of_mem _ hmr)⟩
  · obtain ⟨hz, hpos⟩ := integer?_bounds h
    exact ⟨hz, fun hm => hpos (htrim hm)⟩

/-- Lower case brings no minus. -/
theorem not_mem_fold {t : Text} (h : '-' ∉ t) : '-' ∉ t.fold := fun hm =>
  h (mem_of_mem_fold hm rfl (by decide))

/-- Behind a minus stands no count. -/
theorem count?_minus (t : Text) : count? ('-' :: t) = none := by
  have hw : ∀ e ∈ numberWords, e.1.toList.head? ≠ some '-' := by decide
  have hf : fold ('-' :: t) = '-' :: fold t := rfl
  rw [count?, hf, lookup?_eq_none_of_head hw]
  rfl

end Text

namespace Amount

/-- The numbers of the amount are not below `low` and fit 32 bits with a sign. -/
def Within (low : Int) (a : Amount) : Prop := ∀ z ∈ a.numbers, low ≤ z ∧ z < 2 ^ 31

theorem within_exact {low z : Int} : (exact z).Within low ↔ low ≤ z ∧ z < 2 ^ 31 := by
  simp [Within, numbers]

theorem within_upTo {low z : Int} : (upTo z).Within low ↔ low ≤ z ∧ z < 2 ^ 31 := by
  simp [Within, numbers]

theorem within_of_numbers {low : Int} {a : Amount} (h : a.numbers = []) : a.Within low := by
  intro z hz
  rw [h] at hz
  cases hz

theorem Within.mono {low low' : Int} {a : Amount} (h : a.Within low) (hl : low' ≤ low) :
    a.Within low' := fun z hz => ⟨Int.le_trans hl (h z hz).1, (h z hz).2⟩

theorem within_getD {low n : Int} {o : Option Amount} (h : ∀ a ∈ o, a.Within low)
    (hn : low ≤ n ∧ n < 2 ^ 31) : (o.getD (.exact n)).Within low := by
  cases o with
  | none => exact within_exact.2 hn
  | some a => exact h a rfl

/-- The opposite of an amount that is not negative fits. -/
theorem Within.negate {a : Amount} (h : a.Within 0) : a.negate.Within (-2 ^ 31) := by
  cases a with
  | exact z =>
    have := within_exact.1 h
    exact within_exact.2 (by omega)
  | upTo z =>
    have := within_upTo.1 h
    exact within_upTo.2 (by omega)
  | _ => exact h.mono (by decide)

theorem integerOfCount?_bounds {t : Text} {z : Int} (h : integerOfCount? t = some z) :
    0 ≤ z ∧ z < 2 ^ 31 := by
  obtain ⟨h, hz⟩ := Option.filter_eq_some_iff.1 h
  obtain ⟨k, hk, rfl⟩ := Option.map_eq_some_iff.1 h
  exact ⟨Text.nonneg_of_count hk, of_decide_eq_true hz⟩

/-- What is read as an amount fits, and without a minus it is not negative. -/
theorem within_of_ofText? {t : Text} {a : Amount} (h : ofText? t = some a) :
    a.Within (-2 ^ 31) ∧ ('-' ∉ t → a.Within 0) := by
  have hfold : '-' ∉ t → '-' ∉ t.trim.fold := fun hm =>
    Text.not_mem_fold fun ht => hm ((Text.trim_isInfix t).subset ht)
  rw [ofText?] at h
  split at h
  · obtain ⟨z, hz, rfl⟩ := Option.map_eq_some_iff.1 h
    have := integerOfCount?_bounds hz
    exact ⟨within_upTo.2 (by omega), fun _ => within_upTo.2 this⟩
  · split at h
    · cases h
      exact ⟨within_of_numbers rfl, fun _ => within_of_numbers rfl⟩
    · split at h
      · cases h
        exact ⟨within_of_numbers rfl, fun _ => within_of_numbers rfl⟩
      · obtain ⟨z, hz, rfl⟩ := Option.map_eq_some_iff.1 h
        simp only [within_exact]
        rcases Option.or_eq_some_iff.1 hz with hz | ⟨-, hz⟩
        · obtain ⟨hb, hpos⟩ := Text.signed?_bounds hz
          exact ⟨hb, fun hm => ⟨hpos (hfold hm), hb.2⟩⟩
        · have := integerOfCount?_bounds hz
          exact ⟨by omega, fun _ => this⟩

/-- A number is an amount as far as it fits. -/
theorem ofText?_ofInt (z : Int) : ofText? (Text.ofInt z) = (fitting? z).map exact := by
  by_cases hz : z < 0
  · have ht : (Text.ofInt z).trim = Text.ofInt z := by
      rw [← Text.text_signedOf]
      exact (Text.signedOf z).isSentence_text.trim_eq
    have hm : Text.ofInt z = '-' :: Text.ofNat z.natAbs := if_pos hz
    have hf : (Text.ofInt z).fold = Text.ofInt z := by
      rw [hm]
      exact congrArg ('-' :: ·) (Text.fold_ofNat _)
    have hu : "up to ".toList.isPrefixOf? (Text.ofInt z) = none := by rw [hm]; rfl
    have ha : Text.ofInt z ≠ "all".toList := fun h => by rw [hm] at h; cases h
    have hx : Text.ofInt z ≠ "x".toList := fun h => by rw [hm] at h; cases h
    have hc : integerOfCount? (Text.ofInt z) = none := by
      rw [integerOfCount?, hm, Text.count?_minus]
      rfl
    simp only [ofText?, ht, hf, hu, if_neg ha, if_neg hx, Text.signed?_ofInt, hc, Option.or_none]
  · obtain ⟨n, rfl⟩ := Int.eq_ofNat_of_zero_le (Int.not_lt.1 hz)
    rw [Text.ofInt, if_neg hz, Int.natAbs_natCast, Core.ofText?_ofNat_eq, fitting?_natCast]
    split_ifs <;> rfl

end Amount

/-- That an amount holds for each of several things does not change its number. -/
theorem Scope.numbers_scaled (scope : Scope) (a : Amount) :
    (scope.scaled a).numbers = a.numbers := by
  unfold scaled
  split <;> rfl

namespace Wording

variable {m : Match Slot}

/-! ### The number of a match -/

theorem within_amount? {a : Amount} (h : a ∈ amount? m) : a.Within (-2 ^ 31) := by
  obtain ⟨t, -, ht⟩ := Option.bind_eq_some_iff.1 h
  exact (Amount.within_of_ofText? ht).1

theorem number_bounds (m : Match Slot) : -2 ^ 31 ≤ number m ∧ number m < 2 ^ 31 := by
  rw [number]
  cases h : (m.filling? .number).bind Text.signed? with
  | none => decide
  | some z =>
    obtain ⟨t, -, ht⟩ := Option.bind_eq_some_iff.1 h
    exact (Text.signed?_bounds ht).1

/-- The wordings of a loss, which take the opposite of the number that is printed. -/
def losing : List Wording := [loseStat, loreChange]

theorem sparesIn_losing : ∀ w ∈ losing, w.template.sparesIn .number '-' = true := by
  decide

/-- **The opposite of no negative number is taken**: the number that a wording of a loss finds in
any text at all fits and is not negative. -/
theorem nonneg_of_losing {w : Wording} (hw : w ∈ losing) {text : Text}
    (hm : w.template.match? text = some m) :
    (0 ≤ number m ∧ number m < 2 ^ 31) ∧ ∀ a ∈ amount? m, a.Within 0 := by
  have hf : ∀ t ∈ m.filling? .number, '-' ∉ t := by
    intro t ht
    obtain ⟨ht, -⟩ := Option.filter_eq_some_iff.1 ht
    obtain ⟨u, hu, rfl⟩ := Option.map_eq_some_iff.1 ht
    exact fun h => not_mem_slot? (sparesIn_losing w hw) hm hu ((Text.trim_isInfix u).subset h)
  refine ⟨⟨?_, (number_bounds m).2⟩, fun a ha => ?_⟩
  · rw [number]
    cases h : (m.filling? .number).bind Text.signed? with
    | none => exact Int.le_refl 0
    | some z =>
      obtain ⟨t, ht, hz⟩ := Option.bind_eq_some_iff.1 h
      exact (Text.signed?_bounds hz).2 (hf t ht)
  · obtain ⟨t, ht, ha⟩ := Option.bind_eq_some_iff.1 ha
    exact (Amount.within_of_ofText? ha).2 (hf t ht)

/-! ### The table -/

/-- The amounts that a match of the wording states fit. -/
def IsRanged (w : Wording) : Prop :=
  ∀ text m, w.template.match? text = some m → ∀ o ∈ w.amounts m, ∀ a ∈ o, a.Within (-2 ^ 31)

section Readings

variable {w : Wording}

/-- A reading of one step. -/
theorem isRanged_of (o : Match Slot → Option Amount) (ho : ∀ m, ∀ a ∈ o m, a.Within (-2 ^ 31))
    (h : ∀ m, w.amounts m = [o m]) : w.IsRanged := by
  intro text m _ o' ho'
  rw [h, List.mem_singleton] at ho'
  exact ho' ▸ ho m

/-- A reading of one step without a number. -/
theorem isRanged_plain (o : Match Slot → Option Amount) (ho : ∀ m, ∀ a ∈ o m, a.numbers = [])
    (h : ∀ m, w.amounts m = [o m]) : w.IsRanged :=
  isRanged_of o (fun m a ha => Amount.within_of_numbers (ho m a ha)) h

/-- A reading of one step without an amount. -/
theorem isRanged_none (h : ∀ m, w.amounts m = [none]) : w.IsRanged :=
  isRanged_plain (fun _ => none) nofun h

/-- A reading of one step with the amount that is printed. -/
theorem isRanged_amount? (h : ∀ m, w.amounts m = [amount? m]) : w.IsRanged :=
  isRanged_of amount? (fun _ _ => within_amount?) h

/-- A reading of one step with the number that is printed. -/
theorem isRanged_number (h : ∀ m, w.amounts m = [some (.exact (number m))]) : w.IsRanged :=
  isRanged_of _ (fun m _ ha => by cases ha; exact Amount.within_exact.2 (number_bounds m)) h

end Readings

theorem isRanged_statChange {change symbol : Slot} :
    ∀ s ∈ statChange m { source := .card } change symbol, ∀ a ∈ s.amount, a.Within (-2 ^ 31) := by
  intro s hs
  rw [statChange] at hs
  split at hs
  · next z _ hz _ =>
    obtain ⟨t, -, ht⟩ := Option.bind_eq_some_iff.1 hz
    rw [List.mem_singleton.1 hs]
    rintro a ⟨⟩
    exact Amount.within_exact.2 (Text.signed?_bounds ht).1
  · cases hs

theorem isRanged_grantKeyword :
    ∀ s ∈ grantKeyword m { source := .card }, ∀ a ∈ s.amount, a.Within (-2 ^ 31) := by
  intro s hs
  rw [grantKeyword] at hs
  split at hs
  · cases hs
  · simp only at hs
    split at hs
    · cases hs
    · rw [List.mem_singleton.1 hs]
      intro a ha
      obtain ⟨z, hz, rfl⟩ := Option.map_eq_some_iff.1 ha
      obtain ⟨v, hv, rfl⟩ := Option.map_eq_some_iff.1 hz
      obtain ⟨b, -, hb⟩ := Option.bind_eq_some_iff.1 hv
      obtain ⟨n, hn, rfl⟩ := Option.map_eq_some_iff.1 hb
      exact Amount.within_exact.2 (Text.signed?_bounds hn).1

theorem isRanged_loseStat : loseStat.IsRanged := by
  intro text m hm o ho
  have hn := (nonneg_of_losing (by decide) hm).1
  rw [List.mem_singleton.1 ho]
  rintro a ⟨⟩
  exact Amount.within_exact.2 (by omega)

theorem isRanged_loreChange : loreChange.IsRanged := by
  intro text m hm o ho
  have hn := Amount.within_getD (nonneg_of_losing (by decide) hm).2 (n := 0) (by decide)
  rw [List.mem_singleton.1 ho]
  rintro a ⟨⟩
  rw [Amount.Within, Scope.numbers_scaled]
  split_ifs
  · exact hn.negate
  · exact hn.mono (by decide)

/-- **The amounts that a wording finds in any text at all fit.** -/
theorem isRanged (w : Wording) : w.IsRanged := by
  cases w with
  | modifyStat =>
    intro text m _ o ho
    obtain ⟨s, hs, rfl⟩ := List.mem_map.1 ho
    rcases List.mem_append.1 hs with hs | hs
    · exact isRanged_statChange s hs
    · exact isRanged_statChange s hs
  | loseStat => exact isRanged_loseStat
  | loreChange => exact isRanged_loreChange
  | dealDamage | sourceDealsDamage | putDamage | removeDamage | moveDamage | discard | lookAtTop =>
    exact isRanged_amount? fun _ => rfl
  | dealDamageEqual | loreEqual =>
    exact isRanged_plain (fun m => some (.computed (formula m))) (by rintro m a ⟨⟩; rfl)
      fun _ => rfl
  | draw =>
    refine isRanged_of (fun m => some ((amount? m).getD (.exact 1))) ?_ fun _ => rfl
    rintro m a ⟨⟩
    exact Amount.within_getD (fun _ => within_amount?) (by decide)
  | drawUntil =>
    exact isRanged_plain (fun m => some (.computed ("until ".toList ++ formula m)))
      (by rintro m a ⟨⟩; rfl) fun _ => rfl
  | discardHand | lookAtHand | revealHand =>
    exact isRanged_plain (fun _ => some .all) (by rintro m a ⟨⟩; rfl) fun _ => rfl
  | gainKeyword =>
    intro text m _ o ho
    obtain ⟨s, hs, rfl⟩ := List.mem_map.1 ho
    exact isRanged_grantKeyword s hs
  | payLess | costsLess => exact isRanged_number fun _ => rfl
  | returnToHand | putIntoHand | putIntoInkwell | shuffleIntoDeck | putOnDeck | putIntoDiscard
  | playFree | play | reveal | searchDeck | banish | exert | ready | choosesAndActs | gainAbility
  | restrictKnown | restrictOther => exact isRanged_none fun _ => rfl

/-- The amounts of a wording fit, whatever is counted. -/
theorem within_of_mem_read {w : Wording} {text : Text} (hm : w.template.match? text = some m)
    {scope : Scope} {s : Step} (hs : s ∈ w.read m scope) {a : Amount} (ha : a ∈ s.amount) :
    a.Within (-2 ^ 31) := by
  -- with its scope a wording only says of each amount whether it holds for each of several things
  have hnum : ∀ a : Amount, ((if w ∈ multiplying then scope.scaled else id) a).numbers =
      a.numbers := by
    intro a
    split_ifs
    · exact scope.numbers_scaled a
    · rfl
  obtain ⟨-, o, ho, he⟩ := exists_of_mem_read hs
  rw [he] at ha
  obtain ⟨b, hb, rfl⟩ := Option.map_eq_some_iff.1 ha
  rw [Amount.Within, hnum]
  exact w.isRanged text m hm o ho b hb

end Wording

/-! ### The steps of an effect -/

namespace Step

/-- A step of an effect is a step of a wording that matches some text, or it has no amount. -/
theorem exists_read_of_mem_ofEffect {ctx : Context} {t : Text} {s : Step} (h : s ∈ ofEffect ctx t) :
    (∃ w : Wording, ∃ text m scope, w.template.match? text = some m ∧
      ∃ u ∈ w.read m scope, u.amount = s.amount) ∨ s.amount = none := by
  obtain ⟨thread, clause, u, hu, ha⟩ := exists_of_mem_ofEffect h
  rw [ha.amount]
  obtain ⟨v, rfl, ⟨steps, hs, hv⟩ | ⟨-, -, rfl⟩⟩ := Reading.exists_of_mem_ofClause hu
  · obtain ⟨w, m, hb, -, rfl⟩ := exists_of_ofAction? (Reading.ofAction?_of_understood? hs)
    obtain ⟨x, hx, hax⟩ := exists_of_mem_noteLast hv
    exact .inl ⟨w, _, m, _, Wording.match?_of_best? hb, x, hx, hax.amount.symm⟩
  · exact .inr rfl

theorem within_of_mem_ofEffect {ctx : Context} {t : Text} {s : Step} (h : s ∈ ofEffect ctx t)
    {a : Amount} (ha : a ∈ s.amount) : a.Within (-2 ^ 31) := by
  rcases exists_read_of_mem_ofEffect h with ⟨w, text, m, scope, hm, u, hu, he⟩ | hn
  · exact Wording.within_of_mem_read hm hu (he ▸ ha)
  · rw [hn] at ha
    cases ha

end Step

/-- **Numbers are exact at their limits.**  A signed number is read back just if it fits 32 bits,
with a plus or without, and so is an amount and the limit behind "up to"; a count is read back just
if it fits 32 bits without a sign.  The number of a loss is never negative, whatever text it is
found in, so that its opposite fits as well: all amounts of all effects fit. -/
theorem Amount.exact_at_limits :
    (∀ z : Int, Text.signed? (Text.ofInt z) = fitting? z ∧
      ofText? (Text.ofInt z) = (fitting? z).map exact) ∧
    (∀ n : Nat, Text.signed? ('+' :: Text.ofNat n) = fitting? n ∧
      Text.count? (Text.ofNat n) = (if n < 2 ^ 32 then some n else none) ∧
      ofText? ("up to ".toList ++ Text.ofNat n) = (fitting? n).map upTo) ∧
    (∀ w ∈ Wording.losing, ∀ text m, w.template.match? text = some m →
      (0 ≤ Wording.number m ∧ Wording.number m < 2 ^ 31) ∧
        ∀ a ∈ Wording.amount? m, a.Within 0) ∧
    ∀ ctx t, ∀ s ∈ Step.ofEffect ctx t, ∀ a ∈ s.amount, a.Within (-2 ^ 31) := by
  refine ⟨fun z => ⟨Text.signed?_ofInt z, ofText?_ofInt z⟩,
    fun n => ⟨Text.signed?_plus n, ?_, ?_⟩, fun _ hw _ _ => Wording.nonneg_of_losing hw,
    fun _ _ _ hs _ => Step.within_of_mem_ofEffect hs⟩
  · rw [Text.count?_ofNat_eq, Text.natural?_ofNat_eq]
    rfl
  · rw [← Core.upTo_eq, Core.ofText?_upTo_eq, fitting?_natCast]
    split_ifs <;> rfl

/-- The greatest losses of strength and of lore. -/
theorem Amount.exact_at_limits_loss :
    let w := Wording.losing.head (by decide)
    let lore := upTo (-2147483647)
    (∃ m, w.template.match? "loses 2147483647 \x7bS\x7d".toList = some m ∧
        Wording.number m = 2147483647 ∧ 0 ≤ Wording.number m ∧ Wording.number m < 2 ^ 31) ∧
      (∃ s ∈ Step.ofEffect ⟨.character, {}⟩ "Each opponent loses up to 2147483647 lore.".toList,
        lore ∈ s.amount) ∧ lore.Within (-2 ^ 31) := by
  intro w lore
  have hw : (w.template.match? "loses 2147483647 \x7bS\x7d".toList).map Wording.number =
      some 2147483647 := by decide +kernel
  obtain ⟨m, hm, hn⟩ := Option.map_eq_some_iff.1 hw
  have hs : ∃ s ∈ Step.ofEffect ⟨.character, {}⟩
      "Each opponent loses up to 2147483647 lore.".toList, lore ∈ s.amount := by decide +kernel
  refine ⟨⟨m, hm, hn, (exact_at_limits.2.2.1 w (List.head_mem _) _ m hm).1⟩, hs, ?_⟩
  obtain ⟨s, hs, ha⟩ := hs
  exact exact_at_limits.2.2.2 _ _ s hs lore ha

end CardText
