import CardText.Proofs.Effect.Contest
import CardText.Proofs.Effect.Quoted
import CardText.Proofs.Effect.Table
import CardText.Text.Typography

/-!
# Granted abilities

What is in the quotes of a grant takes part in the contest of the wordings: its words may say more
than the grant itself, and then they are read in its place.

* `Wording.isGrant_read`: no other wording grants an ability;
* `Grant.match?_clause`, `Grant.fit_reading`: how the wording of granted abilities matches;
* `Grant.IsQuiet`: no wording says more;
* `Grant.ofEffect_eq_iff`: the ability is granted exactly if it is quiet.
-/

namespace CardText

open Template

/-! ### Wordings that grant no ability -/

/-- The effect grants an ability in quotes. -/
def Effect.isGrant : Effect → Bool
  | grantAbility _ => true
  | _ => false

theorem Effect.isGrant_of_isAct {e : Effect} (h : e.isAct = true) : e.isGrant = false := by
  cases e with
  | grantAbility _ => cases h
  | _ => rfl

/-- Only the wording of granted abilities grants any. -/
theorem Wording.isGrant_read {w : Wording} (hw : w ≠ gainAbility) (m : Match Slot)
    (scope : Scope) : ∀ s ∈ w.read m scope, s.effect.isGrant = false := by
  intro s hs
  cases ha : w.isActing with
  | true => exact Effect.isGrant_of_isAct (isAct_read ha m scope s hs).effect
  | false =>
    rcases eq_of_isActing_eq_false ha with rfl | rfl | rfl
    · exact absurd rfl hw
    all_goals
      rw [List.mem_singleton.1 hs]
      rfl

namespace Grant

variable {q : Text}

/-! ### The match -/

/-- The match of the wording of granted abilities with the action that grants `q`. -/
def reading (q : Text) : Match Slot :=
  ⟨clause q, [], [(.formula, q ++ ['"'], ['"']),
    (.target, clause q, " gains \"".toList ++ (q ++ ['"']))]⟩

theorem match?_clause (hq : IsQuotable q) :
    Wording.gainAbility.template.match? (clause q) = some (reading q) := by
  have hc : clause q = "Chosen".toList ++ ' ' :: ("character".toList ++ ' ' ::
      ("gains".toList ++ (" \"".toList ++ (q ++ ['"'])))) := by
    have hf : front = "Chosen".toList ++ ' ' :: ("character".toList ++ ' ' ::
        ("gains".toList ++ [' '])) := by rfl
    have hm : " \"".toList = [' ', '"'] := by rfl
    rw [clause, hf, hm]
    simp only [List.append_assoc, List.cons_append, List.nil_append]
  have hv : ∀ {ms : List (Slot × Text × Text)} {r : Text},
      Leads (oneOf ["gains", "gain", "has", "have"]) ⟨some ' ', "gains".toList ++ r, ms⟩
        ⟨some 's', r, ms⟩ := by
    intro ms r
    rfl
  have hd : ∀ {ts : List (Template Slot)} {r : Text} (c : Cursor Slot),
      c.rest = "character".toList ++ r →
        ends (phrase (oneOf ["gains", "gain", "has", "have"] :: ts)) c = [] := by
    rintro ts r ⟨x, _, ms⟩ rfl
    exact ends_phrase_eq_nil (by rfl)
  have hn : ∀ c ∈ q, (c != '"') = true := fun c hm => by
    rw [bne_iff_ne]
    rintro rfl
    exact hq.noQuote hm
  have hf : ∀ {x : Option Char} {ms : List (Slot × Text × Text)},
      Leads (longest (· != '"')) ⟨x, q ++ ['"'], ms⟩ ⟨q.getLast?, ['"'], ms⟩ :=
    .longest hn rfl hq.ne_nil
  have hl := Wording.leads_subject (u := "Chosen".toList) (v := "character".toList) (by simp)
    (by simp) (by rfl) (by simp) none [] hd (hv.cons (.cons (.lit (v := " \"".toList) rfl)
      (.cons (hf.slot .formula) (.cons (.lit (v := ['"']) (r := []) rfl) .nil))))
  rw [← hc] at hl
  exact hl.matchAfter?

theorem slot?_target (q : Text) :
    (reading q).slot? .target = some "Chosen character".toList := by
  have hc : clause q = "Chosen character".toList ++ (" gains \"".toList ++ (q ++ ['"'])) := by
    have hf : front ++ ['"'] = "Chosen character".toList ++ " gains \"".toList := by rfl
    rw [← List.append_assoc, ← hf, clause, List.append_assoc, List.singleton_append]
  rw [reading, slot?_cons_ne (by simp), slot?_cons_self, hc, between_append]

theorem slot?_formula (q : Text) : (reading q).slot? .formula = some q := by
  rw [reading, slot?_cons_self, between_append]

theorem fit_reading (q : Text) : Wording.fit (reading q) = (9, Text.byteCount (clause q)) := by
  have hw : (reading q).whole = clause q := between_nil _
  have hf : Slot.free.flatMap (reading q).slot = "Chosen character".toList ++ q := by
    simp only [Slot.free, List.flatMap_cons, List.flatMap_nil, Match.slot, slot?_target,
      slot?_formula]
    simp [reading, Match.slot?]
  have hb : Text.byteCount front = 23 ∧ Text.byteCount "Chosen character".toList = 16 := ⟨rfl, rfl⟩
  have hc : Text.byteCount (clause q) = 25 + Text.byteCount q := by
    rw [clause, ← List.singleton_append, Text.byteCount_append, Text.byteCount_append,
      Text.byteCount_append, hb.1]
    simp only [Text.byteCount, show Char.utf8Size '"' = 1 from rfl]
    omega
  rw [Wording.fit, hw, hf, Text.byteCount_append, hb.2, hc]
  simp only [Prod.mk.injEq, and_true]
  omega

theorem read_reading (hq : IsQuotable q) (scope : Scope) :
    Wording.gainAbility.read (reading q) scope = [{ step q with duration := .permanent }] := by
  have ht : (reading q).filling? .target = some "Chosen character".toList :=
    Wording.filling?_eq (slot?_target q) (by rfl) (by simp)
  have hf : (reading q).filling? .formula = some q :=
    Wording.filling?_eq (slot?_formula q) hq.trim_eq hq.ne_nil
  have hs := scope.targets_chosenCharacter
  simp only [Wording.read, Wording.onTarget, Wording.formula, Scope.step, ht, hf, hs, step,
    Option.getD_some, Selector.chosen]

/-! ### The contest -/

/-- No wording says more about the action that grants `q` than the wording of granted abilities. -/
def IsQuiet (q : Text) : Prop :=
  ∀ w ∈ Wording.all, ∀ m ∈ w.template.match? (clause q),
    (Wording.fit m).1 ≤ (Wording.fit (reading q)).1

instance (q : Text) : Decidable (IsQuiet q) :=
  inferInstanceAs (Decidable (∀ w ∈ Wording.all, ∀ m ∈ w.template.match? (clause q),
    (Wording.fit m).1 ≤ (Wording.fit (reading q)).1))

/-- The wording says more than a grant, does not match the action, or ends in front of its quote. -/
def isBehind (w : Wording) : Bool :=
  w.template.leaves '"' || (w.template.isFlat && decide (10 ≤ w.template.spoken)) ||
    !admits (fun l => l.lowerPlain.head?.all (· == 'C'.toLower)) (fun _ => true) w.template

theorem isBehind_earlier : (Wording.gainAbility.earlier.all isBehind) = true := by rfl

/-- A wording in front of the grant's that says no more than it goes over less. -/
theorem worse_of_isBehind {w : Wording} (hw : isBehind w = true) {m : Match Slot}
    (hm : w.template.match? (clause q) = some m)
    (hle : (Wording.fit m).1 ≤ (Wording.fit (reading q)).1) :
    Wording.worse (Wording.fit m) (Wording.fit (reading q)) = true := by
  rw [fit_reading] at hle ⊢
  simp only [isBehind, Bool.or_eq_true, Bool.and_eq_true, decide_eq_true_eq,
    Bool.not_eq_true'] at hw
  rw [Wording.worse_iff]
  rcases hw with (hl | ⟨hf, hs⟩) | ha
  · have := byteCount_whole_lt_of_leaves hl (getLast_clause q) hm
    simp only [Wording.fit] at hle ⊢
    omega
  · have := Wording.spoken_le_fit hf hm
    omega
  · have hn := match?_cons_eq_none (c := 'C') ha
      ("hosen character gains ".toList ++ '"' :: (q ++ ['"']))
    cases hm.symm.trans hn

/-- A quiet text leaves the grant the best wording. -/
theorem best?_of_isQuiet (hq : IsQuotable q) (hs : IsQuiet q) :
    Wording.best? (clause q) = some (.gainAbility, reading q) := by
  have hm : Wording.matching [.gainAbility] (clause q) = [(.gainAbility, reading q)] := by
    simp [Wording.matching, match?_clause hq]
  refine (Wording.best?_eq_some_iff_of_part (Wording.all_eq .gainAbility) (by decide)
    (by decide)).2 ⟨by rw [hm]; rfl, fun w hw m hwm => ?_, fun w _ m hwm => ?_⟩
  · exact worse_of_isBehind (List.all_eq_true.1 isBehind_earlier _ hw) hwm
      (hs _ w.mem_all _ hwm)
  · have h₁ := hs _ w.mem_all _ hwm
    have h₂ : Text.byteCount m.whole ≤ Text.byteCount (clause q) := by
      rw [← byteCount_whole hwm]
      exact Nat.le_add_right _ _
    rw [fit_reading] at h₁ ⊢
    simp only [Wording.worse_iff, Wording.fit] at h₁ ⊢
    omega

theorem ofEffect_of_isQuiet (hq : IsQuotable q) (hs : IsQuiet q) (ctx : Context) :
    Step.ofEffect ctx (text q) = [step q] := by
  have h : (Step.ofSentence ctx none (sentence q)).1 = _ :=
    Step.ofSentence_of_clause (frame_sentence q) (ofSentence_sentence hq) (ofClause_sentence q)
      (by simp [clause]) (Step.ofAction?_of_best? (best?_of_isQuiet hq hs) rfl (read_reading hq _))
  rw [Step.ofEffect, body_text hq, sentences_text hq]
  simp only [Step.ofSentences, h, List.append_nil]
  rfl

/-- A text that is not quiet leaves another wording the best one. -/
theorem exists_best?_of_not_isQuiet (hq : IsQuotable q) (hs : ¬ IsQuiet q) :
    ∃ w m, Wording.best? (clause q) = some (w, m) ∧ w ≠ .gainAbility := by
  simp only [IsQuiet, not_forall, Nat.not_le] at hs
  obtain ⟨w, -, m, hm, hlt⟩ := hs
  obtain ⟨v, n, hb, hle⟩ := Wording.exists_best? hm
  refine ⟨v, n, hb, ?_⟩
  rintro rfl
  obtain rfl := Option.some.inj ((match?_clause hq).symm.trans (Wording.match?_of_best? hb))
  exact hle (Wording.worse_iff.2 (.inl hlt))

/-- If the text is not quiet, nothing is granted. -/
theorem isGrant_of_not_isQuiet (hq : IsQuotable q) (hs : ¬ IsQuiet q) (ctx : Context) :
    ∀ s ∈ Step.ofEffect ctx (text q), s.effect.isGrant = false := by
  obtain ⟨w, m, hb, hw⟩ := exists_best?_of_not_isQuiet hq hs
  intro s h
  rw [Step.ofEffect, body_text hq, sentences_text hq] at h
  simp only [Step.ofSentences, List.append_nil] at h
  rcases Step.effect_mem_of_best? (frame_sentence q) (ofSentence_sentence hq)
    (ofClause_sentence q) hb h with he | ⟨u, hu, he⟩
  · rw [he]
    rfl
  · rw [he]
    exact Wording.isGrant_read hw m _ u hu

/-! ### What is granted -/

/-- **A quoted ability is granted, word for word, exactly if it is quiet**, on whatever card the
sentence stands and whether the reading is strict or not. -/
theorem ofEffect_eq_iff (hq : IsQuotable q) (ctx : Context) :
    Step.ofEffect ctx (text q) = [step q] ↔ IsQuiet q := by
  refine ⟨fun h => ?_, fun hs => ofEffect_of_isQuiet hq hs ctx⟩
  by_contra hs
  have hg := isGrant_of_not_isQuiet hq hs ctx (step q) (by rw [h]; exact List.mem_singleton_self _)
  cases hg

theorem ofEffect_drawACard : IsQuotable "Draw a card.".toList ∧
    Step.ofEffect ⟨.character, {}⟩ (text "Draw a card.".toList) = [step "Draw a card.".toList] := by
  have hq : IsQuotable "Draw a card.".toList := ⟨by simp, by decide, by decide, by decide +kernel⟩
  exact ⟨hq, (ofEffect_eq_iff hq _).2 (by decide +kernel)⟩

/-- A text that is not quiet: a change of strength says more than "gains" with its quotes. -/
def strengthText : Text := "This character gets +2 \x7bS\x7d.".toList

/-- The quoted change of strength is not granted. -/
theorem ofEffect_ne_strengthText :
    IsQuotable strengthText ∧ strengthText.normalize = strengthText ∧
      Step.ofEffect ⟨.character, {}⟩ (text strengthText) ≠ [step strengthText] := by
  have hq : IsQuotable strengthText := ⟨by decide, by decide, by decide, by decide +kernel⟩
  refine ⟨hq, by decide +kernel, fun h => ?_⟩
  have hg := isGrant_of_not_isQuiet hq (by decide +kernel) _ (step strengthText)
    (by rw [h]; exact List.mem_singleton_self _)
  cases hg

end Grant

end CardText
