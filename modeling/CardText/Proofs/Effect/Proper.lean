import CardText.Proofs.Effect.Reference
import CardText.Proofs.Effect.Strict
import CardText.Proofs.Selector.WellFormed

/-!
# Proper steps

Every step of an effect is understood, or its text is kept because reading is not strict; what it is
about is well-formed, and it has an amount where its effect needs one.

* `Step.exists_of_mem_ofEffect`: a step of an effect is a step of one of its clauses;
* `Step.IsProper`: what holds of each of them (`Step.isProper_of_mem_ofEffect`);
* `Step.Chained.isWellFormed`: where every back-reference is grounded, what it refers to is
  well-formed too.
-/

namespace CardText

/-! ### The clauses of an effect -/

theorem Reading.exists_of_mem_ofClauses {ctx : Context} {thread : Thread} {clauses : List Text}
    {r : Reading} (h : r ∈ (ofClauses ctx thread clauses).1) :
    ∃ thread' clause, r = (ofClause ctx thread' clause).1 := by
  induction clauses generalizing thread with
  | nil => cases h
  | cons clause clauses ih =>
    rcases List.mem_cons.1 h with rfl | h
    · exact ⟨thread, clause, rfl⟩
    · exact ih h

namespace Step

/-- The readings of a sentence start afresh, but for what was picked in front of it. -/
theorem exists_of_mem_readings {ctx : Context} {antecedent : Option Selector}
    {sentences : List Text} {r : Frame × List Reading} (h : r ∈ readings ctx antecedent sentences) :
    ∃ a sentence, r = ((Frame.ofSentence sentence).1, (Reading.ofClauses ctx { antecedent := a }
      (Clause.ofSentence (Frame.ofSentence sentence).2)).1) := by
  induction sentences generalizing antecedent with
  | nil => cases h
  | cons sentence sentences ih =>
    rcases List.mem_cons.1 h with rfl | h
    · exact ⟨_, _, rfl⟩
    · exact ih h

/-- A step of an effect is, but for its duration and its condition, a step of some clause. -/
theorem exists_of_mem_ofEffect {ctx : Context} {t : Text} {s : Step} (h : s ∈ ofEffect ctx t) :
    ∃ thread clause, ∃ u ∈ (Reading.ofClause ctx thread clause).1.steps, u.SameAim s := by
  rw [ofEffect, ofSentences_eq] at h
  obtain ⟨r, hr, hs⟩ := List.mem_flatMap.1 h
  rw [inSentence_eq] at hs
  obtain ⟨u, hu, rfl⟩ := List.mem_map.1 hs
  obtain ⟨reading, hreading, hu⟩ := List.mem_flatMap.1 hu
  obtain ⟨_, _, rfl⟩ := exists_of_mem_readings hr
  obtain ⟨thread, clause, rfl⟩ := Reading.exists_of_mem_ofClauses hreading
  exact ⟨thread, clause, u, hu, (keepsAim_share _ u).trans (keepsAim_inFrame _ _)⟩

/-! ### Proper steps -/

/-- The step is understood if reading is strict, what it is about is well-formed unless it refers
back, and its amount fits its effect. -/
structure IsProper (ctx : Context) (s : Step) : Prop where
  isOpaque : ctx.options.strict = true → s.isOpaque = false
  settled : ∀ r ∈ s.selectors, r.IsSettled
  amount : s.effect.Accepts s.amount

variable {ctx : Context} {s u : Step}

theorem IsProper.congr (h : s.IsProper ctx) (ha : s.SameAim u) : u.IsProper ctx where
  isOpaque hs := ha.isOpaque.trans (h.isOpaque hs)
  settled := ha.selectors ▸ h.settled
  amount := by rw [ha.effect, ha.amount]; exact h.amount

/-- A step about one kind of object, with an amount that fits its effect. -/
theorem IsProper.of_target (he : s.effect.IsBare) (hm : s.additionalTargets = [])
    (ht : s.target.IsWellFormed) (ha : s.effect.Accepts s.amount) : s.IsProper ctx where
  isOpaque _ := he.isOpaque
  settled r hr := by
    rw [selectors, he.destination?, hm] at hr
    rw [List.mem_singleton.1 hr]
    exact ht.isSettled
  amount := ha

theorem isProper_ofOpaque (h : ctx.options.strict = false) (t : Text) :
    (ofOpaque t).IsProper ctx where
  isOpaque hs := by simp [h] at hs
  settled r hr := by
    rw [List.mem_singleton.1 hr]
    exact fun _ => by constructor <;> simp [ofOpaque]
  amount := rfl

/-- A clause that is not understood has a step only where reading is not strict. -/
theorem isProper_of_mem_ofClause {thread : Thread} {clause : Text}
    (h : s ∈ (Reading.ofClause ctx thread clause).1.steps) : s.IsProper ctx := by
  rcases Reading.admits_of_mem_ofClause h with ⟨scope, -, ha⟩ | ⟨hs, ha⟩
  · exact ⟨fun _ => ha.isOpaque, fun r hr => (ha.names r hr).isSettled, ha.amount⟩
  · exact (isProper_ofOpaque hs clause).congr ha

/-- Every step of an effect is proper. -/
theorem isProper_of_mem_ofEffect {t : Text} (h : s ∈ ofEffect ctx t) : s.IsProper ctx := by
  obtain ⟨_, _, u, hu, ha⟩ := exists_of_mem_ofEffect h
  exact (isProper_of_mem_ofClause hu).congr ha

/-! ### Back-references -/

/-- A back-reference asks for what the step that grounds it does. -/
theorem Chained.isWellFormed {steps : List Step} (hc : Chained [] steps)
    (h : ∀ s ∈ steps, ∀ r ∈ s.selectors, r.IsSettled) {s : Step} (hs : s ∈ steps) {r : Selector}
    (hr : r ∈ s.selectors) : r.IsWellFormed := by
  by_cases hq : r.quantifier = .previous
  · obtain ⟨front, back, rfl⟩ := List.append_of_mem hs
    rw [chained_append] at hc
    obtain ⟨t, ht, hg⟩ := (chained_cons.1 hc.2).1 r hr hq
    have hsettled := h t (List.mem_append_left _ ht) t.target List.mem_cons_self
    exact (hsettled hg.quantifier).alike hg.alike
  · exact h s hs r hr hq

end Step

end CardText
