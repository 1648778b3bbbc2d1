import CardText.Proofs.Effect.Layout

/-!
# Amounts for each of several things

A clause can end in what its amount holds for each of. It is taken off before the action is read,
and only some of the wordings put it into their amount.

* `Modifiers.counted_isInfix`: what is counted is printed in the clause;
* `Step.Represents`: a step holds what is counted, in its amount or as it is printed;
* `Wording.IsMultiplied`: the action is one of those wordings, with a plain number;
* `Step.multiplies_byClause`: the amount of a step holds what is counted in just this case.
-/

namespace CardText

open Template

/-! ### What is counted -/

namespace Modifiers

theorem takeDuration_isPrefix (t : Text) : (takeDuration t).2 <+: t := by
  rw [takeDuration]
  split
  · next d front h =>
    obtain ⟨e, -, hd⟩ := List.exists_of_findSome?_eq_some h
    obtain ⟨b, hb, he⟩ := Option.map_eq_some_iff.1 hd
    cases he
    exact isPrefix_of_searchAfter? hb
  · exact List.prefix_refl t

theorem takeIf_isInfix (t : Text) : (takeIf t).2 <:+: t := by
  rw [takeIf]
  split
  · next m h => exact slot_isInfix_of_match? h .head
  · exact List.infix_refl t

/-- The words of a clause that has no "may" stay together. -/
theorem takeMay_eq_self {t : Text} (h : (takeMay t).1 = false) : takeMay t = (false, t) := by
  rw [takeMay] at h ⊢
  split at h
  · rfl
  · split at h
    · cases h
    · split_ifs at h

theorem takeForEach_isInfix {t counted : Text} (h : (takeForEach t).1 = some counted) :
    counted <:+: t := by
  rw [takeForEach] at h
  split at h
  · next m hm =>
    cases h
    exact (Text.trim_isInfix _).trans (slot_isInfix_of_match? hm .tail)
  · cases h

theorem counted_ofClause (clause : Text) : (ofClause clause).1.counted =
    if clause.tidy.contains '"' then none
    else (takeForEach (takeIf (takeDuration (takeMay clause.tidy).2).2).2).1 := by
  rw [ofClause]
  simp only
  split_ifs <;> simp only

theorem optional_ofClause (clause : Text) : (ofClause clause).1.optional =
    if clause.tidy.contains '"' then false else (takeMay clause.tidy).1 := by
  rw [ofClause]
  simp only
  split_ifs <;> rfl

/-- What a clause counts is printed in it; only a "may" can stand in the midst of it. -/
theorem counted_isInfix {clause counted : Text} (hm : (ofClause clause).1.optional = false)
    (hc : (ofClause clause).1.counted = some counted) : counted <:+: clause := by
  have htidy : clause.tidy <:+: clause :=
    (Text.trim_isInfix _).trans ((Text.dropTrailing_isPrefix _ _).isInfix.trans
      (Text.trim_isInfix _))
  rw [optional_ofClause] at hm
  rw [counted_ofClause] at hc
  split_ifs at hm hc
  rw [takeMay_eq_self hm] at hc
  exact (takeForEach_isInfix hc).trans
    ((takeIf_isInfix _).trans ((takeDuration_isPrefix _).isInfix.trans htidy))

end Modifiers

/-! ### The steps of an action -/

/-- The wording that says most about the action is a multiplying one, and its amounts are plain
numbers. -/
def Wording.IsMultiplied (action : Text) : Prop :=
  ∃ w m, best? action = some (w, m) ∧ w ∈ multiplying ∧
    ∃ o ∈ w.amounts m, o.any Amount.isLiteral = true

namespace Step

/-- What is counted is in the amount of the step, or the step keeps it as it is printed. -/
def Represents (s : Step) (counted : Text) : Prop :=
  s.amount.bind Amount.counted? = some counted ∨ ∃ t ∈ s.freeTexts, counted <:+: t

instance (s : Step) (counted : Text) : Decidable (s.Represents counted) :=
  inferInstanceAs (Decidable (_ ∨ _))

theorem isKnown_of_isMultiplied {action : Text} (h : Wording.IsMultiplied action) :
    IsKnown action := by
  obtain ⟨w, m, hb, -, o, ho, -⟩ := h
  have hne : w.read m { source := .card } ≠ [] := fun hn =>
    List.ne_nil_of_mem ho ((w.read_eq_nil_iff m _).1 hn)
  exact ⟨{ source := .card }, by simp [ofAction?, hb, hne]⟩

theorem counted?_of_ofAction? {scope : Scope} {action counted : Text} {steps : List Step}
    (hc : scope.counted = some counted) (h : ofAction? scope action = some steps) :
    ∀ s ∈ steps, s.amount.bind Amount.counted? = some counted ↔ Wording.IsMultiplied action := by
  obtain ⟨w, m, hb, -, rfl⟩ := exists_of_ofAction? h
  intro s hs
  obtain ⟨u, hu, ha⟩ := exists_of_mem_noteLast hs
  rw [ha.amount, Wording.counted?_iff hc hu]
  constructor
  · exact fun ⟨hm, ho⟩ => ⟨w, m, hb, hm, ho⟩
  · rintro ⟨w', m', hb', hm, ho⟩
    cases hb.symm.trans hb'
    exact ⟨hm, ho⟩

end Step

/-! ### The steps of a clause -/

namespace Reading

/-- What has become of the thing counted in a step of a clause behind others: it is in the amount
exactly if the action is a multiplied one, and a clause that is not understood keeps it, unless its
"may" stood in the midst of it. -/
structure Multiplies (front : List Text) (clause counted : Text) (s : Step) : Prop where
  amount : s.amount.bind Amount.counted? = some counted ↔
    Wording.IsMultiplied (action front clause)
  represents : s.Represents counted ↔
    Wording.IsMultiplied (action front clause) ∨ ∃ t ∈ s.freeTexts, counted <:+: t
  isOpaque : s.isOpaque = true → isOptional clause = false → s.Represents counted

variable {ctx : Context} {clause counted : Text} {s : Step}

/-- The amount of a step by itself. -/
theorem counted?_of_mem_ofClause {a : Option Selector} {front : List Text}
    (hc : (Modifiers.ofClause clause).1.counted = some counted)
    (h : s ∈ (ofClause ctx (ofClauses ctx { antecedent := a } front).2 clause).1.steps) :
    s.amount.bind Amount.counted? = some counted ↔
      Wording.IsMultiplied (action front clause) := by
  have hu := understood?_ofClauses ctx a front clause
  obtain ⟨u, rfl, ⟨steps, hs, hm⟩ | ⟨hs, -, rfl⟩⟩ := exists_of_mem_ofClause h
  · exact Step.counted?_of_ofAction? hc (hu.symm.trans hs) u hm
  · have hn : ¬ Wording.IsMultiplied (action front clause) := fun hm => by
      have hk := Step.isKnown_of_isMultiplied hm
      rw [← Step.isSome_ofAction?_iff, hu.symm.trans hs] at hk
      cases hk
    simp [Step.modify, Step.ofOpaque, hn]

end Reading

namespace Step

/-- **What became of the things counted**, in strict reading or not. -/
theorem multiplies_byClause (ctx : Context) (t : Text) :
    IsLayout ctx t (byClause ctx t) ∧ AtEachClause (byClause ctx t) fun _ front r _ =>
      ∀ counted, (Modifiers.ofClause r.clause).1.counted = some counted →
        ∀ s ∈ r.steps, Reading.Multiplies (front.map (·.clause)) r.clause counted s := by
  refine ⟨isLayout_byClause ctx t, fun p hp front r behind h counted hc s hs => ?_⟩
  obtain ⟨ht, a, d, hr⟩ := exists_of_byClause hp h
  rw [hr] at hs
  obtain ⟨u, hu, rfl⟩ := List.mem_map.1 hs
  have hsame := (keepsAim_share d u).trans (keepsAim_inFrame p.1 _)
  have hamount := Reading.counted?_of_mem_ofClause hc hu
  rw [← hsame.amount] at hamount
  refine ⟨hamount, or_congr_left hamount, fun ho hm => .inr ⟨r.clause, ?_, ?_⟩⟩
  · rcases Reading.admits_of_mem_ofClause hu with ⟨_, -, hadmits⟩ | ⟨-, hkept⟩
    · rw [hsame.isOpaque, hadmits.isOpaque] at ho
      cases ho
    · have he : _ = Effect.opaqueText r.clause.trim := (hkept.trans hsame).effect
      simp [freeTexts, he, ht]
  · exact Modifiers.counted_isInfix hm hc

/-- Damage for each of several characters. -/
def damageForEach : Text :=
  "Deal 1 damage to chosen character for each character you have in play.".toList

/-- The characters are nowhere. -/
theorem not_represents_damageForEach :
    let ctx : Context := ⟨.character, {}⟩
    ¬ AtEachClause (byClause ctx damageForEach) fun _ _ r _ =>
      ∀ counted, (Modifiers.ofClause r.clause).1.counted = some counted →
        ∀ s ∈ r.steps, s.Represents counted := by
  intro ctx h
  let only : Reading :=
    { clause := "Deal 1 damage to chosen character for each character you have in play".toList
      mods := { counted := some "character you have in play".toList }
      steps := [{ effect := .damage
                  target := { quantifier := .chosen 1, kinds := [.character] }
                  amount := some (.exact 1) }] }
  have hb : byClause ctx damageForEach = [({}, [only])] := by decide +kernel
  have hs := h _ (hb ▸ List.mem_singleton_self _) [] only [] rfl "character you have in play".toList
    (by decide +kernel) _ (List.mem_singleton_self _)
  exact absurd hs (by decide)

end Step

end CardText
