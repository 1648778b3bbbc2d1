import CardText.Effect.Wording

/-!
# What the table of wordings does

All wordings of the table but three stand for actions, and no wording says when its steps are
carried out.

* `Effect.isAct`: the effect is an action, no restriction and nothing granted;
* `Wording.isAct_read`: the steps of all wordings but three are actions;
* `Wording.condition_read`: the steps of a wording have no condition.
-/

namespace CardText

open Template

/-- Something is done: nothing is restricted or granted, and no text is kept. -/
def Effect.isAct : Effect → Bool
  | grantAbility _ | restriction _ _ | shiftPlay | opaqueText _ => false
  | _ => true

/-- Something is done, whatever holds. -/
structure Step.IsAct (s : Step) : Prop where
  effect : s.effect.isAct = true
  condition : s.condition = none

namespace Wording

/-- The wording stands for an action: it grants no ability and restricts nothing. -/
def isActing : Wording → Bool
  | gainAbility | restrictKnown | restrictOther => false
  | _ => true

theorem eq_of_isActing_eq_false {w : Wording} (h : w.isActing = false) :
    w = gainAbility ∨ w = restrictKnown ∨ w = restrictOther := by
  revert h
  cases w <;> decide

variable {m : Match Slot} {scope : Scope} {e : Effect}

/-! ### Readings -/

theorem condition_onTarget : ∀ s ∈ onTarget e m scope, s.condition = none := by
  intro s hs
  rw [List.mem_singleton.1 hs]
  rfl

theorem isAct_onTarget (he : e.isAct = true) : ∀ s ∈ onTarget e m scope, s.IsAct := by
  intro s hs
  rw [List.mem_singleton.1 hs]
  exact ⟨he, rfl⟩

theorem isAct_onTargetBy (he : e.isAct = true) : ∀ s ∈ onTargetBy e m scope, s.IsAct := by
  intro s hs
  rw [List.mem_singleton.1 hs]
  exact ⟨he, rfl⟩

theorem isAct_byPlayer (he : e.isAct = true) {a : Option Amount} :
    ∀ s ∈ byPlayer e m scope a, s.IsAct := by
  intro s hs
  rw [List.mem_singleton.1 hs]
  exact ⟨he, rfl⟩

theorem isAct_statChange {change symbol : Slot} :
    ∀ s ∈ statChange m scope change symbol, s.IsAct := by
  intro s hs
  rw [statChange] at hs
  split at hs
  · rw [List.mem_singleton.1 hs]
    exact ⟨rfl, rfl⟩
  · cases hs

theorem isAct_moveTo {zone : Zone} {position : Option DeckPosition} {exerted : Bool} :
    ∀ s ∈ moveTo zone position exerted m scope, s.IsAct := by
  intro s hs
  rw [List.mem_singleton.1 hs]
  exact ⟨rfl, rfl⟩

theorem isAct_inkLess : ∀ s ∈ inkLess m scope, s.IsAct := by
  intro s hs
  rw [List.mem_singleton.1 hs]
  exact ⟨rfl, rfl⟩

theorem isAct_grantKeyword : ∀ s ∈ grantKeyword m scope, s.IsAct := by
  intro s hs
  rw [grantKeyword] at hs
  split at hs
  · cases hs
  · simp only at hs
    split at hs
    · cases hs
    · rw [List.mem_singleton.1 hs]
      exact ⟨rfl, rfl⟩

theorem isAct_chooseAndAct : ∀ s ∈ chooseAndAct m scope, s.IsAct := by
  intro s hs
  rw [List.mem_singleton.1 hs]
  refine ⟨?_, rfl⟩
  change (((m.filling? .verb).bind fun t => Text.lookup? chosenActions t.fold).getD
    (.moveCard (some .play) .hand none false)).isAct = true
  cases h : (m.filling? .verb).bind fun t => Text.lookup? chosenActions t.fold with
  | none => rfl
  | some a =>
    obtain ⟨t, -, ht⟩ := Option.bind_eq_some_iff.1 h
    obtain ⟨c, hc, rfl⟩ := Option.map_eq_some_iff.1 ht
    have hall : ∀ c ∈ chosenActions, c.2.isAct = true := by decide
    exact hall c (List.mem_of_find?_eq_some hc)

/-! ### The table -/

/-- **The wordings of granted abilities and of restrictions are the only ones that stand for no
action.** -/
theorem isAct_read {w : Wording} (hw : w.isActing = true) (m : Match Slot) (scope : Scope) :
    ∀ s ∈ w.read m scope, s.IsAct := by
  intro s hs
  cases w with
  | modifyStat =>
    rcases List.mem_append.1 hs with hs | hs
    · exact isAct_statChange s hs
    · exact isAct_statChange s hs
  | loseStat | dealDamageEqual | sourceDealsDamage | lookAtTop =>
    rw [List.mem_singleton.1 hs]
    exact ⟨rfl, rfl⟩
  | dealDamage | putDamage | removeDamage | moveDamage => exact isAct_onTargetBy rfl s hs
  | loreChange | loreEqual | draw | drawUntil | discardHand | lookAtHand | revealHand =>
    exact isAct_byPlayer rfl s hs
  | discard =>
    obtain ⟨u, hu, rfl⟩ := List.mem_map.1 hs
    exact ⟨(isAct_byPlayer rfl u hu).effect, (isAct_byPlayer rfl u hu).condition⟩
  | returnToHand | putIntoHand | putIntoInkwell | shuffleIntoDeck | putOnDeck | putIntoDiscard =>
    exact isAct_moveTo s hs
  | playFree | play | reveal | banish | exert | ready => exact isAct_onTarget rfl s hs
  | searchDeck =>
    obtain ⟨u, hu, rfl⟩ := List.mem_map.1 hs
    exact ⟨(isAct_onTarget rfl u hu).effect, (isAct_onTarget rfl u hu).condition⟩
  | choosesAndActs => exact isAct_chooseAndAct s hs
  | gainKeyword => exact isAct_grantKeyword s hs
  | gainAbility | restrictKnown | restrictOther => cases hw
  | payLess | costsLess => exact isAct_inkLess s hs

theorem condition_read (w : Wording) (m : Match Slot) (scope : Scope) :
    ∀ s ∈ w.read m scope, s.condition = none := by
  cases hw : w.isActing with
  | true => exact fun s hs => (isAct_read hw m scope s hs).condition
  | false =>
    rcases eq_of_isActing_eq_false hw with rfl | rfl | rfl
    all_goals exact condition_onTarget

end Wording

end CardText
