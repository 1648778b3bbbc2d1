import CardText.Effect.Wording
import CardText.Proofs.Selector.Reference

/-!
# What wordings are about

Every step that a wording stands for is understood. It is about what its phrases name, so that it
refers back only to what an earlier clause picked, and it has an amount where its effect needs one.

* `Step.selectors`: all that a step picks;
* `Effect.Accepts`: the data of an effect agree with each other and with the amount of its step;
* `Scope.Admits`: a step is understood, about what the scope names and with a fitting amount;
* `Wording.admits_read`: every step of a wording is.
-/

namespace CardText

open Template

/-- Where an effect puts what it takes from its target. -/
def Effect.destination? : Effect → Option Selector
  | moveDamage destination => some destination
  | _ => none

/-- All selectors of a step. -/
def Step.selectors (s : Step) : List Selector :=
  s.target :: (s.additionalTargets ++ s.effect.destination?.toList)

/-- The data of the effect agree with each other and with the amount of its step. A card that moves
changes its zone, to a place in the deck exactly if it goes there, and enters exerted only where
that says something; the amount of a keyword is its value. Changes of a number come with an amount,
and what is done to a card as a whole does not. -/
def Effect.Accepts (amount : Option Amount) : Effect → Prop
  | moveCard origin destination position exerted =>
    origin ≠ some destination ∧ (position.isSome = true ↔ destination = .deck) ∧
      (exerted = true → destination = .inkwell) ∧ amount = none
  | grantKeyword _ value => amount = value.map .exact
  | modifyStat _ | loreChange | drawCards | costReduction => amount.isSome = true
  | banish | exert | ready | playCard _ | grantAbility _ | restriction _ _ | opaqueText _ =>
    amount = none
  | damage | heal | moveDamage _ | discard _ | lookAtCards | reveal | shiftPlay => True

instance (amount : Option Amount) : (e : Effect) → Decidable (e.Accepts amount)
  | .moveCard origin destination position exerted =>
    inferInstanceAs (Decidable (origin ≠ some destination ∧
      (position.isSome = true ↔ destination = .deck) ∧
        (exerted = true → destination = .inkwell) ∧ amount = none))
  | .grantKeyword _ value => inferInstanceAs (Decidable (amount = value.map .exact))
  | .modifyStat _ | .loreChange | .drawCards | .costReduction =>
    inferInstanceAs (Decidable (amount.isSome = true))
  | .banish | .exert | .ready | .playCard _ | .grantAbility _ | .restriction _ _
  | .opaqueText _ => inferInstanceAs (Decidable (amount = none))
  | .damage | .heal | .moveDamage _ | .discard _ | .lookAtCards | .reveal | .shiftPlay =>
    inferInstanceAs (Decidable True)

/-- The step is understood, it is about what phrases of the scope name, and its amount fits its
effect. -/
structure Scope.Admits (scope : Scope) (s : Step) : Prop where
  isOpaque : s.isOpaque = false
  names : ∀ r ∈ s.selectors, scope.Names r
  amount : s.effect.Accepts s.amount

/-- The effect is understood and has no selector of its own. -/
structure Effect.IsBare (e : Effect) : Prop where
  isOpaque : e.isOpaque = false
  destination? : e.destination? = none

namespace Scope

variable {scope : Scope} {e : Effect} {s : Step}

/-- An action on what a phrase names. -/
theorem admits_of_targets {phrase : Option Text} (he : s.effect.IsBare)
    (ht : (s.target, s.additionalTargets) = scope.targets phrase) (ha : s.effect.Accepts s.amount) :
    scope.Admits s where
  isOpaque := he.isOpaque
  names r hr := by
    rw [Step.selectors, he.destination?] at hr
    refine scope.names_targets phrase ?_
    rw [← ht]
    simpa using hr
  amount := ha

theorem admits_step (he : e.IsBare) (ha : e.Accepts none) (phrase : Option Text) :
    scope.Admits (scope.step e phrase) :=
  admits_of_targets he rfl ha

/-- A further destination is named like a target. -/
theorem admits_moveDamage (phrase destination : Option Text) :
    scope.Admits (scope.step (.moveDamage (scope.targets destination).1) phrase) where
  isOpaque := rfl
  names r hr := by
    simp only [Step.selectors, step, Effect.destination?, Option.toList_some, ← List.cons_append,
      List.mem_append, List.mem_singleton] at hr
    rcases hr with hr | rfl
    · exact scope.names_targets phrase hr
    · exact scope.names_targets destination List.mem_cons_self
  amount := trivial

theorem admits_of_target (he : s.effect.IsBare) (ht : scope.Names s.target)
    (hm : s.additionalTargets = []) (ha : s.effect.Accepts s.amount) : scope.Admits s where
  isOpaque := he.isOpaque
  names r hr := by
    rw [Step.selectors, he.destination?, hm] at hr
    rwa [List.mem_singleton.1 hr]
  amount := ha

namespace Admits

theorem refers (h : scope.Admits s) : ∀ r ∈ s.selectors, r.Refers scope.antecedent :=
  fun r hr => (h.names r hr).refers

/-- Only the effect, the targets and the amount count. -/
theorem congr (h : scope.Admits s) {u : Step} (he : u.effect = s.effect)
    (ht : u.target = s.target) (hm : u.additionalTargets = s.additionalTargets)
    (ha : u.amount = s.amount) : scope.Admits u where
  isOpaque := by rw [Step.isOpaque, he]; exact h.isOpaque
  names := by rw [Step.selectors, he, ht, hm]; exact h.names
  amount := by rw [he, ha]; exact h.amount

/-- Another target that the scope names is as good. -/
theorem withTarget (h : scope.Admits s) {t : Selector} (ht : scope.Names t) :
    scope.Admits { s with target := t } where
  isOpaque := h.isOpaque
  names r hr := by
    rcases List.mem_cons.1 hr with rfl | hr
    · exact ht
    · exact h.names r (List.mem_cons_of_mem _ hr)
  amount := h.amount

theorem names_target (h : scope.Admits s) : scope.Names s.target := h.names _ List.mem_cons_self

theorem withOwner (h : scope.Admits s) (o : Owner) (n : Option Text) :
    scope.Admits { s with target.owner := o, note := n } :=
  (h.withTarget (h.names_target.withOwner o)).congr rfl rfl rfl rfl

end Admits

end Scope

namespace Wording

variable {m : Match Slot} {scope : Scope} {e : Effect}

/-! ### Readings -/

theorem admits_onTarget (he : e.IsBare) (ha : e.Accepts none) :
    ∀ s ∈ onTarget e m scope, scope.Admits s := by
  intro s hs
  rw [List.mem_singleton.1 hs]
  exact Scope.admits_step he ha _

theorem admits_onTargetBy (he : e.IsBare) (ha : e.Accepts (amount? m)) :
    ∀ s ∈ onTargetBy e m scope, scope.Admits s := by
  intro s hs
  rw [List.mem_singleton.1 hs]
  exact Scope.admits_of_targets he rfl ha

theorem admits_byPlayer (he : e.IsBare) {a : Option Amount} (ha : e.Accepts a) :
    ∀ s ∈ byPlayer e m scope a, scope.Admits s := by
  intro s hs
  rw [List.mem_singleton.1 hs]
  exact Scope.admits_of_target he (scope.names_player _) rfl ha

theorem admits_statChange {change symbol : Slot} :
    ∀ s ∈ statChange m scope change symbol, scope.Admits s := by
  intro s hs
  rw [statChange] at hs
  split at hs
  · rw [List.mem_singleton.1 hs]
    exact Scope.admits_of_targets ⟨rfl, rfl⟩ rfl rfl
  · cases hs

/-- A place in the deck is given for the deck only, and only in the inkwell a card lies exerted. -/
theorem admits_moveTo {zone : Zone} {position : Option DeckPosition} {exerted : Bool}
    (hp : position.isSome = true ↔ zone = .deck) (he : exerted = true → zone = .inkwell) :
    ∀ s ∈ moveTo zone position exerted m scope, scope.Admits s := by
  intro s hs
  rw [List.mem_singleton.1 hs]
  refine Scope.admits_of_targets ⟨rfl, rfl⟩ rfl ⟨fun h => ?_, hp, he, rfl⟩
  simpa using (Option.filter_eq_some_iff.1 h).2

theorem admits_inkLess : ∀ s ∈ inkLess m scope, scope.Admits s := by
  intro s hs
  rw [List.mem_singleton.1 hs]
  exact Scope.admits_of_targets ⟨rfl, rfl⟩ rfl rfl

theorem admits_grantKeyword : ∀ s ∈ grantKeyword m scope, scope.Admits s := by
  intro s hs
  rw [grantKeyword] at hs
  split at hs
  · cases hs
  · simp only at hs
    split at hs
    · cases hs
    · rw [List.mem_singleton.1 hs]
      exact Scope.admits_of_targets ⟨rfl, rfl⟩ rfl rfl

/-- The actions of a player who chooses have no selector and no amount. -/
theorem accepts_chosenAction (t : Option Text) :
    let e := (t.bind fun t => Text.lookup? chosenActions t.fold).getD
      (.moveCard (some .play) .hand none false)
    e.IsBare ∧ e.Accepts none := by
  intro e
  cases h : t.bind fun t => Text.lookup? chosenActions t.fold with
  | none =>
    simp only [e, h, Option.getD_none]
    exact ⟨⟨rfl, rfl⟩, by decide⟩
  | some a =>
    have hall : ∀ a ∈ chosenActions,
        a.2.isOpaque = false ∧ a.2.destination? = none ∧ a.2.Accepts none := by decide
    obtain ⟨t, -, ht⟩ := Option.bind_eq_some_iff.1 h
    obtain ⟨a, ha, rfl⟩ := Text.exists_of_lookup? ht
    simp only [e, h, Option.getD_some]
    exact ⟨⟨(hall a ha).1, (hall a ha).2.1⟩, (hall a ha).2.2⟩

theorem admits_chooseAndAct : ∀ s ∈ chooseAndAct m scope, scope.Admits s := by
  intro s hs
  obtain ⟨he, ha⟩ := accepts_chosenAction (m.filling? .verb)
  have h : scope.Admits (scope.step _ (m.filling? .target)) := Scope.admits_step he ha _
  rw [List.mem_singleton.1 hs]
  exact h.withOwner _ _

theorem names_deckOwner (m : Match Slot) (scope : Scope) : scope.Names (deckOwner m scope) := by
  rw [deckOwner]
  split
  · exact .you
  · split_ifs
    · exact .you
    · exact .eachOpponent
    · exact scope.names_player _

/-! ### The table -/

/-- **Every step of a wording is understood, about what its phrases name, and with an amount where
its effect needs one.** -/
theorem admits_read (w : Wording) (m : Match Slot) (scope : Scope) :
    ∀ s ∈ w.read m scope, scope.Admits s := by
  cases w with
  | modifyStat =>
    intro s hs
    rcases List.mem_append.1 hs with hs | hs
    · exact admits_statChange s hs
    · exact admits_statChange s hs
  | loseStat =>
    intro s hs
    rw [List.mem_singleton.1 hs]
    exact Scope.admits_of_targets ⟨rfl, rfl⟩ rfl rfl
  | dealDamage | putDamage | removeDamage => exact admits_onTargetBy ⟨rfl, rfl⟩ trivial
  | dealDamageEqual | sourceDealsDamage =>
    intro s hs
    rw [List.mem_singleton.1 hs]
    exact Scope.admits_of_targets ⟨rfl, rfl⟩ rfl trivial
  | moveDamage =>
    intro s hs
    have h := scope.admits_moveDamage (m.filling? .target) (m.filling? .destination)
    rw [List.mem_singleton.1 hs]
    exact ⟨h.isOpaque, h.names, trivial⟩
  | loreChange | loreEqual | draw | drawUntil => exact admits_byPlayer ⟨rfl, rfl⟩ rfl
  | discard =>
    intro s hs
    obtain ⟨u, hu, rfl⟩ := List.mem_map.1 hs
    rw [List.mem_singleton.1 hu]
    exact Scope.admits_of_target ⟨rfl, rfl⟩ (scope.names_player _) rfl trivial
  | discardHand | lookAtHand | revealHand => exact admits_byPlayer ⟨rfl, rfl⟩ trivial
  | returnToHand | putIntoHand | putIntoInkwell | shuffleIntoDeck | putOnDeck | putIntoDiscard =>
    exact admits_moveTo (by simp) (by simp)
  | playFree | play | banish | exert | ready | gainAbility | restrictKnown | restrictOther =>
    exact admits_onTarget ⟨rfl, rfl⟩ rfl
  | reveal => exact admits_onTarget ⟨rfl, rfl⟩ trivial
  | lookAtTop =>
    intro s hs
    rw [List.mem_singleton.1 hs]
    exact Scope.admits_of_target ⟨rfl, rfl⟩ (names_deckOwner m scope) rfl trivial
  | searchDeck =>
    intro s hs
    obtain ⟨u, hu, rfl⟩ := List.mem_map.1 hs
    have h : scope.Admits (scope.step .reveal (m.filling? .target)) :=
      Scope.admits_of_targets ⟨rfl, rfl⟩ rfl trivial
    rw [List.mem_singleton.1 hu]
    exact h.withTarget (h.names_target.withZone _)
  | choosesAndActs => exact admits_chooseAndAct
  | gainKeyword => exact admits_grantKeyword
  | payLess | costsLess => exact admits_inkLess

end Wording

end CardText
