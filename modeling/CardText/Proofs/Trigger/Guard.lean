import Mathlib.Data.List.Forall2
import CardText.Proofs.Trigger

/-!
# The conditions of a trigger

Three places of a triggered ability state conditions: the limit in front of the trigger word, an
"if …," in front of the effect, and a "while …" inside the clause of one event.  A trigger has one
guard, and the ability one condition of its effect besides.

* `Triggered.gates`: the conditions that are printed, for each event;
* `Triggered.Accounts`: what has become of them in a trigger.  The limit and the condition of the
  effect are always kept; the condition of an event is kept if it has room, `Gates.HasRoom`;
* `Triggered.accounts_of_ofText?`: every trigger accounts for the conditions of its event.
-/

namespace CardText

namespace Triggered

open Template

/-! ### Conditions as printed -/

/-- The conditions that one event of a triggered ability stands under. -/
structure Gates where
  /-- The clause of the event, with its condition. -/
  clause : Text
  /-- The condition of the limit in front of the trigger word. -/
  limit : Option Condition
  /-- The condition in front of the effect. -/
  effect : Option Condition
  /-- The condition inside the clause. -/
  event : Option Condition
  deriving DecidableEq

/-- The condition inside the clause is the only one, or one of the others says the same. -/
def Gates.HasRoom (g : Gates) : Prop :=
  ∀ c ∈ g.event, g.limit = none ∧ g.effect = none ∨ g.limit = some c ∨ g.effect = some c

instance (g : Gates) : Decidable g.HasRoom :=
  inferInstanceAs (Decidable (∀ c ∈ g.event, _))

/-- The conditions of a triggered ability, for each of its events. -/
def gates (ctx : Context) (t : Text) : List Gates :=
  match triggerWord.match? (takeLimit t.trim).2 with
  | none => []
  | some m =>
    (clauses ctx.options (takeClause m.rest).1).map fun clause =>
      { clause
        limit := (takeLimit t.trim).1.1
        effect := (takeIf (takeClause m.rest).2).1
        event := (takeWhile clause).1 }

/-! ### Conditions as read -/

/-- The condition is the guard of the trigger or the condition of the effect. -/
def Keeps (a : Triggered) (d : Trigger) (c : Condition) : Prop :=
  d.guard = some c ∨ a.condition = some c

instance (a : Triggered) (d : Trigger) (c : Condition) : Decidable (a.Keeps d c) :=
  inferInstanceAs (Decidable (_ ∨ _))

/-- What has become of the conditions of an event in its trigger. -/
structure Accounts (a : Triggered) (source : ObjectKind) (d : Trigger) (g : Gates) : Prop where
  /-- The trigger was read from this clause. -/
  read : (d.event, d.subject) = Event.ofClause source (takeWhile g.clause).2
  limit : ∀ c ∈ g.limit, a.Keeps d c
  effect : ∀ c ∈ g.effect, a.Keeps d c
  event : (∀ c ∈ g.event, a.Keeps d c) ↔ g.HasRoom

/-- The guard of a trigger, and the condition of the effect beside it, where the three conditions
compete for them. -/
theorem accounts_trigger {source : ObjectKind} {oncePerTurn : Bool} {limit effect : Option Condition}
    (clause : Text) {a : Triggered} (ha : a.condition = if limit.isSome then effect else none) :
    a.Accounts source (trigger source (limit.or effect) oncePerTurn clause)
      ⟨clause, limit, effect, (takeWhile clause).1⟩ where
  read := by rw [trigger]
  limit := by
    intro c hc
    obtain rfl : limit = some c := hc
    exact .inl rfl
  effect := by
    intro c hc
    obtain rfl : effect = some c := hc
    cases limit with
    | none => exact .inl rfl
    | some l => exact .inr ha
  event := by
    refine forall₂_congr fun c hc => ?_
    have he : (takeWhile clause).1 = some c := hc
    simp only [Keeps, trigger, ha, he]
    -- Whatever stands further in front has taken the place of the guard.
    cases limit with
    | some l => simp
    | none => cases effect <;> simp

/-- The triggers of a text and the condition of its effect, by what stands behind the trigger
word. -/
theorem exists_of_ofText? {ctx : Context} {t : Text} {a : Triggered}
    (h : ofText? ctx t = some a) :
    ∃ m, triggerWord.match? (takeLimit t.trim).2 = some m ∧
      a.triggers = (clauses ctx.options (takeClause m.rest).1).map (trigger ctx.source
        ((takeLimit t.trim).1.1.or (takeIf (takeClause m.rest).2).1) (takeLimit t.trim).1.2) ∧
      a.condition =
        if (takeLimit t.trim).1.1.isSome then (takeIf (takeClause m.rest).2).1 else none := by
  rw [ofText?] at h
  split at h
  · cases h
  · cases hm : triggerWord.match? (takeLimit t.trim).2 with
    | none =>
      simp only [hm] at h
      cases h
    | some m =>
      simp only [hm] at h
      cases h
      exact ⟨m, rfl, rfl, rfl⟩

/-- **Every trigger accounts for the conditions of its event.** -/
theorem accounts_of_ofText? {ctx : Context} {t : Text} {a : Triggered}
    (h : ofText? ctx t = some a) :
    List.Forall₂ (a.Accounts ctx.source) a.triggers (gates ctx t) := by
  obtain ⟨m, hm, htriggers, hcondition⟩ := exists_of_ofText? h
  have hg : gates ctx t = (clauses ctx.options (takeClause m.rest).1).map fun clause =>
      ⟨clause, (takeLimit t.trim).1.1, (takeIf (takeClause m.rest).2).1, (takeWhile clause).1⟩ := by
    rw [gates, hm]
  rw [htriggers, hg, List.forall₂_map_left_iff, List.forall₂_map_right_iff, List.forall₂_same]
  intro clause _
  exact accounts_trigger clause hcondition

/-- A limit, an "if", and a "while" that says the same as the limit. -/
def twiceLimited : Text :=
  ("Once during your turn, whenever this character quests and when she is banished while it's " ++
    "your turn, if you have no cards in your hand, draw a card.").toList

theorem accounts_twiceLimited :
    ∃ a, ofText? ⟨.character, {}⟩ twiceLimited = some a ∧
      (∀ g ∈ gates ⟨.character, {}⟩ twiceLimited, g.limit = some .duringYourTurn ∧
        g.effect = some .yourHandIsEmpty ∧ g.HasRoom) ∧
      a.triggers.length = 2 ∧
      List.Forall₂ (a.Accounts .character) a.triggers (gates ⟨.character, {}⟩ twiceLimited) := by
  have h : (ofText? ⟨.character, {}⟩ twiceLimited).isSome := by decide +kernel
  have hgates : gates ⟨.character, {}⟩ twiceLimited =
      [⟨"this character quests".toList, some .duringYourTurn, some .yourHandIsEmpty, none⟩,
        ⟨"she is banished while it's your turn".toList, some .duringYourTurn,
          some .yourHandIsEmpty, some .duringYourTurn⟩] := by decide +kernel
  obtain ⟨a, ha⟩ := Option.isSome_iff_exists.1 h
  have hg := accounts_of_ofText? ha
  refine ⟨a, ha, ?_, ?_, hg⟩
  · rw [hgates]
    decide
  · rw [hg.length_eq, hgates]
    rfl

/-- A condition inside the clause behind a limit that says something else. -/
def emptyHanded : Text :=
  ("During your turn, whenever this character quests while you have no cards in your hand, " ++
    "gain 1 lore.").toList

/-- The trigger has the limit as its guard, and the condition of its event is nowhere. -/
theorem not_keeps_emptyHanded :
    ∃ a, ofText? ⟨.character, {}⟩ emptyHanded = some a ∧
      ¬ List.Forall₂ (fun d g => (∀ c ∈ g.limit, a.Keeps d c) ∧ (∀ c ∈ g.effect, a.Keeps d c) ∧
        ∀ c ∈ g.event, a.Keeps d c) a.triggers (gates ⟨.character, {}⟩ emptyHanded) := by
  have hg : gates ⟨.character, {}⟩ emptyHanded =
      [⟨"this character quests while you have no cards in your hand".toList,
        some .duringYourTurn, none, some .yourHandIsEmpty⟩] := by decide +kernel
  refine ⟨⟨[⟨.quest, .this .character, some .duringYourTurn, false⟩], "gain 1 lore.".toList, none⟩,
    by decide +kernel, ?_⟩
  rw [hg]
  rintro (_ | ⟨⟨-, -, h⟩, -⟩)
  exact absurd (h .yourHandIsEmpty rfl) (by decide)

end Triggered

end CardText
