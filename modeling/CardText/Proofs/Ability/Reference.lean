import Mathlib.Data.List.Basic
import CardText.Proofs.Ability.Draft
import CardText.Proofs.Effect.Reference

/-!
# Back-references of an ability

What pays for an ability and what sets it off comes first, so that neither refers back; and a step of
its effect refers back only to a thing that a step in front of it picked.

* `Cost.IsOwn`, `Trigger.IsOwn`: a cost and a trigger that refer to nothing;
* `Cost.target?_ofToken`: what the cost of a token asks for, which is never picked before;
* `Draft.isOwn_of_mem_ofSegment`: no draft of a segment has others;
* `Card.references_grounded`: no reference of a card is without a ground.
-/

namespace CardText

/-! ### Costs and triggers -/

/-- The objects that a cost asks for. -/
def Cost.target? : Cost → Option Selector
  | exertOther target => some target
  | banishOther target => some target
  | _ => none

/-- The cost refers to nothing that was picked before. -/
def Cost.IsOwn (c : Cost) : Prop := ∀ s ∈ c.target?, s.quantifier ≠ .previous

/-- The trigger refers to nothing that was picked before. -/
def Trigger.IsOwn (t : Trigger) : Prop := t.subject.quantifier ≠ .previous

namespace Cost

/-- What a cost asks for is named by a phrase of its token. One case for each wording. -/
theorem target?_ofToken (source : ObjectKind) (token : Text) :
    (ofToken source token).target? = none ∨
      ∃ phrase, (ofToken source token).target? = some (.ofPhrase source none phrase) := by
  rw [ofToken]
  split
  · exact .inl rfl
  · split
    · exact .inl rfl
    · split
      · exact .inl rfl
      · split
        · exact .inl rfl
        · split
          · exact .inr ⟨_, rfl⟩
          · split
            · exact .inr ⟨_, rfl⟩
            · exact .inl rfl

theorem isOwn_ofToken (source : ObjectKind) (token : Text) : (ofToken source token).IsOwn := by
  rcases target?_ofToken source token with h | ⟨phrase, h⟩
  · simp [IsOwn, h]
  · simpa [IsOwn, h] using Selector.quantifier_ofPhrase_none source phrase

end Cost

/-! ### Drafts -/

namespace Draft

/-- The costs and the trigger of the draft refer to nothing. -/
structure IsOwn (d : Draft) : Prop where
  costs : ∀ c ∈ d.costs, c.IsOwn
  trigger : ∀ t ∈ d.trigger, t.IsOwn

theorem isOwn_ofKeyword (source : ObjectKind) (e : Keyword.Entry) (raw : Text)
    (name : Option Text) : IsOwn { ofKeyword source e raw with name } := by
  rw [ofKeyword]
  split
  · constructor <;> simp [ofShift]
  · constructor <;> simp [ofSupport, Trigger.IsOwn, Selector.this]
  · constructor <;> simp [ofPlainKeyword]

theorem isOwn_of_mem_ofSegment {ctx : Context} {s : Segment} {d : Draft}
    (h : d ∈ ofSegment ctx s) : d.IsOwn := by
  cases isRead_of_mem_ofSegment h with
  | keyword e raw name => exact isOwn_ofKeyword ctx.source e raw name
  | text _ costs trigger =>
    refine ⟨fun c hc => ?_, fun t ht => (trigger t ht).spec.2.1⟩
    obtain ⟨token, rfl⟩ := costs c hc
    exact Cost.isOwn_ofToken ctx.source token

end Draft

/-! ### Cards -/

/-- **No reference is without a ground.**  Wherever a step of an effect refers back, a step in front
of it is understood and picks, on its own and no players, what the reference asks for; and no cost
and no trigger of a card refers back at all. -/
theorem Card.references_grounded :
    (∀ (ctx : Context) (t : Text) (front back : List Step) (s : Step),
      Step.ofEffect ctx t = front ++ s :: back →
        ∀ r ∈ s.selectors, r.quantifier = .previous → ∃ u ∈ front, u.Grounds r) ∧
      ∀ (options : Options) (c : Card) (p : Assembly), c.read options = .ok p →
        ∀ a ∈ p.abilities, (∀ cost ∈ a.costs, cost.IsOwn) ∧ ∀ t ∈ a.trigger, t.IsOwn := by
  constructor
  · intro ctx t front back s h
    -- the chain of the whole effect, cut in front of the step
    have hc := Step.chained_ofEffect ctx t
    rw [h, Step.chained_append] at hc
    exact (Step.chained_cons.1 hc.2).1
  · intro options c p h a ha
    obtain ⟨-, rfl⟩ := Card.read_eq_ok_iff.1 h
    obtain ⟨s, -, d, i, hm, -, rfl⟩ := Assembly.mem_abilities_read.1 ha
    have hd := Draft.isOwn_of_mem_ofSegment (List.fst_mem_of_mem_zipIdx hm)
    exact ⟨hd.costs, hd.trigger⟩

/-- In "Exert chosen character. It can't ready this turn." the second step refers to the first; the
items that pay for an ability of a card and the characters that set off another refer to nothing. -/
theorem Card.references_grounded_exert :
    let steps := Step.ofEffect ⟨.character, {}⟩
      "Exert chosen character. It can't ready this turn.".toList
    let c : Card := { id := "c".toList, name := "n".toList, fullTextSections :=
      ["Banish one of your items - Draw a card.".toList,
        "Whenever one of your characters quests, draw a card.".toList] }
    (∃ first second : Step, steps = [first, second] ∧
      second.target.quantifier = .previous ∧ first.Grounds second.target) ∧
    ∃ p, c.read {} = .ok p ∧
      (∃ a ∈ p.abilities, ∃ cost ∈ a.costs, cost.target?.isSome = true ∧ cost.IsOwn) ∧
        ∃ a ∈ p.abilities, ∃ t ∈ a.trigger, t.IsOwn := by
  intro steps c
  constructor
  · have href : ∀ front back s, steps = front ++ s :: back → ∀ r ∈ s.selectors,
        r.quantifier = .previous → ∃ u ∈ front, u.Grounds r := Card.references_grounded.1 _ _
    have hall : steps.map (·.target.quantifier) = [.chosen 1, .previous] := by decide +kernel
    clear_value steps
    obtain ⟨first, second, rfl⟩ : ∃ first second, steps = [first, second] :=
      List.length_eq_two.1 (by simpa using congrArg List.length hall)
    have hq : second.target.quantifier = .previous := by simpa using (List.cons.inj hall).2
    obtain ⟨u, hu, hg⟩ := href [first] [] second rfl _ List.mem_cons_self hq
    rw [List.mem_singleton.1 hu] at hg
    exact ⟨first, second, rfl, hq, hg⟩
  · let p := Assembly.read c.id (c.context {}) (Segment.ofCard {} c)
    have hr : c.read {} = .ok p := rfl
    have hown := Card.references_grounded.2 {} c p hr
    obtain ⟨⟨a, ha, cost, hc, htarget⟩, b, hb, htrigger⟩ :
        (∃ a ∈ p.abilities, ∃ cost ∈ a.costs, cost.target?.isSome = true) ∧
          ∃ b ∈ p.abilities, b.trigger.isSome = true := by decide +kernel
    obtain ⟨t, ht⟩ := Option.isSome_iff_exists.1 htrigger
    exact ⟨p, hr, ⟨a, ha, cost, hc, htarget, (hown a ha).1 cost hc⟩,
      b, hb, t, ht, (hown b hb).2 t ht⟩

end CardText
