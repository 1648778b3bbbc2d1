import CardText.Proofs.Ability.Reference
import CardText.Proofs.Effect.Proper

/-!
# Well-formed abilities

Whatever a card says, the abilities read from it ask for nothing twice and for nothing beside
players, and each step has an amount exactly where its effect has a use for one.

* `Draft.IsProper`: all parts of a draft are well-formed (`Draft.isProper_of_mem_ofSegment`);
* `Card.isWellFormed_of_mem_abilities`: the selectors of a card;
* `Card.accepts_of_mem_abilities`: the steps of a card and their amounts.
-/

namespace CardText

theorem Cost.isWellFormed_target? (source : ObjectKind) (token : Text) :
    ∀ r ∈ (ofToken source token).target?, r.IsWellFormed := by
  rcases target?_ofToken source token with h | ⟨phrase, h⟩
  · simp [h]
  · simpa [h] using Selector.isWellFormed_ofPhrase_none source phrase

/-! ### Drafts -/

namespace Draft

variable {ctx : Context}

theorem keepsAim_withCondition (c : Option Condition) : Step.KeepsAim (withCondition c) :=
  fun _ => ⟨rfl, rfl, rfl, rfl⟩

theorem isProper_of_mem_effectSteps {effect body : Text} {s : Step}
    (h : s ∈ effectSteps ctx effect body) : s.IsProper ctx := by
  rcases effectSteps_eq ctx effect body with he | ⟨hs, clause, he⟩
  · exact Step.isProper_of_mem_ofEffect (he ▸ h)
  · rw [he] at h
    rw [List.mem_singleton.1 h]
    exact Step.isProper_ofOpaque hs clause

theorem chained_effectSteps (ctx : Context) (effect body : Text) :
    Step.Chained [] (effectSteps ctx effect body) := by
  rcases effectSteps_eq ctx effect body with he | ⟨-, clause, he⟩
  · rw [he]
    exact Step.chained_ofEffect ctx effect
  · rw [he]
    refine Step.chained_of_forall fun s hs r hr hq => ?_
    rw [List.mem_singleton.1 hs] at hr
    rw [List.mem_singleton.1 hr] at hq
    cases hq

/-- The steps, costs and trigger of the draft are well-formed. -/
structure IsProper (ctx : Context) (d : Draft) : Prop where
  steps : ∀ s ∈ d.effects, s.IsProper ctx
  selectors : ∀ s ∈ d.effects, ∀ r ∈ s.selectors, r.IsWellFormed
  costs : ∀ c ∈ d.costs, ∀ r ∈ c.target?, r.IsWellFormed
  trigger : ∀ t ∈ d.trigger, t.subject.IsWellFormed ∧ ∀ n, t.subject.quantifier ≠ .chosen n

/-- What a keyword does is about the source card or, for Support, about another character. -/
theorem spec_of_mem_ofKeyword {source : ObjectKind} {e : Keyword.Entry} {raw : Text} {s : Step}
    (h : s ∈ (ofKeyword source e raw).effects) : s.effect.IsBare ∧ s.additionalTargets = [] ∧
      s.target.IsWellFormed ∧ s.effect.Accepts s.amount := by
  rw [ofKeyword] at h
  split at h
  · rw [List.mem_singleton.1 h]
    cases e.value with
    | some ink => exact ⟨⟨rfl, rfl⟩, rfl, .this source, trivial⟩
    | none => exact ⟨⟨rfl, rfl⟩, rfl, .this source, trivial⟩
  · rw [List.mem_singleton.1 h]
    exact ⟨⟨rfl, rfl⟩, rfl, .of_kind rfl rfl rfl, rfl⟩
  · rw [List.mem_singleton.1 h]
    exact ⟨⟨rfl, rfl⟩, rfl, .this source, rfl⟩

theorem isProper_ofKeyword (e : Keyword.Entry) (raw : Text) (name : Option Text) :
    IsProper ctx { ofKeyword ctx.source e raw with name } := by
  refine ⟨fun s hs => ?_, fun s hs r hr => ?_, ?_, ?_⟩
  · obtain ⟨he, hm, ht, ha⟩ := spec_of_mem_ofKeyword hs
    exact .of_target he hm ht ha
  · obtain ⟨he, hm, ht, -⟩ := spec_of_mem_ofKeyword hs
    rw [Step.selectors, he.destination?, hm] at hr
    rwa [List.mem_singleton.1 hr]
  · rw [ofKeyword]
    split <;> simp [ofShift, ofSupport, ofPlainKeyword]
  · rw [ofKeyword]
    split
    · simp [ofShift]
    · rintro t ⟨⟩
      exact ⟨.this ctx.source, by simp [Selector.this]⟩
    · simp [ofPlainKeyword]

theorem isProper_of_mem_ofSegment {s : Segment} {d : Draft} (h : d ∈ ofSegment ctx s) :
    d.IsProper ctx := by
  cases isRead_of_mem_ofSegment h with
  | keyword e raw name => exact isProper_ofKeyword e raw name
  | @text _ effect body condition effects costs trigger =>
    have hsteps : ∀ s ∈ d.effects, s.IsProper ctx := by
      intro s hs
      rw [effects] at hs
      obtain ⟨u, hu, rfl⟩ := List.mem_map.1 hs
      exact (isProper_of_mem_effectSteps hu).congr (keepsAim_withCondition condition u)
    have hchained : Step.Chained [] d.effects :=
      effects ▸ (chained_effectSteps ctx effect body).map (keepsAim_withCondition condition)
    refine ⟨hsteps, fun s hs r hr => ?_, fun c hc => ?_, fun t ht => ?_⟩
    · exact hchained.isWellFormed (fun u hu => (hsteps u hu).settled) hs hr
    · obtain ⟨token, rfl⟩ := costs c hc
      exact Cost.isWellFormed_target? ctx.source token
    · obtain ⟨hwf, -, hq⟩ := (trigger t ht).spec
      exact ⟨hwf, hq⟩

end Draft

/-! ### Cards -/

theorem Card.exists_isProper {options : Options} {c : Card} {p : Assembly}
    (h : c.read options = .ok p) {a : Ability} (ha : a ∈ p.abilities) :
    ∃ d id, a = Draft.toAbility d id c.id ∧ d.IsProper (c.context options) := by
  obtain ⟨-, rfl⟩ := Card.read_eq_ok_iff.1 h
  obtain ⟨s, -, d, i, hm, -, rfl⟩ := Assembly.mem_abilities_read.1 ha
  exact ⟨d, _, rfl, Draft.isProper_of_mem_ofSegment (List.fst_mem_of_mem_zipIdx hm)⟩

/-- **The selectors of a card are well-formed.**  Whatever the steps of its abilities are about, what
its costs ask for and what its triggers watch: no kind and no classification is asked for twice, and
players, like cards of any kind, are asked for alone; and no trigger waits for a choice. -/
theorem Card.isWellFormed_of_mem_abilities {options : Options} {c : Card} {p : Assembly}
    (h : c.read options = .ok p) {a : Ability} (ha : a ∈ p.abilities) :
    (∀ s ∈ a.effects, ∀ r ∈ s.selectors, r.IsWellFormed) ∧
      (∀ cost ∈ a.costs, ∀ r ∈ cost.target?, r.IsWellFormed) ∧
      ∀ t ∈ a.trigger, t.subject.IsWellFormed ∧ ∀ n, t.subject.quantifier ≠ .chosen n := by
  obtain ⟨d, id, rfl, hd⟩ := Card.exists_isProper h ha
  exact ⟨hd.selectors, hd.costs, hd.trigger⟩

/-- Of a card with a cost, a trigger and a "card" that gives way to the item beside it. -/
theorem Card.isWellFormed_of_exertAnItem :
    let c : Card := { id := "c".toList, name := "n".toList, fullTextSections :=
      ["Exert an item - Ready a card or item.".toList, "When a Hero quests, ready it.".toList] }
    ∃ p, c.read {} = .ok p ∧
      (∃ a ∈ p.abilities, (∃ s ∈ a.effects, ∃ r ∈ s.selectors, r.kinds = [.item] ∧
        r.IsWellFormed) ∧ ∃ cost ∈ a.costs, ∃ r ∈ cost.target?, r.IsWellFormed) ∧
      ∃ a ∈ p.abilities, ∃ t ∈ a.trigger, t.subject.traits = ["Hero".toList] ∧
        t.subject.IsWellFormed ∧ ∀ n, t.subject.quantifier ≠ .chosen n := by
  intro c
  let p := Assembly.read c.id (c.context {}) (Segment.ofCard {} c)
  have hr : c.read {} = .ok p := rfl
  have hwf : ∀ a ∈ p.abilities, _ := fun a ha => Card.isWellFormed_of_mem_abilities hr ha
  obtain ⟨⟨a, ha, ⟨s, hs, r, hrs, hk⟩, cost, hc, htarget⟩, b, hb, t, ht, htraits⟩ :
      (∃ a ∈ p.abilities, (∃ s ∈ a.effects, ∃ r ∈ s.selectors, r.kinds = [.item]) ∧
        ∃ cost ∈ a.costs, cost.target?.isSome = true) ∧
      ∃ b ∈ p.abilities, ∃ t ∈ b.trigger, t.subject.traits = ["Hero".toList] := by decide +kernel
  obtain ⟨q, hq⟩ := Option.isSome_iff_exists.1 htarget
  obtain ⟨hsteps, hcosts, -⟩ := hwf a ha
  exact ⟨p, hr, ⟨a, ha, ⟨s, hs, r, hrs, hk, hsteps s hs r hrs⟩, cost, hc, q, hq, hcosts cost hc q hq⟩,
    b, hb, t, ht, htraits, (hwf b hb).2.2 t ht⟩

/-- **The steps of a card agree with their amounts.**  Cards that move change their zone, and have a
place in it only in a deck; a keyword is granted by its own value; what changes a number has an
amount, and what is done to a card as a whole has none. -/
theorem Card.accepts_of_mem_abilities {options : Options} {c : Card} {p : Assembly}
    (h : c.read options = .ok p) {a : Ability} (ha : a ∈ p.abilities) :
    ∀ s ∈ a.effects, s.effect.Accepts s.amount := by
  obtain ⟨d, id, rfl, hd⟩ := Card.exists_isProper h ha
  exact fun s hs => (hd.steps s hs).amount

/-- Of a card with a value for its keyword, and with another card that goes into the deck. -/
theorem Card.accepts_of_shuffle :
    let c : Card := { id := "c".toList, name := "n".toList, fullTextSections :=
      ["Resist +2".toList, "Shuffle an item into your deck.".toList] }
    ∃ p, c.read {} = .ok p ∧
      (∃ a ∈ p.abilities, ∃ s ∈ a.effects, s.effect = .grantKeyword .resist (some 2) ∧
        s.effect.Accepts s.amount) ∧
      ∃ a ∈ p.abilities, ∃ s ∈ a.effects,
        s.effect = .moveCard (some .play) .deck (some .shuffled) false ∧
          s.effect.Accepts s.amount := by
  intro c
  let p := Assembly.read c.id (c.context {}) (Segment.ofCard {} c)
  have hr : c.read {} = .ok p := rfl
  obtain ⟨⟨a, ha, s, hs, he⟩, b, hb, u, hu, he'⟩ :
      (∃ a ∈ p.abilities, ∃ s ∈ a.effects, s.effect = .grantKeyword .resist (some 2)) ∧
      ∃ b ∈ p.abilities, ∃ u ∈ b.effects,
        u.effect = .moveCard (some .play) .deck (some .shuffled) false := by decide +kernel
  exact ⟨p, hr, ⟨a, ha, s, hs, he, Card.accepts_of_mem_abilities hr ha s hs⟩,
    b, hb, u, hu, he', Card.accepts_of_mem_abilities hr hb u hu⟩

end CardText
