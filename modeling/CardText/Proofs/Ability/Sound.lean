import CardText.Proofs.Ability.Assembly
import CardText.Proofs.Cost

/-!
# Sound abilities

The fields of an ability agree with its type, whatever text and whatever hint it comes from.

* `Draft.IsSound`: the agreement, for an ability without an id;
* `Draft.isSound_of_mem_ofSegment`: every draft of a segment is sound;
* `Draft.costs_ne_nil`: an activated draft of a segment without a hint has costs;
* `Card.sound_of_mem_abilities`: the same for the abilities of a card.
-/

namespace CardText

namespace Draft

/-- The fields agree with the type, and the text is `raw`. -/
structure IsSound (raw : Text) (d : Draft) : Prop where
  rawText : d.rawText = raw
  costs : d.costs ≠ [] → d.abilityType = .activated
  trigger : d.trigger.isSome = true ↔ d.abilityType = .triggered
  keyword : d.keyword.isSome = true → d.costs = [] ∧ d.abilityType ≠ .activated

theorem isSound_ofKeyword (source : ObjectKind) (e : Keyword.Entry) (raw : Text)
    (name : Option Text) : IsSound raw { ofKeyword source e raw with name } := by
  rw [ofKeyword]
  split <;> constructor <;> simp [ofShift, ofSupport, ofPlainKeyword]

/-- One case for each shape. -/
theorem isSound_of_mem_ofClassified {ctx : Context} {raw : Text} {c : Classified} {d : Draft}
    (h : d ∈ ofClassified ctx raw c) : IsSound raw d := by
  rw [ofClassified] at h
  split at h
  · obtain ⟨e, -, rfl⟩ := List.mem_map.1 h
    exact isSound_ofKeyword ctx.source e raw c.name
  · rw [List.mem_singleton.1 h]; constructor <;> simp
  · obtain ⟨t, -, rfl⟩ := List.mem_map.1 h; constructor <;> simp
  · rw [List.mem_singleton.1 h]; constructor <;> simp
  · rw [List.mem_singleton.1 h]; constructor <;> simp

theorem isSound_of_mem_ofSegment {ctx : Context} {s : Segment} {d : Draft}
    (h : d ∈ ofSegment ctx s) : IsSound s.raw d :=
  isSound_of_mem_ofClassified h

/-! ### Costs without a hint -/

theorem abilityType_ofKeyword_ne (source : ObjectKind) (e : Keyword.Entry) (raw : Text) :
    (ofKeyword source e raw).abilityType ≠ .activated := by
  rw [(ofKeyword_spec source e raw).2.1]
  cases e.keyword <;> simp [Keyword.abilityType]

/-- An activated draft comes from an activated shape. -/
theorem shape_of_activated {ctx : Context} {raw : Text} {c : Classified} {d : Draft}
    (h : d ∈ ofClassified ctx raw c) (ha : d.abilityType = .activated) :
    ∃ effect, c.shape = .activated d.costs effect := by
  rw [ofClassified] at h
  split at h
  · obtain ⟨e, -, rfl⟩ := List.mem_map.1 h
    exact absurd ha (abilityType_ofKeyword_ne ctx.source e raw)
  · next costs effect hs => rw [List.mem_singleton.1 h]; exact ⟨effect, hs⟩
  · obtain ⟨t, -, rfl⟩ := List.mem_map.1 h; cases ha
  · rw [List.mem_singleton.1 h] at ha; cases ha
  · rw [List.mem_singleton.1 h] at ha; cases ha

theorem costs_ne_nil_of_ofBody {ctx : Context} {body effect : Text} {costs : List Cost}
    (h : Shape.ofBody ctx body = .activated costs effect) : costs ≠ [] := by
  rw [Shape.ofBody] at h
  split at h
  · next a ha => cases h; exact Cost.listOfText_ne_nil ha
  · split at h <;> cases h

/-- Without a hint an activated ability is one because of its costs. -/
theorem costs_ne_nil {ctx : Context} {s : Segment} (hs : s.hint = none) {d : Draft}
    (h : d ∈ ofSegment ctx s) (ha : d.abilityType = .activated) : d.costs ≠ [] := by
  obtain ⟨effect, he⟩ := shape_of_activated h ha
  rw [Classified.ofSegment, hs] at he
  simp only [Classified.ofText] at he
  split at he
  · cases he
  · exact costs_ne_nil_of_ofBody he

end Draft

/-- **The abilities of a card are sound.**  Each has steps, stands on its card, keeps the text of
one of the segments, and has costs, a trigger and a keyword only where its type allows them. -/
theorem Card.sound_of_mem_abilities {options : Options} {c : Card} {p : Assembly}
    (h : c.read options = .ok p) {a : Ability} (ha : a ∈ p.abilities) :
    a.effects ≠ [] ∧ a.cardId = c.id ∧
      (∃ s ∈ Segment.ofCard options c, a.rawText = s.raw) ∧
      (a.costs ≠ [] → a.abilityType = .activated) ∧
      (a.trigger.isSome = true ↔ a.abilityType = .triggered) ∧
      (a.keyword.isSome = true → a.costs = [] ∧ a.abilityType ≠ .activated) ∧
      ((options.useHints = false ∨ c.abilities = []) → a.abilityType = .activated →
        a.costs ≠ []) := by
  obtain ⟨-, rfl⟩ := Card.read_eq_ok_iff.1 h
  obtain ⟨s, hs, d, i, hm, he, rfl⟩ := Assembly.mem_abilities_read.1 ha
  have hd : d ∈ Draft.ofSegment (c.context options) s := List.fst_mem_of_mem_zipIdx hm
  have hsound := Draft.isSound_of_mem_ofSegment hd
  exact ⟨he, rfl, ⟨s, hs, hsound.rawText⟩, hsound.costs, hsound.trigger, hsound.keyword,
    fun hh hact => Draft.costs_ne_nil (Segment.hint_eq_none hh hs) hd hact⟩

/-- The card "{E} — Draw a card." has an activated ability with the cost of its symbol. -/
theorem Card.sound_of_exertToDraw :
    let c : Card :=
      { id := "c".toList, name := "n".toList, fullTextSections := ["⟳ — Draw a card.".toList] }
    ∃ p a, c.read {} = .ok p ∧ a ∈ p.abilities ∧ a.costs = [.exertSelf] ∧
      a.abilityType = .activated ∧ a.effects ≠ [] ∧
      ∃ s ∈ Segment.ofCard {} c, a.rawText = s.raw := by
  intro c
  have hr : c.read {} = .ok (.read c.id (c.context {}) (Segment.ofCard {} c)) := rfl
  obtain ⟨a, ha, hc, ht⟩ : ∃ a ∈ (Assembly.read c.id (c.context {}) (Segment.ofCard {} c)).abilities,
      a.costs = [.exertSelf] ∧ a.abilityType = .activated := by decide +kernel
  obtain ⟨he, -, hraw, -⟩ := Card.sound_of_mem_abilities hr ha
  exact ⟨_, a, hr, ha, hc, ht, he, hraw⟩

end CardText
