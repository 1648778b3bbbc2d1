import CardText.Proofs.Ability.Accounting
import CardText.Proofs.Ability.Sound
import CardText.Proofs.Text.Vocabulary

/-!
# No text is lost

Where nothing is known about a card but its text, and reading is not strict, every segment has an
ability: what is not understood is kept as a step of its own.

* `Segment.isVoid_body`: a segment without a hint has text besides its reminders;
* `Draft.effectSteps_ne_nil`: an effect in such a text has a step;
* `Draft.effects_ne_nil`: so has every ability of the segment;
* `Card.complete_of_read`: no report of a missing effect, and an ability for each segment.
-/

namespace CardText

/-! ### Text that stays -/

namespace Text

theorem isVoid_trim (t : Text) : t.trim.isVoid = t.isVoid := by
  rw [isVoid, isVoid, trim_trim]

theorem isVoid_unwords {ws : List Text} (hne : ws ≠ [])
    (h : ∀ w ∈ ws, w ≠ [] ∧ ∀ c ∈ w, isBlank c = false) : (unwords ws).isVoid = false := by
  obtain ⟨w, us, rfl⟩ := List.exists_cons_of_ne_nil hne
  obtain ⟨hw, hb⟩ := h w List.mem_cons_self
  obtain ⟨c, r, rfl⟩ := List.exists_cons_of_ne_nil hw
  have hc : c ∈ unwords ((c :: r) :: us) :=
    mem_unwords_of_mem List.mem_cons_self List.mem_cons_self
  exact isVoid_eq_false hc (hb c List.mem_cons_self)

/-- Behind a name there is text. -/
theorem isVoid_stripLabel {t : Text} (h : t.isVoid = false) : t.stripLabel.2.isVoid = false := by
  rw [stripLabel]
  split_ifs with hl
  · have hne : t.words.drop (labelWords t.words).length ≠ [] := by
      rw [Bool.and_eq_true] at hl
      simpa using hl.2
    exact isVoid_unwords hne fun w hw => not_isBlank_of_mem_words (List.mem_of_mem_drop hw)
  · exact (isVoid_trim t).trans h

end Text

/-- A segment without a hint is there for its text. -/
theorem Segment.isVoid_body {options : Options} {c : Card} {s : Segment}
    (hs : s ∈ ofCard options c) (hh : s.hint = none) : s.text.body.isVoid = false := by
  obtain ⟨hm, ht⟩ := mem_number hs
  have hb := (List.mem_filter.1 hm).2
  rw [hh] at hb
  rw [ht]
  simpa [hasBody] using hb

theorem Classified.isVoid_body_ofText (ctx : Context) {text : Text} (h : text.body.isVoid = false) :
    (ofText ctx text).body.isVoid = false := by
  rw [ofText]
  split
  · exact h
  · exact Text.isVoid_stripLabel h

/-! ### Steps that stay -/

namespace Draft

/-- What is not understood is kept: the effect, or the body where the effect is blank. -/
theorem effectSteps_ne_nil {ctx : Context} (hs : ctx.options.strict = false) (effect : Text)
    {body : Text} (hb : body.isVoid = false) : effectSteps ctx effect body ≠ [] := by
  have hclause : (if effect.isVoid then body else effect).isVoid = false := by
    split_ifs with hv
    · exact hb
    · simpa using hv
  rw [effectSteps]
  by_cases hu : Step.ofEffect ctx effect = []
  · simp [hu, hs, hclause]
  · simp [hu]

variable {ctx : Context} {d : Draft}

/-- One case for each shape. -/
theorem effects_ne_nil_of_mem_ofClassified (hs : ctx.options.strict = false) {raw : Text}
    {c : Classified} (hb : c.body.isVoid = false) (h : d ∈ ofClassified ctx raw c) :
    d.effects ≠ [] := by
  rw [ofClassified] at h
  split at h
  · obtain ⟨e, -, rfl⟩ := List.mem_map.1 h
    exact (ofKeyword_spec ctx.source e raw).2.2.2
  · rw [List.mem_singleton.1 h]
    exact effectSteps_ne_nil hs _ hb
  · next t effect _ =>
    obtain ⟨trigger, -, rfl⟩ := List.mem_map.1 h
    have hne := effectSteps_ne_nil hs effect hb
    simpa using hne
  · rw [List.mem_singleton.1 h]
    exact effectSteps_ne_nil hs _ hb
  · rw [List.mem_singleton.1 h]
    exact effectSteps_ne_nil hs _ hb

/-- Every ability of a segment without a hint has a step. -/
theorem effects_ne_nil (hs : ctx.options.strict = false) {s : Segment} (hh : s.hint = none)
    (hb : s.text.body.isVoid = false) (h : d ∈ ofSegment ctx s) : d.effects ≠ [] := by
  refine effects_ne_nil_of_mem_ofClassified hs ?_ h
  rw [Classified.ofSegment, hh]
  exact Classified.isVoid_body_ofText ctx hb

end Draft

/-- **No text is lost.**  Where no hints are in use and reading is not strict, no ability is left
out for want of a step, and every segment has an ability with its text and under its id. -/
theorem Card.complete_of_read {options : Options} {c : Card} {p : Assembly}
    (hs : options.strict = false) (hh : options.useHints = false ∨ c.abilities = [])
    (h : c.read options = .ok p) :
    (∀ x ∈ p.diagnostics, x.kind ≠ .noEffects) ∧
      ∀ s ∈ Segment.ofCard options c, ∃ a ∈ p.abilities, a.rawText = s.raw ∧
        (a.id = c.id ++ '-' :: Text.ofNat s.index ∨
          ∃ k ≥ 1, a.id = c.id ++ '-' :: Text.ofNat s.index ++ '-' :: Text.ofNat k) := by
  obtain ⟨-, rfl⟩ := Card.read_eq_ok_iff.1 h
  have hne : ∀ s ∈ Segment.ofCard options c, ∀ d ∈ Draft.ofSegment (c.context options) s,
      d.effects ≠ [] := by
    intro s hm d hd
    have hn := Segment.hint_eq_none hh hm
    exact Draft.effects_ne_nil hs hn (Segment.isVoid_body hm hn) hd
  constructor
  · intro x hx
    obtain ⟨s, hm, d, hd, ⟨he, -⟩ | ⟨-, rfl⟩⟩ := Assembly.exists_of_mem_diagnostics_read hx
    · exact absurd he (hne s hm d hd)
    · nofun
  · intro s hm
    -- only a hint can leave a segment without a draft
    have hdrafts : Draft.ofSegment (c.context options) s ≠ [] := by
      rw [ne_eq, Draft.ofSegment_eq_nil_iff]
      rintro ⟨_, hhint, -⟩
      rw [Segment.hint_eq_none hh hm] at hhint
      cases hhint
    obtain ⟨d, ds, hd⟩ := List.exists_cons_of_ne_nil hdrafts
    have hd₀ : d ∈ Draft.ofSegment (c.context options) s := by simp [hd]
    refine ⟨_, Assembly.mem_abilities_read.2
      ⟨s, hm, d, 0, by simp [hd], hne s hm d hd₀, rfl⟩, ?_, ?_⟩
    · exact (Draft.isSound_of_mem_ofSegment hd₀).rawText
    · exact Ability.makeId_spec c.id s.index 0 _

/-- A text in which nothing is understood is kept: its one segment has an ability. -/
theorem Card.complete_of_whistle :
    let c : Card :=
      { id := "c".toList, name := "n".toList, fullTextSections := ["Whistle a tune.".toList] }
    let s : Segment := ⟨0, "Whistle a tune.".toList, "Whistle a tune.".toList, none⟩
    ∃ p, c.read {} = .ok p ∧ s ∈ Segment.ofCard {} c ∧
      ∃ a ∈ p.abilities, a.rawText = "Whistle a tune.".toList ∧ a.hasOpaque = true := by
  intro c s
  have hr : c.read {} = .ok (.read c.id (c.context {}) (Segment.ofCard {} c)) := rfl
  have hs : s ∈ Segment.ofCard {} c := by decide +kernel
  have hall : ∀ a ∈ (Assembly.read c.id (c.context {}) (Segment.ofCard {} c)).abilities,
      a.hasOpaque = true := by decide +kernel
  obtain ⟨a, ha, hraw, -⟩ := (Card.complete_of_read rfl (.inr rfl) hr).2 s hs
  exact ⟨_, hr, hs, a, ha, hraw, hall a ha⟩

end CardText
