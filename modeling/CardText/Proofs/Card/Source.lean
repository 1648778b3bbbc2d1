import CardText.Proofs.Ability.Assembly
import CardText.Proofs.Text.Paragraph

/-!
# Cards without segments

The text of a card is taken from one source alone, the first that is not blank, and of that source
the texts that only remind are left out.  So a card that has text may be left without a segment.

* `Segment.sources_of_noHints`: the source of a card;
* `Card.HasText`: some text of the card, in whatever form, has a body;
* `Segment.OnlyRemind`: a source that is not blank and has no body;
* `Card.ofCard_eq_nil_iff`: the cards with text that have no segment.
-/

namespace CardText

/-! ### Texts without a body -/

theorem Segment.hasBody_normalize (t : Text) : hasBody t.normalize = !t.body.isVoid := by
  rw [hasBody, Text.isVoid_body_normalize]

/-- A blank text has no body. -/
theorem Segment.hasBody_of_isVoid {t : Text} (h : t.isVoid = true) :
    hasBody t.normalize = false := by
  have hb : t.body.isVoid = true := by
    rw [Text.isVoid_iff_ink, Text.ink_body, Text.ink_parted, Text.isVoid_iff_ink.1 h]
    rfl
  rw [hasBody_normalize, hb]
  rfl

/-- Texts of which some are not blank and all have no body. -/
def Segment.OnlyRemind (ts : List Text) : Prop :=
  (∃ t ∈ ts, t.isVoid = false) ∧ ∀ t ∈ ts, hasBody t.normalize = false

/-- Some text of the card has a body: a printed paragraph, a paragraph of an action or the whole
text. -/
def Card.HasText (c : Card) : Prop :=
  ∃ t, (t ∈ c.fullTextSections ∨ t ∈ c.effects ∨ c.fullText = some t) ∧
    Segment.hasBody t.normalize = true

/-! ### Segments of a source -/

namespace Segment

variable {options : Options} {c : Card}

theorem number_eq_nil_iff {ts : List (Text × Option Hint)} : number ts = [] ↔ ts = [] := by
  simp [number]

/-- A card has no segment if no text of its source has a hint or a body. -/
theorem ofCard_eq_nil_iff_sources : ofCard options c = [] ↔
    ∀ e ∈ sources options c, e.2 = none ∧ hasBody e.1.normalize = false := by
  simp [ofCard, number_eq_nil_iff, List.filter_eq_nil_iff]

/-- A hint gives a segment. -/
theorem ofCard_ne_nil_of_hints (hu : options.useHints = true) (ha : c.abilities ≠ []) :
    ofCard options c ≠ [] := by
  obtain ⟨h, hs, he⟩ := List.exists_cons_of_ne_nil ha
  intro hn
  have hm : (h.text, some h) ∈ sources options c := by simp [sources, hu, he]
  cases (ofCard_eq_nil_iff_sources.1 hn _ hm).1

/-- The source of a card without hints: the printed paragraphs, those of an action, or the whole
text, whichever is the first that is not blank. -/
theorem sources_of_noHints (h : options.useHints = false ∨ c.abilities = []) :
    sources options c = (if ∃ t ∈ c.fullTextSections, t.isVoid = false then c.fullTextSections
      else if ∃ t ∈ c.effects, t.isVoid = false then c.effects
      else c.fullText.toList.flatMap Text.paragraphs).map fun t => (t, none) := by
  have hc : (options.useHints && !c.abilities.isEmpty) = false := by
    rcases h with h | h <;> simp [h]
  simp only [sources, hc, Bool.false_eq_true, if_false, List.any_eq_true, Bool.not_eq_true']
  split_ifs
  · rfl
  · rfl
  · cases c.fullText <;> simp

theorem ofCard_eq_nil_iff_of_sources {ts : List Text}
    (h : sources options c = ts.map fun t => (t, none)) :
    ofCard options c = [] ↔ ∀ t ∈ ts, hasBody t.normalize = false := by
  simp [ofCard_eq_nil_iff_sources, h]

/-- Blank texts have no body. -/
theorem hasBody_of_forall_isVoid {ts : List Text} (h : ∀ t ∈ ts, t.isVoid = true) :
    ¬ ∃ t ∈ ts, hasBody t.normalize = true := by
  rintro ⟨t, ht, hb⟩
  rw [hasBody_of_isVoid (h t ht)] at hb
  cases hb

/-- What holds of a source in front of others: it is taken if some of it is not blank, and otherwise
the next one is. -/
theorem iff_onlyRemind_or {ts : List Text} {P R : Prop}
    (ht : (∃ t ∈ ts, t.isVoid = false) → (P ↔ ∀ t ∈ ts, hasBody t.normalize = false))
    (hr : (∀ t ∈ ts, t.isVoid = true) → (P ↔ R)) :
    P ↔ OnlyRemind ts ∨ (∀ t ∈ ts, t.isVoid = true) ∧ R := by
  by_cases h : ∃ t ∈ ts, t.isVoid = false
  · have hv : ¬ ∀ t ∈ ts, t.isVoid = true := by simpa using h
    rw [ht h, or_iff_left fun hr => hv hr.1, OnlyRemind, and_iff_right h]
  · have hv : ∀ t ∈ ts, t.isVoid = true := by simpa using h
    rw [hr hv, or_iff_right fun hr => h hr.1, and_iff_right hv]

/-- The paragraphs of a text with a body have none only if one of them leaves a parenthesis open
for the next. -/
theorem forall_paragraphs_iff {t : Text} (h : hasBody t.normalize = true) :
    (∀ p ∈ t.paragraphs, hasBody p.normalize = false) ↔
      (∀ p ∈ t.paragraphs, hasBody p.normalize = false) ∧
        ∃ p ∈ t.paragraphs.dropLast, ¬ p.IsClosed '(' ')' := by
  refine ⟨fun hp => ⟨hp, ?_⟩, And.left⟩
  have hv : ∀ p ∈ t.paragraphs, p.body.isVoid = true := fun p hm => by
    simpa [hasBody_normalize] using hp p hm
  by_contra hc
  have hb : t.body.isVoid = true := (Text.isVoid_body_iff hv).2 (by simpa using hc)
  rw [hasBody_normalize, hb] at h
  cases h

end Segment

/-- **Cards with text and without segments.**  A card that has text is left without a segment just
if no hints are in use and one of these holds: its printed paragraphs only remind; they are blank
and those of an action only remind; all of them are blank and no paragraph of its whole text has a
body, for in front of the last a parenthesis is left open. -/
theorem Card.ofCard_eq_nil_iff {c : Card} (h : c.HasText) (options : Options) :
    Segment.ofCard options c = [] ↔ (options.useHints = false ∨ c.abilities = []) ∧
      (Segment.OnlyRemind c.fullTextSections ∨
        (∀ t ∈ c.fullTextSections, t.isVoid = true) ∧ (Segment.OnlyRemind c.effects ∨
          (∀ t ∈ c.effects, t.isVoid = true) ∧ ∃ t, c.fullText = some t ∧
            (∀ p ∈ t.paragraphs, Segment.hasBody p.normalize = false) ∧
              ∃ p ∈ t.paragraphs.dropLast, ¬ p.IsClosed '(' ')')) := by
  by_cases hn : options.useHints = false ∨ c.abilities = []
  · rw [and_iff_right hn]
    have hsrc := Segment.sources_of_noHints hn
    refine Segment.iff_onlyRemind_or (fun hs => ?_) fun hs => ?_
    · rw [if_pos hs] at hsrc
      exact Segment.ofCard_eq_nil_iff_of_sources hsrc
    rw [if_neg (by simpa using hs)] at hsrc
    refine Segment.iff_onlyRemind_or (fun he => ?_) fun he => ?_
    · rw [if_pos he] at hsrc
      exact Segment.ofCard_eq_nil_iff_of_sources hsrc
    rw [if_neg (by simpa using he)] at hsrc
    -- nothing but the whole text can have a body
    obtain ⟨t, ht | ht | ht, hb⟩ := h
    · exact absurd ⟨t, ht, hb⟩ (Segment.hasBody_of_forall_isVoid hs)
    · exact absurd ⟨t, ht, hb⟩ (Segment.hasBody_of_forall_isVoid he)
    · simp only [ht, Option.toList_some, List.flatMap_singleton] at hsrc
      rw [Segment.ofCard_eq_nil_iff_of_sources hsrc, Segment.forall_paragraphs_iff hb]
      simp [ht]
  · rw [not_or, Bool.not_eq_false] at hn
    exact iff_of_false (Segment.ofCard_ne_nil_of_hints hn.1 hn.2) fun h => by
      rcases h.1 with hu | ha
      · rw [hn.1] at hu
        cases hu
      · exact hn.2 ha

/-- A parenthesis that is left open at the end of a line hides the next line, and leaves the card
without a segment. -/
theorem Card.ofCard_eq_nil_openLine :
    let c : Card :=
      { id := "c".toList, name := "n".toList, fullText := some "(\n(Draw a card.)".toList }
    c.HasText ∧ Segment.ofCard {} c = [] := by
  intro c
  have hc : c.HasText := ⟨"(\n(Draw a card.)".toList, .inr (.inr rfl), by decide +kernel⟩
  have hp : Text.paragraphs "(\n(Draw a card.)".toList = ["(".toList, "(Draw a card.)".toList] := by
    decide +kernel
  refine ⟨hc, (Card.ofCard_eq_nil_iff hc {}).2 ⟨.inr rfl, .inr ⟨by simp [c], .inr ⟨by simp [c],
    _, rfl, ?_, ?_⟩⟩⟩⟩
  · rw [hp]
    decide +kernel
  · rw [hp]
    exact ⟨"(".toList, by decide, by decide⟩

/-- A song whose printed paragraph tells only how to sing it has no segment, though its effect is to
draw cards. -/
theorem Card.ofCard_eq_nil_song :
    let c : Card :=
      { id := "s".toList, name := "n".toList, cardType := .action, subtypes := ["Song".toList]
        fullTextSections :=
          ["(A character with cost 2 or more can \x7bE\x7d to sing this song for free.)".toList]
        effects := ["Draw 2 cards.".toList] }
    c.HasText ∧ Segment.ofCard {} c = [] := by
  intro c
  exact ⟨⟨"Draw 2 cards.".toList, .inr (.inl (by simp [c])), by decide +kernel⟩, by decide +kernel⟩

end CardText
