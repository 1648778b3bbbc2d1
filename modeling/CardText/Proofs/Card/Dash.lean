import CardText.Proofs.Card.Source
import CardText.Proofs.Text.Dash

/-!
# Cards printed with another dash

On a card with nothing but a whole text the segments are its paragraphs.  They do not depend on
whether a dash or an en dash is printed, unless an en dash stands at the end of a paragraph: the
dash would join it with the next one.

* `Segment.printed`: the plain texts of paragraphs that have a body;
* `Card.IsFlat`, `Card.IsFlat.map_text_ofCard`: the segments of a card with nothing but a whole
  text;
* `Segment.length_printed_joinDashed_le`: joining makes no more segments;
* `Segment.printed_joinDashed_eq_iff`: it keeps them all only where there is nothing to join;
* `Segment.map_text_ofCard_unifyDashes_iff`: the cards that have the same segments with either dash.
-/

namespace CardText

/-- The card has the whole text `t` and no other text. -/
structure Card.IsFlat (c : Card) (t : Text) : Prop where
  noHints : c.abilities = []
  noSections : ∀ s ∈ c.fullTextSections, s.isVoid = true
  noEffects : ∀ e ∈ c.effects, e.isVoid = true
  fullText_eq : c.fullText = some t

namespace Segment

/-- The plain texts of the paragraphs that have a body. -/
def printed (ps : List Text) : List Text := (ps.map Text.normalize).filter hasBody

theorem printed_cons (p : Text) (ps : List Text) : printed (p :: ps) =
    if hasBody p.normalize then p.normalize :: printed ps else printed ps := by
  rw [printed, List.map_cons, List.filter_cons]
  rfl

theorem printed_cons_of_getLast {p : Text} (h : p.getLast? = some Text.enDash) (ps : List Text) :
    printed (p :: ps) = p.normalize :: printed ps := by
  rw [printed_cons, hasBody_normalize, Text.isVoid_body_of_getLast h]
  rfl

/-- The first paragraph makes at most one segment. -/
theorem length_printed_tail (ps : List Text) :
    (printed ps.tail).length ≤ (printed ps).length ∧
      (printed ps).length ≤ (printed ps.tail).length + 1 := by
  cases ps with
  | nil => simp [printed]
  | cons p ps =>
    rw [printed_cons, List.tail_cons]
    split_ifs
    · exact ⟨Nat.le_succ _, le_rfl⟩
    · exact ⟨le_rfl, Nat.le_succ _⟩

theorem printed_unifyDashes (ps : List Text) : printed (ps.map Text.unifyDashes) = printed ps := by
  have h : Text.normalize ∘ Text.unifyDashes = Text.normalize := funext Text.normalize_unifyDashes
  rw [printed, List.map_map, h, printed]

/-! ### Joined paragraphs -/

/-- **Joining makes no more segments**, among all paragraphs and among those behind the first. -/
theorem length_printed_joinDashed_le (ps : List Text) :
    (printed (Text.joinDashed ps)).length ≤ (printed ps).length ∧
      (printed (Text.joinDashed ps).tail).length ≤ (printed ps.tail).length := by
  induction ps with
  | nil => exact ⟨le_rfl, le_rfl⟩
  | cons p ps ih =>
    have htail : (printed (Text.joinDashed (p :: ps)).tail).length ≤ (printed ps).length := by
      rw [Text.joinDashed]
      split_ifs
      · rw [List.tail_modifyHead]
        exact ih.2.trans (length_printed_tail ps).1
      · exact ih.1
    refine ⟨?_, htail⟩
    by_cases h : p.getLast? = some Text.enDash
    · -- the paragraph in front has a body, so that it makes up for the one that it becomes
      rw [printed_cons_of_getLast h]
      exact (length_printed_tail _).2.trans (Nat.succ_le_succ htail)
    · rw [Text.joinDashed_cons_of_ne h, printed_cons, printed_cons]
      split_ifs
      · exact Nat.succ_le_succ ih.1
      · exact ih.1

/-- **Joining keeps the segments** only if there is nothing to join: no paragraph in front of
another one ends in an en dash. -/
theorem printed_joinDashed_eq_iff {ps : List Text} (hv : ∀ p ∈ ps, p.isVoid = false) :
    printed (Text.joinDashed ps) = printed ps ↔
      ∀ p ∈ ps.dropLast, p.getLast? ≠ some Text.enDash := by
  induction ps with
  | nil => simp [Text.joinDashed]
  | cons p ps ih =>
    have hv' : ∀ p ∈ ps, p.isVoid = false := fun x hx => hv x (List.mem_cons_of_mem _ hx)
    by_cases hps : ps = []
    · simp [hps, Text.joinDashed]
    rw [List.dropLast_cons_of_ne_nil hps, List.forall_mem_cons]
    by_cases h : p.getLast? = some Text.enDash
    · refine iff_of_false (fun he => ?_) fun hc => hc.1 h
      rw [printed_cons_of_getLast h, Text.joinDashed_cons h hps] at he
      have htail := (length_printed_joinDashed_le ps).2
      cases hj : Text.joinDashed ps with
      | nil =>
        rw [hj] at he
        cases he
      | cons q qs =>
        have hq : q.isVoid = false := Text.isVoid_eq_false_of_mem_joinDashed hv' (by simp [hj])
        rw [hj, List.modifyHead_cons, printed_cons] at he
        rw [hj, List.tail_cons] at htail
        split_ifs at he
        · exact Text.normalize_append_ne p hq (List.cons.inj he).1
        · -- together the two have no body, and the others are fewer than before
          have hlen := congrArg List.length he
          have hle := (length_printed_tail ps).1
          rw [List.length_cons] at hlen
          omega
    · rw [and_iff_right h, ← ih hv', Text.joinDashed_cons_of_ne h, printed_cons, printed_cons]
      split_ifs
      · rw [List.cons_inj_right]
      · rfl

/-! ### Cards with nothing but a whole text -/

theorem map_text_number (ts : List (Text × Option Hint)) :
    (number ts).map (·.text) = ts.map (·.1.normalize) := by
  conv => rhs; rw [← List.zipIdx_map_fst 0 ts, List.map_map]
  rw [number, List.map_map]
  rfl

end Segment

/-- The segments of such a card are its paragraphs that have a body. -/
theorem Card.IsFlat.map_text_ofCard {c : Card} {t : Text} (h : c.IsFlat t) (options : Options) :
    (Segment.ofCard options c).map (·.text) = Segment.printed t.paragraphs := by
  have hs : ¬ ∃ s ∈ c.fullTextSections, s.isVoid = false := by simpa using h.noSections
  have he : ¬ ∃ e ∈ c.effects, e.isVoid = false := by simpa using h.noEffects
  rw [Segment.ofCard, Segment.map_text_number, Segment.sources_of_noHints (.inr h.noHints),
    if_neg hs, if_neg he, h.fullText_eq]
  simp [Segment.printed, List.filter_map, Function.comp_def]

namespace Segment

/-- **Either dash.**  Where a card has nothing but a whole text, the plain texts of its segments
stay the same with the dash in the place of each en dash, just if no paragraph in front of another
one ends in an en dash. -/
theorem map_text_ofCard_unifyDashes_iff {c : Card} {t : Text} (h : c.IsFlat t)
    (options : Options) :
    (ofCard options { c with fullText := some t.unifyDashes }).map (·.text) =
        (ofCard options c).map (·.text) ↔
      ∀ p ∈ t.paragraphs.dropLast, p.getLast? ≠ some Text.enDash := by
  have hu : Card.IsFlat { c with fullText := some t.unifyDashes } t.unifyDashes :=
    { h with fullText_eq := rfl }
  rw [hu.map_text_ofCard, h.map_text_ofCard, Text.paragraphs_unifyDashes, printed_unifyDashes]
  exact printed_joinDashed_eq_iff fun _ => Text.isVoid_eq_false_of_mem_paragraphs

/-- En dashes inside a line, in a reminder and at the end of the whole text. -/
theorem map_text_ofCard_unifyDashes_inside :
    let t : Text := "⟳, 2 ⬡ – Draw a card,\nthen discard a card.\n(Once –)\nReady –".toList
    let c : Card := { id := "c".toList, name := "n".toList, fullText := some t }
    (ofCard {} { c with fullText := some t.unifyDashes }).map (·.text) =
        (ofCard {} c).map (·.text) ∧
      (ofCard {} c).map (·.text) =
        ["\x7bE\x7d, 2 \x7bI\x7d — Draw a card, then discard a card.".toList,
          "Ready —".toList] := by
  intro t c
  have hc : c.IsFlat t := ⟨rfl, by simp [c], by simp [c], rfl⟩
  exact ⟨(map_text_ofCard_unifyDashes_iff hc {}).2 (by decide +kernel), by decide +kernel⟩

/-- A cost on its own line, with an en dash at its end, is told from its effect; with the dash it is
not. -/
theorem not_map_text_ofCard_unifyDashes :
    ¬ ∀ (c : Card) (t : Text) (options : Options), c.IsFlat t →
      (ofCard options { c with fullText := some t.unifyDashes }).map (·.text) =
        (ofCard options c).map (·.text) := by
  intro hall
  let t : Text := "⟳ –\nDraw a card.".toList
  have h := hall { id := "c".toList, name := "n".toList, fullText := some t } t {}
    ⟨rfl, by simp, by simp, rfl⟩
  revert h
  decide +kernel

end Segment

end CardText
