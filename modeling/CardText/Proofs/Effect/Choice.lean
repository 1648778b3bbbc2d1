import Mathlib.Data.Prod.Lex
import CardText.Proofs.Effect.Clause
import CardText.Proofs.Text.Spacing

/-!
# The choice of a wording

The wording that is taken for an action is the first of those whose fit is the greatest, where fits
are compared first by what a match says outside its free slots and then by its length. What the
match leaves over is not lost.

* `Wording.IsBest`: a match is the first with the greatest fit; `Wording.best?_eq_some_iff`: such
  matches, and no others, are taken;
* `Wording.fit_fst_add_free`: what a match says and what fills its free slots make up its length;
* `Step.exists_remainder`, `Step.isSuffix_note_of_getLast?`: what is left over, and where it goes;
* `Step.ofAction?_choice`: which actions are understood, and by which steps.
-/

namespace CardText

open Template

namespace Wording

/-! ### Fits in order -/

theorem worse_iff_toLex {a b : Nat × Nat} : worse a b = true ↔ toLex a < toLex b := by
  rw [worse_iff, Prod.Lex.toLex_lt_toLex]

/-- The match `m` of the wording `w` is the first in the table with the greatest fit. -/
structure IsBest (t : Text) (w : Wording) (m : Match Slot) : Prop where
  isMatch : w.template.match? t = some m
  fits : ∃ front back, all = front ++ w :: back ∧
    (∀ v ∈ front, ∀ n, v.template.match? t = some n → toLex (fit n) < toLex (fit m)) ∧
      ∀ v ∈ back, ∀ n, v.template.match? t = some n → toLex (fit n) ≤ toLex (fit m)

/-- **The wording that is taken is the first with the greatest fit.** -/
theorem best?_eq_some_iff {t : Text} {w : Wording} {m : Match Slot} :
    best? t = some (w, m) ↔ IsBest t w m := by
  rw [best?, pick?_eq_some_iff]
  constructor
  · rintro ⟨front, back, hl, hf, hb⟩
    -- of the wordings around it, those that match are the matches around it
    obtain ⟨us, vs, hall, rfl, hv⟩ := List.filterMap_eq_append_iff.1 hl
    obtain ⟨us', w', vs', rfl, hu', hw', rfl⟩ := List.filterMap_eq_cons_iff.1 hv
    obtain ⟨m', hm, he⟩ := Option.map_eq_some_iff.1 hw'
    cases he
    refine ⟨hm, us ++ us', vs', by rw [hall, List.append_assoc], fun v hv n hn => ?_,
      fun v hv n hn => ?_⟩
    · rcases List.mem_append.1 hv with hv | hv
      · exact worse_iff_toLex.1 (hf (v, n) (mem_matching_iff.2 ⟨hv, hn⟩))
      · have := hu' v hv
        rw [hn] at this
        cases this
    · exact not_lt.1 fun hlt =>
        hb (v, n) (mem_matching_iff.2 ⟨hv, hn⟩) (worse_iff_toLex.2 hlt)
  · rintro ⟨hm, front, back, hall, hf, hb⟩
    refine ⟨matching front t, matching back t, ?_, fun c hc => ?_, fun c hc hlt => ?_⟩
    · rw [hall, matching, List.filterMap_append, List.filterMap_cons, hm]
      rfl
    · obtain ⟨hv, hn⟩ := mem_matching_iff.1 hc
      exact worse_iff_toLex.2 (hf c.1 hv c.2 hn)
    · obtain ⟨hv, hn⟩ := mem_matching_iff.1 hc
      exact not_lt.2 (hb c.1 hv c.2 hn) (worse_iff_toLex.1 hlt)

theorem best?_eq_none_iff {t : Text} :
    best? t = none ↔ ∀ w ∈ all, w.template.match? t = none := by
  rw [best?, pick?_eq_none_iff, matching, List.filterMap_eq_nil_iff]
  simp only [Option.map_eq_none_iff]

theorem isFlat_template (w : Wording) : w.template.isFlat = true := by cases w <;> rfl

/-- What a match says and what fills its free slots make up its length. -/
theorem fit_fst_add_free {w : Wording} {t : Text} {m : Match Slot}
    (h : w.template.match? t = some m) :
    (fit m).1 + Text.byteCount (Slot.free.flatMap m.slot) = (fit m).2 := by
  have := spoken_add_free_le w.isFlat_template h
  simp only [fit]
  omega

end Wording

namespace Step

/-! ### What is left over -/

/-- Around the remainder stood only blanks, commas and periods. -/
theorem exists_remainder (m : Match Slot) : ∃ a b, m.rest = a ++ remainder m ++ b ∧
    ∀ c ∈ a ++ b, Text.isBlank c = true ∨ Text.isPause c = true := by
  obtain ⟨a₁, b₁, h₁, ha₁, hb₁⟩ := Text.exists_trim m.rest
  obtain ⟨a₂, b₂, h₂, ha₂, hb₂⟩ := Text.exists_dropAround Text.isPause m.rest.trim
  obtain ⟨a₃, b₃, h₃, ha₃, hb₃⟩ :=
    Text.exists_trim (Text.dropAround Text.isPause m.rest.trim)
  refine ⟨a₁ ++ a₂ ++ a₃, b₃ ++ b₂ ++ b₁, ?_, fun c hc => ?_⟩
  · rw [remainder]
    calc m.rest = a₁ ++ m.rest.trim ++ b₁ := h₁
      _ = a₁ ++ (a₂ ++ Text.dropAround Text.isPause m.rest.trim ++ b₂) ++ b₁ := by rw [← h₂]
      _ = a₁ ++ (a₂ ++ (a₃ ++ (Text.dropAround Text.isPause m.rest.trim).trim ++ b₃) ++ b₂) ++
          b₁ := by rw [← h₃]
      _ = _ := by simp only [List.append_assoc]
  · simp only [List.mem_append] at hc
    rcases hc with ((hc | hc) | hc) | (hc | hc) | hc
    · exact .inl (ha₁ c hc)
    · exact .inr (ha₂ c hc)
    · exact .inl (ha₃ c hc)
    · exact .inl (hb₃ c hc)
    · exact .inr (hb₂ c hc)
    · exact .inl (hb₁ c hc)

theorem isSuffix_note_addNote (t : Text) (s : Step) : ∃ note ∈ (s.addNote t).note, t <:+ note := by
  refine ⟨_, rfl, ?_⟩
  cases s.note with
  | none => exact List.suffix_refl t
  | some note => exact List.suffix_append _ t

theorem noteLast_append_singleton (rest : Text) (steps : List Step) (s : Step) :
    noteLast rest (steps ++ [s]) =
      steps ++ [if rest.isEmpty then s else s.addNote rest] := by
  induction steps with
  | nil =>
    rw [List.nil_append, noteLast]
    split_ifs <;> rfl
  | cons u us ih =>
    obtain ⟨v, vs, hv⟩ := List.exists_cons_of_ne_nil (l := us ++ [s]) (by simp)
    rw [List.cons_append, List.cons_append, ← ih, hv, noteLast]
    simp

/-- The note of the last step ends in what is left over. -/
theorem isSuffix_note_of_getLast? {rest : Text} (hr : rest ≠ []) {steps : List Step} {s : Step}
    (h : s ∈ (noteLast rest steps).getLast?) : ∃ note ∈ s.note, rest <:+ note := by
  rcases List.eq_nil_or_concat steps with rfl | ⟨us, u, rfl⟩
  · cases h
  · rw [List.concat_eq_append, noteLast_append_singleton, List.getLast?_concat,
      if_neg (by simpa using hr)] at h
    obtain rfl := Option.some.inj h
    exact isSuffix_note_addNote rest u

/-! ### The steps of an action -/

/-- The steps of an action by its wording `w` with the match `m`. -/
structure ReadBy (scope : Scope) (action : Text) (steps : List Step) (w : Wording)
    (m : Match Slot) : Prop where
  isBest : Wording.IsBest action w m
  eq_noteLast : steps = noteLast (remainder m) (w.read m scope)
  ne_nil : steps ≠ []
  /-- The match, blanks and punctuation, what is left over, and again blanks and punctuation. -/
  covers : ∃ a b, action = m.whole ++ (a ++ remainder m ++ b) ∧
    ∀ c ∈ a ++ b, Text.isBlank c = true ∨ Text.isPause c = true
  note : remainder m ≠ [] → ∀ s ∈ steps.getLast?, ∃ note ∈ s.note, remainder m <:+ note

/-- **The reading of an action**: the wordings that are taken, what their fits measure, the actions
that are not understood, and the steps of the others. -/
theorem ofAction?_choice (scope : Scope) (action : Text) :
    (∀ w m, Wording.best? action = some (w, m) ↔ Wording.IsBest action w m) ∧
      (∀ w ∈ Wording.all, ∀ m ∈ w.template.match? action,
        (Wording.fit m).2 = Text.byteCount m.whole ∧
          (Wording.fit m).2 = (Wording.fit m).1 + Text.byteCount (Slot.free.flatMap m.slot)) ∧
      (ofAction? scope action = none ↔ (∀ w ∈ Wording.all, w.template.match? action = none) ∨
        ∃ w m, Wording.IsBest action w m ∧ w.read m scope = []) ∧
      ∀ steps ∈ ofAction? scope action, ∃ w m, ReadBy scope action steps w m := by
  refine ⟨fun _ _ => Wording.best?_eq_some_iff,
    fun w _ m hm => ⟨rfl, (Wording.fit_fst_add_free hm).symm⟩, ?_, fun steps h => ?_⟩
  · rw [← Wording.best?_eq_none_iff]
    simp only [← Wording.best?_eq_some_iff]
    rw [ofAction?]
    cases hb : Wording.best? action with
    | none => simp
    | some x =>
      obtain ⟨w, m⟩ := x
      have hread : (∃ v n, some (w, m) = some (v, n) ∧ v.read n scope = []) ↔
          w.read m scope = [] := by
        constructor
        · rintro ⟨_, _, he, h⟩
          cases he
          exact h
        · exact fun h => ⟨w, m, rfl, h⟩
      rw [hread]
      simp
  · obtain ⟨w, m, hb, hne, rfl⟩ := exists_of_ofAction? h
    have hbest := Wording.best?_eq_some_iff.1 hb
    obtain ⟨a, b, hr, hab⟩ := exists_remainder m
    exact ⟨w, m, hbest, rfl, noteLast_ne_nil _ hne,
      ⟨a, b, by rw [← hr, whole_append_rest hbest.isMatch], hab⟩,
      fun hrem s hs => isSuffix_note_of_getLast? hrem hs⟩

end Step

end CardText
