import CardText.Proofs.Text.Spacing
import CardText.Text.Typography

/-!
# Text in plain form

What the plain form of a text keeps of the text.

* `Text.ink`: the characters of a text that are no blanks; words, single spaces and closing up keep
  them, and so do capital symbols but for letter case (`Text.ink_normalize`);
* `Text.insideAfter`: whether a brace is open behind a text, so that capital symbols can be written
  piece by piece (`Text.capitalizeFrom_append`);
* `Text.normalize_trim`: blanks around a text have no part in its plain form;
* `Text.normalize_append_cons`: the plain form of two texts in a row.
-/

namespace CardText

namespace Text

/-! ### Printed characters -/

/-- The characters of a text that are no blanks. -/
def ink (t : Text) : Text := t.filter fun c => !isBlank c

theorem ink_append (s t : Text) : ink (s ++ t) = ink s ++ ink t := List.filter_append ..

theorem ink_cons {c : Char} (h : isBlank c = false) (t : Text) : ink (c :: t) = c :: ink t := by
  simp [ink, h]

theorem ink_cons_of_blank {c : Char} (h : isBlank c = true) (t : Text) :
    ink (c :: t) = ink t := by
  simp [ink, h]

theorem isVoid_iff_ink {t : Text} : t.isVoid = true ↔ t.ink = [] := by
  rw [isVoid_iff, ink, List.filter_eq_nil_iff]
  simp

theorem flatten_words (t : Text) : t.words.flatten = t.ink := by
  rw [ink, ← cut_flatten, words]
  induction cut isBlank t with
  | nil => rfl
  | cons w ws ih =>
    rw [List.filter_cons]
    cases w with
    | nil => simpa using ih
    | cons c w => simpa using ih

theorem words_squeeze (t : Text) : t.squeeze.words = t.words :=
  words_unwords fun _ hw => not_isBlank_of_mem_words hw

theorem ink_squeeze (t : Text) : t.squeeze.ink = t.ink := by
  rw [← flatten_words, words_squeeze, flatten_words]

theorem ink_closeUp (mark : Char) (t : Text) : (closeUp mark t).ink = t.ink := by
  induction t with
  | nil => rfl
  | cons c t ih =>
    cases t with
    | nil => rfl
    | cons d r =>
      rw [closeUp]
      split
      · next h =>
        rw [ih, h.1]
        rfl
      · rw [← List.singleton_append, ink_append, ih, ← ink_append]
        rfl

/-! ### Capital symbols -/

theorem isBlank_toUpper (c : Char) : isBlank c.toUpper = isBlank c := by
  unfold Char.toUpper
  split
  · next hc =>
    simp only [UInt32.le_iff_toNat_le] at hc
    rw [isBlank_of_toNat, isBlank_of_toNat]
    · simp at hc ⊢
      omega
    · simp at hc ⊢
      omega
  · rfl

theorem toUpper_toUpper (c : Char) : c.toUpper.toUpper = c.toUpper := by
  have h : ¬ (c.toUpper.val ≥ 'a'.val ∧ c.toUpper.val ≤ 'z'.val) := by
    unfold Char.toUpper
    split
    · next hc =>
      simp [UInt32.le_iff_toNat_le] at hc ⊢
      omega
    · next hc => exact hc
  exact dif_neg h

/-- Capital symbols have the blanks of their text. -/
theorem capitalizeFrom_cons (b : Bool) (c : Char) (r : Text) :
    ∃ c' b', capitalizeFrom b (c :: r) = c' :: capitalizeFrom b' r ∧
      isBlank c' = isBlank c ∧ (c = ' ' → c' = ' ') := by
  rw [capitalizeFrom]
  split_ifs with h₁ h₂ h₃
  · exact ⟨_, _, rfl, rfl, id⟩
  · exact ⟨_, _, rfl, rfl, id⟩
  · exact ⟨_, _, rfl, isBlank_toUpper c, by rintro rfl; rfl⟩
  · exact ⟨_, _, rfl, rfl, id⟩

theorem Spaced.capitalizeFrom {t : Text} (h : Spaced t) (b : Bool) :
    Spaced (capitalizeFrom b t) := by
  induction t generalizing b with
  | nil => trivial
  | cons c t ih =>
    obtain ⟨c', b', hc, hb, hs⟩ := capitalizeFrom_cons b c t
    have ht := ih h.tail b'
    rw [hc]
    cases t with
    | nil =>
      change isBlank c' = false
      rw [hb]
      exact h
    | cons d r =>
      obtain ⟨d', b'', hd, hbd, -⟩ := capitalizeFrom_cons b' d r
      rw [hd] at ht ⊢
      refine ⟨fun hbl => ?_, ht⟩
      obtain ⟨hsp, hdb⟩ := h.1 (hb ▸ hbl)
      exact ⟨hs hsp, hbd.trans hdb⟩

/-- Capital symbols differ from the text in the case of letters alone. -/
theorem map_toUpper_capitalizeFrom (b : Bool) (t : Text) :
    (capitalizeFrom b t).map Char.toUpper = t.map Char.toUpper := by
  induction t generalizing b with
  | nil => rfl
  | cons c t ih =>
    rw [capitalizeFrom]
    split_ifs <;> simp only [List.map_cons, ih, toUpper_toUpper]

/-- A brace is open behind the text; `inside` tells whether one is open in front of it. -/
def insideAfter (inside : Bool) : Text → Bool
  | [] => inside
  | c :: r =>
    if c = '\x7b' then insideAfter true r
    else if c = '\x7d' then insideAfter false r
    else insideAfter inside r

theorem insideAfter_append (b : Bool) (s t : Text) :
    insideAfter b (s ++ t) = insideAfter (insideAfter b s) t := by
  induction s generalizing b with
  | nil => rfl
  | cons c s ih =>
    rw [List.cons_append, insideAfter, insideAfter]
    split_ifs <;> exact ih _

/-- Capital symbols of two texts in a row. -/
theorem capitalizeFrom_append (b : Bool) (s t : Text) :
    capitalizeFrom b (s ++ t) = capitalizeFrom b s ++ capitalizeFrom (insideAfter b s) t := by
  induction s generalizing b with
  | nil => rfl
  | cons c s ih =>
    rw [List.cons_append, capitalizeFrom, capitalizeFrom, insideAfter]
    split_ifs <;> simp [ih]

theorem ne_brace_of_isBlank {c : Char} (h : isBlank c = true) : c ≠ '\x7b' ∧ c ≠ '\x7d' := by
  constructor <;> rintro rfl <;> cases h

/-- Blanks neither open nor close a brace. -/
theorem insideAfter_ink (b : Bool) (t : Text) : insideAfter b t.ink = insideAfter b t := by
  induction t generalizing b with
  | nil => rfl
  | cons c t ih =>
    by_cases hb : isBlank c = true
    · obtain ⟨ho, hc⟩ := ne_brace_of_isBlank hb
      rw [insideAfter, if_neg ho, if_neg hc, ink_cons_of_blank hb, ih b]
    · rw [ink_cons (by simpa using hb), insideAfter, insideAfter]
      split_ifs <;> exact ih _

theorem ink_capitalizeFrom (b : Bool) (t : Text) :
    (capitalizeFrom b t).ink = capitalizeFrom b t.ink := by
  induction t generalizing b with
  | nil => rfl
  | cons c t ih =>
    have hu : isBlank (if b then c.toUpper else c) = isBlank c := by
      split_ifs
      · exact isBlank_toUpper c
      · rfl
    by_cases hb : isBlank c = true
    · obtain ⟨ho, hc⟩ := ne_brace_of_isBlank hb
      rw [capitalizeFrom, if_neg ho, if_neg hc, ink_cons_of_blank (hu.trans hb),
        ink_cons_of_blank hb, ih b]
    · have hb : isBlank c = false := by simpa using hb
      rw [ink_cons hb, capitalizeFrom, capitalizeFrom]
      split_ifs at hu ⊢ <;> simp only [ink_cons (hu.trans hb), ink_cons hb, ih]

/-! ### Plain forms -/

/-- The characters that have another plain form. -/
def glyphs : List Char := "⟳⬡¤⛉◊’‘“”−–".toList

theorem plainForm_eq_self {c : Char} (h : c ∉ glyphs) : plainForm c = [c] := by
  unfold plainForm
  split <;> first | rfl | exact absurd (by decide) h

/-- What is true of the plain form of each glyph, and of a character that is its own plain form. -/
theorem plainForm_cases {P : Char → Text → Prop} [∀ c u, Decidable (P c u)]
    (hg : (glyphs.all fun g => decide (P g (plainForm g))) = true) (hc : ∀ c, P c [c]) (c : Char) :
    P c (plainForm c) := by
  by_cases h : c ∈ glyphs
  · exact of_decide_eq_true (List.all_eq_true.1 hg c h)
  · rw [plainForm_eq_self h]
    exact hc c

theorem plainForm_of_isBlank {c : Char} (h : isBlank c = true) : plainForm c = [c] := by
  refine plainForm_eq_self fun hg => ?_
  have hall : glyphs.all (fun g => !isBlank g) = true := by decide
  have := List.all_eq_true.1 hall c hg
  rw [h] at this
  cases this

theorem flatMap_plainForm_of_isBlank {t : Text} (h : ∀ c ∈ t, isBlank c = true) :
    t.flatMap plainForm = t := by
  induction t with
  | nil => rfl
  | cons c t ih =>
    rw [List.flatMap_cons, plainForm_of_isBlank (h c (by simp)),
      ih fun x hx => h x (List.mem_cons_of_mem _ hx)]
    rfl

/-! ### Plain text -/

theorem spaced_normalize (t : Text) : t.normalize.Spaced :=
  (spaced_squeeze _).capitalizeFrom false

theorem head_normalize {t : Text} {c : Char} (h : c ∈ t.normalize.head?) :
    isBlank c = false := by
  rw [normalize, capitalizeSymbols] at h
  rcases hs : squeeze (t.flatMap plainForm) with _ | ⟨d, r⟩
  · rw [hs] at h; cases h
  · obtain ⟨c', b', hc, hb, -⟩ := capitalizeFrom_cons false d r
    rw [hs, hc] at h
    cases h
    rw [hb]
    exact head_squeeze (t := t.flatMap plainForm) (by simp [hs])

/-- The characters of a plain text are the plain forms of the characters, with capital symbols. -/
theorem ink_normalize (t : Text) :
    t.normalize.ink = capitalizeFrom false (ink (t.flatMap plainForm)) := by
  rw [normalize, capitalizeSymbols, ink_capitalizeFrom, ink_squeeze]

/-- Blanks around a text have no part in its plain form. -/
theorem normalize_trim (t : Text) : t.trim.normalize = t.normalize := by
  obtain ⟨a, b, ht, ha, hb⟩ := exists_trim t
  have hw : words (t.flatMap plainForm) = words (t.trim.flatMap plainForm) := by
    conv => lhs; rw [ht]
    rw [List.flatMap_append, List.flatMap_append, flatMap_plainForm_of_isBlank ha,
      flatMap_plainForm_of_isBlank hb, List.append_assoc, words_append_of_blank ha,
      words_append_blank _ hb]
  rw [normalize, normalize, squeeze, squeeze, hw]

/-- The plain form of two texts with a blank between them, where no brace is open at the blank: the
two plain forms with a space between them, or one of them where the other is nothing. -/
theorem normalize_append_cons {s : Text} (hb : insideAfter false (s.flatMap plainForm) = false)
    {c : Char} (hc : isBlank c = true) (t : Text) :
    s.normalize = [] ∧ (s ++ c :: t).normalize = t.normalize ∨
      t.normalize = [] ∧ (s ++ c :: t).normalize = s.normalize ∨
      (s ++ c :: t).normalize = s.normalize ++ ' ' :: t.normalize := by
  have hw : words ((s ++ c :: t).flatMap plainForm) =
      words (s.flatMap plainForm) ++ words (t.flatMap plainForm) := by
    rw [List.flatMap_append, List.flatMap_cons, plainForm_of_isBlank hc, List.singleton_append,
      words_append_cons hc]
  simp only [normalize, squeeze, hw]
  by_cases hs : words (s.flatMap plainForm) = []
  · left
    rw [hs]
    exact ⟨rfl, rfl⟩
  right
  by_cases ht : words (t.flatMap plainForm) = []
  · left
    rw [ht, List.append_nil]
    exact ⟨rfl, rfl⟩
  right
  have hi : insideAfter false (unwords (words (s.flatMap plainForm))) = false := by
    have hsq := ink_squeeze (s.flatMap plainForm)
    rw [squeeze] at hsq
    rw [← insideAfter_ink, hsq, insideAfter_ink, hb]
  rw [unwords_append hs ht, capitalizeSymbols, capitalizeFrom_append, hi]
  rfl

end Text

end CardText
