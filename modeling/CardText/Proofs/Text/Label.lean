import CardText.Proofs.Text.Heading
import CardText.Proofs.Text.Settled

/-!
# Texts with a name in front

A name in plain capitals is told from the text behind it.

* `Text.isLabelWord_head_append`: whether a text begins with a word in capitals;
* `Text.IsLabel`: the words of a name;
* `Text.stripLabel_label`: the name and the text behind it are found again;
* `Text.body_label`: the body of a text with a name in front.
-/

namespace CardText

namespace Text

/-! ### Plain letters -/

section Letters

variable {c : Char}

theorem toNat_of_isUpper (h : c.isUpper = true) : 65 ≤ c.toNat ∧ c.toNat ≤ 90 :=
  of_decide_eq_true h

theorem toNat_of_isLower (h : c.isLower = true) : 97 ≤ c.toNat ∧ c.toNat ≤ 122 := by
  obtain ⟨hlo, hhi⟩ := Bool.and_eq_true_iff.1 h
  exact ⟨of_decide_eq_true hlo, of_decide_eq_true hhi⟩

theorem isBlank_of_isUpper (h : c.isUpper = true) : isBlank c = false :=
  isBlank_of_toNat ⟨(toNat_of_isUpper h).1, by have := toNat_of_isUpper h; omega⟩

/-- A plain capital is no mark. -/
theorem ne_of_isUpper {m : Char} (h : c.isUpper = true) (hm : m.isUpper = false) : c ≠ m := by
  rintro rfl
  rw [h] at hm
  cases hm

theorem isLetter_of_isUpper (h : c.isUpper = true) : isLetter c = true := by
  have := toNat_of_isUpper h
  rw [isLetter, if_pos (by omega)]
  exact Bool.or_eq_true_iff.2 (.inl h)

theorem isLetter_of_isLower (h : c.isLower = true) : isLetter c = true := by
  have := toNat_of_isLower h
  rw [isLetter, if_pos (by omega)]
  exact Bool.or_eq_true_iff.2 (.inr h)

/-- A character with a small form among the plain letters is a letter. -/
theorem isLetter_of_toLower (h : c.toLower.isLower = true) : isLetter c = true := by
  cases hu : c.isUpper with
  | true => exact isLetter_of_isUpper hu
  | false =>
    have hc : c.toLower = c := dif_neg (of_decide_eq_false hu)
    exact isLetter_of_isLower (hc ▸ h)

theorem toNat_of_toLower (h : c.toLower.isLower = true) : 65 ≤ c.toNat ∧ c.toNat ≤ 122 := by
  cases hu : c.isUpper with
  | true => have := toNat_of_isUpper hu; omega
  | false =>
    have hc : c.toLower = c := dif_neg (of_decide_eq_false hu)
    have := toNat_of_isLower (hc ▸ h)
    omega

theorem isUpper_of_isUpper (h : c.isUpper = true) : isUpper c = true := by
  have := toNat_of_isUpper h
  rw [isUpper, if_pos (by omega), h]

theorem isDigit_of_isUpper (h : c.isUpper = true) : c.isDigit = false := by
  have := toNat_of_isUpper h
  have hhi : ¬ c.toNat ≤ 57 := by omega
  exact Bool.and_eq_false_iff.2 (.inr (decide_eq_false hhi))

end Letters

/-! ### First words -/

/-- The first word of a text is the start of the first word of each text that goes on with it. -/
theorem head_words_append {c : Char} (hc : isBlank c = false) (s t : Text) :
    ∃ w x, (words (c :: s)).head? = some (c :: w) ∧
      (words (c :: s ++ t)).head? = some (c :: w ++ x) := by
  induction s generalizing c with
  | nil =>
    rw [words_singleton hc]
    cases t with
    | nil => exact ⟨[], [], rfl, by rw [List.append_nil, words_singleton hc]; rfl⟩
    | cons d t =>
      by_cases hd : isBlank d = true
      · refine ⟨[], [], rfl, ?_⟩
        rw [List.cons_append, List.nil_append, words_cons_of_blank hc hd]
        rfl
      · have hd : isBlank d = false := by simpa using hd
        obtain ⟨v, vs, hv⟩ := List.exists_cons_of_ne_nil (words_ne_nil (t := d :: t) (by simp) hd)
        refine ⟨[], v, rfl, ?_⟩
        rw [List.cons_append, List.nil_append, words_cons hc hd, hv]
        rfl
  | cons d s ih =>
    by_cases hd : isBlank d = true
    · refine ⟨[], [], ?_, ?_⟩
      · rw [words_cons_of_blank hc hd]
        rfl
      · rw [List.cons_append, List.cons_append, words_cons_of_blank hc hd]
        rfl
    · have hd : isBlank d = false := by simpa using hd
      obtain ⟨w, x, hw, hx⟩ := ih hd
      refine ⟨d :: w, x, ?_, ?_⟩
      · rw [words_cons hc hd, List.head?_modifyHead, hw]
        rfl
      · rw [List.cons_append, List.cons_append, words_cons hc hd, List.head?_modifyHead]
        rw [List.cons_append] at hx
        rw [hx]
        rfl

/-- A word that begins with a letter, a digit or a symbol is in capitals if a longer one is. -/
theorem isLabelWord_of_append {c : Char} (hc : isLetter c = true ∨ c.isDigit = true ∨ c = '\x7b')
    {w x : Text} (h : isLabelWord (c :: w ++ x) = true) : isLabelWord (c :: w) = true := by
  simp only [isLabelWord, Bool.and_eq_true, bne_iff_ne, Bool.not_eq_true', List.filter_append,
    List.all_append, List.any_append, Bool.or_eq_false_iff] at h ⊢
  obtain ⟨⟨⟨hb, hd, -⟩, -⟩, hu, -⟩ := h
  have hb : (c :: w).head? ≠ some '\x7b' := hb
  refine ⟨⟨⟨hb, hd⟩, ?_⟩, hu⟩
  rcases hc with hl | hdc | rfl
  · simp [hl]
  · simp [hdc] at hd
  · exact absurd rfl hb

/-- What goes on with a text begins with no word in capitals if the text begins with none. -/
theorem isLabelWord_head_append {c : Char} (hb : isBlank c = false)
    (hc : isLetter c = true ∨ c.isDigit = true ∨ c = '\x7b') {s : Text}
    (h : ∀ w ∈ (words (c :: s)).head?, isLabelWord w = false) (t : Text) :
    ∀ w ∈ (words (c :: s ++ t)).head?, isLabelWord w = false := by
  obtain ⟨v, x, hv, hx⟩ := head_words_append hb s t
  intro w hw
  rw [hx] at hw
  cases hw
  have hf := h _ hv
  by_contra ht
  rw [isLabelWord_of_append hc (by simpa using ht)] at hf
  cases hf

/-! ### Names -/

/-- The words of a name in front of a text: words in plain capitals, the last one a long word. -/
structure IsLabel (ws : List Text) : Prop where
  ne_nil : ws ≠ []
  capitals : ∀ w ∈ ws, w ≠ [] ∧ ∀ c ∈ w, c.isUpper = true
  long : ∀ w ∈ ws.getLast?, 2 ≤ w.length

instance (ws : List Text) : Decidable (IsLabel ws) :=
  decidable_of_iff (ws ≠ [] ∧ (∀ w ∈ ws, w ≠ [] ∧ w.all Char.isUpper = true) ∧
    ∀ w ∈ ws.getLast?, 2 ≤ w.length)
    ⟨fun ⟨hne, hu, hl⟩ => ⟨hne, fun w hw => ⟨(hu w hw).1, List.all_eq_true.1 (hu w hw).2⟩, hl⟩,
      fun ⟨hne, hu, hl⟩ => ⟨hne, fun w hw => ⟨(hu w hw).1, List.all_eq_true.2 (hu w hw).2⟩, hl⟩⟩

variable {ws : List Text} {t : Text}

namespace IsLabel

theorem words_eq (h : IsLabel ws) : (unwords ws).words = ws :=
  words_unwords fun w hw => ⟨(h.capitals w hw).1, fun c hc =>
    isBlank_of_isUpper ((h.capitals w hw).2 c hc)⟩

theorem spaced (h : IsLabel ws) : (unwords ws).Spaced :=
  spaced_unwords fun w hw => ⟨(h.capitals w hw).1, fun c hc =>
    isBlank_of_isUpper ((h.capitals w hw).2 c hc)⟩

/-- A name has capitals and spaces. -/
theorem isUpper_of_mem (h : IsLabel ws) {c : Char} (hc : c ∈ unwords ws) :
    c = ' ' ∨ c.isUpper = true :=
  (mem_unwords hc).imp_right fun ⟨w, hw, hcw⟩ => (h.capitals w hw).2 c hcw

theorem not_mem (h : IsLabel ws) {m : Char} (hm : m.isUpper = false) (hs : m ≠ ' ') :
    m ∉ unwords ws := fun hc =>
  (h.isUpper_of_mem hc).elim hs fun hu => ne_of_isUpper hu hm rfl

theorem exists_cons (h : IsLabel ws) : ∃ c r, unwords ws = c :: r ∧ c.isUpper = true := by
  obtain ⟨w, vs, rfl⟩ := List.exists_cons_of_ne_nil h.ne_nil
  obtain ⟨hw, hu⟩ := h.capitals w (by simp)
  obtain ⟨c, r, rfl⟩ := List.exists_cons_of_ne_nil hw
  obtain ⟨r', hr⟩ := List.head?_eq_some_iff.1 ((head_unwords hw vs).trans rfl)
  exact ⟨c, r', hr, hu c (by simp)⟩

/-- A name is settled. -/
theorem isSettled (h : IsLabel ws) : IsSettled (unwords ws) := by
  obtain ⟨c, r, hc, hu⟩ := h.exists_cons
  have hh : ∀ x ∈ (unwords ws).head?, isBlank x = false := fun x hx => by
    rw [hc] at hx
    cases hx
    exact isBlank_of_isUpper hu
  have hg : (glyphs.all fun g => !g.isUpper && g != ' ') = true := by decide
  constructor
  · refine normalize_eq_self_iff.2 ⟨fun x hx hm => ?_, h.spaced, hh,
      capitalizeSymbols_eq_self (h.not_mem rfl (by decide))⟩
    have hx' := List.all_eq_true.1 hg x hm
    rw [Bool.and_eq_true, Bool.not_eq_true', bne_iff_ne] at hx'
    exact h.not_mem hx'.1 hx'.2 hx
  · exact body_eq_self_iff.2 ⟨h.not_mem rfl (by decide), h.spaced, hh,
      noGapBefore_of_not_mem (h.not_mem rfl (by decide)),
      noGapBefore_of_not_mem (h.not_mem rfl (by decide))⟩

theorem isLabelWord (h : IsLabel ws) {w : Text} (hw : w ∈ ws) : isLabelWord w = true := by
  obtain ⟨hne, hu⟩ := h.capitals w hw
  have hl : w.filter isLetter = w :=
    List.filter_eq_self.2 fun c hc => isLetter_of_isUpper (hu c hc)
  obtain ⟨c, r, rfl⟩ := List.exists_cons_of_ne_nil hne
  have hb : c ≠ '\x7b' := ne_of_isUpper (hu c (by simp)) rfl
  have hd : (c :: r).any Char.isDigit = false := List.any_eq_false.2 fun x hx => by
    simp [isDigit_of_isUpper (hu x hx)]
  have ha : (c :: r).all isUpper = true := List.all_eq_true.2 fun x hx =>
    isUpper_of_isUpper (hu x hx)
  simp only [Text.isLabelWord, hl, hd, ha, List.head?_cons]
  simp [hb]

/-- The last word of a name is long. -/
theorem any_isLongWord (h : IsLabel ws) : ws.any isLongWord = true := by
  obtain ⟨vs, w, rfl⟩ := (List.eq_nil_or_concat ws).resolve_left h.ne_nil
  rw [List.concat_eq_append] at h ⊢
  have hl : w.filter isLetter = w := List.filter_eq_self.2 fun c hc =>
    isLetter_of_isUpper ((h.capitals w (by simp)).2 c hc)
  have hw : isLongWord w = true := by
    rw [isLongWord, hl]
    simpa using h.long w (by simp)
  simp [hw]

/-- In front of a word that is not in capitals a name is neither too long nor too short. -/
theorem isHeading (h : IsLabel ws) {vs : List Text}
    (hv : ∀ v ∈ vs.head?, Text.isLabelWord v = false) : IsHeading ws vs where
  capitals w hw := h.isLabelWord hw
  head hw := absurd hw h.ne_nil
  last w hw := by
    obtain ⟨v, more, rfl⟩ := List.exists_cons_of_ne_nil h.ne_nil
    -- a long word is no lone capital
    have hl := h.long w (List.mem_getLast?_cons hw)
    rw [isLoneCapital, Bool.or_eq_false_iff]
    constructor <;> (rw [beq_eq_false_iff_ne]; rintro rfl; simp at hl)
  following w hw := by
    rw [takeWhile_isLabelWord hv] at hw
    cases hw

end IsLabel

/-- A text that begins with no word in capitals has no name. -/
theorem stripLabel_eq_none (h : ∀ w ∈ t.words.head?, isLabelWord w = false) :
    t.stripLabel = (none, t.trim) :=
  stripLabel_of_isHeading (List.nil_append _).symm (.of_head h)

/-- **The name in front of a text** is found again, and so is the text. -/
theorem stripLabel_label (hw : IsLabel ws) (ht : t.words ≠ [])
    (h : ∀ w ∈ t.words.head?, isLabelWord w = false) :
    (unwords ws ++ ' ' :: t).stripLabel = (some (unwords ws), t.squeeze) := by
  have hwords : (unwords ws ++ ' ' :: t).words = ws ++ t.words := by
    rw [words_append_cons rfl, hw.words_eq]
  rw [stripLabel_of_isHeading hwords (hw.isHeading h), hw.any_isLongWord, Bool.true_and,
    if_pos (by simpa using ht)]
  rfl

/-- A name in front of a text is part of the body. -/
theorem body_label (hw : IsLabel ws) (ht : t.body ≠ []) :
    body (unwords ws ++ ' ' :: t) = unwords ws ++ gapBefore t.body ++ t.body := by
  obtain ⟨c, r, hc, -⟩ := hw.exists_cons
  rw [body_append_space (.of_not_mem hw.isSettled.not_mem)
    (by rw [hw.isSettled.body, hc]; simp), if_neg ht, hw.isSettled.body]

end Text

end CardText
