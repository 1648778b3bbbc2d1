import CardText.Proofs.Text.Sequence

/-!
# Texts that stay as they are

Which texts are their own plain form, and which are their own body.

* `Text.normalize_eq_self_iff`: a text without glyphs, in single spaces and with capital symbols is
  its own plain form;
* `Text.body_eq_self_iff`: a text in single spaces, without an opening parenthesis and with no space
  in front of a period or a comma is its own body;
* `Text.IsSettled`: a text that is both; `Text.isSettled_of_isPrefix` for the front of a body;
* `Text.body_normalize_append_space`: the plain body of two texts in a row.
-/

namespace CardText

namespace Text

variable {s t : Text}

/-! ### Plain forms -/

theorem exists_of_mem_capitalizeFrom {b : Bool} {c : Char} (h : c ∈ capitalizeFrom b t) :
    ∃ d ∈ t, c = d ∨ c = d.toUpper := by
  induction t generalizing b with
  | nil => cases h
  | cons x t ih =>
    obtain ⟨y, b', hy, hxy⟩ : ∃ y b', capitalizeFrom b (x :: t) = y :: capitalizeFrom b' t ∧
        (y = x ∨ y = x.toUpper) := by
      rw [capitalizeFrom]
      split_ifs
      · exact ⟨_, _, rfl, .inl rfl⟩
      · exact ⟨_, _, rfl, .inl rfl⟩
      · exact ⟨_, _, rfl, .inr rfl⟩
      · exact ⟨_, _, rfl, .inl rfl⟩
    rw [hy] at h
    rcases List.mem_cons.1 h with rfl | h
    · exact ⟨x, by simp, hxy⟩
    · obtain ⟨d, hd, hc⟩ := ih h
      exact ⟨d, List.mem_cons_of_mem _ hd, hc⟩

/-- A plain form has no glyph. -/
theorem not_mem_glyphs_of_mem_plainForm {c d : Char} (h : d ∈ plainForm c) : d ∉ glyphs := by
  by_cases hc : c ∈ glyphs
  · have hall : (glyphs.all fun g => (plainForm g).all fun d => decide (d ∉ glyphs)) = true := by
      decide
    exact of_decide_eq_true (List.all_eq_true.1 (List.all_eq_true.1 hall c hc) d h)
  · rw [plainForm_eq_self hc, List.mem_singleton] at h
    rwa [h]

theorem not_mem_glyphs_of_mem_normalize {c : Char} (h : c ∈ t.normalize) : c ∉ glyphs := by
  intro hg
  have hall : (glyphs.all fun g => !isBlank g && !g.isUpper) = true := by decide
  have hc := List.all_eq_true.1 hall c hg
  rw [Bool.and_eq_true, Bool.not_eq_true', Bool.not_eq_true'] at hc
  have hink : c ∈ t.normalize.ink := List.mem_filter.2 ⟨h, by simp [hc.1]⟩
  rw [ink_normalize] at hink
  obtain ⟨d, hd, hcd⟩ := exists_of_mem_capitalizeFrom hink
  have hd' : c = d := hcd.elim id fun he => (eq_of_toUpper_eq he.symm hc.2).symm
  obtain ⟨x, -, hx⟩ := List.mem_flatMap.1 (List.mem_filter.1 hd).1
  exact not_mem_glyphs_of_mem_plainForm hx (hd' ▸ hg)

theorem flatMap_plainForm_eq_self (h : ∀ c ∈ t, c ∉ glyphs) : t.flatMap plainForm = t := by
  induction t with
  | nil => rfl
  | cons c t ih =>
    rw [List.flatMap_cons, plainForm_eq_self (h c (by simp)),
      ih fun x hx => h x (List.mem_cons_of_mem _ hx)]
    rfl

/-- A text without braces has no symbols. -/
theorem capitalizeSymbols_eq_self (h : '\x7b' ∉ t) : t.capitalizeSymbols = t := by
  induction t with
  | nil => rfl
  | cons c t ih =>
    have ht := ih fun hm => h (List.mem_cons_of_mem _ hm)
    rw [capitalizeSymbols] at ht ⊢
    have hc : c ≠ '\x7b' := fun he => h (he ▸ List.mem_cons_self)
    rw [capitalizeFrom, if_neg hc, ht]
    simp

/-- **A text that is its own plain form** has no glyphs, is in single spaces and has its symbols in
capitals. -/
theorem normalize_eq_self_iff : t.normalize = t ↔ (∀ c ∈ t, c ∉ glyphs) ∧ t.Spaced ∧
    (∀ c ∈ t.head?, isBlank c = false) ∧ t.capitalizeSymbols = t := by
  constructor
  · intro h
    have hg : ∀ c ∈ t, c ∉ glyphs := fun c hc =>
      not_mem_glyphs_of_mem_normalize (t := t) (by rwa [h])
    have hs : t.Spaced := h ▸ spaced_normalize t
    have hh : ∀ c ∈ t.head?, isBlank c = false := fun c hc =>
      head_normalize (t := t) (by rwa [h])
    refine ⟨hg, hs, hh, ?_⟩
    rwa [normalize, flatMap_plainForm_eq_self hg, hs.squeeze_eq hh] at h
  · rintro ⟨hg, hs, hh, hc⟩
    rw [normalize, flatMap_plainForm_eq_self hg, hs.squeeze_eq hh, hc]

/-! ### Bodies -/

/-- What is outside parentheses stands in the text, or in what is open in front of it. -/
theorem parted_sublist (d : Nat) (inner t : Text) :
    (parted d inner t).body.Sublist (inner.reverse ++ t) := by
  induction d, inner, t using parted_induction with
  | done inner => exact List.nil_sublist _
  | unclosed d inner => exact List.sublist_append_left _ _
  | opening inner r ih =>
    have hr : (parted 1 [] r).body.Sublist ('(' :: r) := ih.trans (List.sublist_cons_self _ r)
    exact hr.trans (List.sublist_append_right _ _)
  | outside inner c r hc ih =>
    rw [parted_zero_cons hc]
    exact (ih.cons_cons c).trans (List.sublist_append_right _ _)
  | closing inner r ih =>
    rw [parted, Reminded.body_pushReminder]
    have hr : (parted 0 [] r).body.Sublist (')' :: r) := ih.trans (List.sublist_cons_self _ r)
    exact hr.trans (List.sublist_append_right _ _)
  | closingInner d inner r ih => simpa [parted] using ih
  | openingInner d inner r ih =>
    rw [parted_succ_open]
    simpa using ih
  | inside d inner c r ho hc ih =>
    rw [parted_succ_cons ho hc]
    simpa using ih

/-- An opening parenthesis is lost, closed or not. -/
theorem length_parted_lt (h : '(' ∈ t) : (parted 0 [] t).body.length < t.length := by
  obtain ⟨s, r, rfl, hs⟩ := List.eq_append_cons_of_mem h
  have hr := (parted_sublist 1 [] r).length_le
  rw [parted_append (.of_not_mem hs), parted_eq_self hs]
  simp only [Reminded.append, parted, List.length_append, List.length_cons, List.length_nil,
    List.reverse_nil] at hr ⊢
  omega

theorem not_mem_of_body_eq_self (h : t.body = t) : '(' ∉ t := by
  intro hm
  have hink : (parted 0 [] t.ink).body = t.ink := by rw [← ink_parted, ← ink_body, h]
  have hlt := length_parted_lt (t := t.ink) (List.mem_filter.2 ⟨hm, rfl⟩)
  rw [hink] at hlt
  exact lt_irrefl _ hlt

/-- **A text that is its own body** has no opening parenthesis, is in single spaces and has none of
them in front of a period or a comma. -/
theorem body_eq_self_iff : t.body = t ↔ '(' ∉ t ∧ t.Spaced ∧
    (∀ c ∈ t.head?, isBlank c = false) ∧ t.NoGapBefore '.' ∧ t.NoGapBefore ',' := by
  constructor
  · intro h
    refine ⟨not_mem_of_body_eq_self h, h ▸ spaced_body t, fun c hc => ?_,
      h ▸ noGapBefore_period_body t, h ▸ noGapBefore_comma_body t⟩
    exact head_body (t := t) (by rwa [h])
  · rintro ⟨hp, hs, hh, hd, hc⟩
    rw [body, stripReminders_eq_self hp hs hh hd hc]

/-! ### Settled texts -/

/-- A text that is its own plain form and its own body. -/
structure IsSettled (t : Text) : Prop where
  normalize : t.normalize = t
  body : t.body = t

namespace IsSettled

theorem spaced (h : IsSettled t) : t.Spaced := (body_eq_self_iff.1 h.body).2.1

theorem head (h : IsSettled t) : ∀ c ∈ t.head?, isBlank c = false :=
  (body_eq_self_iff.1 h.body).2.2.1

theorem trim_eq (h : IsSettled t) : t.trim = t := trim_eq_self h.head fun _ => h.spaced.getLast

theorem not_mem (h : IsSettled t) : '(' ∉ t := not_mem_of_body_eq_self h.body

end IsSettled

/-! ### Bodies of plain texts -/

/-- What is printed in a body stands in the text. -/
theorem mem_of_mem_body {c : Char} (hc : isBlank c = false) (h : c ∈ t.body) : c ∈ t := by
  have hi : c ∈ t.body.ink := List.mem_filter.2 ⟨h, by simp [hc]⟩
  rw [ink_body] at hi
  exact (parted_sublist 0 [] t).subset (List.mem_filter.1 hi).1

/-- **A front of a plain body** is settled if it has no blank at its ends, no parenthesis and no
symbol. -/
theorem isSettled_of_isPrefix (hs : s.trim = s) (hp : '(' ∉ s) (hb : '\x7b' ∉ s)
    (h : s <+: t.normalize.body) : IsSettled s := by
  have hhead : ∀ c ∈ s.head?, isBlank c = false := fun c hc => head_trim (t := s) (by rwa [hs])
  have hspaced : s.Spaced := (spaced_body _).of_isPrefix h fun c hc =>
    getLast_trim (t := s) (by rwa [hs])
  have hglyph : ∀ c ∈ s, c ∉ glyphs := by
    intro c hc hg
    have hall : (glyphs.all fun g => !isBlank g) = true := by decide
    have hbl : isBlank c = false := by simpa using List.all_eq_true.1 hall c hg
    exact not_mem_glyphs_of_mem_normalize (mem_of_mem_body hbl (h.subset hc)) hg
  constructor
  · exact normalize_eq_self_iff.2 ⟨hglyph, hspaced, hhead, capitalizeSymbols_eq_self hb⟩
  · have hperiod := NoGapBefore.infix (noGapBefore_period_body t.normalize) h.isInfix
    have hcomma := NoGapBefore.infix (noGapBefore_comma_body t.normalize) h.isInfix
    exact body_eq_self_iff.2 ⟨hp, hspaced, hhead, hperiod, hcomma⟩

/-- The plain body of two texts in a row, where no parenthesis and no symbol is left open in the
first and both have a body. -/
theorem body_normalize_append_space (hp : IsClosed '(' ')' s) (hb : IsClosed '\x7b' '\x7d' s)
    (hs : s.normalize.body ≠ []) (ht : t.normalize.body ≠ []) :
    (s ++ ' ' :: t).normalize.body =
      s.normalize.body ++ gapBefore t.normalize.body ++ t.normalize.body := by
  have hne : ∀ {u : Text}, u.normalize.body ≠ [] → u.normalize ≠ [] := fun hu hn =>
    hu (by rw [hn]; rfl)
  have hi := insideAfter_flatMap_plainForm hb (b := false) (by simp)
  rcases normalize_append_cons hi (c := ' ') rfl t with ⟨h, -⟩ | ⟨h, -⟩ | h
  · exact absurd h (hne hs)
  · exact absurd h (hne ht)
  · have hclosed : IsClosed '(' ')' s.normalize := (depth_normalize 0 s).trans hp
    rw [h, body_append_space hclosed hs, if_neg ht]

end Text

end CardText
