import CardText.Proofs.Text.Settled

/-!
# Print variants

The same text is printed with glyphs or with symbols in braces, with curly or with straight quotes,
with several dashes and with any blanks. Nothing of this is left in its plain form.

* `Text.IsVariant`: two ways to print a part of a text;
* `Text.squeeze_capitalizeFrom`: single spaces and capital symbols come about in either order, so
  that what stands in front of a symbol and behind it has no part in its letters;
* `Text.normalize_normalize`, `Text.normalize_symbol`, `Text.normalize_blanks`: a plain form is its
  own plain form, and neither the letters of symbols nor the blanks between words have a part in it;
* `Text.normalize_variant`: all of this, for every place in a text.
-/

namespace CardText

namespace Text

/-! ### Variants -/

/-- What is printed in two ways: a card glyph or its symbol in braces, a curly quote or the straight
one, one or the other dash, the minus sign or the hyphen. -/
def printings : List (Text × Text) :=
  [(['⟳'], "\x7bE\x7d".toList), (['⬡'], "\x7bI\x7d".toList), (['¤'], "\x7bS\x7d".toList),
   (['⛉'], "\x7bW\x7d".toList), (['◊'], "\x7bL\x7d".toList), (['’'], ['\'']), (['‘'], ['\'']),
   (['“'], ['"']), (['”'], ['"']), (['–'], ['—']), (['−'], ['-'])]

/-- Two ways to print a part of a text. -/
inductive IsVariant : Text → Text → Prop
  /-- A glyph or a mark in its two forms. -/
  | printing {v w : Text} (h : (v, w) ∈ printings) : IsVariant v w
  /-- A symbol with its letter, one of `a` to `z`, in lower and in upper case. -/
  | symbol {c : Char} (h : c.isLower = true) :
      IsVariant ['\x7b', c, '\x7d'] ['\x7b', c.toUpper, '\x7d']
  /-- Two runs of blanks. -/
  | blanks {v w : Text} (hv : v ≠ []) (hw : w ≠ []) (hvb : ∀ c ∈ v, isBlank c = true)
      (hwb : ∀ c ∈ w, isBlank c = true) : IsVariant v w

/-! ### Spaces and capitals -/

/-- The space that a text in single spaces has at its start if characters stand in front of it. -/
def startGap (t : Text) : Text :=
  if t.head?.any isBlank = true ∧ t.isVoid = false then [' '] else []

/-- A blank in front of a text is squeezed away. -/
theorem squeeze_cons_of_blank {c : Char} (hc : isBlank c = true) (t : Text) :
    squeeze (c :: t) = t.squeeze := by
  rw [squeeze, squeeze, ← List.singleton_append,
    words_append_of_blank (List.forall_mem_singleton.2 hc)]

/-- What stands in front of a text is kept when the text is squeezed, with at most one space behind
it. -/
theorem squeeze_cons_startGap {c : Char} (hc : isBlank c = false) (t : Text) :
    squeeze (c :: t) = c :: (t.startGap ++ t.squeeze) := by
  cases t with
  | nil => rw [squeeze, words_singleton hc]; rfl
  | cons d r =>
    by_cases hd : isBlank d = true
    · have hv : isVoid (d :: r) = isVoid r := by
        rw [← List.singleton_append, isVoid_append, isVoid_iff.2 (List.forall_mem_singleton.2 hd),
          Bool.true_and]
      rw [squeeze_cons_of_blank hd, squeeze, words_cons_of_blank hc hd, startGap, hv]
      by_cases hr : isVoid r = true
      · rw [words_eq_nil_iff.2 hr, squeeze, words_eq_nil_iff.2 hr, if_neg (by simp [hr])]
        rfl
      · have hne : words r ≠ [] := fun h => hr (words_eq_nil_iff.1 h)
        rw [unwords_cons hne, if_pos ⟨by simpa using hd, by simpa using hr⟩]
        rfl
    · have hd : isBlank d = false := by simpa using hd
      rw [squeeze_cons hc hd, startGap, if_neg (by simp [hd])]
      rfl

theorem insideAfter_of_blank {t : Text} (h : ∀ c ∈ t, isBlank c = true) (b : Bool) :
    insideAfter b t = b := by
  rw [← insideAfter_ink, isVoid_iff_ink.1 (isVoid_iff.2 h)]
  rfl

/-- Capital symbols have the blanks of their text, also at its start. -/
theorem startGap_capitalizeFrom (b : Bool) (t : Text) :
    startGap (capitalizeFrom b t) = t.startGap := by
  have hv : isVoid (capitalizeFrom b t) = t.isVoid := by
    rw [Bool.eq_iff_iff, isVoid_iff_ink, isVoid_iff_ink, ink_capitalizeFrom]
    cases t.ink with
    | nil => rfl
    | cons c r =>
      obtain ⟨c', b', hc, -⟩ := capitalizeFrom_cons b c r
      simp [hc]
  cases t with
  | nil => rfl
  | cons c r =>
    obtain ⟨c', b', hc, hb, -⟩ := capitalizeFrom_cons b c r
    rw [startGap, startGap, hv, hc, List.head?_cons, List.head?_cons, Option.any_some,
      Option.any_some, hb]

theorem capitalizeFrom_startGap (b : Bool) (t u : Text) :
    capitalizeFrom b (t.startGap ++ u) = t.startGap ++ capitalizeFrom b u := by
  rw [startGap]
  split_ifs
  · cases b <;> rfl
  · rfl

/-- **Single spaces and capital symbols** come about in either order. -/
theorem squeeze_capitalizeFrom (b : Bool) (t : Text) :
    squeeze (capitalizeFrom b t) = capitalizeFrom b t.squeeze := by
  induction t generalizing b with
  | nil => rfl
  | cons c t ih =>
    have happ := fun u => capitalizeFrom_append b [c] u
    obtain ⟨c', b', hc', hb, -⟩ := capitalizeFrom_cons b c []
    have hstep : ∀ u, capitalizeFrom b (c :: u) = c' :: capitalizeFrom (insideAfter b [c]) u := by
      intro u
      rw [← List.singleton_append, happ, hc']
      rfl
    rw [hstep]
    by_cases hc : isBlank c = true
    · rw [squeeze_cons_of_blank (hb.trans hc), squeeze_cons_of_blank hc, ih,
        insideAfter_of_blank (List.forall_mem_singleton.2 hc)]
    · have hc : isBlank c = false := by simpa using hc
      rw [squeeze_cons_startGap (hb.trans hc), squeeze_cons_startGap hc, hstep,
        capitalizeFrom_startGap, startGap_capitalizeFrom, ih]

/-- The plain form of a text is put into capitals before its blanks are squeezed, or after. -/
theorem normalize_eq_squeeze (t : Text) :
    t.normalize = squeeze (capitalizeSymbols (t.flatMap plainForm)) :=
  (squeeze_capitalizeFrom false _).symm

/-! ### Plain forms of plain forms -/

theorem capitalizeFrom_capitalizeFrom (b : Bool) (t : Text) :
    capitalizeFrom b (capitalizeFrom b t) = capitalizeFrom b t := by
  induction t generalizing b with
  | nil => rfl
  | cons c t ih =>
    rw [capitalizeFrom]
    split_ifs with ho hc hb
    · rw [capitalizeFrom, if_pos ho, ih]
    · rw [capitalizeFrom, if_neg ho, if_pos hc, ih]
    · -- the upper case of a character that is no brace is none either
      have ho' : c.toUpper ≠ '\x7b' := fun h => ho (eq_of_toUpper_eq h rfl)
      have hc' : c.toUpper ≠ '\x7d' := fun h => hc (eq_of_toUpper_eq h rfl)
      rw [capitalizeFrom, if_neg ho', if_neg hc', if_pos hb, toUpper_toUpper, ih]
    · rw [capitalizeFrom, if_neg ho, if_neg hc, if_neg hb, ih]

/-- A plain form is its own plain form. -/
theorem normalize_normalize (t : Text) : t.normalize.normalize = t.normalize :=
  normalize_eq_self_iff.2 ⟨fun _ => not_mem_glyphs_of_mem_normalize, spaced_normalize t,
    fun _ => head_normalize, capitalizeFrom_capitalizeFrom false _⟩

/-! ### Plain forms of variants -/

section Variants

variable {v w : Text} {c : Char}

/-- Parts of a text with the same plain forms of their characters. -/
theorem normalize_congr (h : v.flatMap plainForm = w.flatMap plainForm) (a b : Text) :
    (a ++ v ++ b).normalize = (a ++ w ++ b).normalize := by
  rw [normalize, normalize, List.flatMap_append, List.flatMap_append, h, ← List.flatMap_append,
    ← List.flatMap_append]

theorem flatMap_plainForm_of_mem_printings (h : (v, w) ∈ printings) :
    v.flatMap plainForm = w.flatMap plainForm := by
  have hall : ∀ p ∈ printings, p.1.flatMap plainForm = p.2.flatMap plainForm := by decide
  exact hall _ h

/-- No letter of a symbol is a glyph, in lower or in upper case. -/
theorem not_mem_glyphs_of_toUpper (h : c.isLower = true) : c ∉ glyphs ∧ c.toUpper ∉ glyphs := by
  have hg : c ∉ glyphs := fun hm => by
    have hall : (glyphs.all fun g => !g.isLower) = true := by decide
    have := List.all_eq_true.1 hall c hm
    rw [h] at this
    cases this
  refine ⟨hg, fun hm => hg ?_⟩
  have hall : (glyphs.all fun g => !g.isUpper) = true := by decide
  have hu : c.toUpper.isUpper = false := by simpa using List.all_eq_true.1 hall _ hm
  have he : c = c.toUpper := eq_of_toUpper_eq rfl hu
  rwa [he]

/-- A letter in braces is put into capitals, whatever is open in front of it. -/
theorem capitalizeFrom_symbol (b : Bool) (ho : c ≠ '\x7b') (hc : c ≠ '\x7d') :
    capitalizeFrom b ['\x7b', c, '\x7d'] = ['\x7b', c.toUpper, '\x7d'] := by
  simp [capitalizeFrom, ho, hc]

theorem insideAfter_symbol (b : Bool) (ho : c ≠ '\x7b') (hc : c ≠ '\x7d') :
    insideAfter b ['\x7b', c, '\x7d'] = false := by
  simp [insideAfter, ho, hc]

/-- The case of a symbol's letter has no part in the plain form of a text. -/
theorem normalize_symbol (h : c.isLower = true) (a b : Text) :
    (a ++ ['\x7b', c, '\x7d'] ++ b).normalize =
      (a ++ ['\x7b', c.toUpper, '\x7d'] ++ b).normalize := by
  have hne : ∀ m : Char, m.isLower = false → m.isUpper = false → c ≠ m ∧ c.toUpper ≠ m := by
    intro m hl hu
    have hm : c ≠ m := fun he => by rw [he, hl] at h; cases h
    exact ⟨hm, fun he => hm (eq_of_toUpper_eq he hu)⟩
  obtain ⟨ho, ho'⟩ := hne '\x7b' rfl rfl
  obtain ⟨hc, hc'⟩ := hne '\x7d' rfl rfl
  obtain ⟨hg, hg'⟩ := not_mem_glyphs_of_toUpper h
  have hplain : ∀ d : Char, d ∉ glyphs →
      ['\x7b', d, '\x7d'].flatMap plainForm = ['\x7b', d, '\x7d'] := fun d hd =>
    flatMap_plainForm_eq_self fun x hx => by
      simp only [List.mem_cons, List.not_mem_nil, or_false] at hx
      rcases hx with rfl | rfl | rfl
      · decide
      · exact hd
      · decide
  rw [normalize_eq_squeeze, normalize_eq_squeeze]
  simp only [List.flatMap_append, hplain _ hg, hplain _ hg', capitalizeSymbols,
    capitalizeFrom_append, insideAfter_append, capitalizeFrom_symbol _ ho hc,
    capitalizeFrom_symbol _ ho' hc', insideAfter_symbol _ ho hc, insideAfter_symbol _ ho' hc',
    toUpper_toUpper]

/-- Which blanks stand between two words has no part in the plain form of a text. -/
theorem normalize_blanks (hv : v ≠ []) (hw : w ≠ []) (hvb : ∀ c ∈ v, isBlank c = true)
    (hwb : ∀ c ∈ w, isBlank c = true) (a b : Text) :
    (a ++ v ++ b).normalize = (a ++ w ++ b).normalize := by
  simp only [normalize, squeeze, List.flatMap_append, flatMap_plainForm_of_isBlank hvb,
    flatMap_plainForm_of_isBlank hwb, words_append_blanks hv hvb, words_append_blanks hw hwb]

end Variants

/-- **The plain form has no print variants.**  It is its own plain form, and a part of a text can be
printed in another way at any place, open braces included, without a change to the plain form. -/
theorem normalize_variant : (∀ t : Text, t.normalize.normalize = t.normalize) ∧
    ∀ {v w : Text}, IsVariant v w → ∀ a b : Text,
      (a ++ v ++ b).normalize = (a ++ w ++ b).normalize := by
  refine ⟨normalize_normalize, fun h a b => ?_⟩
  cases h with
  | printing h => exact normalize_congr (flatMap_plainForm_of_mem_printings h) a b
  | symbol h => exact normalize_symbol h a b
  | blanks hv hw hvb hwb => exact normalize_blanks hv hw hvb hwb a b

/-- A glyph in a brace that is left open. -/
theorem normalize_variant_openBrace : IsVariant ['⟳'] "\x7bE\x7d".toList ∧
    normalize ("a\x7bb ".toList ++ ['⟳'] ++ "\tc\x7d".toList) =
      normalize ("a\x7bb ".toList ++ "\x7bE\x7d".toList ++ "\tc\x7d".toList) := by
  have h : IsVariant ['⟳'] "\x7bE\x7d".toList := .printing (by decide)
  exact ⟨h, normalize_variant.2 h "a\x7bb ".toList "\tc\x7d".toList⟩

end Text

end CardText
