import CardText.Proofs.Cost.Printed

/-!
# The wordings of costs

What a token must look like to be read as a cost.

* `Cost.core`: a token as it is read, with the fronts and the characters that are kept;
* `Cost.isKnown_iff`: the wordings of known costs;
* `Cost.lowerPlain_of_isMatch_banishSelf`, `Cost.isMatch_verb_iff`: the tokens of two of them.
-/

namespace CardText

open Template

namespace Cost

variable {source : ObjectKind}

/-! ### Tokens -/

/-- A token as it is read: without the blanks around it and the periods behind it. -/
def core (t : Text) : Text := Text.dropTrailing (· == '.') t.trim

theorem ofToken_trim (source : ObjectKind) (t : Text) :
    ofToken source t.trim = ofToken source t := by
  rw [ofToken, ofToken, Text.trim_trim]

/-- A front that ends in a character outside the class is kept. -/
theorem isPrefix_dropTrailing {p : Char → Bool} {s t : Text} {c : Char} (hc : p c = false)
    (h : s ++ [c] <+: t) : s ++ [c] <+: Text.dropTrailing p t := by
  obtain ⟨r, rfl⟩ := h
  rw [Text.dropTrailing, ← List.reverse_suffix, List.reverse_reverse,
    @List.reverse_append _ (s ++ [c]), List.dropWhile_append]
  split
  · simp [hc]
  · exact List.suffix_append _ _

/-- What is neither a blank nor a period is read. -/
theorem mem_core {t : Text} {c : Char} (h : c ∈ t) (hb : Text.isBlank c = false) (hd : c ≠ '.') :
    c ∈ core t := by
  obtain ⟨s, r, hs⟩ := List.append_of_mem (Text.mem_trim_of_mem h hb)
  have hp : s ++ [c] <+: t.trim := ⟨r, by simp [hs]⟩
  exact (isPrefix_dropTrailing (by simpa using hd) hp).subset (by simp)

section Core

variable {t u : Text} {c : Char} (hb : ∀ c ∈ t.head?, Text.isBlank c = false)

include hb

theorem core_isPrefix : core t <+: t := by
  rw [core, Text.trim, Text.dropAround, Text.dropLeading_eq_self hb]
  exact (Text.dropTrailing_isPrefix _ _).trans (Text.dropTrailing_isPrefix _ _)

/-- A front that ends in no blank and no period is kept. -/
theorem isPrefix_core (hc : Text.isBlank c = false) (hd : c ≠ '.') (h : u ++ [c] <+: t) :
    u ++ [c] <+: core t := by
  rw [core, Text.trim, Text.dropAround, Text.dropLeading_eq_self hb]
  exact isPrefix_dropTrailing (by simpa using hd) (isPrefix_dropTrailing hc h)

end Core

/-! ### Known costs -/

/-- The wordings of known costs. -/
theorem isKnown_iff (source : ObjectKind) (t : Text) : (ofToken source t).isKnown = true ↔
    Text.samePlain (core t) Text.exertSymbol = true ∨ (ink? (core t)).isSome = true ∨
      banishSelfToken.isMatch (core t) = true ∨ discardToken.isMatch (core t) = true ∨
      exertToken.isMatch (core t) = true ∨ banishToken.isMatch (core t) = true := by
  simp only [ofToken, core, Template.isMatch]
  generalize Text.dropTrailing (· == '.') t.trim = u
  cases Text.samePlain u Text.exertSymbol with
  | true => simp [isKnown]
  | false =>
    cases ink? u with
    | some n => simp [isKnown]
    | none =>
      by_cases hb : (banishSelfToken.match? u).isSome = true
      · simp [hb, isKnown]
      · cases discardToken.match? u with
        | some m => simp [hb, isKnown]
        | none =>
          cases exertToken.match? u with
          | some m => simp [hb, isKnown]
          | none => cases banishToken.match? u <;> simp [hb, isKnown]

theorem isMatch_eq_false {w : Template Slot} {t : Text} (h : w.match? t = none) :
    w.isMatch t = false := by
  rw [isMatch, h]
  rfl

/-- A known cost that begins with a plain letter other than P is a discard or begins with a verb. -/
theorem isKnown_iff_of_cons {t q : Text} {c : Char} (ht : core t = c :: q)
    (hl : c.toLower.isLower = true) (hp : c.toLower ≠ 'p') : (ofToken source t).isKnown = true ↔
      banishSelfToken.isMatch (c :: q) = true ∨ discardToken.isMatch (c :: q) = true ∨
        exertToken.isMatch (c :: q) = true ∨ banishToken.isMatch (c :: q) = true := by
  have hd : c.isDigit = false := by
    have := Text.toNat_of_toLower hl
    exact Bool.and_eq_false_iff.2 (.inr (decide_eq_false (by change ¬ c.toNat ≤ 57; omega)))
  have hs : Text.samePlain (c :: q) Text.exertSymbol = false := by
    have hc : c.toLower ≠ '\x7b' := fun h => by rw [h] at hl; cases hl
    simp [Text.samePlain, Text.exertSymbol, Text.lowerPlain, hc]
  rw [isKnown_iff, ht, hs, ink?_cons_eq_none hp hd]
  simp

/-- The text of a match of `banishSelfToken`. -/
theorem lowerPlain_of_isMatch_banishSelf {t : Text} (h : banishSelfToken.isMatch t = true) :
    ∃ w ∈ ["character", "item", "location", "card"],
      t.lowerPlain = "banish this ".toList ++ Text.lowerPlain w.toList := by
  obtain ⟨d, hd⟩ := isMatch_iff.1 h
  obtain ⟨e, he, hd⟩ := mem_ends_phrase_cons.1 hd
  obtain ⟨f, hf, hd⟩ := mem_ends_phrase_cons.1 hd
  obtain ⟨v, hv, hr, -⟩ := exists_of_mem_ends_lit he
  obtain ⟨w, hw, u, hu, hr'⟩ := exists_of_mem_ends_oneOf (by simp) hf
  have hnil : f.rest = [] := by
    have hstill := rest_eq_of_isStill (t := phrase [stop]) rfl hd
    exact hstill.symm.trans (rest_eq_nil_of_stops (t := phrase [stop]) rfl hd)
  refine ⟨w, hw, ?_⟩
  change t = v ++ e.rest at hr
  rw [hr, hr', hnil, List.append_nil, Text.lowerPlain_append, hv, hu]
  rfl

/-- The wording of costs that are a verb and what it is about. -/
def verbToken (w : Text) : Template Slot :=
  phrase [lit w, slot .target toLineEnd, stop]

theorem isMatch_verb_iff {w t : Text} : (verbToken w).isMatch t = true ↔
    ∃ v x, t = v ++ x ∧ v.lowerPlain = w.lowerPlain ∧ x ≠ [] ∧ ∀ c ∈ x, isInline c = true := by
  rw [isMatch_iff]
  constructor
  · rintro ⟨d, hd⟩
    obtain ⟨e, he, hd⟩ := mem_ends_phrase_cons.1 hd
    obtain ⟨f, hf, hd⟩ := mem_ends_phrase_cons.1 hd
    obtain ⟨v, hv, hr, -⟩ := exists_of_mem_ends_lit he
    obtain ⟨g, hg, rfl⟩ := List.mem_map.1 hf
    obtain ⟨x, hx, hin, hgr, -⟩ := mem_runs_iff.1 (List.mem_reverse.1 hg)
    have hnil : g.rest = [] := by
      have hstill := rest_eq_of_isStill (t := phrase [stop]) rfl hd
      exact hstill.symm.trans (rest_eq_nil_of_stops (t := phrase [stop]) rfl hd)
    rw [hnil, List.append_nil] at hgr
    exact ⟨v, x, by rw [← hgr]; exact hr, hv, hx, hin⟩
  · rintro ⟨v, x, rfl, hv, hx, hin⟩
    have hl : Leads (verbToken w) ⟨none, v ++ x, []⟩ _ :=
      .cons (.lit hv) (.cons (.slot Slot.target (.longest_all hin hx)) (.cons .stop .nil))
    exact ⟨_, List.mem_of_mem_head? hl⟩

end Cost

end CardText
