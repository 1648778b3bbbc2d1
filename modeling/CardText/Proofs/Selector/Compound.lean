import CardText.Proofs.Text.Listing
import CardText.Proofs.Text.Word
import CardText.Selector.Compound

/-!
# Parts of compound phrases

A compound phrase is cut at its joints from the front, and each time a shorter phrase is left. A cut
looks at all of that phrase, while the part that is found in the end may be only its first piece.
What the cut has seen is still true of the piece, since a noun stands in it.

* `Selector.IsJoined`: a text that is parts in a row, with the word "and" between two of them;
* `Selector.IsBreak`: what is known of the two sides of a cut;
* `Selector.Breaks`: a phrase is cut again and again until it is left whole;
* `Selector.parts_spec`: what the parts of a phrase are.
-/

namespace CardText

namespace Selector

open Text

/-! ### Joined parts -/

/-- The word "and" in any letter case, with blanks on both sides. -/
def IsSeam (s : Text) : Prop :=
  ∃ a w b, s = a ++ w ++ b ∧ w.lowerPlain = "and".toList ∧
    (a ≠ [] ∧ ∀ c ∈ a, isBlank c = true) ∧ b ≠ [] ∧ ∀ c ∈ b, isBlank c = true

/-- The text is the parts in a row, with a seam between two of them. -/
inductive IsJoined : Text → List Text → Prop
  | whole (t : Text) : IsJoined t [t]
  | seam {p s t : Text} {ps : List Text} :
    IsSeam s → IsJoined t ps → IsJoined (p ++ s ++ t) (p :: ps)

namespace IsSeam

variable {s : Text}

theorem length_le (h : IsSeam s) : 5 ≤ s.length := by
  obtain ⟨a, w, b, rfl, hw, ⟨ha, -⟩, hb, -⟩ := h
  have hw : w.length = 3 := by simpa [lowerPlain] using congrArg List.length hw
  have := List.length_pos_iff.2 ha
  have := List.length_pos_iff.2 hb
  simp only [List.length_append]
  omega

/-- A seam begins with no letter or digit. -/
theorem head (h : IsSeam s) (t : Text) : (s ++ t).head?.any Template.isWordChar = false := by
  obtain ⟨a, w, b, rfl, -, ⟨hne, ha⟩, -⟩ := h
  obtain ⟨c, a, rfl⟩ := List.exists_cons_of_ne_nil hne
  exact isWordChar_of_isBlank (ha c List.mem_cons_self)

/-- The words on the two sides of a seam, with an "and" between them. -/
theorem words_append (h : IsSeam s) (p t : Text) :
    (p ++ s ++ t).words.map lowerPlain =
      p.words.map lowerPlain ++ "and".toList :: t.words.map lowerPlain := by
  obtain ⟨a, w, b, rfl, hw, ⟨hna, ha⟩, hnb, hb⟩ := h
  have hne : w ≠ [] := by
    rintro rfl
    cases hw
  have hword : w.words = [w] := words_eq_singleton hne fun c hc => by
    have hlower : c.toLower ∈ "and".toList := hw ▸ List.mem_map_of_mem hc
    have hall : "and".toList.all (fun x => !isBlank x) = true := rfl
    simpa using (isBlank_toLower c).symm.trans (by simpa using List.all_eq_true.1 hall _ hlower)
  have : p ++ (a ++ w ++ b) ++ t = p ++ a ++ (w ++ b ++ t) := by simp only [List.append_assoc]
  rw [this, words_append_blanks hna ha, words_append_blanks hnb hb, hword, List.map_append,
    List.map_append, List.map_singleton, hw]
  rfl

end IsSeam

theorem isSeam_joint : IsSeam joint := by
  have hb : ([' '] : Text) ≠ [] ∧ ∀ c ∈ [' '], isBlank c = true :=
    ⟨by simp, List.forall_mem_singleton.2 rfl⟩
  exact ⟨[' '], "and".toList, [' '], rfl, rfl, hb, hb⟩

namespace IsJoined

variable {t : Text} {ps : List Text}

theorem ne_nil (h : IsJoined t ps) : ps ≠ [] := by cases h <;> simp

/-- Joined by plain seams the parts have the words of the text. -/
theorem words_intercalate (h : IsJoined t ps) :
    (words (List.intercalate joint ps)).map lowerPlain = t.words.map lowerPlain := by
  induction h with
  | whole t => simp [List.intercalate]
  | seam hs h ih =>
    obtain ⟨q, qs, rfl⟩ := List.exists_cons_of_ne_nil h.ne_nil
    rw [List.intercalate_cons_cons, isSeam_joint.words_append, hs.words_append, ih]

/-- Every seam takes five characters or more. -/
theorem length_le (h : IsJoined t ps) : 5 * ps.length ≤ t.length + 5 := by
  induction h with
  | whole t => simp
  | seam hs h ih =>
    have := hs.length_le
    simp only [List.length_append, List.length_cons]
    omega

end IsJoined

/-! ### One cut -/

/-- A joint is the word "and" with a space on both sides. -/
theorem exists_of_afterJoint? {t r : Text} (h : afterJoint? t = some r) :
    ∃ w : Text, w.lowerPlain = "and".toList ∧ t = ' ' :: w ++ ' ' :: r := by
  rw [afterJoint?] at h
  split_ifs at h with hj
  cases h
  have hjoint : joint = ' ' :: ("and".toList ++ [' ']) := rfl
  obtain ⟨x, u, hu, hx, huv⟩ := List.map_eq_cons_iff.1 (hj.trans hjoint)
  obtain ⟨w, v, rfl, hw, hv⟩ := List.map_eq_append_iff.1 huv
  obtain ⟨y, rfl, hy⟩ := List.map_eq_singleton_iff.1 hv
  obtain rfl := eq_of_toLower_eq hx rfl
  obtain rfl := eq_of_toLower_eq hy rfl
  refine ⟨w, hw, ?_⟩
  conv => lhs; rw [← List.take_append_drop joint.length t, hu]
  simp

/-- What is known of the two sides of a cut. -/
structure IsBreak (t left right : Text) : Prop where
  seam : ∃ s, IsSeam s ∧ t.trim = left ++ s ++ right
  trim_left : left.trim = left
  trim_right : right.trim = right
  mentions : mentionsObject left = true
  opens : opensSelector right = true
  spoken : isElliptical right = false

theorem isBreak_of_breakCompound? {t left right : Text}
    (h : breakCompound? t = some (left, right)) : IsBreak t left right := by
  rw [breakCompound?] at h
  split at h
  · cases h
  · next l r hb =>
    simp only at h
    split_ifs at h with hc
    obtain ⟨rfl, rfl⟩ := Prod.mk.inj (Option.some.inj h)
    simp only [Bool.or_eq_true, not_or, Bool.not_eq_true, Bool.not_eq_true', Bool.not_eq_false,
      List.isEmpty_iff] at hc
    obtain ⟨⟨⟨⟨hl, hr⟩, ho⟩, he⟩, hm⟩ := hc
    refine ⟨?_, trim_trim l, trim_trim r, hm, ho, he⟩
    obtain ⟨u, rfl, hu⟩ := exists_of_breakAt? hb
    obtain ⟨w, hw, rfl⟩ := exists_of_afterJoint? hu
    -- the blanks that are trimmed off next to the joint are part of the seam
    obtain ⟨a, b, hla, ha, hb⟩ := exists_trim l
    obtain ⟨a', b', hrb, ha', hb'⟩ := exists_trim r
    let seam := b ++ [' '] ++ w ++ ' ' :: a'
    have hseam : IsSeam seam := ⟨b ++ [' '], w, ' ' :: a', rfl, hw,
      ⟨by simp, List.forall_mem_append.2 ⟨hb, List.forall_mem_singleton.2 rfl⟩⟩, by simp,
      List.forall_mem_cons.2 ⟨rfl, ha'⟩⟩
    have ht : l ++ (' ' :: w ++ ' ' :: r) = a ++ (l.trim ++ seam ++ r.trim) ++ b' := by
      conv => lhs; rw [hla, hrb]
      simp [seam]
    refine ⟨seam, hseam, ?_⟩
    rw [ht]
    refine trim_append ha hb' (by simp [hl]) (fun c hc => ?_) fun c hc => ?_
    · rw [List.append_assoc, head_append hl] at hc
      exact head_trim hc
    · rw [List.getLast?_append, List.getLast?_eq_some_getLast hr, Option.some_or] at hc
      exact getLast_trim (List.getLast?_eq_some_getLast hr ▸ hc)

namespace IsBreak

variable {t left right : Text}

/-- The left side begins a selector if the phrase does: its noun is in none of the openings, so that
no opening goes on behind it. -/
theorem opensSelector_left (h : IsBreak t left right) (ho : opensSelector t.trim = true) :
    opensSelector left = true := by
  obtain ⟨s, -, ht⟩ := h.seam
  obtain ⟨noun, hnoun, hhas⟩ := List.any_eq_true.1 h.mentions
  have hin : noun <:+: left.fold := has_iff.1 hhas
  have hne : left.fold ≠ [] := by
    have hnouns : ∀ n ∈ objectNouns, n ≠ [] := by decide
    exact fun hnil => hnouns noun hnoun (List.infix_nil.1 (hnil ▸ hin))
  rw [ht, List.append_assoc, opensSelector, fold_append, head_append hne, Bool.or_eq_true] at ho
  rw [opensSelector, Bool.or_eq_true]
  refine ho.imp_left fun ho => ?_
  obtain ⟨o, hmem, hp⟩ := List.any_eq_true.1 ho
  refine List.any_eq_true.2 ⟨o, hmem, List.isPrefixOf_iff_prefix.2 ?_⟩
  refine (List.prefix_or_prefix_of_prefix (List.isPrefixOf_iff_prefix.1 hp)
    (List.prefix_append _ _)).resolve_right fun hlong => ?_
  have hfree : ∀ o ∈ openings, ∀ n ∈ objectNouns, has n o = false := by decide
  have hhas : has noun o = true := has_iff.2 (hin.trans hlong.isInfix)
  rw [hfree o hmem noun hnoun] at hhas
  cases hhas

/-- The phrase leaves out its verb if the left side does. -/
theorem isElliptical_of_left (h : IsBreak t left right) (he : isElliptical left = true) :
    isElliptical t = true := by
  obtain ⟨s, hs, ht⟩ := h.seam
  rw [isElliptical, h.trim_left, Template.isMatch_iff] at he
  rw [isElliptical, ht, List.append_assoc, Template.isMatch_iff]
  obtain ⟨d, hd⟩ := he
  obtain ⟨ms, hm⟩ := Template.exists_mem_ends_append (by decide) (hs.head right) hd []
  exact ⟨_, hm⟩

end IsBreak

/-! ### All cuts -/

/-- The phrase is cut into the parts, one after the other. Each cut leaves a shorter phrase, and the
last one is not cut. -/
inductive Breaks : Text → List Text → Prop
  | whole {t : Text} (h : breakCompound? t = none) : Breaks t [t.trim]
  | cut {t left right : Text} {ps : List Text} (h : breakCompound? t = some (left, right))
      (hlt : right.length < t.length) (hs : Breaks right ps) : Breaks t (left :: ps)

theorem breaks_parts (t : Text) : Breaks t (parts t) := by
  fun_induction parts t with
  | case1 t h => exact .whole h
  | case2 t left right h hlt ih => exact .cut h hlt ih

namespace Breaks

variable {t : Text} {ps : List Text}

theorem ne_nil (h : Breaks t ps) : ps ≠ [] := by cases h <;> simp

theorem isJoined (h : Breaks t ps) : IsJoined t.trim ps := by
  induction h with
  | whole => exact .whole _
  | cut h _ _ ih =>
    have hb := isBreak_of_breakCompound? h
    obtain ⟨s, hs, ht⟩ := hb.seam
    rw [ht]
    rw [hb.trim_right] at ih
    exact .seam hs ih

theorem mentionsObject (h : Breaks t ps) : ∀ p ∈ ps.dropLast, mentionsObject p = true := by
  induction h with
  | whole => simp
  | cut h _ hs ih =>
    rw [List.dropLast_cons_of_ne_nil hs.ne_nil]
    exact List.forall_mem_cons.2 ⟨(isBreak_of_breakCompound? h).mentions, ih⟩

/-- What is known of a phrase from its beginning is true of all its parts. -/
theorem opensSelector (h : Breaks t ps) (ho : opensSelector t.trim = true)
    (he : isElliptical t = false) : ∀ p ∈ ps, opensSelector p = true ∧ isElliptical p = false := by
  induction h with
  | @whole t _ =>
    have ht : isElliptical t.trim = isElliptical t := by rw [isElliptical, trim_trim, isElliptical]
    exact List.forall_mem_singleton.2 ⟨ho, ht.trans he⟩
  | cut h _ _ ih =>
    have hb := isBreak_of_breakCompound? h
    refine List.forall_mem_cons.2 ⟨⟨hb.opensSelector_left ho, ?_⟩, ih ?_ hb.spoken⟩
    · by_contra hl
      rw [hb.isElliptical_of_left (by simpa using hl)] at he
      cases he
    · rw [hb.trim_right]
      exact hb.opens

end Breaks

/-- **Parts of a phrase.** Joined by "and" they give the phrase, up to blanks and the letter case of
the word that joins them. Each part but the last has the noun of an object, and each part but the
first is no amount without a verb and begins like a selector: with a digit or an opening, where all
openings but the articles and "one" may be the front of a longer word. Each cut leaves a shorter
phrase, and there are at most as many as there is room for seams. -/
theorem parts_spec (phrase : Text) :
    Breaks phrase (parts phrase) ∧ 5 * (parts phrase).length ≤ phrase.length + 5 ∧
      IsJoined phrase.trim (parts phrase) ∧
      (words (List.intercalate joint (parts phrase))).map lowerPlain =
        phrase.words.map lowerPlain ∧
      (∀ p ∈ (parts phrase).dropLast, mentionsObject p = true) ∧
      ∀ p ∈ (parts phrase).tail, opensSelector p = true ∧ isElliptical p = false := by
  have h := breaks_parts phrase
  have hj := h.isJoined
  refine ⟨h, ?_, hj, ?_, h.mentionsObject, ?_⟩
  · have := hj.length_le
    have := length_trim_le phrase
    omega
  · rw [hj.words_intercalate, words_trim]
  · generalize parts phrase = ps at h
    cases h with
    | whole => simp
    | cut hc _ hs =>
      have hb := isBreak_of_breakCompound? hc
      exact hs.opensSelector (hb.trim_right.symm ▸ hb.opens) hb.spoken

/-- Two selectors are parted; behind a mere noun the phrase stays whole. -/
example : parts "chosen character and all items".toList =
    ["chosen character".toList, "all items".toList] ∧
    parts "characters and locations".toList = ["characters and locations".toList] := by
  decide +kernel

end Selector

end CardText
