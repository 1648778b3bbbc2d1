import CardText.Proofs.Text.Sentence

/-!
# Lists of phrases

Phrases that are joined by commas are cut apart again, and a remark in parentheses behind them,
with or without periods around it, leaves them as they are.

* `Text.IsSentence.of_lowerPlain`: letter case has no part in what a phrase is;
* `Text.listed`: phrases in a row, a comma and a space between two of them; `Text.trim_cut_listed`
  finds them again;
* `Text.Remark`: a remark in parentheses behind a text; `Text.stripReminders_remark` takes them
  apart.
-/

namespace CardText

namespace Text

/-! ### Letter case -/

theorem isBlank_toLower (c : Char) : isBlank c.toLower = isBlank c := by
  unfold Char.toLower
  split
  · next hc =>
    simp only [ge_iff_le, UInt32.le_iff_toNat_le] at hc
    rw [isBlank_of_toNat, isBlank_of_toNat]
    · simp at hc ⊢
      omega
    · simp at hc ⊢
      omega
  · rfl

/-- A small letter is plain, and so is its capital. -/
theorem isPlain_of_toLower {c : Char} (h : isPlain c.toLower = true) : isPlain c = true := by
  have hne : ∀ m : Char, m.toLower = m → c.toLower ≠ m → c ≠ m := by
    rintro m hm hc rfl
    exact hc hm
  simp only [isPlain, Bool.and_eq_true, Bool.not_eq_true', bne_iff_ne, isBlank_toLower] at h ⊢
  obtain ⟨⟨⟨⟨⟨hb, hp⟩, hq⟩, hd⟩, he⟩, hm⟩ := h
  exact ⟨⟨⟨⟨⟨hb, hne '(' rfl hp⟩, hne '"' rfl hq⟩, hne '.' rfl hd⟩, hne '!' rfl he⟩, hne ',' rfl hm⟩

theorem eq_space_of_toLower {c : Char} (h : c.toLower = ' ') : c = ' ' := eq_of_toLower_eq h rfl

theorem Spaced.of_lowerPlain {t : Text} (h : t.lowerPlain.Spaced) : t.Spaced := by
  induction t with
  | nil => trivial
  | cons c t ih =>
    cases t with
    | nil => exact (isBlank_toLower c).symm.trans h
    | cons d t =>
      refine ⟨fun hc => ?_, ih h.2⟩
      obtain ⟨hs, hd⟩ := h.1 ((isBlank_toLower c).trans hc)
      exact ⟨eq_space_of_toLower hs, (isBlank_toLower d).symm.trans hd⟩

namespace IsSentence

variable {s t : Text}

/-- Letter case has no part in what a phrase is. -/
theorem of_lowerPlain (h : IsSentence t.lowerPlain) : IsSentence t where
  ne_nil := by
    rintro rfl
    exact h.ne_nil rfl
  spaced := h.spaced.of_lowerPlain
  head := fun c hc => by
    rw [← isBlank_toLower]
    refine h.head c.toLower ?_
    rw [lowerPlain, List.head?_map, Option.mem_def.1 hc]
    rfl
  plain := fun c hc =>
    (h.plain c.toLower (List.mem_map_of_mem hc)).imp eq_space_of_toLower isPlain_of_toLower

/-- A word of plain characters. -/
theorem of_isPlain (hne : t ≠ []) (h : t.all isPlain = true) : IsSentence t := by
  have hu : IsSentence (unwords [t]) := of_words (by simp) fun w hw => by
    obtain rfl := List.mem_singleton.1 hw
    exact ⟨hne, fun c hc => List.all_eq_true.1 h c hc⟩
  rwa [unwords_singleton] at hu

theorem append_space (hs : IsSentence s) (ht : IsSentence t) : IsSentence (s ++ ' ' :: t) := by
  obtain ⟨c, r, rfl⟩ := List.exists_cons_of_ne_nil hs.ne_nil
  obtain ⟨d, q, rfl⟩ := List.exists_cons_of_ne_nil ht.ne_nil
  refine ⟨by simp, hs.spaced.append (ht.spaced.space rfl (ht.head d rfl)), ?_, fun x hx => ?_⟩
  · intro x hx
    cases hx
    exact hs.head c rfl
  · rcases List.mem_append.1 hx with hx | hx
    · exact hs.plain x hx
    · rcases List.mem_cons.1 hx with hx | hx
      · exact .inl hx
      · exact ht.plain x hx

end IsSentence

/-! ### Phrases in a row -/

/-- Phrases in a row, a comma and a space between two of them. -/
def listed (ss : List Text) : Text := joined ',' ss

section Listed

variable {ss : List Text}

theorem ne_of_mem_listed (h : ∀ s ∈ ss, IsSentence s) {c : Char} (hc : c ∈ listed ss) :
    c ≠ '(' ∧ c ≠ '.' := by
  rcases mem_joined hc with rfl | rfl | ⟨s, hs, hc⟩
  · decide
  · decide
  · have := (h s hs).ne_marks hc
    exact ⟨this.1, this.2.2.1⟩

/-- A list of phrases is in single spaces, and none of them stands in front of a comma. -/
theorem spaced_listed (h : ∀ s ∈ ss, IsSentence s) :
    (listed ss).Spaced ∧ (listed ss).NoGapBefore ',' :=
  spaced_joined (by decide) h fun s hs hm => ((h s hs).ne_marks hm).2.2.2.2 rfl

/-- **The phrases of a list** are those that it was made of. -/
theorem trim_cut_listed (hne : ss ≠ []) (h : ∀ s ∈ ss, IsSentence s) :
    (cut (· == ',') (listed ss)).map trim = ss := by
  rw [listed]
  induction ss with
  | nil => exact absurd rfl hne
  | cons s ss ih =>
    have hs := h s (by simp)
    have hc : cut (· == ',') s = [s] :=
      cut_eq_singleton fun c hc => by simpa using (hs.ne_marks hc).2.2.2.2
    rcases ss with _ | ⟨s', ss⟩
    · rw [joined_singleton, hc, List.map_singleton, hs.trim_eq]
    · -- the space behind the comma belongs to the next piece and is trimmed off
      have hsp : ∀ t : Text, (cut (· == ',') (' ' :: t)).map trim =
          (cut (· == ',') t).map trim := by
        intro t
        obtain ⟨w, ws, hw⟩ := List.exists_cons_of_ne_nil (cut_ne_nil (· == ',') t)
        rw [cut_cons_of_not (by decide), hw]
        rfl
      rw [joined_cons_cons, cut_append_cons (by decide), hc, List.map_append, hsp,
        ih (by simp) fun t ht => h t (List.mem_cons_of_mem _ ht), List.map_singleton, hs.trim_eq]
      rfl

end Listed

/-! ### Remarks in parentheses -/

/-- A remark in parentheses is taken out of its text. -/
theorem parted_remark {s r t : Text} (hs : '(' ∉ s) (ht : '(' ∉ t) (ho : '(' ∉ r) (hc : ')' ∉ r)
    (hv : r.isVoid = false) : parted 0 [] (s ++ '(' :: (r ++ ')' :: t)) = ⟨s ++ t, [r.trim]⟩ := by
  rw [parted_append (.of_not_mem hs), parted_eq_self hs, parted_enclosed (.of_not_mem ho hc),
    parted_eq_self ht]
  simp [Reminded.append, Reminded.pushReminder, hv]

/-! ### Gaps and periods at the end -/

/-- A period, or nothing. -/
def period (b : Bool) : Text := if b then ['.'] else []

theorem eq_of_mem_period {b : Bool} {c : Char} (h : c ∈ period b) : c = '.' := by
  cases b with
  | false => cases h
  | true => exact List.mem_singleton.1 h

theorem spaced_period (b : Bool) : (period b).Spaced := by cases b <;> decide

theorem noGapBefore_period (mark : Char) (b : Bool) : (period b).NoGapBefore mark := by
  cases b
  · exact noGapBefore_nil mark
  · exact noGapBefore_singleton mark '.'

/-- Between a text and a period behind it no gap is left. -/
theorem closeUp_squeeze_gap {s gap : Text} (hne : s ≠ []) (hs : s.Spaced)
    (hh : ∀ c ∈ s.head?, isBlank c = false) (hd : s.NoGapBefore '.')
    (hg : ∀ c ∈ gap, isBlank c = true) (b : Bool) :
    closeUp '.' (squeeze (s ++ gap ++ period b)) = s ++ period b := by
  have hw : words (s ++ gap) = words s := words_append_blank s hg
  have hsq : unwords (words s) = s := hs.squeeze_eq hh
  have hgap : squeeze (s ++ gap) = s := by rw [squeeze, hw, hsq]
  cases b with
  | false =>
    rw [period, if_neg (by simp), List.append_nil, hgap, closeUp_eq_self hd, List.append_nil]
  | true =>
    have hws : words (s ++ gap) ≠ [] := fun h => hne (by rw [← hsq, ← hw, h, unwords_nil])
    rw [period, if_pos rfl, closeUp_squeeze_period hws (by rwa [hgap]), hgap]

/-! ### A remark behind a text -/

/-- A remark in parentheses behind a text. -/
structure Remark where
  /-- What stands between the text and the parenthesis. -/
  gap : Text
  /-- What stands in the parentheses. -/
  content : Text
  isBlank_gap : gap.all isBlank = true
  isVoid_content : content.isVoid = false
  noOpen : '(' ∉ content
  noClose : ')' ∉ content

/-- The printed remark. -/
def Remark.text (r : Remark) : Text := r.gap ++ '(' :: (r.content ++ [')'])

/-- A remark behind a text is its only reminder, and the text is the body. -/
theorem stripReminders_remark {s : Text} (hne : s ≠ []) (hp : '(' ∉ s) (hs : s.Spaced)
    (hh : ∀ c ∈ s.head?, isBlank c = false) (hd : s.NoGapBefore '.') (hc : s.NoGapBefore ',')
    (r : Option Remark) (b : Bool) : stripReminders (s ++ r.elim [] Remark.text ++ period b) =
      ⟨s ++ period b, (r.map fun r => r.content.trim).toList⟩ := by
  have hpb : '(' ∉ period b := fun h => by cases eq_of_mem_period h
  have hcb : (s ++ period b).NoGapBefore ',' :=
    hc.append (noGapBefore_period ',' b) fun c hc => ne_space (hs.getLast hc)
  have hbody : ∀ gap : Text, (∀ c ∈ gap, isBlank c = true) →
      closeUp ',' (closeUp '.' (squeeze (s ++ gap ++ period b))) = s ++ period b := by
    intro gap hg
    rw [closeUp_squeeze_gap hne hs hh hd hg b, closeUp_eq_self hcb]
  rw [stripReminders]
  cases r with
  | none =>
    have hpart : parted 0 [] (s ++ [] ++ period b) = ⟨s ++ [] ++ period b, []⟩ :=
      parted_eq_self (by simp [hp, hpb])
    simp only [Option.elim_none, hpart, hbody [] (by simp)]
    rfl
  | some r =>
    have hb : ∀ c ∈ r.gap, isBlank c = true := List.all_eq_true.1 r.isBlank_gap
    have hg : '(' ∉ r.gap := fun hm => by
      have := hb '(' hm
      cases this
    have hpart : parted 0 [] (s ++ r.text ++ period b) =
        ⟨s ++ r.gap ++ period b, [r.content.trim]⟩ := by
      have := parted_remark (s := s ++ r.gap) (by simp [hp, hg]) hpb r.noOpen r.noClose
        r.isVoid_content
      simpa [Remark.text] using this
    simp only [Option.elim_some, hpart, hbody r.gap hb]
    rfl

/-! ### A list with a remark -/

section List

variable {ss : List Text}

/-- The body of a list with a remark is the list with the periods behind it. -/
theorem stripReminders_listed (hne : ss ≠ []) (h : ∀ s ∈ ss, IsSentence s) (r : Option Remark)
    (b b' : Bool) :
    stripReminders (listed ss ++ period b ++ r.elim [] Remark.text ++ period b') =
      ⟨listed ss ++ period b ++ period b', (r.map fun r => r.content.trim).toList⟩ := by
  obtain ⟨hs, hc⟩ := spaced_listed h
  have hlist : listed ss ≠ [] := joined_ne_nil hne h
  have hl : ∀ c ∈ (listed ss).getLast?, c ≠ ' ' := fun c hc => ne_space (hs.getLast hc)
  have hd : (listed ss).NoGapBefore '.' :=
    noGapBefore_of_not_mem fun hm => (ne_of_mem_listed h hm).2 rfl
  refine stripReminders_remark (by simp [hlist]) (fun hm => ?_) (hs.append (spaced_period b)) ?_
    (hd.append (noGapBefore_period '.' b) hl) (hc.append (noGapBefore_period ',' b) hl) r b'
  · rcases List.mem_append.1 hm with hm | hm
    · exact (ne_of_mem_listed h hm).1 rfl
    · cases eq_of_mem_period hm
  · rw [head_append hlist]
    exact fun _ => isBlank_head_joined h

/-- The periods behind a list are dropped. -/
theorem trimEnd_listed (hne : ss ≠ []) (h : ∀ s ∈ ss, IsSentence s) (b b' : Bool) :
    (listed ss ++ period b ++ period b').trimEnd (· == '.') = listed ss := by
  have hs := (spaced_listed h).1
  have hlist : listed ss ≠ [] := joined_ne_nil hne h
  -- no end of the text is blank, and the last phrase does not end in a period
  have htrim : (listed ss ++ period b ++ period b').trim = listed ss ++ period b ++ period b' := by
    refine trim_eq_self ?_ fun _ =>
      ((hs.append (spaced_period b)).append (spaced_period b')).getLast
    rw [List.append_assoc, head_append hlist]
    exact fun _ => isBlank_head_joined h
  have hdrop : dropTrailing (· == '.') (listed ss ++ period b ++ period b') = listed ss := by
    obtain ⟨t, c, hc⟩ := List.eq_nil_or_concat (listed ss) |>.resolve_left hlist
    have hdot : (c == '.') = false := by
      simpa using (ne_of_mem_listed h (c := c) (by simp [hc])).2
    rw [hc, List.concat_eq_append, List.append_assoc, List.append_assoc, List.singleton_append,
      dropTrailing_append (p := (· == '.')) hdot]
    intro y hy
    rw [beq_iff_eq]
    rcases List.mem_append.1 hy with hy | hy <;> exact eq_of_mem_period hy
  rw [trimEnd, htrim, hdrop]
  exact trim_eq_self (fun _ => isBlank_head_joined h) fun _ => hs.getLast

end List

end Text

end CardText
