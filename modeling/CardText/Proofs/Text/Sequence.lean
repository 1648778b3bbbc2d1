import CardText.Proofs.Text.Sentence
import Mathlib.Algebra.Ring.Parity

/-!
# Texts in a row

Where no parenthesis is left open in a text, what stands behind it counts as if it stood alone, but
for the space between them.  A period that closes no quote ends a sentence there.

* `Text.gapBefore`, `Text.body_append_space`: the body of two texts in a row;
* `Text.exists_body_period`: the body of a text with a period behind it, and its quotes;
* `Text.exists_sentencePieces_period`: the pieces in front of such a period;
* `Text.sentences_body_period`: the sentences in front of it and those behind it.
-/

namespace CardText

namespace Text

/-! ### Bodies -/

/-- The space in front of a text, if it does not begin with a period or a comma. -/
def gapBefore (t : Text) : Text := if t.head?.any isPause then [] else [' ']

theorem gapBefore_eq_space {t : Text} (h : ∀ c ∈ t.head?, c ≠ '.' ∧ c ≠ ',') :
    gapBefore t = [' '] := by
  rw [gapBefore, if_neg]
  rw [Bool.not_eq_true, Option.any_eq_false]
  intro c hc
  simp [isPause, h c hc]

theorem gapBefore_eq_or (t : Text) : gapBefore t = [] ∨ gapBefore t = [' '] := by
  rw [gapBefore]
  split_ifs
  · exact .inl rfl
  · exact .inr rfl

theorem eq_space_of_mem_gapBefore {t : Text} {c : Char} (h : c ∈ gapBefore t) : c = ' ' := by
  rcases gapBefore_eq_or t with hg | hg <;> rw [hg] at h
  · cases h
  · exact List.mem_singleton.1 h

/-- A space between two texts stays unless the mark stands behind it. -/
theorem closeUp_append_space {mark c : Char} {s : Text} (hs : ∀ x ∈ s.getLast?, x ≠ ' ')
    (r : Text) : closeUp mark (s ++ ' ' :: c :: r) =
      closeUp mark s ++ (if c = mark then [] else [' ']) ++ closeUp mark (c :: r) := by
  rw [closeUp_append hs, closeUp]
  split_ifs with h₁ h₂
  · simp
  · exact absurd h₁.2 h₂
  · exact absurd ⟨rfl, ‹c = mark›⟩ h₁
  · simp

theorem squeeze_eq_nil_iff {t : Text} : t.squeeze = [] ↔ t.words = [] := by
  constructor
  · intro h
    rw [← words_squeeze, h]
    rfl
  · intro h
    rw [squeeze, h]
    rfl

theorem squeeze_append_space {s t : Text} (hs : s.words ≠ []) (ht : t.words ≠ []) :
    squeeze (s ++ ' ' :: t) = s.squeeze ++ ' ' :: t.squeeze := by
  rw [squeeze, words_append_cons rfl, unwords_append hs ht, squeeze, squeeze]

/-- The body of two texts in a row, no parenthesis left open in the first. -/
theorem body_append_space {s t : Text} (hs : IsClosed '(' ')' s) (hb : s.body ≠ []) :
    body (s ++ ' ' :: t) =
      if t.body = [] then s.body else s.body ++ gapBefore t.body ++ t.body := by
  have hparted : (parted 0 [] (s ++ ' ' :: t)).body =
      (parted 0 [] s).body ++ ' ' :: (parted 0 [] t).body := by
    rw [parted_append hs, parted_zero_cons (by decide)]
    rfl
  have hbody : ∀ u : Text, u.body = closeUp ',' (closeUp '.' (parted 0 [] u).body.squeeze) :=
    fun _ => rfl
  have hws : (parted 0 [] s).body.words ≠ [] := fun h => hb (by
    rw [hbody, squeeze_eq_nil_iff.2 h]
    rfl)
  have hsp := spaced_squeeze (parted 0 [] s).body
  rw [hbody (s ++ ' ' :: t), hparted]
  rcases hq : (parted 0 [] t).body.squeeze with _ | ⟨d, q⟩
  · have hn : t.body = [] := by
      rw [hbody, hq]
      rfl
    rw [if_pos hn, squeeze, words_append_cons rfl, squeeze_eq_nil_iff.1 hq, List.append_nil]
    rfl
  · have hd : d ≠ ' ' := ne_space (head_squeeze (t := (parted 0 [] t).body) (by rw [hq]; rfl))
    obtain ⟨q₁, h₁⟩ := head_closeUp '.' hd q
    obtain ⟨q₂, h₂⟩ := head_closeUp ',' hd q₁
    have hbt : t.body = d :: q₂ := by rw [hbody, hq, h₁, h₂]
    rw [if_neg (by simp [hbt]),
      squeeze_append_space hws fun h => by simp [squeeze_eq_nil_iff.2 h] at hq, hq,
      closeUp_append_space fun x hx => ne_space (hsp.getLast hx), h₁, hbt, gapBefore, hbody s]
    have hl : ∀ x ∈ (closeUp '.' (parted 0 [] s).body.squeeze).getLast?, x ≠ ' ' :=
      fun x hx => ne_space ((hsp.closeUp '.').getLast hx)
    -- each of the two marks closes up the space in front of itself and not of the other one
    by_cases hdot : d = '.'
    · rw [if_pos hdot, List.append_nil, closeUp_append hl, h₂]
      simp [isPause, hdot]
    · rw [if_neg hdot, List.append_assoc, List.singleton_append, closeUp_append_space hl, h₂]
      by_cases hcomma : d = ',' <;> simp [isPause, hdot, hcomma]

/-- A body has as many of a printed character as the text outside parentheses. -/
theorem count_body {c : Char} (hc : isBlank c = false) (t : Text) :
    t.body.count c = (parted 0 [] t).body.count c := by
  have hink : ∀ u : Text, u.ink.count c = u.count c := fun u => List.count_filter (by simp [hc])
  rw [← hink, ink_body, hink]

/-- The body of a text with a period behind it ends in that period. -/
theorem exists_body_period {s : Text} (hs : IsClosed '(' ')' s) :
    ∃ u : Text, body (s ++ ['.']) = u ++ ['.'] ∧
      u.count '"' = (parted 0 [] s).body.count '"' := by
  have hp : (parted 0 [] (s ++ ['.'])).body = (parted 0 [] s).body ++ ['.'] := by
    rw [parted_append hs]
    rfl
  have hink : (body (s ++ ['.'])).ink = (parted 0 [] s).body.ink ++ ['.'] := by
    rw [ink_body, hp, ink_append]
    rfl
  rcases List.eq_nil_or_concat (body (s ++ ['.'])) with hn | ⟨u, c, hu⟩
  · rw [hn] at hink
    simp [ink] at hink
  · rw [List.concat_eq_append] at hu
    have hc : isBlank c = false := (spaced_body (s ++ ['.'])).getLast (by rw [hu]; simp)
    -- the last character of a body is no blank, so the last printed one is the last of all
    rw [hu, ink_append, ink_cons hc] at hink
    obtain ⟨-, hlast⟩ := List.append_inj' hink rfl
    obtain rfl : c = '.' := by simpa [ink] using hlast
    refine ⟨u, hu, ?_⟩
    have hcount := count_body (c := '"') rfl (s ++ ['.'])
    rw [hu, hp, List.count_append, List.count_append] at hcount
    exact Nat.add_right_cancel hcount

/-! ### Sentences -/

/-- A quote is open behind a character just if that is so in front of it, unless it is a quote. -/
theorem quoted_iff_cons {quoted : Bool} {c : Char} {t : Text} :
    (quoted = true ↔ Odd ((c :: t).count '"')) ↔
      ((quoted != (c == '"')) = true ↔ Odd (t.count '"')) := by
  rw [List.count_cons]
  cases quoted <;> by_cases hc : c = '"' <;> simp [hc, Nat.odd_add_one]

/-- A period behind closed quotes ends a piece, and the pieces in front of it do not depend on what
stands behind. -/
theorem exists_sentencePieces_period {quoted : Bool} {s : Text}
    (hq : quoted = true ↔ Odd (s.count '"')) : ∃ (p : Text) (ps : List Text), ∀ r,
      endsBefore r = true → sentencePieces quoted (s ++ '.' :: r) =
        p :: ps ++ sentencePieces false r := by
  induction s generalizing quoted with
  | nil =>
    have hf : quoted = false := by simpa using hq
    refine ⟨[], [], fun r hr => ?_⟩
    rw [hf, List.nil_append, sentencePieces, if_neg (by decide), if_pos (by simp [hr])]
    rfl
  | cons c s ih =>
    -- what follows `c` is there whatever stands behind the period
    have hnext : ∀ r : Text, endsBefore (s ++ '.' :: r) = endsBefore (s ++ ['.']) := by
      cases s <;> exact fun _ => rfl
    by_cases hc : c = '"'
    · have hflip : (!quoted) = true ↔ Odd (s.count '"') := by
        simpa [hc] using quoted_iff_cons.1 hq
      obtain ⟨p, ps, h⟩ := ih hflip
      refine ⟨c :: p, ps, fun r hr => ?_⟩
      rw [List.cons_append, sentencePieces, if_pos hc, h r hr]
      rfl
    · have hkeep : quoted = true ↔ Odd (s.count '"') := by
        simpa [beq_false_of_ne hc] using quoted_iff_cons.1 hq
      obtain ⟨p, ps, h⟩ := ih hkeep
      by_cases hm : (c = '.' ∨ c = '!') ∧ !quoted ∧ endsBefore (s ++ ['.'])
      · refine ⟨[], p :: ps, fun r hr => ?_⟩
        rw [List.cons_append, sentencePieces, if_neg hc, hnext, if_pos hm, h r hr]
        rfl
      · refine ⟨c :: p, ps, fun r hr => ?_⟩
        rw [List.cons_append, sentencePieces, if_neg hc, hnext, if_neg hm, h r hr]
        rfl

/-- The sentences of two texts with a period between them, no quote left open in the first. -/
theorem sentences_append_period {s : Text} (hq : Even (s.count '"')) (t : Text) :
    sentences (s ++ '.' :: ' ' :: t) = sentences (s ++ ['.']) ++ sentences t := by
  have hclosed : false = true ↔ Odd (s.count '"') := by simpa using hq
  obtain ⟨p, ps, h⟩ := exists_sentencePieces_period hclosed
  have hnil : sentences [] = [] := rfl
  have key : ∀ r, endsBefore r = true → sentences (s ++ '.' :: r) =
      (((p :: ps).map trim).filter fun u => !u.isEmpty) ++ sentences r := by
    intro r hr
    rw [sentences, h r hr, List.map_append, List.filter_append, sentences]
  rw [key _ rfl, key _ rfl, sentences_cons_space, hnil, List.append_nil]

/-- **Sentences behind a period.**  Where no parenthesis and no quote is left open in front of the
period and no mark stands behind it, both sides of it have their own sentences. -/
theorem sentences_body_period {s t : Text} (hs : IsClosed '(' ')' s)
    (hq : Even ((parted 0 [] s).body.count '"')) (ht : ∀ c ∈ t.body.head?, c ≠ '.' ∧ c ≠ ',') :
    (body (s ++ '.' :: ' ' :: t)).sentences =
      (body (s ++ ['.'])).sentences ++ t.body.sentences := by
  obtain ⟨u, hu, hcount⟩ := exists_body_period hs
  have hclosed : IsClosed '(' ')' (s ++ ['.']) := by
    have hd : depth '(' ')' 0 s = 0 := hs
    rw [IsClosed, depth_append, hd]
    rfl
  have hbody := body_append_space (t := t) hclosed (by simp [hu])
  rw [List.append_assoc, List.singleton_append, gapBefore_eq_space ht] at hbody
  rw [hbody]
  split_ifs with hn
  · rw [hn]
    exact (List.append_nil _).symm
  · have := sentences_append_period (s := u) (by rwa [hcount]) t.body
    simpa [hu] using this

end Text

end CardText
