import CardText.Proofs.Text.Reminder
import CardText.Proofs.Text.Vocabulary
import CardText.Text.Sentence

/-!
# Sentences in a row

Sentences that are joined by periods are found again.

* `Text.IsPlain`: the characters of plain words, which neither part words nor end sentences;
* `Text.IsSentence`: a text that is a sentence without its period;
* `Text.joined`: sentences in a row, a mark between two of them;
* `Text.paragraph`: sentences in a row, each with a period behind it;
* `Text.body_paragraph`, `Text.sentences_paragraph`: nothing of a paragraph is reminder text, and
  its sentences are those that it was made of.
-/

namespace CardText

namespace Text

/-! ### Bodies without reminders -/

/-- A text in single spaces without parentheses is its own body. -/
theorem stripReminders_eq_self {t : Text} (hp : '(' ∉ t) (hs : t.Spaced)
    (hh : ∀ c ∈ t.head?, isBlank c = false) (hd : t.NoGapBefore '.') (hc : t.NoGapBefore ',') :
    t.stripReminders = ⟨t, []⟩ := by
  rw [stripReminders, parted_eq_self hp]
  simp only
  rw [hs.squeeze_eq hh, closeUp_eq_self hd, closeUp_eq_self hc]

theorem NoGapBefore.append {mark : Char} {s t : Text} (hs : s.NoGapBefore mark)
    (ht : t.NoGapBefore mark) (hl : ∀ c ∈ s.getLast?, c ≠ ' ') : (s ++ t).NoGapBefore mark := by
  induction s with
  | nil => exact ht
  | cons c s ih =>
    rcases s with _ | ⟨d, s⟩
    · exact ht.cons (hl c rfl)
    · obtain ⟨hcd, hr⟩ := noGapBefore_cons_cons.1 hs
      exact noGapBefore_cons_cons.2 ⟨hcd, ih hr (by simpa using hl)⟩

theorem noGapBefore_of_not_mem {mark : Char} {t : Text} (h : mark ∉ t) : t.NoGapBefore mark :=
  fun hi => h (hi.subset (by simp))

theorem unwords_concat_append (us : List Text) (u v : Text) :
    unwords (us ++ [u ++ v]) = unwords (us ++ [u]) ++ v := by
  rcases eq_or_ne us [] with rfl | hne
  · simp
  · rw [unwords_append hne (by simp), unwords_append hne (by simp)]
    simp

/-- A period behind a text comes to stand behind its last word. -/
theorem closeUp_squeeze_period {t : Text} (hne : t.words ≠ []) (hd : t.squeeze.NoGapBefore '.') :
    closeUp '.' (squeeze (t ++ ['.'])) = t.squeeze ++ ['.'] := by
  have hlast : ∀ c ∈ t.squeeze.getLast?, c ≠ ' ' := fun c hc =>
    ne_space ((spaced_squeeze t).getLast hc)
  obtain ⟨us, u, v, vs, ht, hp, htp⟩ := exists_cut_append isBlank t ['.']
  obtain ⟨rfl, rfl⟩ : ['.'] = v ∧ [] = vs := List.cons.inj hp
  have hw : t.words = us.filter (fun w => !w.isEmpty) ++ [u].filter (fun w => !w.isEmpty) := by
    rw [words, ht, List.filter_append]
  have hwp : words (t ++ ['.']) = us.filter (fun w => !w.isEmpty) ++ [u ++ ['.']] := by
    rw [words, htp, List.filter_append]
    simp
  rw [squeeze, hwp]
  rcases eq_or_ne u [] with rfl | hu
  · -- a blank stands in front of the period
    have hw : t.words = us.filter (fun w => !w.isEmpty) := by simpa using hw
    rw [← hw, unwords_append hne (by simp), ← squeeze, closeUp_append hlast, closeUp_eq_self hd]
    rfl
  · have hw : t.words = us.filter (fun w => !w.isEmpty) ++ [u] := by simpa [hu] using hw
    rw [unwords_concat_append, ← hw, ← squeeze]
    exact closeUp_eq_self (hd.append (noGapBefore_singleton _ _) hlast)

/-! ### Pieces -/

/-- A text without marks and quotes belongs to the first piece. -/
theorem sentencePieces_append {s : Text} (h : ∀ c ∈ s, c ≠ '"' ∧ c ≠ '.' ∧ c ≠ '!') (r : Text) :
    sentencePieces false (s ++ r) = (sentencePieces false r).modifyHead (s ++ ·) := by
  induction s with
  | nil =>
    rw [List.nil_append]
    cases sentencePieces false r <;> rfl
  | cons c s ih =>
    obtain ⟨hq, hd, he⟩ := h c (by simp)
    rw [List.cons_append, sentencePieces, if_neg hq, if_neg (by simp [hd, he]),
      ih fun x hx => h x (List.mem_cons_of_mem _ hx)]
    cases sentencePieces false r <;> rfl

/-- A period in front of a blank or the end of the text ends a piece. -/
theorem sentencePieces_period {s : Text} (h : ∀ c ∈ s, c ≠ '"' ∧ c ≠ '.' ∧ c ≠ '!') {r : Text}
    (hr : endsBefore r = true) :
    sentencePieces false (s ++ '.' :: r) = s :: sentencePieces false r := by
  rw [sentencePieces_append h, sentencePieces, if_neg (by decide), if_pos (by simp [hr])]
  simp

/-! ### Sentences -/

/-- A character of a plain word: no blank, no parenthesis, no quote and no mark. -/
def isPlain (c : Char) : Bool :=
  !isBlank c && c != '(' && c != '"' && c != '.' && c != '!' && c != ','

theorem isBlank_of_isPlain {c : Char} (h : isPlain c = true) : isBlank c = false := by
  simp [isPlain] at h
  simp [h]

/-- A sentence without its period. -/
structure IsSentence (t : Text) : Prop where
  ne_nil : t ≠ []
  spaced : t.Spaced
  head : ∀ c ∈ t.head?, isBlank c = false
  plain : ∀ c ∈ t, c = ' ' ∨ isPlain c = true

namespace IsSentence

variable {s : Text}

theorem of_words {ws : List Text} (hne : ws ≠ [])
    (h : ∀ w ∈ ws, w ≠ [] ∧ ∀ c ∈ w, isPlain c = true) : IsSentence (unwords ws) := by
  have hb : ∀ w ∈ ws, w ≠ [] ∧ ∀ c ∈ w, isBlank c = false := fun w hw =>
    ⟨(h w hw).1, fun c hc => isBlank_of_isPlain ((h w hw).2 c hc)⟩
  obtain ⟨w, vs, rfl⟩ := List.exists_cons_of_ne_nil hne
  have hw := hb w (by simp)
  obtain ⟨c, r, rfl⟩ := List.exists_cons_of_ne_nil hw.1
  refine ⟨?_, spaced_unwords hb, fun x hx => ?_, fun x hx => ?_⟩
  · intro hn
    have := head_unwords hw.1 vs
    rw [hn] at this
    cases this
  · rw [head_unwords hw.1] at hx
    exact hw.2 x (List.mem_of_mem_head? hx)
  · exact (mem_unwords hx).imp_right fun ⟨u, hu, hxu⟩ => (h u hu).2 x hxu

theorem ne_marks (h : IsSentence s) {c : Char} (hc : c ∈ s) :
    c ≠ '(' ∧ c ≠ '"' ∧ c ≠ '.' ∧ c ≠ '!' ∧ c ≠ ',' := by
  rcases h.plain c hc with rfl | hp
  · decide
  · simp only [isPlain, Bool.and_eq_true, bne_iff_ne] at hp
    exact ⟨hp.1.1.1.1.2, hp.1.1.1.2, hp.1.1.2, hp.1.2, hp.2⟩

theorem trim_eq (h : IsSentence s) : s.trim = s :=
  trim_eq_self h.head fun _ => h.spaced.getLast

theorem inline (h : IsSentence s) {c : Char} (hc : c ∈ s) : Template.isInline c = true := by
  rcases h.plain c hc with rfl | hp
  · rfl
  · rw [Template.isInline, bne_iff_ne]
    rintro rfl
    cases hp

/-- No gap of a template stands at the start of a sentence. -/
theorem head_isGap (h : IsSentence s) : s.head?.any Template.isGap = false := by
  rw [Option.any_eq_false]
  intro c hc
  by_contra hg
  have hb := isBlank_of_isGap (by simpa using hg)
  rw [h.head c hc] at hb
  cases hb

/-- The only gaps of a template in a sentence are its spaces. -/
theorem eq_space_of_isGap (h : IsSentence s) {c : Char} (hc : c ∈ s)
    (hg : Template.isGap c = true) : c = ' ' := by
  refine (h.plain c hc).resolve_right fun hp => ?_
  rw [isPlain, isBlank_of_isGap hg] at hp
  cases hp

/-- No punctuation stands at the end of a sentence. -/
theorem trimEnd_eq (h : IsSentence s) {p : Char → Bool} (hp : ∀ c, p c = true → isPause c = true) :
    s.trimEnd p = s := by
  have hl : dropTrailing p s = s := dropTrailing_eq_self fun c hc => by
    obtain ⟨-, -, hd, -, hm⟩ := h.ne_marks (List.mem_of_mem_getLast? hc)
    by_contra hpc
    have := hp c (by simpa using hpc)
    simp [isPause, hd, hm] at this
  rw [trimEnd, h.trim_eq, hl, h.trim_eq]

end IsSentence

/-! ### Sentences in a row -/

/-- Sentences in a row, a mark and a space between two of them. -/
def joined (mark : Char) (ss : List Text) : Text := List.intercalate [mark, ' '] ss

section Joined

variable {mark : Char} {ss : List Text}

theorem joined_singleton (mark : Char) (s : Text) : joined mark [s] = s := by simp [joined]

theorem joined_cons_cons (mark : Char) (s s' : Text) (ss : List Text) :
    joined mark (s :: s' :: ss) = s ++ mark :: ' ' :: joined mark (s' :: ss) := by simp [joined]

theorem head_joined (mark : Char) {s : Text} (hs : IsSentence s) (ss : List Text) :
    (joined mark (s :: ss)).head? = s.head? := by
  obtain ⟨c, r, rfl⟩ := List.exists_cons_of_ne_nil hs.ne_nil
  cases ss with
  | nil => rw [joined_singleton]
  | cons s' ss => simp [joined_cons_cons]

theorem joined_ne_nil (hne : ss ≠ []) (h : ∀ s ∈ ss, IsSentence s) : joined mark ss ≠ [] := by
  obtain ⟨s, ss, rfl⟩ := List.exists_cons_of_ne_nil hne
  have hs := h s (by simp)
  intro hn
  have hh := head_joined mark hs ss
  rw [hn, List.head?_nil, eq_comm, List.head?_eq_none_iff] at hh
  exact hs.ne_nil hh

theorem isBlank_head_joined (h : ∀ s ∈ ss, IsSentence s) {c : Char}
    (hc : c ∈ (joined mark ss).head?) : isBlank c = false := by
  rcases ss with _ | ⟨s, ss⟩
  · cases hc
  · rw [head_joined mark (h s (by simp))] at hc
    exact (h s (by simp)).head c hc

theorem mem_joined {c : Char} (h : c ∈ joined mark ss) : c = mark ∨ c = ' ' ∨ ∃ s ∈ ss, c ∈ s := by
  induction ss with
  | nil => simp [joined] at h
  | cons s ss ih =>
    rcases ss with _ | ⟨s', ss⟩
    · rw [joined_singleton] at h
      exact .inr (.inr ⟨s, by simp, h⟩)
    · rw [joined_cons_cons, List.mem_append, List.mem_cons, List.mem_cons] at h
      rcases h with h | h | h | h
      · exact .inr (.inr ⟨s, by simp, h⟩)
      · exact .inl h
      · exact .inr (.inl h)
      · exact (ih h).imp_right (Or.imp_right fun ⟨u, hu, hc⟩ => ⟨u, List.mem_cons_of_mem _ hu, hc⟩)

/-- Sentences in a row are in single spaces, and none of them stands in front of the mark. -/
theorem spaced_joined (hb : isBlank mark = false) (h : ∀ s ∈ ss, IsSentence s)
    (hm : ∀ s ∈ ss, mark ∉ s) : (joined mark ss).Spaced ∧ (joined mark ss).NoGapBefore mark := by
  induction ss with
  | nil => exact ⟨trivial, noGapBefore_nil mark⟩
  | cons s ss ih =>
    have hs := h s (by simp)
    have hg : s.NoGapBefore mark := noGapBefore_of_not_mem (hm s (by simp))
    rcases ss with _ | ⟨s', ss⟩
    · rw [joined_singleton]
      exact ⟨hs.spaced, hg⟩
    · obtain ⟨i₁, i₂⟩ := ih (fun t ht => h t (List.mem_cons_of_mem _ ht))
        fun t ht => hm t (List.mem_cons_of_mem _ ht)
      have hs' := h s' (by simp)
      obtain ⟨d, q, hq⟩ := List.exists_cons_of_ne_nil hs'.ne_nil
      have hd := head_joined mark hs' ss
      rw [congrArg List.head? hq, List.head?_cons] at hd
      obtain ⟨r, hr⟩ := List.head?_eq_some_iff.1 hd
      have hdb := hs'.head d (by simp [hq])
      have hdm : d ≠ mark := fun he => hm s' (by simp) (he ▸ by simp [hq])
      rw [joined_cons_cons]
      rw [hr] at i₁ i₂ ⊢
      refine ⟨hs.spaced.append ((i₁.space (c := d) rfl hdb).cons hb),
        hg.append (NoGapBefore.cons ?_ (ne_space hb)) fun x hx => ne_space (hs.spaced.getLast hx)⟩
      exact noGapBefore_cons_cons.2 ⟨fun ⟨_, he⟩ => hdm he, i₂⟩

end Joined

/-! ### Paragraphs -/

/-- Sentences in a row, with a period behind each of them. -/
def paragraph (ss : List Text) : Text := List.intercalate ". ".toList ss ++ ['.']

theorem paragraph_eq (ss : List Text) : paragraph ss = joined '.' ss ++ ['.'] := rfl

theorem paragraph_cons_cons (s s' : Text) (ss : List Text) :
    paragraph (s :: s' :: ss) = s ++ '.' :: ' ' :: paragraph (s' :: ss) := by simp [paragraph]

theorem paragraph_singleton (s : Text) : paragraph [s] = s ++ ['.'] := by simp [paragraph]

theorem mem_paragraph {ss : List Text} {c : Char} (h : c ∈ paragraph ss) :
    c = '.' ∨ c = ' ' ∨ ∃ s ∈ ss, c ∈ s := by
  rw [paragraph_eq, List.mem_append, List.mem_singleton] at h
  exact h.elim mem_joined .inl

/-- A paragraph begins with no blank. -/
theorem isBlank_head_paragraph {ss : List Text} (h : ∀ s ∈ ss, IsSentence s) {c : Char}
    (hc : c ∈ (paragraph ss).head?) : isBlank c = false := by
  rw [paragraph_eq, List.head?_append] at hc
  rcases Option.or_eq_some_iff.1 hc with hc | ⟨-, hc⟩
  · exact isBlank_head_joined h hc
  · cases hc
    rfl

/-- A paragraph is in single spaces, and none of them stands in front of a period. -/
theorem spaced_paragraph {ss : List Text} (h : ∀ s ∈ ss, IsSentence s) :
    (paragraph ss).Spaced ∧ (paragraph ss).NoGapBefore '.' := by
  obtain ⟨hs, hg⟩ := spaced_joined (by decide) h fun s hm he => ((h s hm).ne_marks he).2.2.1 rfl
  rw [paragraph_eq]
  exact ⟨hs.append (show isBlank '.' = false by decide),
    hg.append (noGapBefore_singleton '.' '.') fun x hx => ne_space (hs.getLast hx)⟩

/-- Nothing of a paragraph is reminder text. -/
theorem body_paragraph {ss : List Text} (h : ∀ s ∈ ss, IsSentence s) :
    (paragraph ss).body = paragraph ss := by
  obtain ⟨hs, hd⟩ := spaced_paragraph h
  have hne : ∀ c ∈ paragraph ss, c ≠ '(' ∧ c ≠ ',' := by
    intro c hc
    rcases mem_paragraph hc with rfl | rfl | ⟨s, hs, hc⟩
    · decide
    · decide
    · have := (h s hs).ne_marks hc
      exact ⟨this.1, this.2.2.2.2⟩
  rw [body, stripReminders_eq_self (fun hm => (hne _ hm).1 rfl) hs
    (fun _ => isBlank_head_paragraph h) hd
    (noGapBefore_of_not_mem fun hm => (hne _ hm).2 rfl)]

/-- A space in front of a text has no part in its sentences. -/
theorem sentences_cons_space (t : Text) : sentences (' ' :: t) = sentences t := by
  rw [sentences, sentencePieces, if_neg (by decide), if_neg (by simp), sentences]
  cases sentencePieces false t with
  | nil => rfl
  | cons p ps => rw [List.modifyHead_cons, List.map_cons, trim_cons_space, List.map_cons]

/-- The first sentence of a text. -/
theorem IsSentence.sentences_period {s r : Text} (hs : IsSentence s) (hr : endsBefore r = true) :
    sentences (s ++ '.' :: r) = s :: sentences r := by
  have hm : ∀ c ∈ s, c ≠ '"' ∧ c ≠ '.' ∧ c ≠ '!' := fun c hc =>
    have h := hs.ne_marks hc
    ⟨h.2.1, h.2.2.1, h.2.2.2.1⟩
  rw [sentences, sentencePieces_period hm hr, sentences]
  simp [hs.trim_eq, hs.ne_nil]

/-- The first sentence in front of others. -/
theorem sentences_cons {s : Text} (hs : IsSentence s) (t : Text) :
    sentences (s ++ '.' :: ' ' :: t) = s :: sentences t := by
  rw [hs.sentences_period rfl, sentences_cons_space]

/-- **The sentences of a paragraph** are those that it was made of. -/
theorem sentences_paragraph {ss : List Text} (h : ∀ s ∈ ss, IsSentence s) :
    (paragraph ss).sentences = ss := by
  induction ss with
  | nil => rfl
  | cons s ss ih =>
    have hs := h s (by simp)
    rcases ss with _ | ⟨s', ss⟩
    · rw [paragraph_singleton, hs.sentences_period rfl]
      rfl
    · rw [paragraph_cons_cons, sentences_cons hs, ih fun t ht => h t (List.mem_cons_of_mem _ ht)]

end Text

end CardText
