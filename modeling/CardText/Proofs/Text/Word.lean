import CardText.Proofs.Text.Sentence

/-!
# Words in their places

In a text of words with single spaces between them, what stands between two spaces is one of the
words.

* `Text.OpensWord`: what stands from the start of a word on; `Text.mem_of_opensWord` and
  `Text.mem_of_unwords_eq` say that a word is there, `Text.mem_of_part` that the words of a part are
  there;
* `Text.exists_mem_of_place`: a word starts where one of its characters stands and none in front;
* `Text.of_isAlphanum`: what is true of the plain letters and digits one by one;
* `Template.Opens`: a template that begins with a known word; at the edge of a word it matches
  nowhere in a row of other words (`Template.search?_eq_none_of_opens`), and is found behind them
  (`Template.search?_append_of_opens`);
* `Text.body_period`: the body of words with any blanks between them and a period behind them.
-/

namespace CardText

namespace Text

variable {ws : List Text} {a b m t s u v : Text}

/-! ### Places between words -/

/-- `s` is the text `t` from one of its words on. -/
def OpensWord (t s : Text) : Prop := s = t ∨ ∃ a, t = a ++ ' ' :: s

theorem OpensWord.isSuffix (h : OpensWord t s) : s <:+ t := by
  rcases h with rfl | ⟨a, rfl⟩
  · exact List.suffix_rfl
  · exact (List.suffix_cons ' ' s).trans (List.suffix_append a _)

/-- At a space of a text its words part. -/
theorem eq_cut_append_cut (hw : ∀ w ∈ ws, ' ' ∉ w) (h : unwords ws = t ++ ' ' :: s) :
    ws = cut (· == ' ') t ++ cut (· == ' ') s := by
  have hne : ws ≠ [] := by
    rintro rfl
    simp at h
  rw [← cut_append_cons (c := ' ') (by rfl), ← h, cut_unwords hne hw]

theorem cut_word (hv : ' ' ∉ v) : cut (· == ' ') v = [v] :=
  cut_eq_singleton fun c hc => by
    have : c ≠ ' ' := fun he => hv (he ▸ hc)
    simpa using this

theorem unwords_cut (t : Text) : unwords (cut (· == ' ') t) = t := by
  induction t with
  | nil => rfl
  | cons c t ih =>
    obtain ⟨v, vs, hv⟩ := List.exists_cons_of_ne_nil (cut_ne_nil (· == ' ') t)
    rw [hv] at ih
    rw [cut, hv]
    split
    · next hc =>
      rw [unwords_cons_cons, ih, eq_of_beq hc]
      rfl
    · obtain ⟨r, hr, hr'⟩ := unwords_cons_eq (c :: v) vs
      rw [hr' c v rfl] at ih
      rw [List.modifyHead_cons, hr, List.cons_append, ih]

/-- One of the words starts where a word starts. -/
theorem OpensWord.exists_mem (hw : ∀ w ∈ ws, ' ' ∉ w) (hne : ws ≠ [])
    (h : OpensWord (unwords ws) s) : ∃ v ∈ ws, ∃ vs, s = unwords (v :: vs) := by
  obtain ⟨v, vs, hv⟩ := List.exists_cons_of_ne_nil (cut_ne_nil (· == ' ') s)
  refine ⟨v, ?_, vs, by rw [← hv, unwords_cut]⟩
  rcases h with rfl | ⟨a, ha⟩
  · rw [← cut_unwords hne hw, hv]
    simp
  · rw [eq_cut_append_cut hw ha, hv]
    simp

/-- What stands from the start of a word up to a space is that word. -/
theorem mem_of_opensWord (hw : ∀ w ∈ ws, ' ' ∉ w) (h : OpensWord (unwords ws) (v ++ ' ' :: s))
    (hv : ' ' ∉ v) : v ∈ ws := by
  have hc : cut (· == ' ') (v ++ ' ' :: s) = v :: cut (· == ' ') s := by
    rw [cut_append_cons (by rfl), cut_word hv, List.singleton_append]
  rcases h with h | ⟨a, ha⟩
  · rw [eq_cut_append_cut hw h.symm, cut_word hv]
    simp
  · rw [eq_cut_append_cut hw ha, hc]
    simp

/-- What stands in front of the first space is the first word. -/
theorem eq_of_unwords_cons {w : Text} (hw : ∀ u ∈ w :: ws, ' ' ∉ u)
    (h : unwords (w :: ws) = v ++ ' ' :: s) (hv : ' ' ∉ v) : v = w := by
  have hc := eq_cut_append_cut hw h
  rw [cut_word hv, List.singleton_append] at hc
  exact (List.cons.inj hc).1.symm

/-- What stands behind the last space is the last word. -/
theorem mem_of_unwords_eq (hw : ∀ w ∈ ws, ' ' ∉ w) (h : unwords ws = t ++ ' ' :: v)
    (hv : ' ' ∉ v) : v ∈ ws := by
  rw [eq_cut_append_cut hw h, cut_word hv]
  simp

/-- The words of a part that no word goes over the ends of are words of the text. -/
theorem mem_of_part (hw : ∀ w ∈ ws, ' ' ∉ w) (hne : ws ≠ []) (h : unwords ws = a ++ (m ++ b))
    (ha : a = [] ∨ ∃ a', a = a' ++ [' ']) (hb : b = [] ∨ ∃ b', b = ' ' :: b') :
    ∀ q ∈ cut (· == ' ') m, q ∈ ws := by
  have hm : ∀ q ∈ cut (· == ' ') m, q ∈ cut (· == ' ') (a ++ m) := by
    rcases ha with rfl | ⟨a, rfl⟩
    · exact fun q hq => hq
    · rw [List.append_assoc, List.singleton_append, cut_append_cons (by rfl)]
      exact fun q => List.mem_append_right _
  rw [← List.append_assoc] at h
  rcases hb with rfl | ⟨b, rfl⟩
  · rw [List.append_nil] at h
    rwa [← cut_unwords hne hw, h]
  · rw [eq_cut_append_cut hw h]
    exact fun q hq => List.mem_append_left _ (hm q hq)

/-! ### Places between characters -/

section Place

variable {p : Char → Bool} {r tail w : Text}

/-- A run of characters of a class ends where another character stands. -/
theorem takeWhile_append (hw : ∀ c ∈ w, p c = true) (hr : r.head?.any p = false) :
    (w ++ r).takeWhile p = w := by
  rw [List.takeWhile_append_of_pos hw]
  cases r with
  | nil => simp
  | cons c r =>
    have hc : p c = false := by simpa using hr
    rw [List.takeWhile_cons_of_neg (by simp [hc]), List.append_nil]

/-- Where a character of the class stands, but none in front of it, one of the words starts. -/
theorem exists_mem_of_place (hp : p ' ' = false) (hw : ∀ w ∈ ws, ∀ c ∈ w, p c = true)
    (ht : tail.head?.any p = false) (h : a ++ s = unwords ws ++ tail)
    (hlt : tail.length ≤ s.length) (ha : a.getLast?.any p = false) (hs : s.head?.any p = true) :
    ∃ w ∈ ws, ∃ r, s = w ++ r ∧ r.head?.any p = false := by
  obtain ⟨s, rfl⟩ : tail <:+ s :=
    List.suffix_of_suffix_length_le (List.suffix_append _ _) ⟨a, h⟩ hlt
  rw [← List.append_assoc, List.append_left_inj] at h
  have hspace : ∀ w ∈ ws, ' ' ∉ w := fun w hm hc => by
    rw [hw w hm ' ' hc] at hp
    cases hp
  have hne : ws ≠ [] := by
    rintro rfl
    obtain rfl := (List.append_eq_nil_iff.1 h).2
    rw [List.nil_append, ht] at hs
    cases hs
  have hopen : OpensWord (unwords ws) s := by
    rcases List.eq_nil_or_concat a with rfl | ⟨b, c, rfl⟩
    · exact .inl h
    · have hc : c ∈ unwords ws := by simp [← h]
      rcases mem_unwords hc with rfl | ⟨w, hm, hcw⟩
      · exact .inr ⟨b, by simpa using h.symm⟩
      · have := hw w hm c hcw
        simp [this] at ha
  obtain ⟨v, hv, vs, rfl⟩ := hopen.exists_mem hspace hne
  refine ⟨v, hv, ?_⟩
  rcases vs with _ | ⟨u, vs⟩
  · exact ⟨tail, by simp, ht⟩
  · exact ⟨' ' :: (unwords (u :: vs) ++ tail), by simp, by simpa using hp⟩

end Place

/-! ### Letter case -/

theorem not_mem_of_lowerPlain {c : Char} (hc : c.toLower = c) (h : v.lowerPlain = u) (hu : c ∉ u) :
    c ∉ v := by
  intro hm
  have := List.mem_map_of_mem (f := Char.toLower) hm
  rw [hc] at this
  exact hu (h ▸ this)

/-- A word in plain letters is folded in the same way as it is put in lower case. -/
theorem fold_of_lowerPlain (h : v.lowerPlain = u) (hu : ∀ c ∈ u, c.toNat < 128) : v.fold = u := by
  rw [← h]
  refine fold_eq_lowerPlain fun c hc => ?_
  have hm : c.toLower ∈ u := h ▸ List.mem_map_of_mem hc
  constructor
  · rintro rfl
    exact absurd (hu _ hm) (by decide)
  · rintro rfl
    exact absurd (hu _ hm) (by decide)

/-- A text that begins with a word in either letter case. -/
theorem exists_of_lowerPlain_append {a b : Text} (h : t.lowerPlain = a ++ ' ' :: b) :
    ∃ v r, t = v ++ ' ' :: r ∧ v.lowerPlain = a := by
  obtain ⟨v, r, rfl, hv, hr⟩ := List.map_eq_append_iff.1 h
  obtain ⟨c, r, rfl, hc, -⟩ := List.map_eq_cons_iff.1 hr
  exact ⟨v, r, by rw [eq_of_toLower_eq hc rfl], hv⟩

/-! ### Letters and digits -/

theorem toNat_lt_of_isAlphanum {c : Char} (h : c.isAlphanum = true) : c.toNat < 128 := by
  unfold Char.isAlphanum Char.isAlpha Char.isUpper Char.isLower Char.isDigit at h
  simp only [Bool.or_eq_true, Bool.and_eq_true, decide_eq_true_eq, UInt32.le_iff_toNat_le,
    ge_iff_le] at h
  have : c.toNat = c.val.toNat := rfl
  have : 'Z'.val.toNat = 90 := rfl
  have : 'z'.val.toNat = 122 := rfl
  have : '9'.val.toNat = 57 := rfl
  omega

/-- What is true of the plain letters and of the ten digits, checked one by one. -/
theorem of_isAlphanum {p : Char → Bool}
    (hp : ((List.range 128).map Char.ofNat).all (fun c => !c.isAlphanum || p c) = true) {c : Char}
    (h : c.isAlphanum = true) : p c = true := by
  have hc : c ∈ (List.range 128).map Char.ofNat :=
    List.mem_map.2 ⟨c.toNat, List.mem_range.2 (toNat_lt_of_isAlphanum h), Char.ofNat_toNat c⟩
  simpa [h] using List.all_eq_true.1 hp c hc

theorem isWordChar_of_isBlank {c : Char} (h : isBlank c = true) :
    Template.isWordChar c = false := by
  rw [Template.isWordChar, Bool.or_eq_false_iff]
  constructor
  · by_contra ha
    have hp := of_isAlphanum (p := fun c => !isBlank c) (by decide) (by simpa using ha)
    simp [h] at hp
  · rw [beq_eq_false_iff_ne]
    rintro rfl
    cases h

/-! ### Bodies -/

theorem mem_of_mem_words {w : Text} (hw : w ∈ t.words) {c : Char} (hc : c ∈ w) : c ∈ t := by
  have hm := List.mem_flatten.2 ⟨w, (List.mem_filter.1 hw).1, hc⟩
  rw [cut_flatten] at hm
  exact (List.mem_filter.1 hm).1

theorem mem_of_mem_squeeze {c : Char} (h : c ∈ t.squeeze) (hc : c ≠ ' ') : c ∈ t := by
  obtain ⟨w, hw, hm⟩ := (mem_unwords h).resolve_left hc
  exact mem_of_mem_words hw hm

/-- The body of words with blanks around them and a period behind them. -/
theorem body_period (h : ∀ c ∈ t, c = ' ' ∨ isPlain c = true) (hne : t.words ≠ []) :
    body (t ++ ['.']) = paragraph [t.squeeze] := by
  have hm : ∀ c ∈ t, c ≠ '(' ∧ c ≠ '.' ∧ c ≠ ',' := by
    intro c hc
    rcases h c hc with rfl | hp
    · decide
    · simp only [isPlain, Bool.and_eq_true, bne_iff_ne] at hp
      exact ⟨hp.1.1.1.1.2, hp.1.1.2, hp.2⟩
  have hparted : parted 0 [] (t ++ ['.']) = ⟨t ++ ['.'], []⟩ := parted_eq_self fun hc => by
    rcases List.mem_append.1 hc with hc | hc
    · exact (hm _ hc).1 rfl
    · cases List.mem_singleton.1 hc
  have hcomma : ',' ∉ t.squeeze ++ ['.'] := fun hc => by
    rcases List.mem_append.1 hc with hc | hc
    · exact (hm _ (mem_of_mem_squeeze hc (by decide))).2.2 rfl
    · cases List.mem_singleton.1 hc
  rw [body, stripReminders, hparted]
  simp only
  have hdot : t.squeeze.NoGapBefore '.' :=
    noGapBefore_of_not_mem fun hc => (hm _ (mem_of_mem_squeeze hc (by decide))).2.1 rfl
  rw [closeUp_squeeze_period hne hdot, closeUp_eq_self (noGapBefore_of_not_mem hcomma),
    paragraph_singleton]

end Text

namespace Template

open Text

variable {σ : Type} {ts : List (Template σ)} {ks ws : List Text} {a s r : Text}

/-! ### Templates that begin at the edge of a word -/

/-- What the template goes over begins with one of the words `ks` and a space. -/
def Opens (ks : List Text) (t : Template σ) : Prop :=
  ∀ {c d : Cursor σ}, d ∈ ends t c → ∃ v r, c.rest = v ++ ' ' :: r ∧ v.lowerPlain ∈ ks

theorem opens_lit (k : Text) : Opens [k.lowerPlain] (phrase (lit (k ++ [' ']) :: ts)) := by
  intro c d h
  obtain ⟨e, he, -⟩ := mem_ends_phrase_cons.1 h
  obtain ⟨v, hv, hr, -⟩ := exists_of_mem_ends_lit he
  rw [lowerPlain_append] at hv
  obtain ⟨u, r, rfl, hu⟩ := exists_of_lowerPlain_append (b := []) hv
  exact ⟨u, r ++ e.rest, by simp [hr], by simp [hu]⟩

theorem opens_oneOf {ws : List String} (hne : ws ≠ []) :
    Opens (ws.map fun w => lowerPlain w.toList) (phrase (oneOf ws :: lit [' '] :: ts)) := by
  intro c d h
  obtain ⟨e, he, h⟩ := mem_ends_phrase_cons.1 h
  obtain ⟨f, hf, -⟩ := mem_ends_phrase_cons.1 h
  obtain ⟨w, hw, v, hv, hr⟩ := exists_of_mem_ends_oneOf hne he
  obtain ⟨u, hu, hr', -⟩ := exists_of_mem_ends_lit hf
  obtain ⟨x, r, rfl, hx⟩ := exists_of_lowerPlain_append (a := []) (b := []) hu
  obtain rfl := List.map_eq_nil_iff.1 hx
  exact ⟨v, r ++ f.rest, by simp [hr, hr'], hv ▸ List.mem_map_of_mem hw⟩

theorem isWordChar_of_toLower {c : Char} (h : isWordChar c.toLower = true) :
    isWordChar c = true := by
  unfold Char.toLower at h
  split at h
  · next hc =>
    have hu : c.isUpper = true := decide_eq_true hc
    have ha : c.isAlpha = true := by
      unfold Char.isAlpha
      rw [hu, Bool.true_or]
    simp [isWordChar, Char.isAlphanum, ha]
  · exact h

section Words

variable (ho : Opens ks (phrase ts)) (hks : ks.all (fun k => !k.isEmpty && k.all isWordChar) = true)
  (hw : ∀ w ∈ ws, ∀ c ∈ w, isWordChar c = true) (hk : ∀ k ∈ ks, k ∉ ws.map lowerPlain)
include ho hks hw hk

/-- A template that begins at the edge of a word matches nowhere in words that it does not begin
with. -/
theorem matchAfter?_eq_none_of_opens (tail : Text) (ht : tail.head?.all (· == ' ') = true)
    (h : a ++ s = unwords ws ++ tail) (hlt : tail.length ≤ s.length) :
    matchAfter? (phrase (edge :: ts)) a.getLast? s = none := by
  rw [matchAfter?_eq_none_iff, List.eq_nil_iff_forall_not_mem]
  intro d hd
  obtain ⟨e, he, hd⟩ := mem_ends_phrase_cons.1 hd
  cases mem_ends_iff.1 he with
  | edge hedge =>
    obtain ⟨v, r, hr, hv⟩ := ho hd
    have hkv := List.all_eq_true.1 hks _ hv
    rw [Bool.and_eq_true, Bool.not_eq_true', List.all_eq_true] at hkv
    have hvc : ∀ c ∈ v, isWordChar c = true := fun c hc =>
      isWordChar_of_toLower (hkv.2 _ (List.mem_map_of_mem hc))
    have hne : v ≠ [] := by
      rintro rfl
      exact absurd hkv.1 (by simp)
    obtain ⟨c, v', rfl⟩ := List.exists_cons_of_ne_nil hne
    have hs : s.head?.any isWordChar = true := by simp [show s = _ from hr, hvc c (by simp)]
    have ha : a.getLast?.any isWordChar = false := by
      simpa [Cursor.isEdge, hs] using hedge
    have ht' : tail.head?.any isWordChar = false := by
      cases tail with
      | nil => rfl
      | cons x tail =>
        obtain rfl : x = ' ' := by simpa using ht
        rfl
    -- the word that starts here is the one that the template begins with
    obtain ⟨w, hm, r', hr', hhead⟩ := exists_mem_of_place (by rfl) hw ht' h hlt ha hs
    have : w = c :: v' := by
      rw [← takeWhile_append (hw w hm) hhead, ← hr', show s = _ from hr]
      exact takeWhile_append hvc (by rfl)
    exact hk _ hv (this ▸ List.mem_map_of_mem hm)

theorem search?_eq_none_of_opens : search? (phrase (edge :: ts)) (unwords ws) = none :=
  searchAfter?_eq_none fun a s h => by
    rw [Option.or_none]
    exact matchAfter?_eq_none_of_opens ho hks hw hk [] (by rfl) (by simpa using h)
      (by simp)

/-- Behind such words a template that begins at the edge of a word is found. -/
theorem search?_append_of_opens {m : Match σ}
    (hm : matchAfter? (phrase (edge :: ts)) (some ' ') r = some m) :
    search? (phrase (edge :: ts)) (unwords ws ++ ' ' :: r) = some (unwords ws ++ [' '], m) := by
  have hr : unwords ws ++ ' ' :: r = (unwords ws ++ [' ']) ++ r := by simp
  rw [hr]
  refine searchAfter?_append (fun a s h hs => ?_) (by simpa using hm)
  have hlen := List.length_pos_iff.2 hs
  rw [Option.or_none]
  refine matchAfter?_eq_none_of_opens ho hks hw hk (' ' :: r) (by rfl) ?_ ?_
  · rw [hr, ← List.append_assoc, h]
  · simp only [List.length_cons, List.length_append]
    omega

/-- Nothing is found either if the template matches nowhere behind them. -/
theorem search?_append_eq_none_of_opens
    (hr : ∀ b (s : Text), s <:+ r → matchAfter? (phrase (edge :: ts)) b s = none) :
    search? (phrase (edge :: ts)) (unwords ws ++ ' ' :: r) = none := by
  refine searchAfter?_eq_none fun a s h => ?_
  rcases Nat.lt_or_ge r.length s.length with hlt | hle
  · rw [Option.or_none]
    exact matchAfter?_eq_none_of_opens ho hks hw hk (' ' :: r) (by rfl) h hlt
  · have hsuf : r <:+ unwords ws ++ ' ' :: r :=
      (List.suffix_cons ' ' r).trans (List.suffix_append _ _)
    exact hr _ s (List.suffix_of_suffix_length_le ⟨a, h⟩ hsuf hle)

end Words

end Template

end CardText
