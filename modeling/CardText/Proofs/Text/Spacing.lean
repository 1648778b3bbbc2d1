import CardText.Text.Reminder
import Mathlib.Data.List.TakeWhile

/-!
# Blanks in a text

What trimming, squeezing and the removal of reminder text leave of the blanks of a text.

* `Text.isVoid_iff`, `Text.head_trim`, `Text.getLast_trim`, `Text.trim_eq_self`: a trimmed text has
  no blank at either end, and nothing else changes;
* `Text.Spaced`: the blanks of a text are single spaces, with none at its end.  Such a text is left
  as it is by `Text.squeeze` (`Text.Spaced.squeeze_eq`), and every body is one
  (`Text.spaced_body`);
* `Text.NoGapBefore`: no space stands in front of a mark.  `Text.closeUp` brings this about and
  changes nothing where it holds already.
-/

namespace CardText

namespace Text

/-! ### Trimming -/

theorem head_append {s : Text} (h : s ≠ []) (t : Text) : (s ++ t).head? = s.head? := by
  obtain ⟨c, r, rfl⟩ := List.exists_cons_of_ne_nil h
  rfl

theorem dropTrailing_append {p : Char → Bool} {s : Text} {c : Char} (hc : p c = false) (r : Text)
    (hr : ∀ x ∈ r, p x = true) : dropTrailing p (s ++ c :: r) = s ++ [c] := by
  have h : ∀ x ∈ r.reverse, p x = true := fun x hx => hr x (List.mem_reverse.1 hx)
  rw [dropTrailing, List.reverse_append, List.reverse_cons, List.append_assoc,
    List.dropWhile_append_of_pos h]
  simp [hc]

theorem dropTrailing_append_of_all {p : Char → Bool} (t : Text) {s : Text}
    (h : ∀ c ∈ s, p c = true) : dropTrailing p (t ++ s) = dropTrailing p t := by
  have h : ∀ c ∈ s.reverse, p c = true := fun c hc => h c (List.mem_reverse.1 hc)
  rw [dropTrailing, List.reverse_append, List.dropWhile_append_of_pos h]
  rfl

theorem dropAround_append_of_all {p : Char → Bool} (t : Text) {s : Text}
    (h : ∀ c ∈ s, p c = true) : dropAround p (t ++ s) = dropAround p t := by
  rw [dropAround, dropAround, dropLeading, List.dropWhile_append, ← dropLeading]
  split_ifs with ht
  · rw [List.isEmpty_iff.1 ht, List.dropWhile_eq_nil_iff.2 h]
  · exact dropTrailing_append_of_all _ h

theorem dropTrailing_eq_self {p : Char → Bool} {t : Text}
    (h : ∀ c ∈ t.getLast?, p c = false) : dropTrailing p t = t := by
  rcases List.eq_nil_or_concat t with rfl | ⟨s, c, rfl⟩
  · rfl
  · rw [List.concat_eq_append] at h ⊢
    exact dropTrailing_append (h c (by simp)) [] (by simp)

theorem dropLeading_eq_self {p : Char → Bool} {t : Text} (h : ∀ c ∈ t.head?, p c = false) :
    dropLeading p t = t := by
  cases t with
  | nil => rfl
  | cons c r => simp [dropLeading, h c (by simp)]

theorem dropTrailing_isPrefix (p : Char → Bool) (t : Text) : dropTrailing p t <+: t := by
  have := List.dropWhile_suffix p (l := t.reverse)
  rw [dropTrailing, ← List.reverse_suffix, List.reverse_reverse]
  exact this

theorem dropLeading_isSuffix (p : Char → Bool) (t : Text) : dropLeading p t <:+ t :=
  List.dropWhile_suffix p

theorem trim_isInfix (t : Text) : t.trim <:+: t :=
  (dropTrailing_isPrefix _ _).isInfix.trans (dropLeading_isSuffix _ _).isInfix

theorem mem_of_mem_trim {t : Text} {c : Char} (h : c ∈ t.trim) : c ∈ t :=
  (trim_isInfix t).subset h

/-- Behind what is left stood only characters of the class. -/
theorem exists_dropTrailing (p : Char → Bool) (t : Text) :
    ∃ s, t = dropTrailing p t ++ s ∧ ∀ c ∈ s, p c = true := by
  refine ⟨(t.reverse.takeWhile p).reverse, ?_, fun c hc => ?_⟩
  · rw [dropTrailing, ← List.reverse_append, List.takeWhile_append_dropWhile, List.reverse_reverse]
  · exact List.mem_takeWhile_imp (List.mem_reverse.1 hc)

/-- Around what is left stood only characters of the class. -/
theorem exists_dropAround (p : Char → Bool) (t : Text) : ∃ a b, t = a ++ dropAround p t ++ b ∧
    (∀ c ∈ a, p c = true) ∧ ∀ c ∈ b, p c = true := by
  obtain ⟨b, hb, hp⟩ := exists_dropTrailing p (dropLeading p t)
  refine ⟨t.takeWhile p, b, ?_, fun c => List.mem_takeWhile_imp, hp⟩
  rw [dropAround, List.append_assoc, ← hb, dropLeading, List.takeWhile_append_dropWhile]

/-- Around a trimmed text stood only blanks. -/
theorem exists_trim (t : Text) : ∃ a b, t = a ++ t.trim ++ b ∧
    (∀ c ∈ a, isBlank c = true) ∧ ∀ c ∈ b, isBlank c = true :=
  exists_dropAround isBlank t

theorem mem_trim_of_mem {t : Text} {c : Char} (h : c ∈ t) (hc : isBlank c = false) : c ∈ t.trim := by
  obtain ⟨a, b, ht, ha, hb⟩ := exists_trim t
  rw [ht, List.mem_append, List.mem_append] at h
  rcases h with (h | h) | h
  · rw [ha c h] at hc
    cases hc
  · exact h
  · rw [hb c h] at hc
    cases hc

/-- What is left after leading blanks begins with no blank. -/
theorem head_dropLeading {p : Char → Bool} {t : Text} {c : Char}
    (h : c ∈ (dropLeading p t).head?) : p c = false := by
  have := List.head?_dropWhile_not p t
  rw [dropLeading] at h
  rw [Option.mem_def.1 h] at this
  simpa using this

theorem getLast_dropTrailing {p : Char → Bool} {t : Text} {c : Char}
    (h : c ∈ (dropTrailing p t).getLast?) : p c = false := by
  rw [dropTrailing, List.getLast?_reverse] at h
  exact head_dropLeading h

/-- A trimmed text begins with no blank. -/
theorem head_trim {t : Text} {c : Char} (h : c ∈ t.trim.head?) : isBlank c = false := by
  refine head_dropLeading (t := t) ?_
  obtain ⟨s, hs⟩ := dropTrailing_isPrefix isBlank (dropLeading isBlank t)
  change (dropTrailing isBlank (dropLeading isBlank t)).head? = some c at h
  rw [← hs, List.head?_append, h]
  rfl

/-- A trimmed text ends with no blank. -/
theorem getLast_trim {t : Text} {c : Char} (h : c ∈ t.trim.getLast?) : isBlank c = false :=
  getLast_dropTrailing h

/-- A text without blanks at its ends is its own trimmed form. -/
theorem trim_eq_self {t : Text} (hh : ∀ c ∈ t.head?, isBlank c = false)
    (hl : ∀ c ∈ t.getLast?, isBlank c = false) : t.trim = t := by
  rw [trim, dropAround, dropLeading_eq_self hh, dropTrailing_eq_self hl]

theorem trim_cons_space (t : Text) : trim (' ' :: t) = trim t := rfl

/-- Blanks around a text without blanks at its ends are trimmed off. -/
theorem trim_append {a t b : Text} (ha : ∀ c ∈ a, isBlank c = true) (hb : ∀ c ∈ b, isBlank c = true)
    (hne : t ≠ []) (hh : ∀ c ∈ t.head?, isBlank c = false)
    (hl : ∀ c ∈ t.getLast?, isBlank c = false) : trim (a ++ t ++ b) = t := by
  have hlead : dropLeading isBlank (a ++ (t ++ b)) = t ++ b := by
    rw [dropLeading, List.dropWhile_append_of_pos ha]
    exact dropLeading_eq_self (by rwa [head_append hne])
  rw [trim, dropAround, List.append_assoc, hlead]
  obtain ⟨s, c, rfl⟩ := (List.eq_nil_or_concat t).resolve_left hne
  rw [List.concat_eq_append, List.append_assoc, List.singleton_append]
  exact dropTrailing_append (hl c (by simp)) b hb

@[simp] theorem trim_trim (t : Text) : t.trim.trim = t.trim :=
  trim_eq_self (fun _ => head_trim) (fun _ => getLast_trim)

/-- A character that is no blank stays when its text is trimmed. -/
theorem trim_ne_nil_of_mem {t : Text} {c : Char} (hc : c ∈ t) (hb : isBlank c = false) :
    t.trim ≠ [] := by
  induction t with
  | nil => cases hc
  | cons x r ih =>
    by_cases hx : isBlank x = true
    · have hr : c ∈ r := (List.mem_cons.1 hc).resolve_left fun h => by simp [← h, hb] at hx
      have : trim (x :: r) = trim r := by simp [trim, dropAround, dropLeading, hx]
      rw [this]
      exact ih hr
    · have : dropLeading isBlank (x :: r) = x :: r := by simp [dropLeading, hx]
      intro h
      rw [trim, dropAround, this, dropTrailing, List.reverse_eq_nil_iff,
        List.dropWhile_eq_nil_iff] at h
      exact hx (h x (by simp))

theorem trim_eq_nil_iff {t : Text} : t.trim = [] ↔ ∀ c ∈ t, isBlank c = true := by
  constructor
  · intro h c hc
    by_contra hb
    exact trim_ne_nil_of_mem hc (by simpa using hb) h
  · intro h
    by_contra hne
    obtain ⟨c, r, hr⟩ := List.exists_cons_of_ne_nil hne
    have hc : isBlank c = false := head_trim (t := t) (by simp [hr])
    rw [h c (mem_of_mem_trim (by simp [hr]))] at hc
    cases hc

theorem isVoid_iff {t : Text} : t.isVoid = true ↔ ∀ c ∈ t, isBlank c = true := by
  rw [isVoid, List.isEmpty_iff, trim_eq_nil_iff]

theorem isVoid_append (s t : Text) : isVoid (s ++ t) = (s.isVoid && t.isVoid) := by
  rw [Bool.eq_iff_iff, Bool.and_eq_true, isVoid_iff, isVoid_iff, isVoid_iff,
    List.forall_mem_append]

theorem isVoid_eq_false {t : Text} {c : Char} (hc : c ∈ t) (hb : isBlank c = false) :
    t.isVoid = false := by
  rw [isVoid, List.isEmpty_eq_false_iff]
  exact trim_ne_nil_of_mem hc hb

/-- No blank lies in the range of the plain letters. -/
theorem isBlank_of_toNat {c : Char} (h : 65 ≤ c.toNat ∧ c.toNat ≤ 122) : isBlank c = false := by
  simp only [isBlank, inSpans, blankSpans, List.any_cons, List.any_nil, Bool.or_false,
    Bool.or_eq_false_iff, Bool.and_eq_false_iff, decide_eq_false_iff_not]
  omega

/-! ### Endings -/

theorem exists_dropPrefixes (part : Text) (n : Nat) (t : Text) :
    ∃ k, t = (List.replicate k part).flatten ++ dropPrefixes part n t := by
  induction n generalizing t with
  | zero => exact ⟨0, rfl⟩
  | succ n ih =>
    rw [dropPrefixes]
    split
    · next rest h =>
      obtain ⟨k, hk⟩ := ih rest
      refine ⟨k + 1, ?_⟩
      rw [List.replicate_succ, List.flatten_cons, List.append_assoc, ← hk]
      exact (append_of_isPrefixOf? h).symm
    · exact ⟨0, rfl⟩

/-- Without the suffix a text is as before in front of it. -/
theorem exists_dropSuffixes (t suffix : Text) :
    ∃ k, t = t.dropSuffixes suffix ++ (List.replicate k suffix).flatten := by
  obtain ⟨k, hk⟩ := exists_dropPrefixes suffix.reverse t.length t.reverse
  refine ⟨k, ?_⟩
  rw [dropSuffixes]
  have := congrArg List.reverse hk
  rw [List.reverse_reverse, List.reverse_append, List.reverse_flatten, List.map_replicate,
    List.reverse_reverse, List.reverse_replicate] at this
  exact this

/-! ### Pieces -/

theorem cutOn_of_some {sep t : Text} (hsep : sep ≠ []) {b : Text × Text}
    (h : breakOn? sep t = some b) : cutOn sep hsep t = b.1 :: cutOn sep hsep b.2 := by
  rw [cutOn]
  split
  · next f a hb =>
    obtain rfl := Option.some.inj (h.symm.trans hb)
    rfl
  · next hb =>
    rw [h] at hb
    cases hb

theorem cutOn_of_none {sep t : Text} (hsep : sep ≠ []) (h : breakOn? sep t = none) :
    cutOn sep hsep t = [t] := by
  rw [cutOn]
  split
  · next f a hb =>
    rw [h] at hb
    cases hb
  · rfl

/-- Cutting the pieces of a text further is cutting the text, where the first cut is one of the
second kind too. -/
theorem flatMap_cut_cut {p q : Char → Bool} (h : ∀ c, p c = true → q c = true) (t : Text) :
    (cut p t).flatMap (cut q) = cut q t := by
  induction t with
  | nil => rfl
  | cons c t ih =>
    obtain ⟨w, ws, hw⟩ := List.exists_cons_of_ne_nil (cut_ne_nil p t)
    rw [hw, List.flatMap_cons] at ih
    by_cases hp : p c = true
    · have hq : cut q (c :: t) = [] :: cut q t := by rw [cut, if_pos (h c hp)]
      rw [cut, if_pos hp, hw, List.flatMap_cons, List.flatMap_cons, ih, hq]
      rfl
    · rw [cut, if_neg hp, hw, List.modifyHead_cons, List.flatMap_cons, cut, cut, ← ih]
      obtain ⟨v, vs, hv⟩ := List.exists_cons_of_ne_nil (cut_ne_nil q w)
      split_ifs <;> simp [hv]

/-! ### Words and single spaces -/

theorem cut_cons_of_not {p : Char → Bool} {c : Char} (hc : p c = false) (t : Text) :
    cut p (c :: t) = (cut p t).modifyHead (c :: ·) := by
  simp [cut, hc]

/-- A character in front of a word joins it. -/
theorem words_cons {c d : Char} (hc : isBlank c = false) (hd : isBlank d = false) (t : Text) :
    words (c :: d :: t) = (words (d :: t)).modifyHead (c :: ·) := by
  obtain ⟨w, ws, h⟩ := List.exists_cons_of_ne_nil (cut_ne_nil isBlank t)
  simp [words, cut_cons_of_not hc, cut_cons_of_not hd, h]

theorem words_singleton {c : Char} (hc : isBlank c = false) : words [c] = [[c]] := by
  simp [words, cut, hc]

theorem words_nil : words [] = [] := rfl

/-- A character in front of a blank is a word of its own. -/
theorem words_cons_of_blank {c d : Char} (hc : isBlank c = false) (hd : isBlank d = true)
    (t : Text) : words (c :: d :: t) = [c] :: words t := by
  rw [← List.singleton_append, words_append_cons hd, words_singleton hc]
  rfl

/-- A text without blanks is a single word. -/
theorem words_eq_singleton {w : Text} (hw : w ≠ []) (h : ∀ c ∈ w, isBlank c = false) :
    words w = [w] := by
  simp [words, cut_eq_singleton h, hw]

theorem words_ne_nil {t : Text} {c : Char} (hc : c ∈ t) (hb : isBlank c = false) :
    words t ≠ [] := by
  intro h
  have hm : c ∈ (cut isBlank t).flatten := by
    rw [cut_flatten]
    exact List.mem_filter.2 ⟨hc, by simp [hb]⟩
  obtain ⟨w, hw, hcw⟩ := List.mem_flatten.1 hm
  have : w ∈ words t := List.mem_filter.2 ⟨hw, by simpa using List.ne_nil_of_mem hcw⟩
  rw [h] at this
  cases this

theorem words_eq_nil {t : Text} (h : ∀ c ∈ t, isBlank c = true) : words t = [] := by
  induction t with
  | nil => rfl
  | cons c t ih =>
    rw [← List.nil_append (c :: t), words_append_cons (h c (by simp)), words_nil, List.nil_append,
      ih fun x hx => h x (List.mem_cons_of_mem _ hx)]

theorem words_eq_nil_iff {t : Text} : t.words = [] ↔ t.isVoid = true := by
  rw [isVoid_iff]
  refine ⟨fun h c hc => ?_, words_eq_nil⟩
  by_contra hb
  exact words_ne_nil hc (by simpa using hb) h

/-- Blanks in front of a text have no part in its words. -/
theorem words_append_of_blank {gap : Text} (h : ∀ c ∈ gap, isBlank c = true) (t : Text) :
    words (gap ++ t) = words t := by
  induction gap with
  | nil => rfl
  | cons c gap ih =>
    rw [List.cons_append, ← List.nil_append (c :: (gap ++ t)), words_append_cons (h c (by simp)),
      words_nil, List.nil_append, ih fun x hx => h x (List.mem_cons_of_mem _ hx)]

/-- Nor have those behind it. -/
theorem words_append_blank (t : Text) {gap : Text} (h : ∀ c ∈ gap, isBlank c = true) :
    words (t ++ gap) = words t := by
  cases gap with
  | nil => rw [List.append_nil]
  | cons c gap =>
    rw [words_append_cons (h c (by simp)), words_eq_nil fun x hx => h x (List.mem_cons_of_mem _ hx),
      List.append_nil]

theorem words_trim (t : Text) : t.trim.words = t.words := by
  obtain ⟨a, b, ht, ha, hb⟩ := exists_trim t
  conv => rhs; rw [ht]
  rw [words_append_blank _ hb, words_append_of_blank ha]

/-- A run of blanks separates words, whichever blanks they are. -/
theorem words_append_blanks {gap : Text} (hne : gap ≠ []) (h : ∀ c ∈ gap, isBlank c = true)
    (s t : Text) : words (s ++ gap ++ t) = s.words ++ t.words := by
  obtain ⟨c, r, rfl⟩ := List.exists_cons_of_ne_nil hne
  rw [List.append_assoc, List.cons_append, words_append_cons (h c (by simp)),
    words_append_of_blank fun x hx => h x (List.mem_cons_of_mem _ hx)]

@[simp] theorem unwords_nil : unwords [] = [] := rfl

@[simp] theorem unwords_singleton (w : Text) : unwords [w] = w := by simp [unwords]

@[simp] theorem unwords_cons_cons (w v : Text) (ws : List Text) :
    unwords (w :: v :: ws) = w ++ ' ' :: unwords (v :: ws) := by simp [unwords]

theorem unwords_cons {ws : List Text} (h : ws ≠ []) (w : Text) :
    unwords (w :: ws) = w ++ ' ' :: unwords ws := by
  obtain ⟨v, vs, rfl⟩ := List.exists_cons_of_ne_nil h
  exact unwords_cons_cons w v vs

theorem unwords_append {us vs : List Text} (hu : us ≠ []) (hv : vs ≠ []) :
    unwords (us ++ vs) = unwords us ++ ' ' :: unwords vs := by
  induction us with
  | nil => exact absurd rfl hu
  | cons u us ih =>
    rcases us with _ | ⟨u', us⟩
    · simp [unwords_cons hv]
    · have := ih (by simp)
      simp only [List.cons_append] at this ⊢
      rw [unwords_cons_cons, this, unwords_cons_cons, List.append_assoc, List.cons_append]

/-- The last word stands at the end, behind what belongs to the words before it. -/
theorem exists_unwords_concat (ws : List Text) :
    ∃ front, ∀ w, unwords (ws ++ [w]) = front ++ w := by
  rcases eq_or_ne ws [] with rfl | hne
  · exact ⟨[], fun w => unwords_singleton w⟩
  · exact ⟨unwords ws ++ [' '], fun w => by rw [unwords_append hne (by simp)]; simp⟩

/-- Words in a row are more than nothing if the first one is. -/
theorem unwords_ne_nil {ws : List Text} (hne : ws ≠ []) (h : ∀ w ∈ ws, w ≠ []) :
    unwords ws ≠ [] := by
  obtain ⟨w, rest, rfl⟩ := List.exists_cons_of_ne_nil hne
  have hw := h w List.mem_cons_self
  cases rest with
  | nil => simpa [unwords] using hw
  | cons v rest => simp [unwords, hw]

/-- A list of words is read back from its text. -/
theorem words_unwords {ws : List Text} (h : ∀ w ∈ ws, w ≠ [] ∧ ∀ c ∈ w, isBlank c = false) :
    words (unwords ws) = ws := by
  induction ws with
  | nil => rfl
  | cons w ws ih =>
    obtain ⟨hw, hb⟩ := h w (by simp)
    rcases ws with _ | ⟨v, ws⟩
    · simpa using words_eq_singleton hw hb
    · rw [unwords_cons_cons, words_append_cons (by decide), words_eq_singleton hw hb,
        ih fun u hu => h u (List.mem_cons_of_mem _ hu)]
      rfl

/-- Every blank is a space with another character behind it that is no blank. -/
def Spaced : Text → Prop
  | [] => True
  | [c] => isBlank c = false
  | c :: d :: r => (isBlank c = true → c = ' ' ∧ isBlank d = false) ∧ Spaced (d :: r)

instance decidableSpaced : (t : Text) → Decidable t.Spaced
  | [] => isTrue trivial
  | [c] => inferInstanceAs (Decidable (isBlank c = false))
  | _ :: d :: r => @instDecidableAnd _ _ _ (decidableSpaced (d :: r))

theorem Spaced.tail {c : Char} {r : Text} (h : Spaced (c :: r)) : Spaced r := by
  cases r with
  | nil => trivial
  | cons d r => exact h.2

theorem Spaced.cons {c : Char} {r : Text} (hc : isBlank c = false) (h : Spaced r) :
    Spaced (c :: r) := by
  cases r with
  | nil => exact hc
  | cons d r => exact ⟨fun hb => absurd hb (by simp [hc]), h⟩

theorem Spaced.append {a b : Text} (ha : Spaced a) (hb : Spaced b) : Spaced (a ++ b) := by
  induction a with
  | nil => exact hb
  | cons c a ih =>
    have hs := ih ha.tail
    cases a with
    | nil => exact Spaced.cons ha hs
    | cons d a => exact ⟨ha.1, hs⟩

theorem Spaced.getLast {t : Text} (h : Spaced t) {c : Char} (hc : c ∈ t.getLast?) :
    isBlank c = false := by
  induction t with
  | nil => cases hc
  | cons x r ih =>
    cases r with
    | nil => cases hc; exact h
    | cons d r => exact ih h.tail (by simpa using hc)

theorem Spaced.suffix {s t : Text} (h : Spaced t) (hs : s <:+ t) : Spaced s := by
  obtain ⟨r, rfl⟩ := hs
  induction r with
  | nil => exact h
  | cons c r ih => exact ih h.tail

/-- A front of a spaced text is spaced unless it ends in a blank. -/
theorem Spaced.of_isPrefix {s t : Text} (h : Spaced t) (hs : s <+: t)
    (hl : ∀ c ∈ s.getLast?, isBlank c = false) : Spaced s := by
  induction s generalizing t with
  | nil => trivial
  | cons c s ih =>
    obtain ⟨r, rfl⟩ := hs
    cases s with
    | nil => exact hl c rfl
    | cons d s => exact ⟨h.1, ih h.tail (List.prefix_append _ _) (by simpa using hl)⟩

theorem spaced_of_not_blank {t : Text} (h : ∀ c ∈ t, isBlank c = false) : Spaced t := by
  induction t with
  | nil => trivial
  | cons c r ih => exact .cons (h c (by simp)) (ih fun x hx => h x (List.mem_cons_of_mem _ hx))

/-- A space in front of a word. -/
theorem Spaced.space {t : Text} (h : Spaced t) {c : Char} (hc : c ∈ t.head?)
    (hb : isBlank c = false) : Spaced (' ' :: t) := by
  cases t with
  | nil => cases hc
  | cons d r => cases hc; exact ⟨fun _ => ⟨rfl, hb⟩, h⟩

theorem head_unwords {w : Text} (hw : w ≠ []) (ws : List Text) :
    (unwords (w :: ws)).head? = w.head? := by
  obtain ⟨c, r, rfl⟩ := List.exists_cons_of_ne_nil hw
  cases ws with
  | nil => simp
  | cons v ws => simp

theorem spaced_unwords {ws : List Text} (h : ∀ w ∈ ws, w ≠ [] ∧ ∀ c ∈ w, isBlank c = false) :
    Spaced (unwords ws) := by
  induction ws with
  | nil => trivial
  | cons w ws ih =>
    obtain ⟨-, hb⟩ := h w (by simp)
    rcases ws with _ | ⟨v, ws⟩
    · simpa using spaced_of_not_blank hb
    · have hs := ih fun u hu => h u (List.mem_cons_of_mem _ hu)
      obtain ⟨hv, hvb⟩ := h v (by simp)
      obtain ⟨c, r, rfl⟩ := List.exists_cons_of_ne_nil hv
      rw [unwords_cons_cons]
      exact (spaced_of_not_blank hb).append
        (hs.space (c := c) (by simp [head_unwords]) (hvb c (by simp)))

theorem spaced_squeeze (t : Text) : Spaced t.squeeze :=
  spaced_unwords fun _ hw => not_isBlank_of_mem_words hw

theorem squeeze_cons {c d : Char} (hc : isBlank c = false) (hd : isBlank d = false) (t : Text) :
    squeeze (c :: d :: t) = c :: squeeze (d :: t) := by
  rw [squeeze, words_cons hc hd, squeeze]
  obtain ⟨w, ws, h⟩ := List.exists_cons_of_ne_nil (words_ne_nil (t := d :: t) (by simp) hd)
  rw [h]
  cases ws <;> simp

theorem squeeze_cons_space {c d : Char} (hc : isBlank c = false) (hd : isBlank d = false)
    (t : Text) : squeeze (c :: ' ' :: d :: t) = c :: ' ' :: squeeze (d :: t) := by
  have h : words (c :: ' ' :: d :: t) = [c] :: words (d :: t) := by
    rw [← List.singleton_append, words_append_cons (by decide), words_singleton hc]
    rfl
  rw [squeeze, h, unwords_cons (words_ne_nil (by simp) hd)]
  rfl

/-- A spaced text that begins with no blank is its own squeezed form. -/
theorem Spaced.squeeze_eq {t : Text} (h : Spaced t) (hh : ∀ c ∈ t.head?, isBlank c = false) :
    t.squeeze = t := by
  match t with
  | [] => rfl
  | [c] => simp [squeeze, words_singleton (hh c (by simp))]
  | c :: d :: r =>
    have hc := hh c (by simp)
    by_cases hd : isBlank d = true
    · cases r with
      | nil => exact absurd (show isBlank d = false from h.2) (by simp [hd])
      | cons e r =>
        obtain ⟨rfl, he⟩ := h.2.1 hd
        rw [squeeze_cons_space hc he, h.2.2.squeeze_eq (by simpa using he)]
    · have hd : isBlank d = false := by simpa using hd
      rw [squeeze_cons hc hd, h.2.squeeze_eq (by simpa using hd)]
termination_by t.length

theorem head_squeeze {t : Text} {c : Char} (h : c ∈ t.squeeze.head?) : isBlank c = false := by
  rw [squeeze] at h
  rcases hw : t.words with _ | ⟨w, ws⟩
  · rw [hw] at h; cases h
  · have hm := not_isBlank_of_mem_words (t := t) (w := w) (by simp [hw])
    rw [hw, head_unwords hm.1] at h
    exact hm.2 c (List.mem_of_mem_head? h)

/-! ### Spaces in front of marks -/

theorem ne_space {c : Char} (h : isBlank c = false) : c ≠ ' ' := by
  rintro rfl
  exact absurd h (by decide)

/-- No space stands directly in front of `mark`. -/
def NoGapBefore (mark : Char) (t : Text) : Prop := ¬ [' ', mark] <:+: t

theorem NoGapBefore.infix {mark : Char} {s t : Text} (h : NoGapBefore mark t) (hs : s <:+: t) :
    NoGapBefore mark s :=
  fun hi => h (hi.trans hs)

theorem noGapBefore_cons_cons {mark c d : Char} {r : Text} :
    NoGapBefore mark (c :: d :: r) ↔ ¬ (c = ' ' ∧ d = mark) ∧ NoGapBefore mark (d :: r) := by
  simp only [NoGapBefore, List.infix_cons_iff (a := c), List.cons_prefix_cons, List.nil_prefix,
    and_true, not_or]
  constructor
  · rintro ⟨h, h'⟩; exact ⟨fun ⟨a, b⟩ => h ⟨a.symm, b.symm⟩, h'⟩
  · rintro ⟨h, h'⟩; exact ⟨fun ⟨a, b⟩ => h ⟨a.symm, b.symm⟩, h'⟩

theorem noGapBefore_nil (mark : Char) : NoGapBefore mark [] := by simp [NoGapBefore]

theorem noGapBefore_singleton (mark c : Char) : NoGapBefore mark [c] := by
  simp [NoGapBefore, List.infix_cons_iff, List.cons_prefix_cons]

theorem NoGapBefore.cons {mark c : Char} {r : Text} (h : NoGapBefore mark r) (hc : c ≠ ' ') :
    NoGapBefore mark (c :: r) := by
  cases r with
  | nil => exact noGapBefore_singleton mark c
  | cons d r => exact noGapBefore_cons_cons.2 ⟨fun hcd => hc hcd.1, h⟩

theorem closeUp_eq_self {mark : Char} {t : Text} (h : NoGapBefore mark t) :
    closeUp mark t = t := by
  induction t with
  | nil => rfl
  | cons c t ih =>
    cases t with
    | nil => rfl
    | cons d r =>
      obtain ⟨hcd, hr⟩ := noGapBefore_cons_cons.1 h
      rw [closeUp, if_neg hcd, ih hr]

/-- What a text without the spaces in front of a mark begins with. -/
theorem head_closeUp (mark : Char) {d : Char} (hd : d ≠ ' ') (r : Text) :
    ∃ r', closeUp mark (d :: r) = d :: r' := by
  cases r with
  | nil => exact ⟨[], rfl⟩
  | cons e r => exact ⟨_, by rw [closeUp, if_neg fun h => hd h.1]⟩

theorem Spaced.closeUp {t : Text} (h : Spaced t) (mark : Char) : Spaced (closeUp mark t) := by
  induction t with
  | nil => trivial
  | cons c t ih =>
    cases t with
    | nil => exact h
    | cons d r =>
      have hr := ih h.2
      rw [Text.closeUp]
      split
      · exact hr
      · by_cases hc : isBlank c = true
        · obtain ⟨rfl, hd⟩ := h.1 hc
          obtain ⟨r', hr'⟩ := head_closeUp mark (ne_space hd) r
          exact hr.space (c := d) (by simp [hr']) hd
        · exact .cons (by simpa using hc) hr

/-- Closing up keeps every place without a gap, before whatever mark. -/
theorem NoGapBefore.closeUp {m : Char} {t : Text} (hn : NoGapBefore m t) (h : Spaced t)
    (mark : Char) : NoGapBefore m (closeUp mark t) := by
  induction t with
  | nil => exact hn
  | cons c t ih =>
    cases t with
    | nil => exact hn
    | cons d r =>
      obtain ⟨hcd, hr⟩ := noGapBefore_cons_cons.1 hn
      have hr' := ih hr h.2
      rw [Text.closeUp]
      split
      · exact hr'
      · by_cases hc : c = ' '
        · obtain ⟨-, hd⟩ := h.1 (by rw [hc]; decide)
          obtain ⟨e, he⟩ := head_closeUp mark (ne_space hd) r
          rw [he] at hr' ⊢
          exact noGapBefore_cons_cons.2 ⟨hcd, hr'⟩
        · exact hr'.cons hc

theorem noGapBefore_closeUp {t : Text} (h : Spaced t) (mark : Char) :
    NoGapBefore mark (closeUp mark t) := by
  induction t with
  | nil => exact noGapBefore_nil mark
  | cons c t ih =>
    cases t with
    | nil => exact noGapBefore_singleton mark c
    | cons d r =>
      have hr := ih h.2
      rw [closeUp]
      split
      · exact hr
      · next hcd =>
        by_cases hc : c = ' '
        · obtain ⟨-, hd⟩ := h.1 (by rw [hc]; decide)
          obtain ⟨e, he⟩ := head_closeUp mark (ne_space hd) r
          rw [he] at hr ⊢
          exact noGapBefore_cons_cons.2 ⟨hcd, hr⟩
        · exact hr.cons hc

/-- Two texts close up apart where no gap stands between them. -/
theorem closeUp_append {mark : Char} {a : Text} (ha : ∀ c ∈ a.getLast?, c ≠ ' ') (b : Text) :
    closeUp mark (a ++ b) = closeUp mark a ++ closeUp mark b := by
  induction a with
  | nil => rfl
  | cons c a ih =>
    cases a with
    | nil =>
      have hc : c ≠ ' ' := ha c rfl
      cases b with
      | nil => rfl
      | cons d b =>
        change closeUp mark (c :: d :: b) = c :: closeUp mark (d :: b)
        rw [closeUp, if_neg fun h => hc h.1]
    | cons d a =>
      have := ih (by simpa using ha)
      rw [List.cons_append, List.cons_append] at *
      rw [closeUp, closeUp, this]
      split <;> rfl

/-! ### Bodies -/

theorem spaced_body (t : Text) : Spaced t.body :=
  ((spaced_squeeze _).closeUp '.').closeUp ','

theorem noGapBefore_comma_body (t : Text) : NoGapBefore ',' t.body :=
  noGapBefore_closeUp ((spaced_squeeze _).closeUp '.') ','

theorem noGapBefore_period_body (t : Text) : NoGapBefore '.' t.body :=
  (noGapBefore_closeUp (spaced_squeeze _) '.').closeUp ((spaced_squeeze _).closeUp '.') ','

/-- A body begins with no blank. -/
theorem head_body {t : Text} {c : Char} (h : c ∈ t.body.head?) : isBlank c = false := by
  have hq : ∀ x ∈ (squeeze (parted 0 [] t).body).head?, isBlank x = false :=
    fun x hx => head_squeeze hx
  have key : ∀ {u : Text} {mark : Char}, (∀ x ∈ u.head?, isBlank x = false) →
      ∀ x ∈ (closeUp mark u).head?, isBlank x = false := by
    intro u mark hu x hx
    cases u with
    | nil => cases hx
    | cons d r =>
      have hd := hu d rfl
      obtain ⟨e, he⟩ := head_closeUp mark (ne_space hd) r
      rw [he] at hx
      cases hx
      exact hd
  exact key (key hq) c h

end Text

end CardText
