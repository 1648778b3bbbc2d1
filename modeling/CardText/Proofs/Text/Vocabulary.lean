import CardText.Proofs.Template
import CardText.Proofs.Text.Numeral

/-!
# Texts over a vocabulary

What can stand in a text whose words are known to come from a list, next to written numbers.

* `Text.IsFrom`, `Text.AllFrom`: words of the list or numbers in digits;
* `Text.fits`: the words of the list allow a piece of text, whose first and last words may be parts
  of them; `Text.fits_of_isInfix` says that nothing else stands in a text over the vocabulary;
* `Template.search?_unwords_eq_none`, `Template.matchAfter?_unwords_eq_none`: a template with a
  foreign literal matches nowhere in such a text.
-/

namespace CardText

namespace Text

/-! ### Pieces at a seam -/

/-- At the seam of two texts the last piece of the one and the first of the other become one. -/
theorem exists_cut_append (p : Char → Bool) (s t : Text) : ∃ us u v vs,
    cut p s = us ++ [u] ∧ cut p t = v :: vs ∧ cut p (s ++ t) = us ++ (u ++ v) :: vs := by
  obtain ⟨v, vs, hv⟩ := List.exists_cons_of_ne_nil (cut_ne_nil p t)
  induction s with
  | nil => exact ⟨[], [], v, vs, rfl, hv, by simpa using hv⟩
  | cons c s ih =>
    obtain ⟨us, u, v', vs', hs, ht, hst⟩ := ih
    by_cases hc : p c = true
    · exact ⟨[] :: us, u, v', vs', by simp [cut, hc, hs], ht, by simp [cut, hc, hst]⟩
    · have hc : p c = false := by simpa using hc
      rcases us with _ | ⟨x, us⟩
      · exact ⟨[], c :: u, v', vs', by simp [cut, hc, hs], ht, by simp [cut, hc, hst]⟩
      · exact ⟨(c :: x) :: us, u, v', vs', by simp [cut, hc, hs], ht, by simp [cut, hc, hst]⟩

theorem cut_unwords {ws : List Text} (hne : ws ≠ []) (h : ∀ w ∈ ws, ' ' ∉ w) :
    cut (· == ' ') (unwords ws) = ws := by
  induction ws with
  | nil => exact absurd rfl hne
  | cons w ws ih =>
    have hw : cut (· == ' ') w = [w] := cut_eq_singleton fun c hc => by
      have : c ≠ ' ' := fun he => h w (by simp) (he ▸ hc)
      simpa using this
    rcases ws with _ | ⟨v, ws⟩
    · simpa using hw
    · rw [unwords_cons_cons, cut_append_cons (by rfl), hw,
        ih (by simp) fun u hu => h u (List.mem_cons_of_mem _ hu)]
      rfl

theorem mem_unwords {ws : List Text} {c : Char} (h : c ∈ unwords ws) :
    c = ' ' ∨ ∃ w ∈ ws, c ∈ w := by
  induction ws with
  | nil => cases h
  | cons w ws ih =>
    rcases ws with _ | ⟨v, ws⟩
    · exact .inr ⟨w, by simp, by simpa using h⟩
    · rw [unwords_cons_cons, List.mem_append, List.mem_cons] at h
      rcases h with h | h | h
      · exact .inr ⟨w, by simp, h⟩
      · exact .inl h
      · rcases ih h with h | ⟨u, hu, hc⟩
        · exact .inl h
        · exact .inr ⟨u, List.mem_cons_of_mem _ hu, hc⟩

theorem mem_unwords_of_mem {ws : List Text} {w : Text} (hw : w ∈ ws) {c : Char} (hc : c ∈ w) :
    c ∈ unwords ws := by
  induction ws with
  | nil => cases hw
  | cons v ws ih =>
    rcases ws with _ | ⟨u, ws⟩
    · obtain rfl := List.mem_singleton.1 hw
      simpa using hc
    · rw [unwords_cons_cons, List.mem_append, List.mem_cons]
      rcases List.mem_cons.1 hw with rfl | hw
      · exact .inl hc
      · exact .inr (.inr (ih hw))

theorem lowerPlain_unwords (ws : List Text) :
    (unwords ws).lowerPlain = unwords (ws.map lowerPlain) := by
  induction ws with
  | nil => rfl
  | cons w ws ih =>
    rcases ws with _ | ⟨v, ws⟩
    · simp
    · simp only [unwords_cons_cons, lowerPlain_append, lowerPlain_cons, List.map_cons] at ih ⊢
      rw [ih]
      rfl

/-! ### Parts of a text -/

theorem isPrefixOf?_append (s t : Text) : s.isPrefixOf? (s ++ t) = some t := by
  induction s with
  | nil => rfl
  | cons c s ih =>
    rw [List.cons_append]
    change (if c == c then s.isPrefixOf? (s ++ t) else none) = some t
    rw [if_pos (by simp), ih]

/-- There is a break at a place where `here` finds something. -/
theorem isSome_breakAt? {here : Text → Option Text} {s t : Text} (hs : s <:+ t)
    (h : (here s).isSome = true) : (breakAt? here t).isSome = true := by
  induction t with
  | nil =>
    obtain rfl := List.suffix_nil.1 hs
    simpa [breakAt?] using h
  | cons c r ih =>
    rw [breakAt?]
    split
    · rfl
    · next hn =>
      rcases List.suffix_cons_iff.1 hs with rfl | hs
      · rw [hn] at h; cases h
      · simpa using ih hs

/-- A text has a part if the part stands in it as a whole. -/
theorem has_iff {m t : Text} : has m t = true ↔ m <:+: t := by
  constructor
  · intro h
    obtain ⟨b, hb⟩ := Option.isSome_iff_exists.1 h
    rw [eq_of_breakOn? hb]
    exact List.infix_append b.1 m b.2
  · rintro ⟨a, b, rfl⟩
    rw [List.append_assoc]
    exact isSome_breakAt? (List.suffix_append a (m ++ b)) (by rw [isPrefixOf?_append]; rfl)

/-- A text breaks just if it has the separator. -/
theorem breakOn?_eq_none_iff {sep t : Text} : breakOn? sep t = none ↔ ¬ sep <:+: t := by
  rw [← has_iff, has, Option.not_isSome_iff_eq_none]

theorem cutOn_eq_singleton {sep t : Text} (hsep : sep ≠ []) (h : ¬ sep <:+: t) :
    cutOn sep hsep t = [t] := cutOn_of_none hsep (breakOn?_eq_none_iff.2 h)

/-! ### Words of a vocabulary -/

/-- A word of the list, or a number in digits. -/
def IsFrom (vs : List Text) (w : Text) : Prop := w ∈ vs ∨ ∃ n, w = ofNat n

/-- All words are from the list or numbers. -/
def AllFrom (vs ws : List Text) : Prop := ∀ w ∈ ws, IsFrom vs w

namespace AllFrom

variable {vs ws us : List Text}

theorem of_contains (h : ws.all vs.contains = true) : AllFrom vs ws := fun w hw =>
  .inl (by simpa using List.all_eq_true.1 h w hw)

theorem number (vs : List Text) (n : Nat) : AllFrom vs [ofNat n] := fun _ hw =>
  .inr ⟨n, List.mem_singleton.1 hw⟩

theorem append (hw : AllFrom vs ws) (hu : AllFrom vs us) : AllFrom vs (ws ++ us) := fun w h =>
  (List.mem_append.1 h).elim (hw w) (hu w)

theorem mono (h : AllFrom us ws) (hs : us.all vs.contains = true) : AllFrom vs ws := fun w hw =>
  (h w hw).imp_left fun hu => by simpa using List.all_eq_true.1 hs w hu

theorem of_append_right (us : List Text) (h : AllFrom vs ws) : AllFrom (us ++ vs) ws :=
  fun w hw => (h w hw).imp_left (List.mem_append_right us)

theorem cons (w : Text) (h : AllFrom vs ws) : AllFrom (w :: vs) (w :: ws) := fun u hu => by
  rcases List.mem_cons.1 hu with rfl | hu
  · exact .inl (by simp)
  · exact (h u hu).imp_left (List.mem_cons_of_mem w)

/-- What is true of the words of a vocabulary and of every number. -/
theorem forall_mem {p : Text → Bool} (h : AllFrom vs ws) (hp : vs.all p = true)
    (hn : ∀ n, p (ofNat n) = true) : ∀ w ∈ ws, p w = true := by
  intro w hw
  rcases h w hw with hw | ⟨n, rfl⟩
  · exact List.all_eq_true.1 hp w hw
  · exact hn n

/-- What is true of the characters of a vocabulary and of every digit. -/
theorem forall_char {p : Char → Bool} (h : AllFrom vs ws) (hp : (vs.all fun v => v.all p) = true)
    (hd : "0123456789".toList.all p = true) : ∀ w ∈ ws, ∀ c ∈ w, p c = true := by
  intro w hw c hc
  have := h.forall_mem hp (fun n => List.all_eq_true.2 fun x hx =>
    of_isDigit hd (isDigit_of_mem_ofNat hx)) w hw
  exact List.all_eq_true.1 this c hc

theorem lowerPlain (h : AllFrom vs ws) :
    AllFrom (vs.map Text.lowerPlain) (ws.map Text.lowerPlain) := by
  intro w hw
  obtain ⟨v, hv, rfl⟩ := List.mem_map.1 hw
  rcases h v hv with h | ⟨n, rfl⟩
  · exact .inl (List.mem_map_of_mem h)
  · exact .inr ⟨n, lowerPlain_ofNat n⟩

/-- The words are without spaces if those of the vocabulary are. -/
theorem not_mem_space (h : AllFrom vs ws) (hs : (vs.all fun v => v.all (· != ' ')) = true) :
    ∀ w ∈ ws, ' ' ∉ w := fun w hw hm => by
  have := h.forall_char hs (by decide) w hw ' ' hm
  simp at this

/-- The words of a text over a vocabulary are those that it was made of. -/
theorem ne_nil_and_not_isBlank (h : AllFrom vs ws)
    (hv : (vs.all fun v => !v.isEmpty && v.all fun c => !isBlank c) = true) :
    ∀ w ∈ ws, w ≠ [] ∧ ∀ c ∈ w, isBlank c = false := by
  have hn : ∀ n, (!(ofNat n).isEmpty && (ofNat n).all fun c => !isBlank c) = true := fun n => by
    simpa using fun c hc => isBlank_of_isDigit (isDigit_of_mem_ofNat hc)
  intro w hw
  have := h.forall_mem hv hn w hw
  simpa using this

end AllFrom

/-- The piece is in digits, or stands in a word of the list in the way that `r` tells. -/
def standsIn (r : Text → Text → Bool) (vs : List Text) (m : Text) : Bool :=
  m.all Char.isDigit || vs.any (r m)

/-- The words of the list allow the text `t`: its first word ends one of them, its last word begins
one, and those between do both. -/
def fits (vs : List Text) (t : Text) : Bool :=
  let ms := cut (· == ' ') t.lowerPlain
  let vs := vs.map lowerPlain
  ms.all (standsIn has vs) && ms.dropLast.all (standsIn List.isSuffixOf vs) &&
    ms.tail.all (standsIn List.isPrefixOf vs)

theorem fits_congr {vs us : List Text} (h : vs.map lowerPlain = us.map lowerPlain) :
    fits vs = fits us := by
  funext t
  simp only [fits, h]

theorem standsIn_of_mem {r : Text → Text → Bool} (hr : ∀ m v, r m v = true → m <:+: v)
    {vs ws : List Text} (h : AllFrom vs ws) {m w : Text} (hw : w ∈ ws) (hm : r m w = true) :
    standsIn r vs m = true := by
  rw [standsIn, Bool.or_eq_true]
  rcases h w hw with hw | ⟨n, rfl⟩
  · exact .inr (List.any_eq_true.2 ⟨w, hw, hm⟩)
  · exact .inl (List.all_eq_true.2 fun c hc => isDigit_of_mem_ofNat ((hr m _ hm).subset hc))

theorem not_mem_lowerPlain {w : Text} (h : ' ' ∉ w) : ' ' ∉ w.lowerPlain := by
  intro hm
  obtain ⟨c, hc, he⟩ := List.mem_map.1 hm
  exact h (eq_of_toLower_eq he rfl ▸ hc)

/-- What stands in joined words is cut inside of them: the first of its pieces ends a word, the last
begins one, and those between do both. -/
theorem mem_cut_of_isInfix {ws : List Text} (hne : ws ≠ []) (hs : ∀ w ∈ ws, ' ' ∉ w) {t : Text}
    (ht : t <:+: unwords ws) :
    (∀ m ∈ cut (· == ' ') t, ∃ w ∈ ws, m <:+: w) ∧
      (∀ m ∈ (cut (· == ' ') t).dropLast, ∃ w ∈ ws, m <:+ w) ∧
        ∀ m ∈ (cut (· == ' ') t).tail, ∃ w ∈ ws, m <+: w := by
  obtain ⟨a, b, hab⟩ := ht
  obtain ⟨ia, la, v, vs, -, htb, hw⟩ := exists_cut_append (· == ' ') a (t ++ b)
  obtain ⟨it, lt, hb, tb, hct, -, htb'⟩ := exists_cut_append (· == ' ') t b
  rw [← List.append_assoc, hab, cut_unwords hne hs] at hw
  rw [htb'] at htb
  rw [hct]
  rcases it with _ | ⟨x, it⟩
  · -- a text without spaces stands in a single word
    obtain ⟨rfl, rfl⟩ := List.cons.inj htb
    have hm : la ++ (lt ++ hb) ∈ ws := by rw [hw]; simp
    exact ⟨by simpa using ⟨_, hm, la, hb, by simp⟩, by simp, by simp⟩
  · obtain ⟨rfl, rfl⟩ := List.cons.inj htb
    have hfirst : la ++ x ∈ ws := by rw [hw]; simp
    have hbetween : ∀ m ∈ it, m ∈ ws := fun m hm => by rw [hw]; simp [hm]
    have hlast : lt ++ hb ∈ ws := by rw [hw]; simp
    have hsuf : ∀ m ∈ x :: it, ∃ w ∈ ws, m <:+ w := List.forall_mem_cons.2
      ⟨⟨_, hfirst, List.suffix_append la x⟩, fun m hm => ⟨m, hbetween m hm, List.suffix_rfl⟩⟩
    have hpre : ∀ m ∈ it ++ [lt], ∃ w ∈ ws, m <+: w := List.forall_mem_append.2
      ⟨fun m hm => ⟨m, hbetween m hm, List.prefix_rfl⟩,
        List.forall_mem_singleton.2 ⟨_, hlast, List.prefix_append lt hb⟩⟩
    refine ⟨fun m hm => ?_, by simpa only [List.dropLast_concat] using hsuf, hpre⟩
    rcases List.mem_append.1 hm with hm | hm
    · obtain ⟨w, hw, h⟩ := hsuf m hm
      exact ⟨w, hw, h.isInfix⟩
    · obtain ⟨w, hw, h⟩ := hpre m (List.mem_append_right it hm)
      exact ⟨w, hw, h.isInfix⟩

/-- **Only what the vocabulary allows stands in a text over it.** -/
theorem fits_of_isInfix {vs ws : List Text} (h : AllFrom vs ws)
    (hs : ∀ w ∈ ws, ' ' ∉ w) {t : Text} (ht : t.lowerPlain <:+: (unwords ws).lowerPlain) :
    fits vs t = true := by
  rw [lowerPlain_unwords] at ht
  replace hs : ∀ w ∈ ws.map lowerPlain, ' ' ∉ w := by
    simpa using fun w hw => not_mem_lowerPlain (hs w hw)
  replace h := h.lowerPlain
  rw [fits]
  generalize ws.map lowerPlain = ws at h hs ht
  generalize vs.map lowerPlain = vs at h
  generalize t.lowerPlain = t at ht
  rcases eq_or_ne ws [] with rfl | hne
  · rw [unwords_nil, List.infix_nil] at ht
    subst ht
    rfl
  obtain ⟨hin, hsuf, hpre⟩ := mem_cut_of_isInfix hne hs ht
  simp only [Bool.and_eq_true, List.all_eq_true]
  refine ⟨⟨fun m hm => ?_, fun m hm => ?_⟩, fun m hm => ?_⟩
  · obtain ⟨w, hw, hi⟩ := hin m hm
    exact standsIn_of_mem (fun _ _ => has_iff.1) h hw (has_iff.2 hi)
  · obtain ⟨w, hw, hi⟩ := hsuf m hm
    exact standsIn_of_mem (fun _ _ hv => (List.isSuffixOf_iff_suffix.1 hv).isInfix) h hw
      (List.isSuffixOf_iff_suffix.2 hi)
  · obtain ⟨w, hw, hi⟩ := hpre m hm
    exact standsIn_of_mem (fun _ _ hv => (List.isPrefixOf_iff_prefix.1 hv).isInfix) h hw
      (List.isPrefixOf_iff_prefix.2 hi)

/-! ### Literals in such a text -/

/-- The first word of a text and the literal agree as far as both go. -/
def opensLike (v t : Text) : Bool :=
  List.isPrefixOf t.lowerPlain v.lowerPlain || List.isPrefixOf v.lowerPlain t.lowerPlain

theorem opensLike_of_isPrefix {v t r : Text} (h : t.lowerPlain <+: (v ++ r).lowerPlain) :
    opensLike v t = true := by
  rw [lowerPlain_append] at h
  rw [opensLike, Bool.or_eq_true, List.isPrefixOf_iff_prefix, List.isPrefixOf_iff_prefix]
  exact List.prefix_or_prefix_of_prefix h (List.prefix_append _ _)

theorem unwords_cons_eq (w : Text) (ws : List Text) :
    ∃ r, unwords (w :: ws) = w ++ r ∧ ∀ c v, w = c :: v → unwords (v :: ws) = v ++ r := by
  rcases ws with _ | ⟨u, ws⟩
  · exact ⟨[], by simp, fun c v _ => by simp⟩
  · exact ⟨' ' :: unwords (u :: ws), by simp, fun c v _ => by simp⟩

end Text

namespace Template

open Text

variable {σ : Type} {vs ws : List Text}

/-- A template matches nowhere in a text over a vocabulary that lacks a literal of each choice. -/
theorem matchAfter?_eq_none_of_fits {t : Template σ} (ht : admits (fits vs) (fits vs) t = false)
    (h : AllFrom vs ws) (hs : ∀ w ∈ ws, ' ' ∉ w) {s : Text} (hsuf : s <:+ unwords ws)
    (b : Option Char) : matchAfter? t b s = none :=
  matchAfter?_eq_none ht (fun _ hw => fits_of_isInfix h hs (isInfix_lowerPlain hw hsuf))
    fun _ _ hs' _ hw => fits_of_isInfix h hs (isInfix_lowerPlain hw (hs'.trans hsuf))

/-- Nothing is found in such a text. -/
theorem search?_unwords_eq_none {t : Template σ} (ht : admits (fits vs) (fits vs) t = false)
    (h : AllFrom vs ws) (hs : ∀ w ∈ ws, ' ' ∉ w) : search? t (unwords ws) = none :=
  search?_eq_none_of_isSuffix fun b _ hsuf => matchAfter?_eq_none_of_fits ht h hs hsuf b

/-- Templates that each lack a literal match nowhere at the start of such a text. -/
theorem match?_unwords_eq_none (ts : List (Template σ))
    (ht : ts.all (fun t => !admits (fits vs) (fits vs) t) = true) (h : AllFrom vs ws)
    (hs : ∀ w ∈ ws, ' ' ∉ w) {t : Template σ} (hm : t ∈ ts) : match? t (unwords ws) = none :=
  matchAfter?_eq_none_of_fits (by simpa using List.all_eq_true.1 ht t hm) h hs List.suffix_rfl none

theorem fits_cons_of_isInfix {v : Text} (h : AllFrom vs ws) (hs : ∀ w ∈ ws, ' ' ∉ w)
    (hv : ' ' ∉ v) {l : Text} (hl : l.lowerPlain <:+: (unwords (v :: ws)).lowerPlain) :
    fits (v :: vs) l = true :=
  fits_of_isInfix (h.cons v) (by simpa [hv] using hs) hl

/-- Behind the first character the first word of a text is only a part. -/
theorem isSuffix_unwords_of_length_lt {c : Char} {v s : Text}
    (hs : s <:+ unwords ((c :: v) :: ws)) (hlt : s.length < (unwords ((c :: v) :: ws)).length) :
    s <:+ unwords (v :: ws) := by
  obtain ⟨r, hr, hr'⟩ := unwords_cons_eq (c :: v) ws
  rw [hr' c v rfl]
  rw [hr, List.cons_append] at hs hlt
  rcases List.suffix_cons_iff.1 hs with rfl | hs
  · exact absurd hlt (Nat.lt_irrefl _)
  · exact hs

/-- A template matches nowhere at the start of a text over a vocabulary if it opens with another
word, or lacks a literal further on. -/
theorem matchAfter?_unwords_eq_none {c : Char} {v : Text} {t : Template σ}
    (ht : admits (fun l => opensLike (c :: v) l && fits ((c :: v) :: vs) l) (fits (v :: vs)) t =
      false)
    (h : AllFrom vs ws) (hs : ∀ w ∈ ws, ' ' ∉ w) (hv : ' ' ∉ c :: v) (b : Option Char) :
    matchAfter? t b (unwords ((c :: v) :: ws)) = none := by
  obtain ⟨r, hr, -⟩ := unwords_cons_eq (c :: v) ws
  refine matchAfter?_eq_none ht (fun l hl => ?_) fun l s hs' hlt hl => ?_
  · rw [Bool.and_eq_true]
    exact ⟨opensLike_of_isPrefix (hr ▸ hl), fits_cons_of_isInfix h hs hv hl.isInfix⟩
  · exact fits_cons_of_isInfix h hs (fun hm => hv (List.mem_cons_of_mem _ hm))
      (isInfix_lowerPlain hl (isSuffix_unwords_of_length_lt hs' hlt))

/-- A template goes nowhere behind the first character of a text over a vocabulary that lacks a
literal of it. -/
theorem ends_unwords_eq_nil {c : Char} {v : Text} {t : Template σ}
    (ht : admits (fits (v :: vs)) (fits (v :: vs)) t = false) (h : AllFrom vs ws)
    (hs : ∀ w ∈ ws, ' ' ∉ w) (hv : ' ' ∉ v) {d : Cursor σ}
    (hd : d.rest <:+ unwords ((c :: v) :: ws))
    (hlt : d.rest.length < (unwords ((c :: v) :: ws)).length) : ends t d = [] := by
  have hd := isSuffix_unwords_of_length_lt hd hlt
  rw [List.eq_nil_iff_forall_not_mem]
  intro e he
  have : admits (fits (v :: vs)) (fits (v :: vs)) t = true := admits_of_mem_ends
    (fun l hl => fits_cons_of_isInfix h hs hv (isInfix_lowerPlain hl hd))
    (fun l s hs' _ hl => fits_cons_of_isInfix h hs hv (isInfix_lowerPlain hl (hs'.trans hd))) he
  rw [ht] at this
  cases this

end Template

end CardText
