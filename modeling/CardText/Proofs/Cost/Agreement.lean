import CardText.Proofs.Cost.Token

/-!
# The first cost of an activated ability

A text is split at a dash if what stands in front of its first comma is a known cost.  The list of
costs is cut at "and" as well, so that its first cost need not be the one that was recognised.

* `Cost.IsSevered`: the first "and" of a token parts its wording;
* `Cost.isKnown_front_iff`: what stands in front of the first "and" of a known cost is a known cost
  in just the other cases;
* `splitActivated?_first`: so the list of costs begins with a known one if the cost that was
  recognised is not severed, and only then.
-/

namespace CardText

open Template

namespace Cost

variable {source : ObjectKind} {t front back : Text}

/-! ### A token and the front of it -/

/-- Verbs that nothing stands behind. -/
def bareVerbs : List Text := Text.lexicon ["exert", "exert ", "banish", "banish "]

/-- A break behind `front` parts the wording of `token`: it stands behind "choose" or in the
restriction of a discard, or it leaves a bare verb. -/
def Severs (token front : Text) : Prop :=
  discardToken.isMatch (core token) = true ∧ discardToken.isMatch (core front) = false ∨
    (core front).lowerPlain ∈ bareVerbs

/-- The first "and" of the token parts its wording. -/
def IsSevered (token : Text) : Prop :=
  ∃ front back, Text.breakOn? " and ".toList token = some (front, back) ∧ Severs token front

theorem isSevered_iff {token : Text} (h : Text.breakOn? " and ".toList token = some (front, back)) :
    IsSevered token ↔ Severs token front := by
  constructor
  · rintro ⟨f, b, hf, hs⟩
    obtain ⟨rfl, -⟩ := Prod.mk.inj (Option.some.inj (h.symm.trans hf))
    exact hs
  · exact fun hs => ⟨front, back, h, hs⟩

/-- A verb at the start of a token stands whole in front of the first space, and stays there when
the marks at the end are dropped. -/
theorem verb_isPrefix_core {verb : Text} (hl : ∀ c ∈ verb, c.toLower.isLower = true)
    (hb : ∀ c ∈ front.head?, Text.isBlank c = false) (hv : verb <+: t)
    (hp : front ++ [' '] <+: t) : verb <+: core front := by
  have hspace : ' ' ∉ verb := fun hm => by
    have := hl ' ' hm
    cases this
  have hfront : verb <+: front := by
    rcases List.prefix_or_prefix_of_prefix hv hp with h | ⟨r, rfl⟩
    · rcases List.prefix_concat_iff.1 h with rfl | h
      · simp at hspace
      · exact h
    · simp at hspace
  rcases List.eq_nil_or_concat verb with rfl | ⟨a, m, rfl⟩
  · exact List.nil_prefix
  · have hm := hl m (by simp)
    rw [List.concat_eq_append] at hfront ⊢
    exact isPrefix_core hb (Text.isBlank_of_toNat (Text.toNat_of_toLower hm))
      (by rintro rfl; cases hm) hfront

/-- A text that is read as a verb has something behind it. -/
theorem length_lt_of_isMatch_verb {w : Text}
    (h : (verbToken (w ++ [' '])).isMatch t = true) : w.length + 1 < t.length := by
  obtain ⟨v, x, rfl, hv, hx, -⟩ := isMatch_verb_iff.1 h
  have hpos := List.length_pos_iff.2 hx
  have hlen := congrArg List.length hv
  simp only [Text.lowerPlain, List.length_map, List.length_append, List.length_singleton] at hlen ⊢
  omega

/-- A verb in front of the first "and" is a cost unless nothing stands behind it. -/
theorem isMatch_verb_front_iff {w : Text} (hw : w.lowerPlain.all Char.isLower = true)
    (hb : ∀ c ∈ front.head?, Text.isBlank c = false) (hp : front ++ [' '] <+: t)
    (ht : (verbToken (w ++ [' '])).isMatch t = true) :
    (verbToken (w ++ [' '])).isMatch (core front) = true ↔
      (core front).lowerPlain ≠ w.lowerPlain ∧
        (core front).lowerPlain ≠ (w ++ [' ']).lowerPlain := by
  obtain ⟨v, x, rfl, hv, hx, hin⟩ := isMatch_verb_iff.1 ht
  obtain ⟨verb, s, rfl, hverb, hs⟩ :=
    List.map_eq_append_iff.1 (hv.trans (Text.lowerPlain_append _ _))
  obtain ⟨y, rfl, hy⟩ := List.map_eq_singleton_iff.1 hs
  obtain rfl : y = ' ' := Text.eq_of_toLower_eq hy rfl
  replace hverb : Text.lowerPlain verb = w.lowerPlain := hverb
  have hlower : ∀ c ∈ verb, c.toLower.isLower = true := fun c hc =>
    List.all_eq_true.1 hw _ (hverb ▸ List.mem_map_of_mem hc)
  obtain ⟨y, hy⟩ := verb_isPrefix_core hlower hb
    (List.append_assoc verb _ _ ▸ List.prefix_append _ _) hp
  have hyx : y <+: ' ' :: x := by
    have hpre := (core_isPrefix hb).trans ((List.prefix_append _ _).trans hp)
    rw [← hy, List.append_assoc, List.prefix_append_right_inj] at hpre
    exact hpre
  constructor
  · intro hm
    have hlen := length_lt_of_isMatch_verb hm
    constructor <;> intro h <;>
    · have := congrArg List.length h
      simp only [Text.lowerPlain, List.length_map, List.length_append,
        List.length_singleton] at this
      omega
  · rintro ⟨h₁, h₂⟩
    rw [isMatch_verb_iff, ← hy]
    rw [← hy] at h₁ h₂
    rcases y with _ | ⟨z, y⟩
    · simp [hverb] at h₁
    · obtain ⟨rfl, hr⟩ := List.cons_prefix_cons.1 hyx
      refine ⟨verb ++ [' '], y, by simp, hv, ?_, fun c hc => hin c (hr.subset hc)⟩
      rintro rfl
      exact h₂ hv

/-- A token with "and" in it that is a known cost is a discard or begins with a verb. -/
theorem isMatch_of_isKnown {token : Text} (hk : (ofToken source token).isKnown = true)
    (hand : front ++ " and".toList <+: core token) :
    discardToken.isMatch (core token) = true ∨ exertToken.isMatch (core token) = true ∨
      banishToken.isMatch (core token) = true := by
  obtain ⟨r, hr⟩ := hand
  rcases (isKnown_iff source token).1 hk with h | h | h | h
  · have hmem : ' ' ∈ Text.lowerPlain (core token) := by simp [← hr, Text.lowerPlain]
    rw [Text.samePlain, beq_iff_eq] at h
    rw [h] at hmem
    exact absurd hmem (by decide)
  · have hn : inkToken.match? (core token) = none :=
      matchAfter?_eq_none_of_spares (x := 'n') (by decide) (by decide) (by simp [← hr]) _
    simp [ink?, hn] at h
  · obtain ⟨w, hw, ht⟩ := lowerPlain_of_isMatch_banishSelf h
    have hmem : Text.lowerPlain " and".toList <:+: Text.lowerPlain (core token) := by
      rw [← hr]
      exact ⟨Text.lowerPlain front, Text.lowerPlain r, by simp⟩
    have hno : ∀ w ∈ ["character", "item", "location", "card"], ¬ Text.lowerPlain " and".toList <:+:
        "banish this ".toList ++ Text.lowerPlain w.toList := by decide +kernel
    rw [ht] at hmem
    exact absurd hmem (hno w hw)
  · exact h

section Initial

/-! What stands in front of "and" begins with the same letter as the token. -/

variable {token q r : Text} {c : Char} (hq : core front = c :: q) (hr : core token = c :: r)

include hq hr

theorem isKnown_front_of_discard (h : discardToken.isMatch (core token) = true) :
    (ofToken source front).isKnown = true ↔ ¬ Severs token front := by
  have hc : c.toLower = 'd' ∨ c.toLower = 'c' := by
    by_contra hn
    rw [not_or] at hn
    rw [hr, isMatch_eq_false (discardToken_cons_eq_none hn.1 hn.2 r)] at h
    cases h
  have hl : c.toLower.isLower = true ∧ c.toLower ≠ 'p' ∧ c.toLower ≠ 'b' ∧ c.toLower ≠ 'e' := by
    rcases hc with hc | hc <;> rw [hc] <;> decide
  obtain ⟨hl, hp, hb, he⟩ := hl
  have hverb : Text.lowerPlain (c :: q) ∉ bareVerbs := by
    simp [bareVerbs, Text.lexicon, hb, he]
  rw [isKnown_iff_of_cons hq hl hp, Severs, h, hq,
    isMatch_eq_false (banishSelfToken_cons_eq_none hb q),
    isMatch_eq_false (exertToken_cons_eq_none he q),
    isMatch_eq_false (banishToken_cons_eq_none hb q)]
  simp only [hverb, Bool.false_eq_true, false_or, or_false, true_and, Bool.not_eq_false]

variable (hb : ∀ c ∈ front.head?, Text.isBlank c = false) (hp : front ++ [' '] <+: core token)

include hb hp

theorem isKnown_front_of_exert (h : exertToken.isMatch (core token) = true) :
    (ofToken source front).isKnown = true ↔ ¬ Severs token front := by
  have hc : c.toLower = 'e' := by
    by_contra hn
    rw [hr, isMatch_eq_false (exertToken_cons_eq_none hn r)] at h
    cases h
  have hne : c.toLower ≠ 'b' ∧ c.toLower ≠ 'd' ∧ c.toLower ≠ 'c' := by rw [hc]; decide
  have hiff : exertToken.isMatch (core front) = true ↔ (core front).lowerPlain ≠ "exert".toList ∧
      (core front).lowerPlain ≠ "exert ".toList :=
    isMatch_verb_front_iff (w := "exert".toList) (by rfl) hb hp h
  rw [hq] at hiff
  have hverb : Text.lowerPlain (c :: q) ∈ bareVerbs ↔
      Text.lowerPlain (c :: q) = "exert".toList ∨ Text.lowerPlain (c :: q) = "exert ".toList := by
    simp [bareVerbs, Text.lexicon, hne.1]
  rw [isKnown_iff_of_cons hq (by rw [hc]; rfl) (by rw [hc]; decide), Severs, hq, hr, hiff, hverb,
    isMatch_eq_false (banishSelfToken_cons_eq_none hne.1 q),
    isMatch_eq_false (banishToken_cons_eq_none hne.1 q),
    isMatch_eq_false (discardToken_cons_eq_none hne.2.1 hne.2.2 q),
    isMatch_eq_false (discardToken_cons_eq_none hne.2.1 hne.2.2 r)]
  simp

theorem isKnown_front_of_banish (h : banishToken.isMatch (core token) = true) :
    (ofToken source front).isKnown = true ↔ ¬ Severs token front := by
  have hc : c.toLower = 'b' := by
    by_contra hn
    rw [hr, isMatch_eq_false (banishToken_cons_eq_none hn r)] at h
    cases h
  have hne : c.toLower ≠ 'e' ∧ c.toLower ≠ 'd' ∧ c.toLower ≠ 'c' := by rw [hc]; decide
  have hiff : banishToken.isMatch (core front) = true ↔
      (core front).lowerPlain ≠ "banish".toList ∧ (core front).lowerPlain ≠ "banish ".toList :=
    isMatch_verb_front_iff (w := "banish".toList) (by rfl) hb hp h
  -- what is read as banishing the source is a verb with something behind it
  have hself : banishSelfToken.isMatch (core front) = true →
      banishToken.isMatch (core front) = true := fun hself => by
    obtain ⟨w, hw, ht⟩ := lowerPlain_of_isMatch_banishSelf hself
    have hno : ∀ w ∈ ["character", "item", "location", "card"],
        "banish this ".toList ++ Text.lowerPlain w.toList ≠ "banish".toList ∧
          "banish this ".toList ++ Text.lowerPlain w.toList ≠ "banish ".toList := by
      decide +kernel
    rw [hiff, ht]
    exact hno w hw
  rw [hq] at hiff hself
  have hverb : Text.lowerPlain (c :: q) ∈ bareVerbs ↔
      Text.lowerPlain (c :: q) = "banish".toList ∨ Text.lowerPlain (c :: q) = "banish ".toList := by
    simp [bareVerbs, Text.lexicon, hne.1]
  rw [isKnown_iff_of_cons hq (by rw [hc]; rfl) (by rw [hc]; decide), Severs, hq, hr, hverb,
    isMatch_eq_false (exertToken_cons_eq_none hne.1 q),
    isMatch_eq_false (discardToken_cons_eq_none hne.2.1 hne.2.2 q),
    isMatch_eq_false (discardToken_cons_eq_none hne.2.1 hne.2.2 r)]
  simp only [Bool.false_eq_true, false_and, false_or, not_or]
  exact (or_iff_right_of_imp hself).trans hiff

end Initial

/-- **The front of a known cost.**  What stands in front of the first "and" of a known cost is a
known cost, unless the token is severed there. -/
theorem isKnown_front_iff {token : Text} (hb : ∀ c ∈ token.head?, Text.isBlank c = false)
    (hk : (ofToken source token).isKnown = true)
    (hs : Text.breakOn? " and ".toList token = some (front, back)) :
    (ofToken source front).isKnown = true ↔ ¬ IsSevered token := by
  rw [isSevered_iff hs]
  have htoken : token = front ++ " and ".toList ++ back := Text.eq_of_breakOn? hs
  obtain ⟨c, q, rfl⟩ : ∃ c q, front = c :: q := by
    refine List.exists_cons_of_ne_nil ?_
    rintro rfl
    exact absurd (hb ' ' (by simp [htoken])) (by decide)
  have hcb : Text.isBlank c = false := hb c (by simp [htoken])
  have hfb : ∀ x ∈ (c :: q).head?, Text.isBlank x = false := by simpa using hcb
  have hdot : c ≠ '.' := by
    rintro rfl
    rcases of_isKnown_cons htoken hcb hk with h | h | h <;> revert h <;> decide
  have hand : (c :: q) ++ " and".toList <+: core token := by
    have hd : (c :: q) ++ " an".toList ++ ['d'] <+: token := ⟨' ' :: back, by simp [htoken]⟩
    simpa using isPrefix_core hb (by decide) (by decide) hd
  have hp : (c :: q) ++ [' '] <+: core token :=
    List.IsPrefix.trans ⟨"and".toList, by simp⟩ hand
  obtain ⟨x, hx⟩ : [c] <+: core (c :: q) := isPrefix_core (u := []) hfb hcb hdot ⟨q, rfl⟩
  obtain ⟨y, hy⟩ := hand
  rcases isMatch_of_isKnown hk ⟨y, hy⟩ with h | h | h
  · exact isKnown_front_of_discard hx.symm hy.symm h
  · exact isKnown_front_of_exert hx.symm hy.symm hfb hp h
  · exact isKnown_front_of_banish hx.symm hy.symm hfb hp h

/-! ### The first token -/

/-- What stands in front of the first comma. -/
def firstToken (t : Text) : Text := (Text.cut (· == ',') t).head?.getD []

/-- What stands in front of the first "and", all of the token if there is none. -/
def beforeAnd (token : Text) : Text :=
  ((Text.breakOn? " and ".toList token).map Prod.fst).getD token

theorem beforeAnd_of_some {token : Text} {b : Text × Text}
    (h : Text.breakOn? " and ".toList token = some b) : beforeAnd token = b.1 := by
  rw [beforeAnd, h]
  rfl

theorem beforeAnd_of_none {token : Text} (h : Text.breakOn? " and ".toList token = none) :
    beforeAnd token = token := by
  rw [beforeAnd, h]
  rfl

/-- The first token of a text stands in front of the first comma and the first "and". -/
theorem exists_tokens_eq (t : Text) : ∃ ts, tokens t = beforeAnd (firstToken t) :: ts := by
  obtain ⟨p, ps, h⟩ := List.exists_cons_of_ne_nil (Text.cut_ne_nil (· == ',') t)
  have hcut : ∃ qs, Text.cutOn " and ".toList (by decide) p = beforeAnd p :: qs := by
    cases hs : Text.breakOn? " and ".toList p with
    | some b => exact ⟨_, by rw [Text.cutOn_of_some _ hs, beforeAnd_of_some hs]⟩
    | none => exact ⟨[], by rw [Text.cutOn_of_none _ hs, beforeAnd_of_none hs]⟩
  obtain ⟨qs, hq⟩ := hcut
  exact ⟨qs ++ _, by rw [tokens, firstToken, h, List.flatMap_cons, hq]; rfl⟩

theorem head_firstToken {t : Text} {c : Char} (h : c ∈ (firstToken t).head?) : c ∈ t.head? := by
  rcases t with _ | ⟨x, r⟩
  · cases h
  · by_cases hx : x = ','
    · subst hx
      simp [firstToken, Text.cut] at h
    · obtain ⟨p, ps, hp⟩ := List.exists_cons_of_ne_nil (Text.cut_ne_nil (· == ',') r)
      rw [firstToken, Text.cut_cons_of_not (by simpa using hx), hp] at h
      exact h

/-- A token begins in front of its first "and" if no blank stands in front of it. -/
theorem head_beforeAnd {token : Text} (hb : ∀ c ∈ token.head?, Text.isBlank c = false) :
    (beforeAnd token).head? = token.head? := by
  cases hs : Text.breakOn? " and ".toList token with
  | none => rw [beforeAnd_of_none hs]
  | some b =>
    have htoken := Text.eq_of_breakOn? hs
    have hne : b.1 ≠ [] := fun h => by
      rw [htoken, h] at hb
      exact absurd (hb ' ' rfl) (by decide)
    rw [beforeAnd_of_some hs, htoken, List.append_assoc, Text.head_append hne]

end Cost

/-- **The first cost of an activated ability** is the known cost that made the text one, or what
stands in front of the first "and" of it.  It is a known cost unless the "and" parts its wording. -/
theorem splitActivated?_first {source : ObjectKind} {t : Text} {a : Activated}
    (h : splitActivated? source t = some a) :
    ∃ c cs, Cost.listOfText source a.cost = c :: cs ∧
      c = Cost.ofToken source (Cost.beforeAnd (Cost.firstToken a.cost)) ∧
      (c.isKnown = true ↔ ¬ Cost.IsSevered (Cost.firstToken a.cost)) := by
  obtain ⟨left, right, ha⟩ := splitActivated?_spec h
  obtain ⟨hl, -, -, -, hk⟩ := activated?_spec ha
  rw [← Cost.firstToken, Cost.ofToken_trim] at hk
  have hb : ∀ c ∈ (Cost.firstToken a.cost).head?, Text.isBlank c = false := fun c hc =>
    Text.head_trim (hl ▸ Cost.head_firstToken hc)
  generalize htoken : Cost.firstToken a.cost = token at hk hb
  obtain ⟨x, r, rfl⟩ : ∃ x r, token = x :: r := by
    refine List.exists_cons_of_ne_nil ?_
    rintro rfl
    rw [Cost.isKnown_ofToken_nil] at hk
    cases hk
  have hx : x ∈ (Cost.beforeAnd (x :: r)).head? := by rw [Cost.head_beforeAnd hb]; rfl
  have hne : Text.trim (Cost.beforeAnd (x :: r)) ≠ [] :=
    Text.trim_ne_nil_of_mem (List.mem_of_mem_head? hx) (hb x rfl)
  obtain ⟨ts, hts⟩ := Cost.exists_tokens_eq a.cost
  rw [htoken] at hts
  refine ⟨Cost.ofToken source (Cost.beforeAnd (x :: r)), Cost.listOfTokens source ts, ?_, rfl, ?_⟩
  · rw [Cost.listOfText, Cost.listOfTokens, Cost.listOfTokens, hts, List.map_cons,
      List.filter_cons_of_pos (by simpa using hne), List.map_cons, Cost.ofToken_trim]
  · cases hs : Text.breakOn? " and ".toList (x :: r) with
    | none =>
      have hsev : ¬ Cost.IsSevered (x :: r) := by
        rintro ⟨f, b, hf, -⟩
        rw [hs] at hf
        cases hf
      rw [Cost.beforeAnd_of_none hs, hk]
      exact iff_of_true rfl hsev
    | some b =>
      rw [Cost.beforeAnd_of_some hs]
      exact Cost.isKnown_front_iff hb hk hs

/-- The target of the cost has "and" in it, and what stands in front of that is a cost as well. -/
def banishBoth : Text := "Banish this item and another character, 2 \x7bI\x7d — Draw a card.".toList

theorem splitActivated?_first_banishBoth :
    ∃ a, splitActivated? .item banishBoth = some a ∧ ∃ c cs,
      Cost.listOfText .item a.cost = c :: cs ∧
      c = Cost.ofToken .item (Cost.beforeAnd (Cost.firstToken a.cost)) ∧
      (c.isKnown = true ↔ ¬ Cost.IsSevered (Cost.firstToken a.cost)) := by
  have h : splitActivated? .item banishBoth =
      some ⟨"Banish this item and another character, 2 \x7bI\x7d".toList,
        "Draw a card.".toList⟩ := by
    decide +kernel
  exact ⟨_, h, splitActivated?_first h⟩

/-- A text that is split because its cost is a discard. -/
def chooseAndDiscard : Text := "Choose and discard a card — Draw a card.".toList

/-- The first cost of the list is "Choose", as printed. -/
theorem listOfText_chooseAndDiscard :
    ¬ ∀ source t a, splitActivated? source t = some a →
      ∃ c cs, Cost.listOfText source a.cost = c :: cs ∧ c.isKnown = true := by
  intro h
  obtain ⟨c, cs, hl, hk⟩ := h .character chooseAndDiscard
    ⟨"Choose and discard a card".toList, "Draw a card.".toList⟩ (by decide +kernel)
  have hcosts : Cost.listOfText .character "Choose and discard a card".toList =
      [.other "Choose".toList, .discardCard 1 none] := by decide +kernel
  rw [hcosts] at hl
  cases hl
  cases hk

end CardText
