import CardText.Proofs.Text.Spacing
import CardText.Template

/-!
# Where templates match

A match goes through the text from its start on, so every literal on its way stands somewhere in
the text.

* `Template.Passes`: the ways through a template, which are what the search tries
  (`Template.mem_ends_iff`); a way goes over a piece of the text (`Template.exists_of_mem_ends`);
* `Template.mem_runs_iff`, `Template.head_ends_longest`: the places behind a run of characters;
* `Template.ends_phrase_append`, `Template.mem_ends_phrase_cons`: a way through a row of parts goes
  through each of them, and `Template.exists_of_mem_ends_lit`, `Template.exists_of_mem_ends_oneOf`,
  `Template.exists_of_mem_ends_gap` say what stands where a part is gone through;
* `Template.admits`: a wording goes through a text only if the text has a literal of each of its
  choices (`Template.admits_of_mem_ends`), which rules matches out
  (`Template.matchAfter?_eq_none`);
* `Template.searchAfter?_eq_none`, `Template.searchAfter?_append`: what is found, place by place;
* `Template.Leads`: the best way through a text that is known up to its open places, part by part
  (`Template.Leads.cons`);
* `Template.slot_isInfix_of_match?`, `Template.isPrefix_of_searchAfter?`: what fills a slot, and
  what stands in front of a match, stands so in the text;
* `Template.spares`, `Template.sparesIn`: a character that a template, or what fills a slot of it,
  never goes over (`Template.not_mem_slot?`).
-/

namespace CardText

namespace Text

/-! ### Letter case -/

@[simp] theorem lowerPlain_nil : lowerPlain [] = [] := rfl

@[simp] theorem lowerPlain_cons (c : Char) (t : Text) :
    lowerPlain (c :: t) = c.toLower :: lowerPlain t := rfl

@[simp] theorem lowerPlain_append (s t : Text) :
    lowerPlain (s ++ t) = lowerPlain s ++ lowerPlain t := List.map_append

theorem toLower_toLower (c : Char) : c.toLower.toLower = c.toLower := by
  have h : ¬ (c.toLower.val ≥ 'A'.val ∧ c.toLower.val ≤ 'Z'.val) := by
    unfold Char.toLower
    split
    · next hc =>
      simp [UInt32.le_iff_toNat_le] at hc ⊢
      omega
    · next hc => exact hc
  exact dif_neg h

@[simp] theorem lowerPlain_lowerPlain (t : Text) : t.lowerPlain.lowerPlain = t.lowerPlain := by
  simp only [lowerPlain, List.map_map, Function.comp_def, toLower_toLower]

theorem fold_append (s t : Text) : fold (s ++ t) = fold s ++ fold t := List.flatMap_append

/-- Folding is lower case where no letter from outside the plain ones turns into one. -/
theorem fold_eq_lowerPlain {t : Text} (h : ∀ c ∈ t, c ≠ '\u212A' ∧ c ≠ '\u0130') :
    t.fold = t.lowerPlain := by
  induction t with
  | nil => rfl
  | cons c t ih =>
    obtain ⟨hk, hi⟩ := h c (by simp)
    have := ih fun x hx => h x (List.mem_cons_of_mem _ hx)
    rw [fold] at this ⊢
    rw [List.flatMap_cons, this, foldChar, if_neg hk, if_neg hi]
    rfl

/-- Only a small letter can be the lower case of another character. -/
theorem eq_of_toLower_eq {c x : Char} (h : c.toLower = x) (hx : x.isLower = false) : c = x := by
  unfold Char.toLower at h
  split at h
  · next hc =>
    subst h
    unfold Char.isLower at hx
    simp [UInt32.le_iff_toNat_le] at hx hc
    omega
  · exact h

/-- Lower case brings nothing but small letters and the dot of the dotted capital. -/
theorem mem_of_mem_fold {t : Text} {c : Char} (h : c ∈ t.fold) (hl : c.isLower = false)
    (hd : c ≠ '\u0307') : c ∈ t := by
  obtain ⟨b, hb, hf⟩ := List.mem_flatMap.1 h
  rw [foldChar] at hf
  split_ifs at hf
  · obtain rfl := List.mem_singleton.1 hf
    cases hl
  · simp only [List.mem_cons, List.not_mem_nil, or_false] at hf
    rcases hf with rfl | rfl
    · cases hl
    · exact absurd rfl hd
  · exact eq_of_toLower_eq (List.mem_singleton.1 hf).symm hl ▸ hb

theorem isBlank_of_isGap {c : Char} (h : Template.isGap c = true) : isBlank c = true := by
  simp only [Template.isGap, Bool.or_eq_true, beq_iff_eq] at h
  rcases h with ((((rfl | rfl) | rfl) | rfl) | rfl) | rfl <;> rfl

end Text

namespace Template

variable {σ α : Type}

/-! ### Places -/

theorem getLast?_cons_or (c : Char) (w : Text) (b : Option Char) :
    (c :: w).getLast?.or b = w.getLast?.or (some c) := by
  rw [List.getLast?_cons]
  cases w.getLast? <;> simp

/-- The characters of a literal stand there in either letter case. -/
theorem exists_of_skip? {w : Text} {b : Option Char} {r : Text} {e : Option Char × Text}
    (h : Template.skip? w b r = some e) :
    ∃ v : Text, v.lowerPlain = w.lowerPlain ∧ r = v ++ e.2 ∧ e.1 = v.getLast?.or b := by
  induction w generalizing b r with
  | nil =>
    obtain rfl := Option.some.inj h
    exact ⟨[], rfl, rfl, rfl⟩
  | cons x w ih =>
    cases r with
    | nil => cases h
    | cons c r =>
      rw [Template.skip?] at h
      split at h
      · next hc =>
        obtain ⟨v, hv, hr, hb⟩ := ih h
        refine ⟨c :: v, ?_, by rw [hr]; rfl, by rw [hb, getLast?_cons_or]⟩
        rw [Text.lowerPlain_cons, Text.lowerPlain_cons, hc, hv]
      · cases h

/-- A literal goes over its characters in either letter case. -/
theorem exists_of_mem_ends_lit {w : Text} {c d : Cursor σ} (h : d ∈ ends (lit w) c) :
    ∃ v : Text, v.lowerPlain = w.lowerPlain ∧ c.rest = v ++ d.rest ∧
      d.before = v.getLast?.or c.before ∧ d.marks = c.marks := by
  simp only [ends, Option.mem_toList, Cursor.skip?, Option.map_eq_some_iff] at h
  obtain ⟨e, he, rfl⟩ := h
  obtain ⟨v, hv, hr, hb⟩ := exists_of_skip? he
  exact ⟨v, hv, hr, hb, rfl⟩

/-- The places behind a run are those behind a non-empty front of characters of the class. -/
theorem mem_runs_iff {p : Char → Bool} {ms : List (σ × Text × Text)} {r : Text} {d : Cursor σ} :
    d ∈ runs p ms r ↔ ∃ w, w ≠ [] ∧ (∀ c ∈ w, p c = true) ∧ r = w ++ d.rest ∧
      d.before = w.getLast? ∧ d.marks = ms := by
  induction r with
  | nil =>
    simp only [runs, List.not_mem_nil, false_iff]
    rintro ⟨w, hw, -, hr, -⟩
    exact hw (List.append_eq_nil_iff.1 hr.symm).1
  | cons c r ih =>
    rw [runs]
    split
    · next hc =>
      rw [List.mem_cons, ih]
      constructor
      · rintro (rfl | ⟨w, hw, hp, rfl, hb, hm⟩)
        · exact ⟨[c], by simp [hc]⟩
        · refine ⟨c :: w, by simp, by simpa [hc] using hp, rfl, ?_, hm⟩
          rw [hb, List.getLast?_cons, List.getLast?_eq_some_getLast hw]
          rfl
      · rintro ⟨w, hw, hp, hr, hb, hm⟩
        obtain ⟨x, w, rfl⟩ := List.exists_cons_of_ne_nil hw
        rw [List.cons_append, List.cons.injEq] at hr
        obtain ⟨rfl, rfl⟩ := hr
        rcases w with _ | ⟨y, w⟩
        · left; cases d; simp_all
        · exact .inr ⟨y :: w, by simp, fun z hz => hp z (List.mem_cons_of_mem _ hz), rfl,
            by simpa using hb, hm⟩
    · next hc =>
      simp only [List.not_mem_nil, false_iff]
      rintro ⟨w, hw, hp, hr, -⟩
      obtain ⟨x, w, rfl⟩ := List.exists_cons_of_ne_nil hw
      rw [List.cons_append, List.cons.injEq] at hr
      exact hc (hr.1 ▸ hp x (by simp))

theorem skip?_append {w v : Text} (h : v.lowerPlain = w.lowerPlain) (b : Option Char) (r : Text) :
    Template.skip? w b (v ++ r) = some (v.getLast?.or b, r) := by
  induction w generalizing v b with
  | nil =>
    cases v with
    | nil => rfl
    | cons c v => cases h
  | cons x w ih =>
    cases v with
    | nil => cases h
    | cons c v =>
      rw [Text.lowerPlain_cons, Text.lowerPlain_cons, List.cons.injEq] at h
      rw [List.cons_append, Template.skip?, if_pos h.1, ih h.2, getLast?_cons_or]

theorem getLast?_or {v : Text} (hv : 0 < v.length) (b : Option Char) :
    v.getLast?.or b = v.getLast? := by
  rw [List.getLast?_eq_some_getLast (List.length_pos_iff.1 hv)]
  rfl

/-! ### Ways through a template -/

/-- There is a way through the template from one place to another, the best one or not. -/
inductive Passes : Template σ → Cursor σ → Cursor σ → Prop where
  | empty {c : Cursor σ} : Passes empty c c
  | lit {w v r : Text} {b : Option Char} {ms : List (σ × Text × Text)}
      (hv : v.lowerPlain = w.lowerPlain) :
      Passes (lit w) ⟨b, v ++ r, ms⟩ ⟨v.getLast?.or b, r, ms⟩
  | one {p : Char → Bool} {v r : Text} {b : Option Char} {ms : List (σ × Text × Text)}
      (hv : v.length = 1) (hp : ∀ c ∈ v, p c = true) :
      Passes (one p) ⟨b, v ++ r, ms⟩ ⟨v.getLast?, r, ms⟩
  | longest {p : Char → Bool} {v r : Text} {b : Option Char} {ms : List (σ × Text × Text)}
      (hv : 0 < v.length) (hp : ∀ c ∈ v, p c = true) :
      Passes (longest p) ⟨b, v ++ r, ms⟩ ⟨v.getLast?, r, ms⟩
  | shortest {p : Char → Bool} {v r : Text} {b : Option Char} {ms : List (σ × Text × Text)}
      (hv : 0 < v.length) (hp : ∀ c ∈ v, p c = true) :
      Passes (shortest p) ⟨b, v ++ r, ms⟩ ⟨v.getLast?, r, ms⟩
  | seq {t u : Template σ} {c d e : Cursor σ} (ht : Passes t c e) (hu : Passes u e d) :
      Passes (seq t u) c d
  | left {t u : Template σ} {c d : Cursor σ} (h : Passes t c d) : Passes (alt t u) c d
  | right {t u : Template σ} {c d : Cursor σ} (h : Passes u c d) : Passes (alt t u) c d
  | slot {s : σ} {t : Template σ} {c d : Cursor σ} (h : Passes t c d) :
      Passes (slot s t) c (Cursor.mark s c d)
  | edge {c : Cursor σ} (h : c.isEdge = true) : Passes edge c c
  | stop {b : Option Char} {ms : List (σ × Text × Text)} : Passes stop ⟨b, [], ms⟩ ⟨b, [], ms⟩

theorem passes_of_mem_ends {t : Template σ} {c d : Cursor σ} (h : d ∈ ends t c) :
    Passes t c d := by
  induction t generalizing c d with
  | empty =>
    obtain rfl := List.mem_singleton.1 h
    exact .empty
  | lit w =>
    obtain ⟨v, hv, hr, hb, hm⟩ := exists_of_mem_ends_lit h
    obtain ⟨b, _, ms⟩ := c
    obtain ⟨b', r, ms'⟩ := d
    dsimp only at hr hb hm
    subst hr hb hm
    exact .lit hv
  | one p =>
    obtain ⟨b, rest, ms⟩ := c
    cases rest with
    | nil => cases h
    | cons x r =>
      simp only [ends, runs] at h
      split at h
      · next hx =>
        obtain rfl := List.mem_singleton.1 h
        exact .one (v := [x]) rfl (by simpa using hx)
      · cases h
  | longest p =>
    obtain ⟨v, hv, hp, hr, hb, hm⟩ := mem_runs_iff.1 (List.mem_reverse.1 h)
    obtain ⟨b, _, ms⟩ := c
    obtain ⟨b', r, ms'⟩ := d
    dsimp only at hr hb hm
    subst hr hb hm
    exact .longest (List.length_pos_iff.2 hv) hp
  | shortest p =>
    obtain ⟨v, hv, hp, hr, hb, hm⟩ := mem_runs_iff.1 h
    obtain ⟨b, _, ms⟩ := c
    obtain ⟨b', r, ms'⟩ := d
    dsimp only at hr hb hm
    subst hr hb hm
    exact .shortest (List.length_pos_iff.2 hv) hp
  | seq t u iht ihu =>
    obtain ⟨e, he, hd⟩ := List.mem_flatMap.1 h
    exact .seq (iht he) (ihu hd)
  | alt t u iht ihu =>
    rcases List.mem_append.1 h with h | h
    · exact .left (iht h)
    · exact .right (ihu h)
  | slot s t ih =>
    obtain ⟨e, he, rfl⟩ := List.mem_map.1 h
    exact .slot (ih he)
  | edge =>
    simp only [ends] at h
    split at h
    · next hc =>
      obtain rfl := List.mem_singleton.1 h
      exact .edge hc
    · cases h
  | stop =>
    obtain ⟨b, rest, ms⟩ := c
    cases rest with
    | nil =>
      obtain rfl := List.mem_singleton.1 h
      exact .stop
    | cons x r => cases h

/-- **The search tries exactly the ways through a template.** -/
theorem mem_ends_iff {t : Template σ} {c d : Cursor σ} : d ∈ ends t c ↔ Passes t c d := by
  refine ⟨passes_of_mem_ends, fun h => ?_⟩
  induction h with
  | empty => exact List.mem_singleton_self _
  | lit hv => simp [ends, Cursor.skip?, skip?_append hv]
  | one hv hp =>
    obtain ⟨x, rfl⟩ := List.length_eq_one_iff.1 hv
    simp [ends, runs, hp x (by simp)]
  | longest hv hp =>
    exact List.mem_reverse.2 (mem_runs_iff.2 ⟨_, List.length_pos_iff.1 hv, hp, rfl, rfl, rfl⟩)
  | shortest hv hp => exact mem_runs_iff.2 ⟨_, List.length_pos_iff.1 hv, hp, rfl, rfl, rfl⟩
  | seq _ _ iht ihu => exact List.mem_flatMap.2 ⟨_, iht, ihu⟩
  | left _ ih => exact List.mem_append_left _ ih
  | right _ ih => exact List.mem_append_right _ ih
  | slot _ ih => exact List.mem_map_of_mem ih
  | edge h => simp [ends, h]
  | stop => exact List.mem_singleton_self _

/-- A way through a template goes over a piece of the text. -/
theorem exists_of_mem_ends {t : Template σ} {c d : Cursor σ} (h : d ∈ ends t c) :
    ∃ v : Text, c.rest = v ++ d.rest ∧ d.before = v.getLast?.or c.before := by
  rw [mem_ends_iff] at h
  induction h with
  | empty | edge | stop => exact ⟨[], rfl, rfl⟩
  | lit hv => exact ⟨_, rfl, rfl⟩
  | one hv | longest hv | shortest hv => exact ⟨_, rfl, (getLast?_or (by omega) _).symm⟩
  | seq _ _ iht ihu =>
    obtain ⟨v, hv, hvb⟩ := iht
    obtain ⟨u, hu, hub⟩ := ihu
    refine ⟨v ++ u, by rw [hv, hu, List.append_assoc], ?_⟩
    rw [hub, hvb, List.getLast?_append, Option.or_assoc]
  | left _ ih | right _ ih | slot _ ih => exact ih

theorem rest_isSuffix_of_mem_ends {t : Template σ} {c d : Cursor σ} (h : d ∈ ends t c) :
    d.rest <:+ c.rest := by
  obtain ⟨v, hv, -⟩ := exists_of_mem_ends h
  exact ⟨v, hv.symm⟩

/-- What follows a match is the end of the text. -/
theorem rest_isSuffix_of_match? {t : Template σ} {text : Text} {m : Match σ}
    (h : match? t text = some m) : m.rest <:+ text := by
  rw [match?, matchAfter?_eq, Option.map_eq_some_iff] at h
  obtain ⟨c, hc, rfl⟩ := h
  exact rest_isSuffix_of_mem_ends (List.mem_of_mem_head? hc)

theorem getLast_runs {p : Char → Bool} {ms : List (σ × Text × Text)} {r : Text} {d : Cursor σ}
    (h : d ∈ (runs p ms r).getLast?) : r.head?.any p = true ∧ d.rest = r.dropWhile p := by
  induction r with
  | nil => cases h
  | cons c r ih =>
    rw [runs] at h
    split at h
    · next hc =>
      refine ⟨by simp [hc], ?_⟩
      rw [List.dropWhile_cons_of_pos hc]
      rw [List.getLast?_cons, Option.mem_some_iff] at h
      rcases hr : (runs p ms r).getLast? with _ | e
      · -- nothing of the class stands behind the first character
        rw [hr] at h
        subst h
        cases r with
        | nil => rfl
        | cons x r =>
          have hx : ¬ p x = true := by
            intro hx
            simp [runs, hx] at hr
          rw [List.dropWhile_cons_of_neg hx]
          rfl
      · rw [hr] at h
        subst h
        exact (ih hr).2
    · cases h

/-- The longest run goes over all characters of the class. -/
theorem head_ends_longest {p : Char → Bool} {c d : Cursor σ}
    (h : d ∈ (ends (longest p) c).head?) :
    c.rest.head?.any p = true ∧ d.rest = c.rest.dropWhile p := by
  rw [ends, List.head?_reverse] at h
  exact getLast_runs h

/-! ### Literals on the way -/

/-- The template never goes on in the text. -/
def isStill : Template σ → Bool
  | empty => true
  | lit w => w.isEmpty
  | seq a b => a.isStill && b.isStill
  | alt a b => a.isStill && b.isStill
  | slot _ t => t.isStill
  | edge => true
  | stop => true
  | _ => false

/-- The template can go through a text in which the literals `first` stand at its start and the
literals `later` behind its first character. -/
def admits (first later : Text → Bool) : Template σ → Bool
  | lit w => first w
  | seq a b =>
    admits first later a &&
      admits (if a.isStill then first
        else if 0 < a.width then later else fun w => first w || later w) later b
  | alt a b => admits first later a || admits first later b
  | slot _ t => admits first later t
  | _ => true

theorem isPrefix_of_skip? {w : Text} {b : Option Char} {r : Text} {e : Option Char × Text}
    (h : Template.skip? w b r = some e) : w.lowerPlain <+: r.lowerPlain := by
  obtain ⟨v, hv, hr, -⟩ := exists_of_skip? h
  rw [hr, Text.lowerPlain_append, hv]
  exact List.prefix_append _ _

theorem rest_eq_of_isStill {t : Template σ} {c d : Cursor σ} (ht : t.isStill = true)
    (h : d ∈ ends t c) : d.rest = c.rest := by
  rw [mem_ends_iff] at h
  induction h with
  | empty | edge | stop => rfl
  | lit hv =>
    rw [isStill, List.isEmpty_iff] at ht
    subst ht
    rw [List.map_eq_nil_iff.1 hv]
    rfl
  | one | longest | shortest => cases ht
  | seq _ _ iht ihu =>
    rw [isStill, Bool.and_eq_true] at ht
    rw [ihu ht.2, iht ht.1]
  | left _ ih =>
    rw [isStill, Bool.and_eq_true] at ht
    exact ih ht.1
  | right _ ih =>
    rw [isStill, Bool.and_eq_true] at ht
    exact ih ht.2
  | slot _ ih => exact ih ht

/-- **A match needs its literals.**  Where the text has the literals of no choice of a template, the
template goes nowhere. -/
theorem admits_of_mem_ends {first later : Text → Bool} {t : Template σ} {c d : Cursor σ}
    (hf : ∀ w : Text, w.lowerPlain <+: c.rest.lowerPlain → first w = true)
    (hl : ∀ w s : Text, s <:+ c.rest → s.length < c.rest.length →
      w.lowerPlain <+: s.lowerPlain → later w = true)
    (h : d ∈ ends t c) : admits first later t = true := by
  rw [mem_ends_iff] at h
  induction h generalizing first with
  | lit hv =>
    refine hf _ ?_
    rw [Text.lowerPlain_append, hv]
    exact List.prefix_append _ _
  | @seq t u c d e ht _ iht ihu =>
    have he := mem_ends_iff.2 ht
    have hs := rest_isSuffix_of_mem_ends he
    have hw := length_of_mem_ends he
    have hle : ∀ w s : Text, s <:+ e.rest → s.length < e.rest.length →
        w.lowerPlain <+: s.lowerPlain → later w = true :=
      fun w s h₁ h₂ => hl w s (h₁.trans hs) (by omega)
    rw [admits, Bool.and_eq_true]
    refine ⟨iht hf hl, ihu ?_ hle⟩
    intro w hp
    -- the second part starts where the first one does, behind it, or at either place
    split_ifs with h₁ h₂
    · exact hf w (rest_eq_of_isStill h₁ he ▸ hp)
    · exact hl w e.rest hs (by omega) hp
    · rw [Bool.or_eq_true]
      rcases Nat.lt_or_ge e.rest.length c.rest.length with hlt | hge
      · exact .inr (hl w e.rest hs hlt hp)
      · exact .inl (hf w (hs.eq_of_length_le hge ▸ hp))
  | left _ ih =>
    rw [admits, Bool.or_eq_true]
    exact .inl (ih hf hl)
  | right _ ih =>
    rw [admits, Bool.or_eq_true]
    exact .inr (ih hf hl)
  | slot _ ih => exact ih hf hl
  | _ => rfl

theorem matchAfter?_eq_none_iff {t : Template σ} {b : Option Char} {text : Text} :
    matchAfter? t b text = none ↔ ends t ⟨b, text, []⟩ = [] := by
  rw [matchAfter?_eq, Option.map_eq_none_iff, List.head?_eq_none_iff]

/-- A text starts with a match if there is a way through the template. -/
theorem isMatch_iff {t : Template σ} {text : Text} :
    t.isMatch text = true ↔ ∃ d, d ∈ ends t ⟨none, text, []⟩ := by
  rw [isMatch, Option.isSome_iff_ne_none, match?, ne_eq, matchAfter?_eq_none_iff]
  exact ⟨List.exists_mem_of_ne_nil _, fun ⟨_, h⟩ => List.ne_nil_of_mem h⟩

theorem matchAfter?_eq_none {first later : Text → Bool} {t : Template σ}
    (ht : admits first later t = false) {b : Option Char} {text : Text}
    (hf : ∀ w : Text, w.lowerPlain <+: text.lowerPlain → first w = true)
    (hl : ∀ w s : Text, s <:+ text → s.length < text.length →
      w.lowerPlain <+: s.lowerPlain → later w = true) : matchAfter? t b text = none := by
  rw [matchAfter?_eq_none_iff, List.eq_nil_iff_forall_not_mem]
  intro d hd
  rw [admits_of_mem_ends hf hl hd] at ht
  cases ht

/-- A template whose first literals begin with other letters matches nowhere at the start. -/
theorem match?_cons_eq_none {t : Template σ} {c : Char}
    (ht : admits (fun l => l.lowerPlain.head?.all (· == c.toLower)) (fun _ => true) t = false)
    (r : Text) : match? t (c :: r) = none := by
  refine matchAfter?_eq_none ht (fun w hw => ?_) fun _ _ _ _ _ => rfl
  rcases hwl : w.lowerPlain with _ | ⟨x, v⟩
  · rfl
  · rw [hwl, Text.lowerPlain_cons, List.cons_prefix_cons] at hw
    simp [hw.1]

theorem isInfix_lowerPlain {w s t : Text} (hw : w.lowerPlain <+: s.lowerPlain) (hs : s <:+ t) :
    w.lowerPlain <:+: t.lowerPlain :=
  hw.isInfix.trans (List.IsSuffix.map _ hs).isInfix

/-- Nothing is found where the template matches at no place. -/
theorem searchAfter?_eq_none {t : Template σ} {text : Text} {b : Option Char}
    (h : ∀ a s : Text, a ++ s = text → matchAfter? t (a.getLast?.or b) s = none) :
    searchAfter? t b text = none := by
  induction text generalizing b with
  | nil =>
    have h := h [] [] rfl
    rw [List.getLast?_nil, Option.none_or] at h
    rw [searchAfter?, h]
    rfl
  | cons c r ih =>
    have hc := h [] (c :: r) rfl
    rw [List.getLast?_nil, Option.none_or] at hc
    have hr : searchAfter? t (some c) r = none := ih fun a s has => by
      have := h (c :: a) s (by rw [List.cons_append, has])
      rwa [getLast?_cons_or] at this
    rw [searchAfter?, hc]
    simp [hr]

/-- Nothing is found where the template matches nowhere. -/
theorem search?_eq_none_of_isSuffix {t : Template σ} {text : Text}
    (h : ∀ b (s : Text), s <:+ text → matchAfter? t b s = none) : search? t text = none :=
  searchAfter?_eq_none fun a s has => h _ s ⟨a, has⟩

/-- What is found stands at the first place where the template matches. -/
theorem searchAfter?_append {t : Template σ} {front text : Text} {b : Option Char} {m : Match σ}
    (hf : ∀ a s : Text, a ++ s = front → s ≠ [] →
      matchAfter? t (a.getLast?.or b) (s ++ text) = none)
    (hm : matchAfter? t (front.getLast?.or b) text = some m) :
    searchAfter? t b (front ++ text) = some (front, m) := by
  induction front generalizing b with
  | nil =>
    cases text with
    | nil => simpa [searchAfter?] using hm
    | cons c r =>
      have : matchAfter? t b (c :: r) = some m := by simpa using hm
      simp [searchAfter?, this]
  | cons x front ih =>
    have h := hf [] (x :: front) rfl (by simp)
    rw [List.getLast?_nil, Option.none_or, List.cons_append] at h
    have hr : searchAfter? t (some x) (front ++ text) = some (front, m) := by
      refine ih (fun a s has hs => ?_) (by rwa [getLast?_cons_or] at hm)
      have := hf (x :: a) s (by rw [List.cons_append, has]) hs
      rwa [getLast?_cons_or] at this
    rw [List.cons_append, searchAfter?, h]
    simp [hr]

/-! ### The way through a text -/

/-- The template never asks for the end of the text. -/
def isOpen : Template σ → Bool
  | seq a b => a.isOpen && b.isOpen
  | alt a b => a.isOpen && b.isOpen
  | slot _ t => t.isOpen
  | stop => false
  | _ => true

/-- A way through a text is a way through each text that goes on with no letter or digit. -/
theorem exists_mem_ends_append {t : Template σ} (ht : t.isOpen = true) {r : Text}
    (hr : r.head?.any isWordChar = false) {c d : Cursor σ} (h : d ∈ ends t c)
    (ms : List (σ × Text × Text)) :
    ∃ ms', ⟨d.before, d.rest ++ r, ms'⟩ ∈ ends t ⟨c.before, c.rest ++ r, ms⟩ := by
  rw [mem_ends_iff] at h
  simp only [mem_ends_iff]
  induction h generalizing ms with
  | empty => exact ⟨ms, .empty⟩
  | lit hv => exact ⟨ms, by simpa only [List.append_assoc] using .lit hv⟩
  | one hv hp => exact ⟨ms, by simpa only [List.append_assoc] using .one hv hp⟩
  | longest hv hp => exact ⟨ms, by simpa only [List.append_assoc] using .longest hv hp⟩
  | shortest hv hp => exact ⟨ms, by simpa only [List.append_assoc] using .shortest hv hp⟩
  | seq _ _ iht ihu =>
    rw [isOpen, Bool.and_eq_true] at ht
    obtain ⟨ms₁, h₁⟩ := iht ht.1 ms
    obtain ⟨ms₂, h₂⟩ := ihu ht.2 ms₁
    exact ⟨ms₂, .seq h₁ h₂⟩
  | left _ ih =>
    rw [isOpen, Bool.and_eq_true] at ht
    exact (ih ht.1 ms).imp fun _ => .left
  | right _ ih =>
    rw [isOpen, Bool.and_eq_true] at ht
    exact (ih ht.2 ms).imp fun _ => .right
  | slot _ ih =>
    obtain ⟨ms', h'⟩ := ih ht ms
    exact ⟨_, .slot h'⟩
  | @edge c h =>
    -- at the end of the text only a word in front of the place makes an edge, as in the longer one
    have hedge : Cursor.isEdge ⟨c.before, c.rest ++ r, ms⟩ = c.isEdge := by
      unfold Cursor.isEdge
      cases hc : c.rest with
      | nil => simp [hr]
      | cons x rest => rfl
    exact ⟨ms, .edge (hedge.trans h)⟩
  | stop => cases ht

/-- The best way through the template from `c` ends at `d`. -/
def Leads (t : Template σ) (c d : Cursor σ) : Prop := (ends t c).head? = some d

theorem runs_append {p : Char → Bool} {w : Text} (hp : ∀ c ∈ w, p c = true) {r : Text}
    (hr : r.head?.any p = false) (hw : w ≠ []) (ms : List (σ × Text × Text)) :
    (runs p ms (w ++ r)).getLast? = some ⟨w.getLast?, r, ms⟩ := by
  induction w with
  | nil => exact absurd rfl hw
  | cons c w ih =>
    rw [List.cons_append, runs, if_pos (hp c (by simp)), List.getLast?_cons]
    rcases w with _ | ⟨x, w⟩
    · cases r with
      | nil => simp [runs]
      | cons y r =>
        have hy : p y = false := by simpa using hr
        simp [runs, hy]
    · rw [ih (fun z hz => hp z (List.mem_cons_of_mem _ hz)) (by simp)]
      simp

section Leads

variable {t a b : Template σ} {ts : List (Template σ)} {c d e : Cursor σ} {x : Option Char}
  {r v w : Text} {ms : List (σ × Text × Text)}

/-- The best way through a template is its match. -/
theorem Leads.matchAfter? (h : Leads t ⟨x, r, []⟩ d) :
    t.matchAfter? x r = some ⟨r, d.rest, d.marks⟩ := by
  rw [matchAfter?_eq, h]
  rfl

theorem Leads.nil : Leads (phrase []) c c := rfl

/-- The best way through a phrase is the best way through its parts, if there is one. -/
theorem Leads.cons (ht : Leads t c d) (hs : Leads (phrase ts) d e) :
    Leads (phrase (t :: ts)) c e := by
  obtain ⟨l, hl⟩ := List.head?_eq_some_iff.1 ht
  obtain ⟨l', hl'⟩ := List.head?_eq_some_iff.1 hs
  change ((ends t c).flatMap (ends (phrase ts))).head? = some e
  rw [hl, List.flatMap_cons, hl']
  rfl

/-- The best way through a phrase goes on from the first end of its first part that leads on. -/
theorem Leads.cons_of_ends {l l' : List (Cursor σ)} (ht : ends t c = l ++ d :: l')
    (hl : ∀ x ∈ l, ends (phrase ts) x = []) (hs : Leads (phrase ts) d e) :
    Leads (phrase (t :: ts)) c e := by
  obtain ⟨k, hk⟩ := List.head?_eq_some_iff.1 hs
  change ((ends t c).flatMap (ends (phrase ts))).head? = some e
  rw [ht, List.flatMap_append, List.flatMap_eq_nil_iff.2 hl, List.flatMap_cons, hk]
  rfl

/-- A literal goes over the same characters in either letter case. -/
theorem Leads.lit (h : v.lowerPlain = w.lowerPlain) :
    Leads (lit w) ⟨x, v ++ r, ms⟩ ⟨v.getLast?.or x, r, ms⟩ := by
  simp [Leads, ends, Cursor.skip?, skip?_append h]

theorem Leads.one {p : Char → Bool} {y : Char} (hy : p y = true) :
    Leads (one p) ⟨x, y :: r, ms⟩ ⟨some y, r, ms⟩ := by
  simp [Leads, ends, runs, hy]

/-- The longest run is taken. -/
theorem Leads.longest {p : Char → Bool} (hp : ∀ c ∈ w, p c = true) (hr : r.head?.any p = false)
    (hw : w ≠ []) : Leads (longest p) ⟨x, w ++ r, ms⟩ ⟨w.getLast?, r, ms⟩ := by
  rw [Leads, ends, List.head?_reverse]
  exact runs_append hp hr hw ms

/-- The longest run is all of a text of the class. -/
theorem Leads.longest_all {p : Char → Bool} (hp : ∀ c ∈ w, p c = true) (hw : w ≠ []) :
    Leads (Template.longest p) ⟨x, w, ms⟩ ⟨w.getLast?, [], ms⟩ := by
  have h : Leads (Template.longest p) ⟨x, w ++ [], ms⟩ ⟨w.getLast?, [], ms⟩ := .longest hp rfl hw
  rwa [List.append_nil] at h

theorem Leads.left (h : Leads a c d) : Leads (alt a b) c d := by
  obtain ⟨l, hl⟩ := List.head?_eq_some_iff.1 h
  simp [Leads, ends, hl]

theorem Leads.right (ha : ends a c = []) (h : Leads b c d) : Leads (alt a b) c d := by
  rw [Leads, ends, ha]
  exact h

theorem Leads.skip (h : ends (phrase ts) c = []) : Leads (opt ts) c c := .right h rfl

theorem Leads.slot (s : σ) (h : Leads t c d) : Leads (slot s t) c (Cursor.mark s c d) := by
  simp [Leads, ends, List.head?_map, show (ends t c).head? = some d from h]

theorem Leads.edge (h : c.isEdge = true) : Leads edge c c := by
  simp [Leads, ends, h]

theorem Leads.stop : Leads stop ⟨x, [], ms⟩ ⟨x, [], ms⟩ := rfl

/-! ### Part by part -/

/-- A way through a phrase goes through its first part and then through the others. -/
theorem mem_ends_phrase_cons {t : Template σ} {ts : List (Template σ)} {c d : Cursor σ} :
    d ∈ ends (phrase (t :: ts)) c ↔ ∃ e ∈ ends t c, d ∈ ends (phrase ts) e := List.mem_flatMap

/-- Where a phrase ends is where its second part ends behind the first. -/
theorem ends_phrase_append (ts us : List (Template σ)) (c : Cursor σ) :
    ends (phrase (ts ++ us)) c = (ends (phrase ts) c).flatMap (ends (phrase us)) := by
  induction ts generalizing c with
  | nil => exact (List.append_nil _).symm
  | cons t ts ih =>
    change (ends t c).flatMap (ends (phrase (ts ++ us))) =
      ((ends t c).flatMap (ends (phrase ts))).flatMap (ends (phrase us))
    rw [List.flatMap_assoc, funext ih]

/-- Of some words one stands there. -/
theorem exists_of_mem_ends_oneOf {ws : List String} (hne : ws ≠ []) {c d : Cursor σ}
    (h : d ∈ ends (oneOf ws) c) : ∃ w ∈ ws, ∃ v : Text,
      v.lowerPlain = Text.lowerPlain w.toList ∧ c.rest = v ++ d.rest := by
  induction ws with
  | nil => exact absurd rfl hne
  | cons w ws ih =>
    cases ws with
    | nil =>
      obtain ⟨v, hv, hr, -⟩ := exists_of_mem_ends_lit h
      exact ⟨w, by simp, v, hv, hr⟩
    | cons w' ws =>
      rcases List.mem_append.1 h with h | h
      · obtain ⟨v, hv, hr, -⟩ := exists_of_mem_ends_lit h
        exact ⟨w, by simp, v, hv, hr⟩
      · obtain ⟨u, hu, v, hv, hr⟩ := ih (by simp) h
        exact ⟨u, List.mem_cons_of_mem _ hu, v, hv, hr⟩

/-- A gap begins with a blank and ends with one. -/
theorem exists_of_mem_ends_gap {c d : Cursor σ} (h : d ∈ ends gap c) :
    (∃ x r, isGap x = true ∧ c.rest = x :: r) ∧
      ∃ a x, isGap x = true ∧ c.rest = a ++ x :: d.rest := by
  obtain ⟨w, hne, hw, hr, -, -⟩ := mem_runs_iff.1 (List.mem_reverse.1 h)
  constructor
  · obtain ⟨x, r, rfl⟩ := List.exists_cons_of_ne_nil hne
    exact ⟨x, r ++ d.rest, hw x (by simp), hr⟩
  · obtain ⟨a, x, rfl⟩ := (List.eq_nil_or_concat w).resolve_left hne
    refine ⟨a, x, hw x (by simp), ?_⟩
    rw [hr, List.concat_eq_append, List.append_assoc, List.singleton_append]

/-! ### Dead ends -/

theorem ends_phrase_eq_nil (h : ends t c = []) : ends (phrase (t :: ts)) c = [] := by
  change (ends t c).flatMap _ = []
  rw [h]
  rfl

theorem ends_alt_eq_nil (ha : ends a c = []) (hb : ends b c = []) : ends (alt a b) c = [] := by
  rw [ends, ha, hb]
  rfl

theorem ends_slot_eq_nil {s : σ} (h : ends t c = []) : ends (slot s t) c = [] := by
  rw [ends, h]
  rfl

/-- A phrase goes nowhere if all places that its first part can lead to are dead ends. -/
theorem ends_phrase_cons_eq_nil (h : ∀ d ∈ ends t c, ends (phrase ts) d = []) :
    ends (phrase (t :: ts)) c = [] := List.flatMap_eq_nil_iff.2 h

/-- A literal that begins with another letter is a dead end. -/
theorem ends_lit_ne {y z : Char} (h : y.toLower ≠ z.toLower) :
    ends (lit (z :: w)) ⟨x, y :: r, ms⟩ = [] := by
  simp [ends, Cursor.skip?, Template.skip?, h]

/-- A literal that the text does not begin with is a dead end. -/
theorem ends_lit_of_not_isPrefix (h : ¬ w.lowerPlain <+: r.lowerPlain) :
    ends (lit w) ⟨x, r, ms⟩ = [] := by
  rw [ends, Cursor.skip?]
  cases hs : Template.skip? w x r with
  | none => rfl
  | some e => exact absurd (isPrefix_of_skip? hs) h

/-- Of words none of which begins like another, the one that stands there is taken. -/
theorem Leads.oneOf {ws : List String} {u : String} (hu : u ∈ ws)
    (hws : ∀ u' ∈ ws, u' ≠ u → ¬ Text.lowerPlain u'.toList <+: Text.lowerPlain u.toList ∧
      ¬ Text.lowerPlain u.toList <+: Text.lowerPlain u'.toList)
    (hv : v.lowerPlain = Text.lowerPlain u.toList) :
    Leads (oneOf ws) ⟨x, v ++ r, ms⟩ ⟨v.getLast?.or x, r, ms⟩ := by
  induction ws with
  | nil => cases hu
  | cons u' ws ih =>
    by_cases hne : u' = u
    · subst hne
      cases ws with
      | nil => exact .lit hv
      | cons u'' ws => exact .left (.lit hv)
    · have hu' : u ∈ ws := (List.mem_cons.1 hu).resolve_left fun h => hne h.symm
      obtain ⟨u'', ws, rfl⟩ := List.exists_cons_of_ne_nil (List.ne_nil_of_mem hu')
      -- of two words at one place the shorter begins the longer
      have hdead : ends (Template.lit u'.toList) ⟨x, v ++ r, ms⟩ = [] := by
        refine ends_lit_of_not_isPrefix fun hp => ?_
        have hvr : Text.lowerPlain u.toList <+: (v ++ r).lowerPlain := by
          rw [Text.lowerPlain_append, hv]
          exact List.prefix_append _ _
        rcases List.prefix_or_prefix_of_prefix hp hvr with h | h
        · exact (hws u' (by simp) hne).1 h
        · exact (hws u' (by simp) hne).2 h
      change Leads (alt (Template.lit u'.toList) (Template.oneOf (u'' :: ws))) _ _
      exact .right hdead (ih hu' fun y hy => hws y (List.mem_cons_of_mem _ hy))

end Leads

/-- What stands in front of the match that begins first is the front of the text. -/
theorem isPrefix_of_searchAfter? {t : Template σ} {b : Option Char} {text : Text}
    {e : Text × Match σ} (h : searchAfter? t b text = some e) : e.1 <+: text := by
  induction text generalizing b e with
  | nil =>
    obtain ⟨m, -, rfl⟩ := Option.map_eq_some_iff.1 h
    exact List.prefix_refl _
  | cons c r ih =>
    rw [searchAfter?] at h
    split at h
    · cases h
      exact List.nil_prefix
    · obtain ⟨f, hf, rfl⟩ := Option.map_eq_some_iff.1 h
      exact List.cons_prefix_cons.2 ⟨rfl, ih hf⟩

/-! ### Templates that end the text -/

/-- The template never goes over `x`, in either letter case. -/
def spares (x : Char) : Template σ → Bool
  | lit w => w.all fun c => c.toLower != x.toLower
  | one p => !p x
  | longest p => !p x
  | shortest p => !p x
  | seq a b => a.spares x && b.spares x
  | alt a b => a.spares x && b.spares x
  | slot _ t => t.spares x
  | _ => true

theorem not_mem_of_spares {x : Char} {t : Template σ} {c d : Cursor σ} (ht : t.spares x = true)
    (h : d ∈ ends t c) : ∃ v : Text, c.rest = v ++ d.rest ∧ x ∉ v := by
  rw [mem_ends_iff] at h
  induction h with
  | empty | edge | stop => exact ⟨[], rfl, by simp⟩
  | @lit w v r b ms hv =>
    refine ⟨v, rfl, fun hx => ?_⟩
    have hm : x.toLower ∈ w.lowerPlain := hv ▸ List.mem_map_of_mem hx
    obtain ⟨y, hy, hyx⟩ := List.mem_map.1 hm
    have := List.all_eq_true.1 ht y hy
    simp [hyx] at this
  | one _ hp | longest _ hp | shortest _ hp =>
    exact ⟨_, rfl, fun hx => by simp [spares, hp x hx] at ht⟩
  | seq _ _ iht ihu =>
    rw [spares, Bool.and_eq_true] at ht
    obtain ⟨v, hv, hxv⟩ := iht ht.1
    obtain ⟨u, hu, hxu⟩ := ihu ht.2
    exact ⟨v ++ u, by rw [hv, hu, List.append_assoc], by simp [hxv, hxu]⟩
  | left _ ih =>
    rw [spares, Bool.and_eq_true] at ht
    exact ih ht.1
  | right _ ih =>
    rw [spares, Bool.and_eq_true] at ht
    exact ih ht.2
  | slot _ ih => exact ih ht

/-- The template goes to the end of the text. -/
def stops : Template σ → Bool
  | seq a b => b.stops || a.stops && b.isStill
  | alt a b => a.stops && b.stops
  | slot _ t => t.stops
  | stop => true
  | _ => false

theorem rest_eq_nil_of_stops {t : Template σ} {c d : Cursor σ} (ht : t.stops = true)
    (h : d ∈ ends t c) : d.rest = [] := by
  rw [mem_ends_iff] at h
  induction h with
  | stop => rfl
  | seq _ hu iht ihu =>
    rw [stops, Bool.or_eq_true, Bool.and_eq_true] at ht
    rcases ht with hb | ⟨ha, hb⟩
    · exact ihu hb
    · rw [rest_eq_of_isStill hb (mem_ends_iff.2 hu), iht ha]
  | left _ ih =>
    rw [stops, Bool.and_eq_true] at ht
    exact ih ht.1
  | right _ ih =>
    rw [stops, Bool.and_eq_true] at ht
    exact ih ht.2
  | slot _ ih => exact ih ht
  | _ => cases ht

/-- What goes to the end of the text without `x` begins nowhere in front of `x`. -/
theorem matchAfter?_eq_none_of_spares {x : Char} {t : Template σ} {text : Text}
    (ht : t.stops = true) (hs : t.spares x = true) (hx : x ∈ text) (b : Option Char) :
    matchAfter? t b text = none := by
  rw [matchAfter?_eq_none_iff, List.eq_nil_iff_forall_not_mem]
  intro d hd
  obtain ⟨v, hv, hxv⟩ := not_mem_of_spares hs hd
  rw [rest_eq_nil_of_stops ht hd, List.append_nil] at hv
  exact hxv (hv ▸ hx)

/-- What the template goes over ends in the literal `u`. -/
def closes (u : Text) : Template σ → Bool
  | lit w => List.isSuffixOf u.lowerPlain w.lowerPlain
  | seq a b => b.closes u || b.isStill && a.closes u
  | alt a b => a.closes u && b.closes u
  | slot _ t => t.closes u
  | _ => false

theorem exists_of_closes {u : Text} {t : Template σ} {c d : Cursor σ} (ht : t.closes u = true)
    (h : d ∈ ends t c) :
    ∃ a v : Text, c.rest = a ++ (v ++ d.rest) ∧ v.lowerPlain = u.lowerPlain := by
  rw [mem_ends_iff] at h
  induction h with
  | lit hv =>
    obtain ⟨p, hp⟩ := List.isSuffixOf_iff_suffix.1 ht
    rw [← hv] at hp
    obtain ⟨a, v, rfl, -, hv⟩ := List.map_eq_append_iff.1 hp.symm
    exact ⟨a, v, List.append_assoc _ _ _, hv⟩
  | seq hs hu ihs ihu =>
    rw [closes, Bool.or_eq_true, Bool.and_eq_true] at ht
    rcases ht with hb | ⟨hb, ha⟩
    · obtain ⟨p, v, hr, hv⟩ := ihu hb
      obtain ⟨q, hq, -⟩ := exists_of_mem_ends (mem_ends_iff.2 hs)
      exact ⟨q ++ p, v, by rw [hq, hr, List.append_assoc], hv⟩
    · rw [rest_eq_of_isStill hb (mem_ends_iff.2 hu)]
      exact ihs ha
  | left _ ih =>
    rw [closes, Bool.and_eq_true] at ht
    exact ih ht.1
  | right _ ih =>
    rw [closes, Bool.and_eq_true] at ht
    exact ih ht.2
  | slot _ ih => exact ih ht
  | _ => cases ht

/-! ### Filled slots -/

theorem between_append (u v : Text) : between (u ++ v) v = u := by simp [between]

theorem between_nil (u : Text) : between u [] = u := by simp [between]

theorem between_isPrefix (u v : Text) : between u v <+: u := List.take_prefix _ _

/-- A slot that a way through a template fills is filled from a place on this way. -/
theorem isSuffix_of_mem_marks {t : Template σ} {c d : Cursor σ} (h : d ∈ ends t c) :
    ∀ e ∈ d.marks, e ∈ c.marks ∨ e.2.1 <:+ c.rest := by
  rw [mem_ends_iff] at h
  induction h with
  | seq ht _ iht ihu =>
    intro e he
    rcases ihu e he with hm | hs
    · exact iht e hm
    · exact .inr (hs.trans (rest_isSuffix_of_mem_ends (mem_ends_iff.2 ht)))
  | left _ ih | right _ ih => exact ih
  | slot _ ih =>
    intro e he
    rcases List.mem_cons.1 he with rfl | he
    · exact .inr (List.suffix_refl _)
    · exact ih e he
  | _ => exact fun e => .inl

/-- On its way a template only fills further slots. -/
theorem marks_isSuffix_of_mem_ends {t : Template σ} {c d : Cursor σ} (h : d ∈ ends t c) :
    c.marks <:+ d.marks := by
  rw [mem_ends_iff] at h
  induction h with
  | seq _ _ iht ihu => exact iht.trans ihu
  | left _ ih | right _ ih => exact ih
  | slot _ ih => exact ih.trans (List.suffix_cons _ _)
  | _ => exact List.suffix_rfl

/-- What fills the slot `s` never goes over `x`, in either letter case. -/
def sparesIn [DecidableEq σ] (s : σ) (x : Char) : Template σ → Bool
  | seq a b => a.sparesIn s x && b.sparesIn s x
  | alt a b => a.sparesIn s x && b.sparesIn s x
  | slot s' t => (s' != s || t.spares x) && t.sparesIn s x
  | _ => true

theorem not_mem_of_sparesIn [DecidableEq σ] {s : σ} {x : Char} {t : Template σ} {c d : Cursor σ}
    (ht : t.sparesIn s x = true) (h : d ∈ ends t c) :
    ∀ e ∈ d.marks, e ∈ c.marks ∨ (e.1 = s → x ∉ between e.2.1 e.2.2) := by
  rw [mem_ends_iff] at h
  induction h with
  | seq _ _ iht ihu =>
    rw [sparesIn, Bool.and_eq_true] at ht
    exact fun e he => (ihu ht.2 e he).elim (iht ht.1 e) .inr
  | left _ ih =>
    rw [sparesIn, Bool.and_eq_true] at ht
    exact ih ht.1
  | right _ ih =>
    rw [sparesIn, Bool.and_eq_true] at ht
    exact ih ht.2
  | slot h ih =>
    rw [sparesIn, Bool.and_eq_true, Bool.or_eq_true, bne_iff_ne] at ht
    intro e he
    rcases List.mem_cons.1 he with rfl | he
    · refine .inr fun hs => ?_
      obtain ⟨v, hv, hxv⟩ :=
        not_mem_of_spares (ht.1.resolve_left fun hne => hne hs) (mem_ends_iff.2 h)
      rw [hv, between_append]
      exact hxv
    · exact ih ht.2 e he
  | _ => exact fun e => .inl

section Slots

variable [DecidableEq σ] {s s' : σ} {t r u v : Text} {ms : List (σ × Text × Text)}

theorem slot?_cons_self : Match.slot? ⟨t, r, (s, u, v) :: ms⟩ s = some (between u v) := by
  simp [Match.slot?]

theorem slot?_cons_ne (h : s' ≠ s) :
    Match.slot? ⟨t, r, (s', u, v) :: ms⟩ s = Match.slot? ⟨t, r, ms⟩ s := by
  simp [Match.slot?, h]

/-- What fills a slot stands in the text. -/
theorem slot_isInfix_of_match? {t : Template σ} {text : Text} {m : Match σ}
    (h : t.match? text = some m) (s : σ) : m.slot s <:+: text := by
  rw [match?, matchAfter?_eq, Option.map_eq_some_iff] at h
  obtain ⟨c, hc, rfl⟩ := h
  rw [Match.slot, Match.slot?]
  cases hf : c.marks.find? (fun e => e.1 = s) with
  | none => exact (List.nil_prefix).isInfix
  | some e =>
    rcases isSuffix_of_mem_marks (List.mem_of_mem_head? hc) e (List.mem_of_find?_eq_some hf)
      with he | he
    · cases he
    · exact (between_isPrefix _ _).isInfix.trans he.isInfix

/-- What fills a slot has no character that its part of the template never goes over. -/
theorem not_mem_slot? {x : Char} {t : Template σ} {text f : Text} {m : Match σ}
    (ht : t.sparesIn s x = true) (h : t.match? text = some m) (hf : m.slot? s = some f) :
    x ∉ f := by
  rw [match?, matchAfter?_eq, Option.map_eq_some_iff] at h
  obtain ⟨c, hc, rfl⟩ := h
  obtain ⟨e, he, rfl⟩ := Option.map_eq_some_iff.1 hf
  rcases not_mem_of_sparesIn ht (List.mem_of_mem_head? hc) e (List.mem_of_find?_eq_some he)
    with hm | hx
  · cases hm
  · exact hx (by simpa using List.find?_some he)

end Slots

end Template

end CardText
