import CardText.Effect.Steps
import CardText.Proofs.Template

/-!
# The contest of the wordings

Of all wordings that match an action, the one that says most is taken.

* `Template.spoken`: the least that a wording says; `Wording.spoken_le_fit`: a match says no less;
* `Template.leaves`: a template whose matches end behind another character than the given one;
* `Wording.not_worse_of_pick?`, `Wording.pick?_append_append`: what is taken fits best, and what
  fits best is taken; `Wording.pick?_eq_some_iff` for both with the place in the list;
* `Wording.earlier`, `Wording.later`: the table around a wording;
* `Wording.best?_eq_some_iff_of_part`: when a wording of some part of the table is taken;
* `Wording.best?_of_forall_ne`: the only wording that matches is taken.
-/

namespace CardText

namespace Text

theorem byteCount_append (s t : Text) : byteCount (s ++ t) = byteCount s + byteCount t := by
  induction s with
  | nil => simp [byteCount]
  | cons c s ih => simp only [List.cons_append, byteCount, ih]; omega

theorem length_le_byteCount (t : Text) : t.length ≤ byteCount t := by
  induction t with
  | nil => exact Nat.zero_le _
  | cons c t ih =>
    have := c.utf8Size_pos
    simp only [List.length_cons, byteCount]
    omega

end Text

namespace Template

variable {σ : Type}

/-! ### How much a wording says -/

/-- The template has no slots. -/
def isPlain : Template σ → Bool
  | seq a b => a.isPlain && b.isPlain
  | alt a b => a.isPlain && b.isPlain
  | slot _ _ => false
  | _ => true

theorem marks_of_isPlain {t : Template σ} {c d : Cursor σ} (ht : t.isPlain = true)
    (h : d ∈ ends t c) : d.marks = c.marks := by
  rw [mem_ends_iff] at h
  induction h with
  | seq _ _ iht ihu =>
    rw [isPlain, Bool.and_eq_true] at ht
    rw [ihu ht.2, iht ht.1]
  | left _ ih =>
    rw [isPlain, Bool.and_eq_true] at ht
    exact ih ht.1
  | right _ ih =>
    rw [isPlain, Bool.and_eq_true] at ht
    exact ih ht.2
  | slot => cases ht
  | _ => rfl

/-- No slot stands in a free one. -/
def isFlat : Template Slot → Bool
  | seq a b => a.isFlat && b.isFlat
  | alt a b => a.isFlat && b.isFlat
  | slot s t => if s.isFree then t.isPlain else t.isFlat
  | _ => true

/-- The least number of characters that a match has outside the free slots. -/
def spoken : Template Slot → Nat
  | lit w => w.length
  | one _ => 1
  | longest _ => 1
  | shortest _ => 1
  | seq a b => a.spoken + b.spoken
  | alt a b => min a.spoken b.spoken
  | slot s t => if s.isFree then 0 else t.spoken
  | _ => 0

/-- The bytes in the free slots. -/
def freeBytes : List (Slot × Text × Text) → Nat
  | [] => 0
  | e :: ms => (if e.1.isFree then Text.byteCount (between e.2.1 e.2.2) else 0) + freeBytes ms

/-- What a way through a template goes over has the words of the template and what fills its free
slots. -/
theorem spoken_le_of_mem_ends {t : Template Slot} {c d : Cursor Slot} (ht : t.isFlat = true)
    (h : d ∈ ends t c) :
    t.spoken + freeBytes d.marks + Text.byteCount d.rest ≤
      freeBytes c.marks + Text.byteCount c.rest := by
  rw [mem_ends_iff] at h
  induction h with
  | empty | edge | stop => simp [spoken]
  | @lit w v r b ms hv =>
    have hl : v.length = w.length := by simpa [Text.lowerPlain] using congrArg List.length hv
    have hb := Text.length_le_byteCount v
    simp only [spoken, Text.byteCount_append]
    omega
  | @one p v r b ms hv | @longest p v r b ms hv | @shortest p v r b ms hv =>
    have hb := Text.length_le_byteCount v
    simp only [spoken, Text.byteCount_append]
    omega
  | seq _ _ iht ihu =>
    rw [isFlat, Bool.and_eq_true] at ht
    have h₁ := iht ht.1
    have h₂ := ihu ht.2
    rw [spoken]
    omega
  | left _ ih =>
    rw [isFlat, Bool.and_eq_true] at ht
    have := ih ht.1
    rw [spoken]
    omega
  | right _ ih =>
    rw [isFlat, Bool.and_eq_true] at ht
    have := ih ht.2
    rw [spoken]
    omega
  | slot h ih =>
    rw [isFlat] at ht
    simp only [spoken, Cursor.mark, freeBytes]
    split_ifs at ht ⊢ with hs
    · -- what fills a free slot counts there, and nothing in it counts twice
      obtain ⟨v, hv, -⟩ := exists_of_mem_ends (mem_ends_iff.2 h)
      rw [marks_of_isPlain ht (mem_ends_iff.2 h), hv, between_append, Text.byteCount_append]
      omega
    · have := ih ht
      omega

theorem byteCount_free_le (t r : Text) (ms : List (Slot × Text × Text)) :
    Text.byteCount (Slot.free.flatMap (Match.slot ⟨t, r, ms⟩)) ≤ freeBytes ms := by
  simp only [Slot.free, List.flatMap_cons, List.flatMap_nil, Text.byteCount_append]
  induction ms with
  | nil => simp [Match.slot, Match.slot?, Text.byteCount]
  | cons e ms ih =>
    obtain ⟨s, u, v⟩ := e
    have hself : Match.slot ⟨t, r, (s, u, v) :: ms⟩ s = between u v := by
      rw [Match.slot, slot?_cons_self, Option.getD_some]
    have hne : ∀ s', s ≠ s' → Match.slot ⟨t, r, (s, u, v) :: ms⟩ s' = Match.slot ⟨t, r, ms⟩ s' := by
      intro s' hs
      rw [Match.slot, Match.slot, slot?_cons_ne hs]
    cases s <;> simp [hself, hne, freeBytes, Slot.isFree] at ih ⊢ <;> omega

/-- A match goes over the front of the text, up to what it leaves over. -/
theorem whole_append_rest {t : Template σ} {text : Text} {m : Match σ}
    (h : t.match? text = some m) : m.whole ++ m.rest = text := by
  rw [match?, matchAfter?_eq, Option.map_eq_some_iff] at h
  obtain ⟨c, hc, rfl⟩ := h
  obtain ⟨v, hv, -⟩ := exists_of_mem_ends (List.mem_of_mem_head? hc)
  have hv : text = v ++ c.rest := hv
  rw [Match.whole, hv, between_append]

/-- What a match goes over, in bytes. -/
theorem byteCount_whole {t : Template Slot} {text : Text} {m : Match Slot}
    (h : t.match? text = some m) :
    Text.byteCount m.whole + Text.byteCount m.rest = Text.byteCount text := by
  rw [← Text.byteCount_append, whole_append_rest h]

/-- A match goes over the words of its wording and what fills the free slots. -/
theorem spoken_add_free_le {t : Template Slot} (ht : t.isFlat = true) {text : Text}
    {m : Match Slot} (h : t.match? text = some m) :
    t.spoken + Text.byteCount (Slot.free.flatMap m.slot) ≤ Text.byteCount m.whole := by
  have hw := byteCount_whole h
  rw [match?, matchAfter?_eq, Option.map_eq_some_iff] at h
  obtain ⟨c, hc, rfl⟩ := h
  have hs := spoken_le_of_mem_ends ht (List.mem_of_mem_head? hc)
  have hf := byteCount_free_le text c.rest c.marks
  simp only [freeBytes] at hs
  simp only at hw
  omega

/-! ### The end of a match -/

/-- What the template goes over does not end in `x`, in either letter case. -/
def keeps (x : Char) : Template σ → Bool
  | lit w => w.getLast?.all fun c => c.toLower != x.toLower
  | one p => !p x
  | longest p => !p x
  | shortest p => !p x
  | seq a b => a.keeps x && b.keeps x
  | alt a b => a.keeps x && b.keeps x
  | slot _ t => t.keeps x
  | _ => true

/-- The template goes over some text, which does not end in `x`. -/
def leaves (x : Char) : Template σ → Bool
  | lit w => w.getLast?.any fun c => c.toLower != x.toLower
  | one p => !p x
  | longest p => !p x
  | shortest p => !p x
  | seq a b => b.leaves x || a.leaves x && b.keeps x
  | alt a b => a.leaves x && b.leaves x
  | slot _ t => t.leaves x
  | _ => false

theorem getLast?_ne {x : Char} {p : Char → Bool} {v : Text} (hp : p x = false)
    (hv : ∀ c ∈ v, p c = true) : v.getLast? ≠ some x := by
  intro hx
  rw [hv x (List.mem_of_mem_getLast? hx)] at hp
  cases hp

theorem getLast?_toLower {v w : Text} (h : v.lowerPlain = w.lowerPlain) :
    v.getLast?.map Char.toLower = w.getLast?.map Char.toLower := by
  rw [← List.getLast?_map, ← List.getLast?_map]
  exact congrArg List.getLast? h

theorem before_ne_of_keeps {x : Char} {t : Template σ} {c d : Cursor σ} (ht : t.keeps x = true)
    (hc : c.before ≠ some x) (h : d ∈ ends t c) : d.before ≠ some x := by
  rw [mem_ends_iff] at h
  induction h with
  | empty | edge | stop => exact hc
  | @lit w v r b ms hv =>
    have hl := getLast?_toLower hv
    rcases hy : v.getLast? with _ | y
    · exact hc
    · obtain ⟨z, hz, hzy⟩ := Option.map_eq_some_iff.1 (hl.symm.trans (by rw [hy]; rfl))
      simp only [keeps, hz, Option.all_some, hzy, bne_iff_ne] at ht
      rintro ⟨⟩
      exact ht rfl
  | one _ hp | longest _ hp | shortest _ hp => exact getLast?_ne (by simpa [keeps] using ht) hp
  | seq _ _ iht ihu =>
    rw [keeps, Bool.and_eq_true] at ht
    exact ihu ht.2 (iht ht.1 hc)
  | left _ ih =>
    rw [keeps, Bool.and_eq_true] at ht
    exact ih ht.1 hc
  | right _ ih =>
    rw [keeps, Bool.and_eq_true] at ht
    exact ih ht.2 hc
  | slot _ ih => exact ih ht hc

theorem before_ne_of_leaves {x : Char} {t : Template σ} {c d : Cursor σ} (ht : t.leaves x = true)
    (h : d ∈ ends t c) : d.before ≠ some x := by
  rw [mem_ends_iff] at h
  induction h with
  | lit hv =>
    have hl := getLast?_toLower hv
    obtain ⟨z, hz, hzx⟩ := (Option.any_eq_true _ _).1 ht
    obtain ⟨y, hy, hyz⟩ := Option.map_eq_some_iff.1 (hl.trans (by rw [hz]; rfl))
    simp only [hy, Option.some_or]
    rintro ⟨⟩
    simp [hyz] at hzx
  | one _ hp | longest _ hp | shortest _ hp => exact getLast?_ne (by simpa [leaves] using ht) hp
  | seq _ hu iht ihu =>
    rw [leaves, Bool.or_eq_true, Bool.and_eq_true] at ht
    rcases ht with hb | ⟨ha, hb⟩
    · exact ihu hb
    · exact before_ne_of_keeps hb (iht ha) (mem_ends_iff.2 hu)
  | left _ ih =>
    rw [leaves, Bool.and_eq_true] at ht
    exact ih ht.1
  | right _ ih =>
    rw [leaves, Bool.and_eq_true] at ht
    exact ih ht.2
  | slot _ ih => exact ih ht
  | empty | edge | stop => cases ht

/-- A match that leaves the last character of the text leaves something over. -/
theorem byteCount_whole_lt_of_leaves {x : Char} {t : Template Slot} (ht : t.leaves x = true)
    {text : Text} (hx : text.getLast? = some x) {m : Match Slot} (h : t.match? text = some m) :
    Text.byteCount m.whole < Text.byteCount text := by
  have hw := byteCount_whole h
  rw [match?, matchAfter?_eq, Option.map_eq_some_iff] at h
  obtain ⟨c, hc, rfl⟩ := h
  have hm := List.mem_of_mem_head? hc
  obtain ⟨v, hv, hb⟩ := exists_of_mem_ends hm
  have hr : c.rest ≠ [] := by
    intro hn
    have hv : text = v := by simpa [hn] using hv
    exact before_ne_of_leaves ht hm (by rw [hb, ← hv, hx]; rfl)
  have hp := List.length_pos_iff.2 hr
  have hl := Text.length_le_byteCount c.rest
  simp only at hw
  omega

end Template

namespace Wording

open Template

/-- A match says at least what its wording says. -/
theorem spoken_le_fit {t : Template Slot} (ht : t.isFlat = true) {text : Text} {m : Match Slot}
    (h : t.match? text = some m) : t.spoken ≤ (fit m).1 := by
  have := spoken_add_free_le ht h
  rw [fit]
  omega

theorem mem_matching_iff {ws : List Wording} {t : Text} {x : Wording × Match Slot} :
    x ∈ matching ws t ↔ x.1 ∈ ws ∧ x.1.template.match? t = some x.2 := by
  simp only [matching, List.mem_filterMap, Option.map_eq_some_iff]
  constructor
  · rintro ⟨w, hw, m, hm, rfl⟩
    exact ⟨hw, hm⟩
  · rintro ⟨hw, hm⟩
    exact ⟨x.1, hw, x.2, hm, rfl⟩

theorem width_template_pos (w : Wording) : 0 < w.template.width := by cases w <;> decide

theorem worse_iff {a b : Nat × Nat} : worse a b = true ↔ a.1 < b.1 ∨ a.1 = b.1 ∧ a.2 < b.2 := by
  simp [worse]

theorem pick?_eq_none_iff {l : List (Wording × Match Slot)} : pick? l = none ↔ l = [] := by
  cases l with
  | nil => simp [pick?]
  | cons c cs =>
    rw [pick?]
    split
    · simp
    · split <;> simp

theorem mem_of_pick? {l : List (Wording × Match Slot)} {x : Wording × Match Slot}
    (h : pick? l = some x) : x ∈ l := by
  induction l generalizing x with
  | nil => cases h
  | cons c cs ih =>
    rw [pick?] at h
    split at h
    · obtain rfl := Option.some.inj h; simp
    · next d hd =>
      split at h
      · obtain rfl := Option.some.inj h; exact List.mem_cons_of_mem _ (ih hd)
      · obtain rfl := Option.some.inj h; simp

/-- Nothing fits better than what is picked. -/
theorem not_worse_of_pick? {l : List (Wording × Match Slot)} {x : Wording × Match Slot}
    (h : pick? l = some x) {c : Wording × Match Slot} (hc : c ∈ l) :
    ¬ worse (fit x.2) (fit c.2) = true := by
  induction l generalizing x with
  | nil => cases hc
  | cons e l ih =>
    rw [pick?] at h
    split at h
    · next hn =>
      obtain rfl := pick?_eq_none_iff.1 hn
      obtain rfl := Option.some.inj h
      obtain rfl := List.mem_singleton.1 hc
      simp [worse_iff]
    · next d hd =>
      have ihd := fun hm => ih hd hm
      simp only [worse_iff, not_or, not_and, Nat.not_lt] at *
      split_ifs at h with hw
      · obtain rfl := Option.some.inj h
        rcases List.mem_cons.1 hc with rfl | hm
        · omega
        · exact ihd hm
      · obtain rfl := Option.some.inj h
        rcases List.mem_cons.1 hc with rfl | hm
        · omega
        · have := ihd hm
          omega

/-- What is picked from two lists is picked from the first, or from the second and fits better than
all of the first. -/
theorem pick?_append {l r : List (Wording × Match Slot)} {x : Wording × Match Slot}
    (h : pick? (l ++ r) = some x) :
    pick? l = some x ∨ pick? r = some x ∧ ∀ c ∈ l, worse (fit c.2) (fit x.2) = true := by
  induction l generalizing x with
  | nil => exact .inr ⟨h, by simp⟩
  | cons c l ih =>
    rw [List.cons_append, pick?] at h
    split at h
    · next hn =>
      obtain ⟨rfl, -⟩ := List.append_eq_nil_iff.1 (pick?_eq_none_iff.1 hn)
      exact .inl h
    · next d hd =>
      split_ifs at h with hw
      · obtain rfl := Option.some.inj h
        rcases ih hd with hl | ⟨hr, hl⟩
        · left
          rw [pick?, hl]
          exact if_pos hw
        · exact .inr ⟨hr, List.forall_mem_cons.2 ⟨hw, hl⟩⟩
      · obtain rfl := Option.some.inj h
        left
        rw [pick?]
        cases he : pick? l with
        | none => rfl
        | some e =>
          -- the best of both lists is at least as good as the best of the first
          refine if_neg fun hce => hw ?_
          rcases ih hd with hl | ⟨-, hl⟩
          · obtain rfl := Option.some.inj (he.symm.trans hl)
            exact hce
          · have hed := hl e (mem_of_pick? he)
            rw [worse_iff] at hce hed ⊢
            omega

/-- What is picked from some matches is picked from all, if it fits better than all before these and
no worse than all behind them. -/
theorem pick?_append_append {l k r : List (Wording × Match Slot)} {x : Wording × Match Slot}
    (hk : pick? k = some x) (hl : ∀ c ∈ l, worse (fit c.2) (fit x.2) = true)
    (hr : ∀ c ∈ r, ¬ worse (fit x.2) (fit c.2) = true) : pick? (l ++ (k ++ r)) = some x := by
  have hx : x ∈ l ++ (k ++ r) := by simp [mem_of_pick? hk]
  cases h : pick? (l ++ (k ++ r)) with
  | none =>
    rw [pick?_eq_none_iff.1 h] at hx
    cases hx
  | some y =>
    have hy := not_worse_of_pick? h hx
    rcases pick?_append h with h | ⟨h, -⟩
    · exact absurd (hl y (mem_of_pick? h)) hy
    · rcases pick?_append h with h | ⟨h, hxy⟩
      · exact h.symm.trans hk
      · exact absurd (hxy x (mem_of_pick? hk)) (hr y (mem_of_pick? h))

/-- What fits better than all before it and no worse than all behind it is picked. -/
theorem pick?_append_cons {l r : List (Wording × Match Slot)} {x : Wording × Match Slot}
    (hl : ∀ c ∈ l, worse (fit c.2) (fit x.2) = true)
    (hr : ∀ c ∈ r, ¬ worse (fit x.2) (fit c.2) = true) : pick? (l ++ x :: r) = some x :=
  pick?_append_append (k := [x]) rfl hl hr

/-- What is picked fits better than all before it and no worse than all behind it. -/
theorem pick?_eq_some_iff {l : List (Wording × Match Slot)} {x : Wording × Match Slot} :
    pick? l = some x ↔ ∃ front back, l = front ++ x :: back ∧
      (∀ c ∈ front, worse (fit c.2) (fit x.2) = true) ∧
        ∀ c ∈ back, ¬ worse (fit x.2) (fit c.2) = true := by
  constructor
  · intro h
    induction l generalizing x with
    | nil => cases h
    | cons c l ih =>
      rw [pick?] at h
      split at h
      · next hn =>
        obtain rfl := Option.some.inj h
        obtain rfl := pick?_eq_none_iff.1 hn
        exact ⟨[], [], rfl, by simp, by simp⟩
      · next d hd =>
        split_ifs at h with hw
        · obtain rfl := Option.some.inj h
          obtain ⟨front, back, rfl, hf, hb⟩ := ih hd
          exact ⟨c :: front, back, rfl, List.forall_mem_cons.2 ⟨hw, hf⟩, hb⟩
        · obtain rfl := Option.some.inj h
          refine ⟨[], l, rfl, by simp, fun e he hce => hw ?_⟩
          have hde := not_worse_of_pick? hd he
          rw [worse_iff] at hce hde ⊢
          omega
  · rintro ⟨front, back, rfl, hf, hb⟩
    exact pick?_append_cons hf hb

/-! ### The table around a wording -/

/-- The wordings in front of `w`. -/
def earlier (w : Wording) : List Wording := all.takeWhile (· != w)

/-- The wordings behind `w`. -/
def later (w : Wording) : List Wording := (all.dropWhile (· != w)).tail

theorem all_eq (w : Wording) : all = w.earlier ++ ([w] ++ w.later) := by cases w <;> rfl

theorem matching_append (us ws : List Wording) (t : Text) :
    matching (us ++ ws) t = matching us t ++ matching ws t := List.filterMap_append

/-! ### The best wording -/

variable {t : Text} {w : Wording} {m : Match Slot}

theorem mem_matching_all (h : w.template.match? t = some m) : (w, m) ∈ matching all t :=
  mem_matching_iff.2 ⟨mem_all w, h⟩

theorem match?_of_best? (h : best? t = some (w, m)) : w.template.match? t = some m :=
  (mem_matching_iff.1 (mem_of_pick? h)).2

/-- If a wording matches, one is taken that fits no worse. -/
theorem exists_best? (h : w.template.match? t = some m) :
    ∃ v n, best? t = some (v, n) ∧ ¬ worse (fit n) (fit m) = true := by
  have hm := mem_matching_all h
  cases hb : best? t with
  | none =>
    rw [pick?_eq_none_iff.1 hb] at hm
    cases hm
  | some x => exact ⟨x.1, x.2, rfl, not_worse_of_pick? hb hm⟩

/-- **A wording of one part of the table is taken exactly if it is picked there**, and fits better
than all that stand in front of that part and no worse than all behind it. -/
theorem best?_eq_some_iff_of_part {us ws vs : List Wording} (hall : all = us ++ (ws ++ vs))
    (hus : w ∉ us) (hvs : w ∉ vs) : best? t = some (w, m) ↔ pick? (matching ws t) = some (w, m) ∧
      (∀ v ∈ us, ∀ n ∈ v.template.match? t, worse (fit n) (fit m) = true) ∧
        ∀ v ∈ vs, ∀ n ∈ v.template.match? t, ¬ worse (fit m) (fit n) = true := by
  rw [best?, hall, matching_append, matching_append]
  constructor
  · intro h
    -- the wording stands in neither of the two other parts
    obtain h₁ | ⟨h₁, hfront⟩ := pick?_append h
    · exact absurd (mem_matching_iff.1 (mem_of_pick? h₁)).1 hus
    obtain h₂ | ⟨h₂, -⟩ := pick?_append h₁
    · refine ⟨h₂, fun v hv n hn => ?_, fun v hv n hn => ?_⟩
      · have hvn : (v, n) ∈ matching us t := mem_matching_iff.2 ⟨hv, hn⟩
        exact hfront _ hvn
      · have hvn : (v, n) ∈ matching vs t := mem_matching_iff.2 ⟨hv, hn⟩
        exact not_worse_of_pick? h₁ (List.mem_append_right _ hvn)
    · exact absurd (mem_matching_iff.1 (mem_of_pick? h₂)).1 hvs
  · rintro ⟨h, hfront, hback⟩
    refine pick?_append_append h (fun c hc => ?_) fun c hc => ?_
    · obtain ⟨hv, hn⟩ := mem_matching_iff.1 hc
      exact hfront _ hv _ hn
    · obtain ⟨hv, hn⟩ := mem_matching_iff.1 hc
      exact hback _ hv _ hn

/-- The only wording that matches is taken. -/
theorem best?_of_forall_ne (hm : w.template.match? t = some m)
    (h : ∀ v, v ≠ w → v.template.match? t = none) : best? t = some (w, m) := by
  obtain ⟨v, n, hb, -⟩ := exists_best? hm
  have hn := match?_of_best? hb
  obtain rfl : v = w := by
    by_contra hv
    rw [h v hv] at hn
    cases hn
  rw [hb, Option.some.inj (hn.symm.trans hm)]

end Wording

end CardText
