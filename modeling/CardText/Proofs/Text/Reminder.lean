import CardText.Proofs.Text.Typography

/-!
# Closed parentheses

Where parentheses are closed, what they contain has no part in the text that counts.

* `Text.depth`, `Text.IsClosed`, `Text.IsMatched`: how many opening marks are left open, all of them
  closed, all marks matched; for parentheses and for braces;
* `Text.parted_induction`: the cases of reading a text one character after the other;
* `Text.parted_append`: behind closed parentheses a text is read as if it stood alone;
* `Text.parted_enclosed`: a matched text in parentheses is a reminder as a whole;
* `Text.parted_flatMap`: rewriting characters other than parentheses, one by one, does not change
  which of them stand outside parentheses;
* `Text.isVoid_body_normalize`: a text and its plain form both have a body or both have none.
-/

namespace CardText

namespace Text

/-! ### Nesting -/

section Nesting

variable {o c : Char} {d : Nat} {s t : Text}

/-- The number of marks `o` that are open behind a character; `d` are open in front of it. A mark
`c` closes one, and is an ordinary character where none is open. -/
def nest (o c : Char) (d : Nat) (x : Char) : Nat :=
  if x = o then d + 1 else if x = c then d - 1 else d

/-- The number of marks `o` that are open behind a text. -/
def depth (o c : Char) (d : Nat) (t : Text) : Nat := t.foldl (nest o c) d

/-- Every mark `o` of the text is closed in it by a mark `c`. -/
def IsClosed (o c : Char) (t : Text) : Prop := depth o c 0 t = 0

instance : Decidable (IsClosed o c t) := inferInstanceAs (Decidable (_ = _))

/-- The text closes `d` marks `o` that are open in front of it and all of its own, and every mark
`c` closes one of these. -/
def closes (o c : Char) : Nat → Text → Bool
  | d, [] => d == 0
  | d, x :: r =>
    if x = o then closes o c (d + 1) r
    else if x = c then d != 0 && closes o c (d - 1) r
    else closes o c d r

/-- Every mark `o` and every mark `c` of the text is matched in it. -/
def IsMatched (o c : Char) (t : Text) : Prop := closes o c 0 t = true

instance : Decidable (IsMatched o c t) := inferInstanceAs (Decidable (_ = _))

@[simp] theorem depth_nil : depth o c d [] = d := rfl

@[simp] theorem depth_cons (x : Char) : depth o c d (x :: t) = depth o c (nest o c d x) t := rfl

theorem depth_append : depth o c d (s ++ t) = depth o c (depth o c d s) t := List.foldl_append ..

/-- Other characters change nothing. -/
theorem nest_eq_self {x : Char} (ho : x ≠ o) (hc : x ≠ c) : nest o c d x = d := by
  rw [nest, if_neg ho, if_neg hc]

theorem depth_eq_self (h : ∀ x ∈ t, x ≠ o ∧ x ≠ c) : depth o c d t = d := by
  induction t with
  | nil => rfl
  | cons x t ih =>
    obtain ⟨ho, hc⟩ := h x (by simp)
    rw [depth_cons, nest_eq_self ho hc]
    exact ih fun y hy => h y (List.mem_cons_of_mem _ hy)

/-- A text that closes `d` marks brings a greater depth down by as much. -/
theorem depth_of_closes (h : closes o c d t = true) (k : Nat) : depth o c (d + k) t = k := by
  induction t generalizing d with
  | nil => simpa [closes] using h
  | cons x t ih =>
    rw [closes] at h
    rw [depth_cons, nest]
    split_ifs at h ⊢ with ho hc
    · rw [Nat.add_right_comm]
      exact ih h
    · rw [Bool.and_eq_true, bne_iff_ne] at h
      rw [Nat.sub_add_comm (Nat.pos_of_ne_zero h.1)]
      exact ih h.2
    · exact ih h

theorem IsMatched.isClosed (h : IsMatched o c t) : IsClosed o c t := depth_of_closes h 0

theorem IsClosed.of_not_mem (h : o ∉ t) : IsClosed o c t := by
  induction t with
  | nil => rfl
  | cons x t ih =>
    have hn : nest o c 0 x = 0 := by
      rw [nest, if_neg fun he : x = o => h (he ▸ List.mem_cons_self)]
      split_ifs <;> rfl
    rw [IsClosed, depth_cons, hn]
    exact ih fun hm => h (List.mem_cons_of_mem _ hm)

theorem IsMatched.of_not_mem (ho : o ∉ t) (hc : c ∉ t) : IsMatched o c t := by
  induction t with
  | nil => rfl
  | cons x t ih =>
    rw [IsMatched, closes, if_neg fun he : x = o => ho (he ▸ List.mem_cons_self),
      if_neg fun he : x = c => hc (he ▸ List.mem_cons_self)]
    exact ih (fun hm => ho (List.mem_cons_of_mem _ hm)) fun hm => hc (List.mem_cons_of_mem _ hm)

/-- A matched text in marks of its own kind is closed. -/
theorem IsMatched.isClosed_enclosed (hoc : c ≠ o) (h : IsMatched o c t) :
    IsClosed o c (o :: (t ++ [c])) := by
  have hd : depth o c 1 t = 1 := by simpa using depth_of_closes h 1
  rw [IsClosed, depth_cons, depth_append, nest, if_pos rfl, hd, depth_cons, nest, if_neg hoc,
    if_pos rfl]
  rfl

end Nesting

/-! ### Parts of a text -/

namespace Reminded

/-- One text behind the other. -/
def append (p q : Reminded) : Reminded := ⟨p.body ++ q.body, p.reminders ++ q.reminders⟩

theorem pushBody_append (c : Char) (p q : Reminded) :
    (p.append q).pushBody c = (p.pushBody c).append q := rfl

theorem pushReminder_append (r : Text) (p q : Reminded) :
    (p.append q).pushReminder r = (p.pushReminder r).append q := by
  rw [pushReminder, pushReminder]
  split_ifs <;> rfl

@[simp] theorem body_pushReminder (r : Text) (p : Reminded) : (p.pushReminder r).body = p.body := by
  rw [pushReminder]
  split_ifs <;> rfl

end Reminded

/-- An ordinary character outside parentheses. -/
theorem parted_zero_cons {c : Char} (hc : c ≠ '(') (inner r : Text) :
    parted 0 inner (c :: r) = (parted 0 [] r).pushBody c := parted.eq_4 inner c r hc

/-- An ordinary character inside parentheses. -/
theorem parted_succ_cons {c : Char} (ho : c ≠ '(') (hc : c ≠ ')') (d : Nat) (inner r : Text) :
    parted (d + 1) inner (c :: r) = parted (d + 1) (c :: inner) r :=
  parted.eq_8 inner d c r (fun _ h => hc h) (fun _ _ h => hc h) ho

theorem parted_succ_open (d : Nat) (inner r : Text) :
    parted (d + 1) inner ('(' :: r) = parted (d + 2) ('(' :: inner) r := by cases d <;> rfl

/-- Outside parentheses nothing is collected. -/
theorem parted_zero (inner t : Text) : parted 0 inner t = parted 0 [] t := by
  cases t with
  | nil => rfl
  | cons c t =>
    by_cases hc : c = '('
    · rw [hc]
      rfl
    · rw [parted_zero_cons hc, parted_zero_cons hc]

/-- A text is read one character after the other: outside parentheses, in the outermost ones, or
further inside. -/
theorem parted_induction {P : Nat → Text → Text → Prop} (done : ∀ inner, P 0 inner [])
    (unclosed : ∀ d inner, P (d + 1) inner [])
    (opening : ∀ inner r, P 1 [] r → P 0 inner ('(' :: r))
    (outside : ∀ inner c r, c ≠ '(' → P 0 [] r → P 0 inner (c :: r))
    (closing : ∀ inner r, P 0 [] r → P 1 inner (')' :: r))
    (closingInner : ∀ d inner r, P (d + 1) (')' :: inner) r → P (d + 2) inner (')' :: r))
    (openingInner : ∀ d inner r, P (d + 2) ('(' :: inner) r → P (d + 1) inner ('(' :: r))
    (inside : ∀ d inner c r, c ≠ '(' → c ≠ ')' → P (d + 1) (c :: inner) r →
      P (d + 1) inner (c :: r)) (d : Nat) (inner t : Text) : P d inner t := by
  induction t generalizing d inner with
  | nil =>
    cases d with
    | zero => exact done inner
    | succ d => exact unclosed d inner
  | cons c t ih =>
    by_cases ho : c = '('
    · subst ho
      cases d with
      | zero => exact opening inner t (ih 1 [])
      | succ d => exact openingInner d inner t (ih (d + 2) _)
    by_cases hc : c = ')'
    · subst hc
      match d with
      | 0 => exact outside inner ')' t ho (ih 0 [])
      | 1 => exact closing inner t (ih 0 [])
      | d + 2 => exact closingInner d inner t (ih (d + 1) _)
    · cases d with
      | zero => exact outside inner c t ho (ih 0 [])
      | succ d => exact inside d inner c t ho hc (ih (d + 1) _)

/-- Behind closed parentheses a text is read as if it stood alone. -/
theorem parted_append_of_depth {d : Nat} {inner s : Text} (h : depth '(' ')' d s = 0) (t : Text) :
    parted d inner (s ++ t) = (parted d inner s).append (parted 0 [] t) := by
  induction d, inner, s using parted_induction with
  | done inner => exact parted_zero inner t
  | unclosed => cases h
  | opening inner r ih => exact ih h
  | outside inner c r hc ih =>
    have hn : nest '(' ')' 0 c = 0 := by
      rw [nest, if_neg hc]
      split_ifs <;> rfl
    rw [depth_cons, hn] at h
    rw [List.cons_append, parted_zero_cons hc, parted_zero_cons hc, ih h, Reminded.pushBody_append]
  | closing inner r ih =>
    change (parted 0 [] (r ++ t)).pushReminder inner.reverse = _
    rw [ih h, Reminded.pushReminder_append]
    rfl
  | closingInner d inner r ih => exact ih h
  | openingInner d inner r ih =>
    rw [List.cons_append, parted_succ_open, parted_succ_open]
    exact ih h
  | inside d inner c r ho hc ih =>
    rw [depth_cons, nest_eq_self ho hc] at h
    rw [List.cons_append, parted_succ_cons ho hc, parted_succ_cons ho hc, ih h]

theorem parted_append {s : Text} (h : IsClosed '(' ')' s) (t : Text) :
    parted 0 [] (s ++ t) = (parted 0 [] s).append (parted 0 [] t) := parted_append_of_depth h t

theorem parted_eq_self {t : Text} (h : '(' ∉ t) : parted 0 [] t = ⟨t, []⟩ := by
  induction t with
  | nil => rfl
  | cons c t ih =>
    have hc : c ≠ '(' := fun he => h (he ▸ List.mem_cons_self)
    rw [parted_zero_cons hc, ih fun hm => h (List.mem_cons_of_mem _ hm)]
    rfl

/-- What stands in a parenthesis is collected until that parenthesis is closed. -/
theorem parted_inside {d : Nat} {r : Text} (h : closes '(' ')' d r = true) (inner t : Text) :
    parted (d + 1) inner (r ++ ')' :: t) = (parted 0 [] t).pushReminder (inner.reverse ++ r) := by
  induction r generalizing d inner with
  | nil =>
    have hd : d = 0 := by simpa [closes] using h
    rw [hd, List.append_nil]
    rfl
  | cons c r ih =>
    rw [closes] at h
    rw [List.cons_append]
    split_ifs at h with ho hc
    · rw [ho, parted_succ_open, ih h]
      simp
    · rw [Bool.and_eq_true, bne_iff_ne] at h
      obtain ⟨e, rfl⟩ := Nat.exists_eq_succ_of_ne_zero h.1
      rw [hc, parted, ih (d := e) h.2]
      simp
    · rw [parted_succ_cons ho hc, ih h]
      simp

/-- A matched text in parentheses is a reminder as a whole. -/
theorem parted_enclosed {r : Text} (h : IsMatched '(' ')' r) (t : Text) :
    parted 0 [] ('(' :: (r ++ ')' :: t)) = (parted 0 [] t).pushReminder r := parted_inside h [] t

/-! ### Other characters -/

/-- A rewriting of characters that leaves parentheses as they are and makes no others. -/
structure KeepsParentheses (f : Char → Text) : Prop where
  opening : f '(' = ['(']
  closing : f ')' = [')']
  other : ∀ {c}, c ≠ '(' → c ≠ ')' → ∀ x ∈ f c, x ≠ '(' ∧ x ≠ ')'

namespace KeepsParentheses

variable {f : Char → Text}

theorem nest_eq (h : KeepsParentheses f) (d : Nat) (c : Char) :
    depth '(' ')' d (f c) = nest '(' ')' d c := by
  by_cases ho : c = '('
  · rw [ho, h.opening]
    rfl
  by_cases hc : c = ')'
  · rw [hc, h.closing]
    rfl
  · rw [depth_eq_self (h.other ho hc), nest_eq_self ho hc]

theorem depth_flatMap (h : KeepsParentheses f) (d : Nat) (t : Text) :
    depth '(' ')' d (t.flatMap f) = depth '(' ')' d t := by
  induction t generalizing d with
  | nil => rfl
  | cons c t ih => rw [List.flatMap_cons, depth_append, h.nest_eq, depth_cons, ih]

end KeepsParentheses

/-- Several ordinary characters inside parentheses. -/
theorem parted_succ_append {w : Text} (h : ∀ x ∈ w, x ≠ '(' ∧ x ≠ ')') (d : Nat)
    (inner t : Text) : parted (d + 1) inner (w ++ t) = parted (d + 1) (w.reverse ++ inner) t := by
  induction w generalizing inner with
  | nil => rfl
  | cons c w ih =>
    obtain ⟨ho, hc⟩ := h c (by simp)
    rw [List.cons_append, parted_succ_cons ho hc, ih fun x hx => h x (List.mem_cons_of_mem _ hx)]
    simp

/-- Rewriting characters other than parentheses does not change what stands outside. -/
theorem parted_flatMap {f : Char → Text} (hf : KeepsParentheses f) (d : Nat) (inner t : Text) :
    (parted d (inner.reverse.flatMap f).reverse (t.flatMap f)).body =
      (parted d inner t).body.flatMap f := by
  have hpush : ∀ (c : Char) (i : Text), ((c :: i).reverse.flatMap f).reverse =
      (f c).reverse ++ (i.reverse.flatMap f).reverse := by simp
  induction d, inner, t using parted_induction with
  | done inner => rfl
  | unclosed d inner => simp [parted]
  | opening inner r ih =>
    rw [List.flatMap_cons, hf.opening]
    exact ih
  | outside inner c r hc ih =>
    have hw : '(' ∉ f c := by
      by_cases hc' : c = ')'
      · rw [hc', hf.closing]
        decide
      · exact fun hm => (hf.other hc hc' '(' hm).1 rfl
    rw [List.flatMap_cons, parted_zero, parted_append (.of_not_mem hw), parted_eq_self hw,
      parted_zero_cons hc]
    exact congrArg (f c ++ ·) ih
  | closing inner r ih =>
    rw [List.flatMap_cons, hf.closing]
    exact (Reminded.body_pushReminder _ _).trans
      (ih.trans (congrArg (List.flatMap f) (Reminded.body_pushReminder _ _).symm))
  | closingInner d inner r ih =>
    rw [hpush, hf.closing] at ih
    rw [List.flatMap_cons, hf.closing]
    exact ih
  | openingInner d inner r ih =>
    rw [hpush, hf.opening] at ih
    rw [List.flatMap_cons, hf.opening, parted_succ_open, ← ih]
    exact congrArg Reminded.body (parted_succ_open d _ _)
  | inside d inner c r ho hc ih =>
    rw [hpush] at ih
    rw [List.flatMap_cons, parted_succ_append (hf.other ho hc), parted_succ_cons ho hc, ← ih]

theorem body_parted_flatMap {f : Char → Text} (hf : KeepsParentheses f) (t : Text) :
    (parted 0 [] (t.flatMap f)).body = (parted 0 [] t).body.flatMap f := parted_flatMap hf 0 [] t

/-! ### Bodies of plain texts -/

theorem ink_eq_flatMap (t : Text) : t.ink = t.flatMap fun c => ink [c] := by
  induction t with
  | nil => rfl
  | cons c t ih => rw [← List.singleton_append, ink_append, ih, List.flatMap_append,
      List.flatMap_singleton]

theorem keepsParentheses_ink : KeepsParentheses fun c => ink [c] where
  opening := rfl
  closing := rfl
  other := fun ho hc x hx => by
    obtain rfl := List.mem_singleton.1 (List.mem_filter.1 hx).1
    exact ⟨ho, hc⟩

theorem keepsParentheses_plainForm : KeepsParentheses plainForm where
  opening := rfl
  closing := rfl
  other := by
    intro c
    have h := plainForm_cases (P := fun c u => c ≠ '(' → c ≠ ')' → '(' ∉ u ∧ ')' ∉ u) (by decide)
      (fun c ho hc => ⟨by simpa using ho.symm, by simpa using hc.symm⟩) c
    exact fun ho hc x hx =>
      ⟨fun he => (h ho hc).1 (he ▸ hx), fun he => (h ho hc).2 (he ▸ hx)⟩

/-- Only a capital letter can be the upper case of another character. -/
theorem eq_of_toUpper_eq {c x : Char} (h : c.toUpper = x) (hx : x.isUpper = false) : c = x := by
  unfold Char.toUpper at h
  split at h
  · next hc =>
    subst h
    unfold Char.isUpper at hx
    simp [UInt32.le_iff_toNat_le] at hx hc
    omega
  · exact h

theorem keepsParentheses_toUpper : KeepsParentheses fun c => [c.toUpper] where
  opening := rfl
  closing := rfl
  other := fun ho hc x hx => by
    obtain rfl := List.mem_singleton.1 hx
    exact ⟨fun h => ho (eq_of_toUpper_eq h rfl), fun h => hc (eq_of_toUpper_eq h rfl)⟩

theorem depth_ink (d : Nat) (t : Text) : depth '(' ')' d t.ink = depth '(' ')' d t := by
  rw [ink_eq_flatMap, keepsParentheses_ink.depth_flatMap]

theorem depth_capitalizeFrom (b : Bool) (d : Nat) (t : Text) :
    depth '(' ')' d (capitalizeFrom b t) = depth '(' ')' d t := by
  rw [← keepsParentheses_toUpper.depth_flatMap d (capitalizeFrom b t),
    ← keepsParentheses_toUpper.depth_flatMap d t, ← List.map_eq_flatMap, ← List.map_eq_flatMap,
    map_toUpper_capitalizeFrom]

/-- The plain form of a text leaves as many parentheses open. -/
theorem depth_normalize (d : Nat) (t : Text) :
    depth '(' ')' d t.normalize = depth '(' ')' d t := by
  rw [← depth_ink, ink_normalize, depth_capitalizeFrom, depth_ink,
    keepsParentheses_plainForm.depth_flatMap]

/-- The characters of the body are those outside parentheses. -/
theorem ink_body (t : Text) : t.body.ink = (parted 0 [] t).body.ink := by
  rw [body, stripReminders, ink_closeUp, ink_closeUp, ink_squeeze]

theorem ink_parted (t : Text) : (parted 0 [] t).body.ink = (parted 0 [] t.ink).body := by
  rw [ink_eq_flatMap, ink_eq_flatMap, body_parted_flatMap keepsParentheses_ink]

/-- Letter case has no part in whether anything stands outside parentheses. -/
theorem parted_capitalizeFrom_eq_nil (b : Bool) (t : Text) :
    (parted 0 [] (capitalizeFrom b t)).body = [] ↔ (parted 0 [] t).body = [] := by
  have key : ∀ u : Text, (parted 0 [] (u.map Char.toUpper)).body = [] ↔
      (parted 0 [] u).body = [] := by
    intro u
    rw [List.map_eq_flatMap, body_parted_flatMap keepsParentheses_toUpper, ← List.map_eq_flatMap,
      List.map_eq_nil_iff]
  rw [← key, map_toUpper_capitalizeFrom, key]

/-- The plain form of a character is blank if the character is. -/
theorem ink_plainForm_eq_nil (c : Char) : (plainForm c).ink = [] ↔ isBlank c = true := by
  refine plainForm_cases (P := fun c u => ink u = [] ↔ isBlank c = true) (by decide) ?_ c
  intro c
  simp [ink]

theorem ink_flatMap_plainForm_eq_nil (t : Text) :
    ink (t.flatMap plainForm) = [] ↔ t.ink = [] := by
  rw [ink, List.filter_flatMap, List.flatMap_eq_nil_iff, ← isVoid_iff_ink, isVoid_iff]
  exact forall₂_congr fun c _ => ink_plainForm_eq_nil c

/-- **A text and its plain form** both have a body or both have none. -/
theorem isVoid_body_normalize (t : Text) : t.normalize.body.isVoid = t.body.isVoid := by
  rw [Bool.eq_iff_iff, isVoid_iff_ink, isVoid_iff_ink, ink_body, ink_body, ink_parted,
    ink_normalize, parted_capitalizeFrom_eq_nil, ← ink_parted,
    body_parted_flatMap keepsParentheses_plainForm, ink_flatMap_plainForm_eq_nil]

/-! ### Reminders in a text -/

/-- Behind closed braces the plain form of a text has no open one. -/
theorem insideAfter_flatMap_plainForm {s : Text} {d : Nat} (h : depth '\x7b' '\x7d' d s = 0)
    {b : Bool} (hd : b = true → 0 < d) : insideAfter b (s.flatMap plainForm) = false := by
  induction s generalizing b d with
  | nil =>
    rw [depth_nil] at h
    cases b with
    | false => rfl
    | true => exact absurd h (hd rfl).ne'
  | cons c s ih =>
    rw [List.flatMap_cons, insideAfter_append]
    refine ih h ?_
    by_cases ho : c = '\x7b'
    · rw [ho]
      exact fun _ => Nat.succ_pos d
    by_cases hc : c = '\x7d'
    · have hf : insideAfter b (plainForm '\x7d') = false := by cases b <;> rfl
      rw [hc, hf]
      exact fun h => absurd h Bool.false_ne_true
    · -- a glyph closes the brace that its plain form opens
      have hb : insideAfter b (plainForm c) = true → b = true := by
        refine plainForm_cases (P := fun c u => c ≠ '\x7b' → c ≠ '\x7d' →
          insideAfter b u = true → b = true) ?_ (fun c ho hc => ?_) c ho hc
        · cases b <;> decide
        · rw [insideAfter, if_neg ho, if_neg hc]
          exact id
      rw [nest_eq_self ho hc]
      exact fun h => hd (hb h)

/-- Two plain forms with a space between them, where no symbol is open in the first. -/
theorem normalize_append_space {s t : Text} (hs : s.normalize = s) (hne : s ≠ [])
    (hc : IsClosed '\x7b' '\x7d' s) (ht : t.normalize = t) (htne : t ≠ []) :
    normalize (s ++ ' ' :: t) = s ++ ' ' :: t := by
  have hi := insideAfter_flatMap_plainForm hc (b := false) (by simp)
  rcases normalize_append_cons hi (c := ' ') rfl t with ⟨h, -⟩ | ⟨h, -⟩ | h
  · exact absurd (hs ▸ h) hne
  · exact absurd (ht ▸ h) htne
  · rw [h, hs, ht]

/-- The words of a text that count: those of its plain form outside parentheses. -/
def counted (t : Text) : List Text := (parted 0 [] t.normalize).body.words

theorem body_normalize (t : Text) :
    t.normalize.body = closeUp ',' (closeUp '.' (unwords t.counted)) := rfl

theorem counted_append_cons {s : Text} (hp : IsClosed '(' ')' s) (hb : IsClosed '\x7b' '\x7d' s)
    {c : Char} (hc : isBlank c = true) (t : Text) :
    counted (s ++ c :: t) = s.counted ++ t.counted := by
  have hi := insideAfter_flatMap_plainForm hb (b := false) (by simp)
  rw [counted, counted, counted]
  rcases normalize_append_cons hi hc t with ⟨hs, h⟩ | ⟨ht, h⟩ | h
  · rw [h, hs]
    rfl
  · rw [h, ht]
    exact (List.append_nil _).symm
  · have hd : depth '(' ')' 0 s.normalize = 0 := (depth_normalize 0 s).trans hp
    rw [h, parted_append hd, parted_zero_cons (by decide)]
    exact words_append_cons rfl _ _

/-- Nothing in parentheses counts. -/
theorem counted_enclosed {r : Text} (h : IsMatched '(' ')' r) :
    counted ('(' :: (r ++ [')'])) = [] := by
  have hv : (body ('(' :: (r ++ [')']))).isVoid = true := by
    rw [isVoid_iff_ink, ink_body, parted_enclosed h, Reminded.body_pushReminder]
    rfl
  rw [← isVoid_body_normalize, isVoid_iff_ink, ink_body, ← isVoid_iff_ink, isVoid_iff] at hv
  exact words_eq_nil hv

/-- **A reminder is no part of a text.**  The body is the same with a matched text in parentheses
and without it, where all parentheses and braces in front are closed. -/
theorem body_normalize_reminder {s r : Text} (hp : IsClosed '(' ')' s)
    (hb : IsClosed '\x7b' '\x7d' s) (hr : IsMatched '(' ')' r) (hrb : IsMatched '\x7b' '\x7d' r)
    (t : Text) : (s ++ ' ' :: '(' :: (r ++ ')' :: ' ' :: t)).normalize.body =
      (s ++ ' ' :: t).normalize.body := by
  have hrb' : IsClosed '\x7b' '\x7d' ('(' :: (r ++ [')'])) := by
    have hd : depth '\x7b' '\x7d' 0 r = 0 := hrb.isClosed
    rw [IsClosed, depth_cons, depth_append]
    exact congrArg (fun d => depth '\x7b' '\x7d' d [')']) hd
  -- nothing is open in front of the reminder nor behind it, so the three parts count apart
  have hc : counted ('(' :: (r ++ ')' :: ' ' :: t)) = t.counted := by
    have := counted_append_cons (hr.isClosed_enclosed (by decide)) hrb' (c := ' ') rfl t
    rw [counted_enclosed hr, List.nil_append] at this
    simpa using this
  rw [body_normalize, body_normalize, counted_append_cons hp hb rfl, counted_append_cons hp hb rfl,
    hc]

end Text

end CardText
