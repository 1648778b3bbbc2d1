import CardText.Proofs.Text.Paragraph
import CardText.Proofs.Text.Settled

/-!
# Outside and inside parentheses

Where every parenthesis is closed, each printed character of a text is in its body or in one of its
reminders, except for the outermost parentheses themselves.

* `Text.outside`, `Text.inside`: the characters with no parenthesis open on either side, and those
  with one open on both sides;
* `Text.body_parted`, `Text.flatMap_ink_reminders`: the two parts of a text that is read;
* `Text.stripReminders_body`: a body has no reminders, and it is its own body;
* `Text.stripReminders_of_isClosed`: all of this for a text whose parentheses are closed.
-/

namespace CardText

namespace Text

/-! ### Depth of characters -/

/-- The characters of a text for which `p` holds of the numbers of parentheses that are open in front
of them and behind them; `d` are open in front of the text. -/
def atDepths (p : Nat → Nat → Bool) (d : Nat) : Text → Text
  | [] => []
  | c :: r =>
    if p d (nest '(' ')' d c) then c :: atDepths p (nest '(' ')' d c) r
    else atDepths p (nest '(' ')' d c) r

/-- No parenthesis is open in front of a character, and none behind it. -/
def isOutside (d e : Nat) : Bool := d == 0 && e == 0

/-- A parenthesis is open in front of a character, and one behind it. -/
def isInside (d e : Nat) : Bool := d != 0 && e != 0

/-- The characters of a text at depth zero. A closing parenthesis that closes none is one of them,
an opening one is not. -/
def outside (t : Text) : Text := atDepths isOutside 0 t

/-- The characters of a text inside its outermost parentheses. -/
def inside (t : Text) : Text := atDepths isInside 0 t

section Depths

variable {p : Nat → Nat → Bool} {d : Nat} {c : Char}

theorem atDepths_cons_of_true (h : p d (nest '(' ')' d c) = true) (r : Text) :
    atDepths p d (c :: r) = c :: atDepths p (nest '(' ')' d c) r := if_pos h

theorem atDepths_cons_of_false (h : p d (nest '(' ')' d c) = false) (r : Text) :
    atDepths p d (c :: r) = atDepths p (nest '(' ')' d c) r := if_neg (by simp [h])

end Depths

/-- Outside parentheses, a character that opens none leaves none open. -/
theorem nest_zero {c : Char} (h : c ≠ '(') : nest '(' ')' 0 c = 0 := by
  rw [nest, if_neg h]
  split_ifs <;> rfl

/-- No opening parenthesis stands at depth zero, for it is open behind itself. -/
theorem not_mem_atDepths_isOutside (d : Nat) (t : Text) : '(' ∉ atDepths isOutside d t := by
  induction t generalizing d with
  | nil => exact List.not_mem_nil
  | cons c t ih =>
    rw [atDepths]
    split_ifs with h
    · intro hm
      rcases List.mem_cons.1 hm with rfl | hm
      · simp [isOutside, nest] at h
      · exact ih _ hm
    · exact ih _

/-! ### What is read -/

/-- The body of a text that closes all parentheses is what stands outside them. -/
theorem body_parted {d : Nat} {inner t : Text} (h : depth '(' ')' d t = 0) :
    (parted d inner t).body = atDepths isOutside d t := by
  induction d, inner, t using parted_induction with
  | done inner => rfl
  | unclosed d inner => cases h
  | opening inner r ih => exact ih h
  | outside inner c r hc ih =>
    have hn := nest_zero hc
    rw [depth_cons, hn] at h
    rw [parted_zero_cons hc, atDepths_cons_of_true (by rw [hn]; rfl), hn, ← ih h]
    rfl
  | closing inner r ih =>
    rw [parted, Reminded.body_pushReminder]
    exact ih h
  | closingInner d inner r ih => exact ih h
  | openingInner d inner r ih =>
    rw [parted_succ_open]
    exact ih h
  | inside d inner c r ho hc ih =>
    have hn : nest '(' ')' (d + 1) c = d + 1 := nest_eq_self ho hc
    rw [depth_cons, hn] at h
    rw [parted_succ_cons ho hc, atDepths_cons_of_false (by rw [hn]; rfl), hn]
    exact ih h

theorem flatMap_ink_pushReminder (r : Text) (p : Reminded) :
    (p.pushReminder r).reminders.flatMap ink = r.ink ++ p.reminders.flatMap ink := by
  rw [Reminded.pushReminder]
  split_ifs with h
  · rw [isVoid_iff_ink.1 h, List.nil_append]
  · rw [List.flatMap_cons, ink_trim]

/-- The reminders of a text that closes all parentheses have what stands inside them; in front of it
they have what is collected already. -/
theorem flatMap_ink_reminders {d : Nat} {inner t : Text} (h : depth '(' ')' d t = 0) :
    (parted d inner t).reminders.flatMap ink =
      (if d = 0 then [] else ink inner.reverse) ++ (atDepths isInside d t).ink := by
  -- a character that is collected is the last one of what is collected so far
  have hpush : ∀ (c : Char) (i r : Text),
      ink (c :: i).reverse ++ ink r = ink i.reverse ++ ink (c :: r) := by
    intro c i r
    rw [List.reverse_cons, ink_append, List.append_assoc, ← ink_append]
    rfl
  induction d, inner, t using parted_induction with
  | done inner => rfl
  | unclosed d inner => cases h
  | opening inner r ih => exact ih h
  | outside inner c r hc ih =>
    have hn := nest_zero hc
    rw [depth_cons, hn] at h
    rw [parted_zero_cons hc, atDepths_cons_of_false (by rw [hn]; rfl), hn]
    exact ih h
  | closing inner r ih =>
    rw [parted, flatMap_ink_pushReminder, ih h]
    rfl
  | closingInner d inner r ih => exact (ih h).trans (hpush ')' inner _)
  | openingInner d inner r ih =>
    rw [parted_succ_open]
    exact (ih h).trans (hpush '(' inner _)
  | inside d inner c r ho hc ih =>
    have hn : nest '(' ')' (d + 1) c = d + 1 := nest_eq_self ho hc
    rw [depth_cons, hn] at h
    rw [parted_succ_cons ho hc, atDepths_cons_of_true (by rw [hn]; rfl), hn]
    exact (ih h).trans (hpush c inner _)

/-- Every reminder is trimmed, and none is blank. -/
theorem trim_of_mem_reminders {d : Nat} {inner t r : Text} (h : r ∈ (parted d inner t).reminders) :
    r.isVoid = false ∧ r.trim = r := by
  induction d, inner, t using parted_induction with
  | done inner => cases h
  | unclosed d inner => cases h
  | opening inner t ih => exact ih h
  | outside inner c t hc ih =>
    rw [parted_zero_cons hc] at h
    exact ih h
  | closing inner t ih =>
    rw [parted, Reminded.pushReminder] at h
    split_ifs at h with hv
    · exact ih h
    · rcases List.mem_cons.1 h with rfl | h
      · rw [isVoid, trim_trim]
        exact ⟨by simpa [isVoid] using hv, rfl⟩
      · exact ih h
  | closingInner d inner t ih => exact ih h
  | openingInner d inner t ih =>
    rw [parted_succ_open] at h
    exact ih h
  | inside d inner c t ho hc ih =>
    rw [parted_succ_cons ho hc] at h
    exact ih h

/-! ### Bodies of closed texts -/

/-- A body without an opening parenthesis has no reminders, and it is its own body: closing up in
front of one mark leaves no space in front of the other. -/
theorem stripReminders_body {t : Text} (h : '(' ∉ t.body) :
    t.body.stripReminders = ⟨t.body, []⟩ :=
  stripReminders_eq_self h (spaced_body t) (fun _ => head_body) (noGapBefore_period_body t)
    (noGapBefore_comma_body t)

/-- Where all parentheses are closed, the body has what is printed outside them. -/
theorem ink_body_of_isClosed {t : Text} (h : IsClosed '(' ')' t) : t.body.ink = t.outside.ink := by
  rw [ink_body, body_parted h, outside]

theorem not_mem_body_of_isClosed {t : Text} (h : IsClosed '(' ')' t) : '(' ∉ t.body := by
  intro hm
  have hink : '(' ∈ t.outside.ink := by
    rw [← ink_body_of_isClosed h]
    exact List.mem_filter.2 ⟨hm, rfl⟩
  exact not_mem_atDepths_isOutside 0 t (List.mem_filter.1 hink).1

/-- **Reminders of a text whose parentheses are closed.**  The body has no opening parenthesis and
just what is printed at depth zero, the reminders, trimmed and none of them blank, have what is
printed inside parentheses, and nothing changes when the body is stripped once more. -/
theorem stripReminders_of_isClosed {t : Text} (h : IsClosed '(' ')' t) :
    '(' ∉ t.stripReminders.body ∧ t.stripReminders.body.ink = t.outside.ink ∧
      (∀ r ∈ t.stripReminders.reminders, r.isVoid = false ∧ r.trim = r) ∧
      t.stripReminders.reminders.flatMap ink = t.inside.ink ∧
      t.stripReminders.body.stripReminders = ⟨t.stripReminders.body, []⟩ := by
  have hbody := not_mem_body_of_isClosed h
  refine ⟨hbody, ink_body_of_isClosed h, fun r hr => trim_of_mem_reminders hr, ?_,
    stripReminders_body hbody⟩
  exact (flatMap_ink_reminders h).trans (List.nil_append _)

/-- A reminder in a reminder, a blank one, one in front of marks, and a mark that closes nothing. -/
theorem stripReminders_of_isClosed_nested :
    let t : Text := "Ward) (Pay (2) .) . ( ) Draw (now) , then quit .".toList
    IsClosed '(' ')' t ∧ '(' ∉ t.stripReminders.body ∧
      t.stripReminders.body.ink = t.outside.ink ∧
      (∀ r ∈ t.stripReminders.reminders, r.isVoid = false ∧ r.trim = r) ∧
      t.stripReminders.reminders.flatMap ink = t.inside.ink ∧
      t.stripReminders.body.stripReminders = ⟨t.stripReminders.body, []⟩ := by
  intro t
  have h : IsClosed '(' ')' t := by decide
  exact ⟨h, stripReminders_of_isClosed h⟩

end Text

end CardText
