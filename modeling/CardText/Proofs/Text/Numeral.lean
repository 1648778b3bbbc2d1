import CardText.Proofs.Text.Spacing
import CardText.Text.Numeral

/-!
# Written numbers

The digits of a number are read back as the number.

* `Text.of_isDigit`: what is true of the ten digits is true of every digit;
* `Text.digits?_of_all`, `Text.integer?_of_all`: how a run of digits is read;
* `Text.digits?_ofNat`, `Text.natural?_ofNat_eq`, `Text.count?_ofNat_eq`, `Text.signed?_ofNat_eq`:
  each reading of numbers gives back what was written, as far as its range goes;
* `Text.ofNat_append_inj`: a written number ends where its digits end;
* `Text.addToNumber`: a greater number at the front of a text.
-/

namespace CardText

namespace Text

/-! ### Digits -/

theorem mem_digits {c : Char} (h : c.isDigit = true) : c ∈ "0123456789".toList := by
  have hc : 48 ≤ c.toNat ∧ c.toNat ≤ 57 := by
    simpa [Char.isDigit, UInt32.le_iff_toNat_le] using h
  have hn : c = Char.ofNat c.toNat := (Char.ofNat_toNat c).symm
  have : c.toNat = 48 ∨ c.toNat = 49 ∨ c.toNat = 50 ∨ c.toNat = 51 ∨ c.toNat = 52 ∨
      c.toNat = 53 ∨ c.toNat = 54 ∨ c.toNat = 55 ∨ c.toNat = 56 ∨ c.toNat = 57 := by omega
  rcases this with h | h | h | h | h | h | h | h | h | h <;> rw [hn, h] <;> decide

/-- What is true of the ten digits. -/
theorem of_isDigit {p : Char → Bool} (hp : "0123456789".toList.all p = true) {c : Char}
    (h : c.isDigit = true) : p c = true :=
  List.all_eq_true.1 hp c (mem_digits h)

theorem foldChar_of_isDigit {c : Char} (h : c.isDigit = true) : foldChar c = [c] := by
  simpa using of_isDigit (p := fun c => foldChar c == [c]) (by decide) h

theorem isBlank_of_isDigit {c : Char} (h : c.isDigit = true) : isBlank c = false := by
  simpa using of_isDigit (p := fun c => !isBlank c) (by decide) h

theorem isLower_of_isDigit {c : Char} (h : c.isDigit = true) : c.isLower = false := by
  simpa using of_isDigit (p := fun c => !c.isLower) (by decide) h

theorem toLower_of_isDigit {c : Char} (h : c.isDigit = true) : c.toLower = c := by
  simpa using of_isDigit (p := fun c => c.toLower == c) (by decide) h

/-! ### Runs of digits -/

section Digits

variable {t : Text}

theorem digits?_of_all (hne : t ≠ []) (h : t.all Char.isDigit = true) :
    digits? t = some (digitsValue t) := by
  simp [digits?, h, hne]

theorem exists_isDigit_of_digits? {t : Text} {n : Nat} (h : digits? t = some n) :
    ∃ c ∈ t, c.isDigit = true := by
  rw [digits?] at h
  split_ifs at h with hd
  simp only [Bool.and_eq_true, Bool.not_eq_true', List.isEmpty_eq_false_iff] at hd
  obtain ⟨c, r, rfl⟩ := List.exists_cons_of_ne_nil hd.1
  exact ⟨c, List.mem_cons_self, List.all_eq_true.1 hd.2 c List.mem_cons_self⟩

/-- A count has a digit. -/
theorem exists_isDigit_of_natural? {t : Text} {n : Nat} (h : natural? t = some n) :
    ∃ c ∈ t, c.isDigit = true := by
  rw [natural?.eq_def] at h
  split at h
  · obtain ⟨c, hc, hd⟩ := exists_isDigit_of_digits? (Option.filter_eq_some_iff.1 h).1
    exact ⟨c, List.mem_cons_of_mem _ hc, hd⟩
  · exact exists_isDigit_of_digits? (Option.filter_eq_some_iff.1 h).1

/-- No sign stands in front of digits. -/
theorem head_ne_of_all (h : t.all Char.isDigit = true) {c : Char} {r : Text} (ht : t = c :: r) :
    c ≠ '+' ∧ c ≠ '-' := by
  have hc : c.isDigit = true := List.all_eq_true.1 h c (by simp [ht])
  constructor <;> rintro rfl <;> cases hc

/-- Digits are a number if what they stand for is below the bound. -/
theorem integer?_of_all (hne : t ≠ []) (h : t.all Char.isDigit = true) : integer? t =
    if (digitsValue t : Int) < integerBound then some (digitsValue t : Int) else none := by
  unfold integer?
  split
  · exact absurd rfl (head_ne_of_all h rfl).2
  · exact absurd rfl (head_ne_of_all h rfl).1
  · rw [digits?_of_all hne h]
    simp [Option.filter]

end Digits

/-! ### The digits of a number -/

theorem isDigit_of_mem_ofNat {n : Nat} {c : Char} (h : c ∈ ofNat n) : c.isDigit = true :=
  Nat.isDigit_of_mem_toDigits (by decide) (by decide) h

theorem all_isDigit_ofNat (n : Nat) : (ofNat n).all Char.isDigit = true :=
  List.all_eq_true.2 fun _ => isDigit_of_mem_ofNat

@[simp] theorem ofNat_ne_nil (n : Nat) : ofNat n ≠ [] := Nat.toDigits_ne_nil

theorem exists_ofNat_eq_cons (n : Nat) : ∃ c r, ofNat n = c :: r ∧ c.isDigit = true := by
  obtain ⟨c, r, h⟩ := List.exists_cons_of_ne_nil (ofNat_ne_nil n)
  exact ⟨c, r, h, isDigit_of_mem_ofNat (n := n) (by simp [h])⟩

theorem ofNat_ne {n : Nat} {t : Text} (ht : t.head?.any Char.isDigit = false) : ofNat n ≠ t := by
  rintro rfl
  obtain ⟨c, r, h, hc⟩ := exists_ofNat_eq_cons n
  simp [h, hc] at ht

theorem digitsValue_ofNat (n : Nat) : digitsValue (ofNat n) = n :=
  Nat.ofDigitChars_ten_toDigits

theorem ofNat_inj {m n : Nat} : ofNat m = ofNat n ↔ m = n := by
  refine ⟨fun h => ?_, fun h => h ▸ rfl⟩
  rw [← digitsValue_ofNat m, h, digitsValue_ofNat]

/-- A written number ends in front of a character that is no digit. -/
theorem takeWhile_ofNat_append {n : Nat} {t : Text} (ht : t.head?.any Char.isDigit = false) :
    (ofNat n ++ t).takeWhile Char.isDigit = ofNat n := by
  rw [List.takeWhile_append_of_pos fun c hc => isDigit_of_mem_ofNat hc]
  cases t with
  | nil => simp
  | cons c t => simp_all

/-- Two written numbers are the same if what follows them begins with no digit. -/
theorem ofNat_append_inj {m n : Nat} {s t : Text} (hs : s.head?.any Char.isDigit = false)
    (ht : t.head?.any Char.isDigit = false) (h : ofNat m ++ s = ofNat n ++ t) : m = n := by
  rw [← ofNat_inj, ← takeWhile_ofNat_append hs, h, takeWhile_ofNat_append ht]

/-- A text with `k` added to the number at its front. -/
def addToNumber (k : Nat) (t : Text) : Text :=
  ofNat (digitsValue (t.takeWhile Char.isDigit) + k) ++ t.dropWhile Char.isDigit

theorem addToNumber_ofNat_append {t : Text} (ht : t.head?.any Char.isDigit = false) (k n : Nat) :
    (ofNat n ++ t).addToNumber k = ofNat (n + k) ++ t := by
  have hw := takeWhile_ofNat_append (n := n) ht
  have hd : (ofNat n ++ t).dropWhile Char.isDigit = t := by
    have := List.takeWhile_append_dropWhile (p := Char.isDigit) (l := ofNat n ++ t)
    rw [hw] at this
    exact List.append_cancel_left this
  rw [addToNumber, hw, hd, digitsValue_ofNat]

theorem addToNumber_addToNumber (j k : Nat) (t : Text) :
    (t.addToNumber j).addToNumber k = t.addToNumber (j + k) := by
  have ht : (t.dropWhile Char.isDigit).head?.any Char.isDigit = false := by
    have := List.head?_dropWhile_not Char.isDigit t
    cases hd : (t.dropWhile Char.isDigit).head? with
    | none => rfl
    | some c => simpa [hd] using this
  rw [addToNumber.eq_def j t, addToNumber_ofNat_append ht, Nat.add_assoc]
  rfl

@[simp] theorem fold_ofNat (n : Nat) : fold (ofNat n) = ofNat n := by
  have : ∀ t : Text, (∀ c ∈ t, c.isDigit = true) → fold t = t := by
    intro t h
    induction t with
    | nil => rfl
    | cons c t ih =>
      have := ih fun x hx => h x (List.mem_cons_of_mem _ hx)
      rw [fold] at this ⊢
      rw [List.flatMap_cons, foldChar_of_isDigit (h c (by simp)), this]
      rfl
  exact this _ fun _ => isDigit_of_mem_ofNat

@[simp] theorem lowerPlain_ofNat (n : Nat) : lowerPlain (ofNat n) = ofNat n := by
  have := List.map_congr_left fun c (hc : c ∈ ofNat n) =>
    toLower_of_isDigit (isDigit_of_mem_ofNat hc)
  rw [lowerPlain, this, List.map_id']

@[simp] theorem trim_ofNat (n : Nat) : trim (ofNat n) = ofNat n :=
  trim_eq_self
    (fun _ hc => isBlank_of_isDigit (isDigit_of_mem_ofNat (List.mem_of_mem_head? hc)))
    (fun _ hc => isBlank_of_isDigit (isDigit_of_mem_ofNat (List.mem_of_mem_getLast? hc)))

/-! ### Reading back -/

@[simp] theorem digits?_ofNat (n : Nat) : digits? (ofNat n) = some n := by
  rw [digits?_of_all (ofNat_ne_nil n) (all_isDigit_ofNat n), digitsValue_ofNat]

/-- No sign stands in front of a written number. -/
theorem ofNat_head_ne {n : Nat} {c : Char} {r : Text} (h : ofNat n = c :: r) :
    c ≠ '+' ∧ c ≠ '-' := head_ne_of_all (all_isDigit_ofNat n) h

/-- A written number is a count unless it is out of range. -/
theorem natural?_ofNat_eq (n : Nat) :
    natural? (ofNat n) = if n < naturalBound then some n else none := by
  unfold natural?
  split
  · next r hr => exact absurd rfl (ofNat_head_ne hr).1
  · simp [Option.filter]

theorem natural?_ofNat {n : Nat} (h : n < naturalBound) : natural? (ofNat n) = some n := by
  rw [natural?_ofNat_eq, if_pos h]

/-- A written number is a signed number unless it is out of range. -/
theorem signed?_ofNat_eq (n : Nat) :
    signed? (ofNat n) = if (n : Int) < integerBound then some (n : Int) else none := by
  have hint := integer?_of_all (ofNat_ne_nil n) (all_isDigit_ofNat n)
  rw [digitsValue_ofNat] at hint
  rw [signed?, trim_ofNat]
  split
  · next r hr => exact absurd rfl (ofNat_head_ne hr).1
  · exact hint

/-- No word of a table is a text that begins like none of them. -/
theorem lookup?_eq_none_of_head {β : Type} {table : List (String × β)} {t : Text}
    (h : ∀ e ∈ table, e.1.toList.head? ≠ t.head?) : lookup? table t = none := by
  rw [lookup?, Option.map_eq_none_iff, List.find?_eq_none]
  intro e he heq
  exact h e he (congrArg List.head? (by simpa using heq))

/-- No word of a table that begins with letters is a written number. -/
theorem lookup?_ofNat {β : Type} {table : List (String × β)}
    (h : ∀ e ∈ table, e.1.toList.head?.any Char.isDigit = false) (n : Nat) :
    lookup? table (ofNat n) = none := by
  refine lookup?_eq_none_of_head fun e he heq => ?_
  obtain ⟨c, r, hc, hd⟩ := exists_ofNat_eq_cons n
  have := h e he
  rw [heq, hc] at this
  simp [hd] at this

/-- Digits are no number word. -/
theorem count?_ofNat_eq (n : Nat) : count? (ofNat n) = natural? (ofNat n) := by
  rw [count?, fold_ofNat, lookup?_ofNat (by decide)]

theorem count?_ofNat {n : Nat} (h : n < naturalBound) : count? (ofNat n) = some n := by
  rw [count?_ofNat_eq, natural?_ofNat h]

end Text

end CardText
