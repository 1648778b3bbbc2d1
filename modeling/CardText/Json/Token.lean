import CardText.Json.Number

/-!
# JSON tokens

`Json.tokens` cuts a JSON text into tokens. A fault ends the list: it is the last token, and it says
whether it lies in a quoted text, since a quoted text may also be the name of a member.

* `Json.Taken`: something read off the front of a text, with what follows it; `Taken.Leaves` bounds
  the length of what follows;
* `Json.quoted`: the characters of a quoted text, with its escapes;
* `Json.numeral`: the parts of a number;
* `Json.token`: the token that a character opens.
-/

namespace CardText

namespace Json

/-- A token. -/
inductive Token where
  | arrayStart
  | arrayEnd
  | objectStart
  | objectEnd
  | colon
  | comma
  | text (t : Text)
  /-- Any other value without parts. -/
  | value (v : Value)
  /-- The rest of the text cannot be cut. -/
  | broken (fault : Fault) (inText : Bool)
  deriving Repr

/-! ### Reading off the front -/

/-- Something read off the front of a text, and what follows it. -/
abbrev Taken (α : Type) := Except Fault (α × Text)

namespace Taken

variable {α β : Type}

/-- Changes what was read. -/
def map (f : α → β) (x : Taken α) : Taken β :=
  match x with
  | .error e => .error e
  | .ok (a, r) => .ok (f a, r)

/-- Reads on. -/
def andThen (x : Taken α) (k : α → Text → Taken β) : Taken β :=
  match x with
  | .error e => .error e
  | .ok (a, r) => k a r

/-- At most `n` characters follow. -/
def Leaves (n : Nat) (x : Taken α) : Prop := ∀ a r, x = .ok (a, r) → r.length ≤ n

theorem leaves_error {n : Nat} (e : Fault) : Leaves n (.error e : Taken α) := by
  intro a r h
  cases h

theorem leaves_ok {n : Nat} {a : α} {r : Text} (h : r.length ≤ n) :
    Leaves n (.ok (a, r) : Taken α) := by
  intro a' r' hr
  simp only [Except.ok.injEq, Prod.mk.injEq] at hr
  rw [← hr.2]
  exact h

theorem Leaves.mono {m n : Nat} {x : Taken α} (h : Leaves m x) (hmn : m ≤ n) : Leaves n x :=
  fun a r hx => Nat.le_trans (h a r hx) hmn

theorem Leaves.map {n : Nat} {x : Taken α} (h : Leaves n x) (f : α → β) :
    Leaves n (x.map f) := by
  match x, h with
  | .error e, _ => exact leaves_error e
  | .ok (a, r), h => exact leaves_ok (h a r rfl)

theorem Leaves.andThen {m n : Nat} {x : Taken α} {k : α → Text → Taken β} (h : Leaves m x)
    (hk : ∀ a r, r.length ≤ m → Leaves n (k a r)) : Leaves n (x.andThen k) := by
  match x, h with
  | .error e, _ => exact leaves_error e
  | .ok (a, r), h => exact hk a r (h a r rfl)

end Taken

open Taken

/-! ### Quoted texts -/

/-- The value of a hexadecimal digit. -/
def hexValue? (c : Char) : Option Nat :=
  if c.isDigit then some (c.toNat - '0'.toNat)
  else if 'a' ≤ c ∧ c ≤ 'f' then some (c.toNat - 'a'.toNat + 10)
  else if 'A' ≤ c ∧ c ≤ 'F' then some (c.toNat - 'A'.toNat + 10)
  else none

/-- The number that four hexadecimal digits write. -/
def hexUnit? (a b c d : Char) : Option Nat :=
  match hexValue? a, hexValue? b, hexValue? c, hexValue? d with
  | some a, some b, some c, some d => some (((a * 16 + b) * 16 + c) * 16 + d)
  | _, _, _, _ => none

/-- Four hexadecimal digits. A text too short for four bytes ends too early. -/
def hexUnit (t : Text) : Taken Nat :=
  match t with
  | a :: b :: c :: d :: r =>
    match hexUnit? a b c d with
    | some n => .ok (n, r)
    | none => .error .malformed
  | t => .error (if t.byteCount < 4 then .truncated else .malformed)

/-- The character that two surrogates write. -/
def joinSurrogates (high low : Nat) : Char :=
  Char.ofNat (0x10000 + (high - 0xD800) * 0x400 + (low - 0xDC00))

/-- The second half of a pair of surrogates, after the first half `high`. -/
def lowSurrogate (high : Nat) (t : Text) : Taken Char :=
  match t with
  | [] => .error .truncated
  | ['\\'] => .error .truncated
  | '\\' :: 'u' :: r =>
    (hexUnit r).andThen fun low r =>
      if 0xDC00 ≤ low ∧ low ≤ 0xDFFF then .ok (joinSurrogates high low, r) else .error .malformed
  | _ => .error .malformed

/-- The character of a numbered escape. A lone surrogate is no character. -/
def numberedEscape (t : Text) : Taken Char :=
  (hexUnit t).andThen fun n r =>
    if 0xD800 ≤ n ∧ n ≤ 0xDBFF then lowSurrogate n r
    else if 0xDC00 ≤ n ∧ n ≤ 0xDFFF then .error .malformed
    else .ok (Char.ofNat n, r)

/-- The escapes of one letter. -/
def escapes : List (Char × Char) :=
  [('"', '"'), ('\\', '\\'), ('/', '/'), ('b', '\x08'), ('f', '\x0c'), ('n', '\n'), ('r', '\r'),
   ('t', '\t')]

/-- The character of an escape, whose backslash is read already. -/
def escape (t : Text) : Taken Char :=
  match t with
  | [] => .error .truncated
  | c :: r =>
    if c = 'u' then numberedEscape r
    else
      match escapes.lookup c with
      | some d => .ok (d, r)
      | none => .error .malformed

theorem leaves_hexUnit (t : Text) : Leaves t.length (hexUnit t) := by
  rw [hexUnit.eq_def]
  split
  · split
    · exact leaves_ok (by simp only [List.length_cons]; omega)
    · exact leaves_error _
  · exact leaves_error _

theorem leaves_lowSurrogate (high : Nat) (t : Text) : Leaves t.length (lowSurrogate high t) := by
  rw [lowSurrogate.eq_def]
  split
  · exact leaves_error _
  · exact leaves_error _
  · next r =>
    refine (leaves_hexUnit r).andThen fun low s hs => ?_
    split
    · exact leaves_ok (by simp only [List.length_cons]; omega)
    · exact leaves_error _
  · exact leaves_error _

theorem leaves_numberedEscape (t : Text) : Leaves t.length (numberedEscape t) := by
  refine (leaves_hexUnit t).andThen fun n s hs => ?_
  split
  · exact (leaves_lowSurrogate n s).mono hs
  · split
    · exact leaves_error _
    · exact leaves_ok hs

theorem leaves_escape (t : Text) : Leaves (t.length - 1) (escape t) := by
  rw [escape.eq_def]
  split
  · exact leaves_error _
  · next c r =>
    split
    · exact leaves_numberedEscape r
    · split
      · exact leaves_ok (Nat.le_refl _)
      · exact leaves_error _

/-- The characters up to the closing quote. Control characters have to be escaped. -/
def quoted (t : Text) : Taken Text :=
  match t with
  | [] => .error .truncated
  | c :: r =>
    if c = '"' then .ok ([], r)
    else if c = '\\' then
      match h : escape r with
      | .error e => .error e
      | .ok (d, rest) =>
        have : rest.length ≤ r.length - 1 := leaves_escape r d rest h
        (quoted rest).map (d :: ·)
    else if c.toNat < 0x20 then .error .malformed
    else (quoted r).map (c :: ·)
termination_by t.length
decreasing_by
  all_goals
    simp only [List.length_cons]
    omega

theorem leaves_quoted (t : Text) : Leaves t.length (quoted t) := by
  fun_induction quoted t with
  | case1 => exact leaves_error _
  | case2 => exact leaves_ok (Nat.le_succ _)
  | case3 => exact leaves_error _
  | case4 r _ d rest h hle ih => exact (ih.map _).mono (by simp only [List.length_cons]; omega)
  | case5 => exact leaves_error _
  | case6 _ _ _ _ _ ih => exact (ih.map _).mono (Nat.le_succ _)

/-! ### Numbers -/

/-- One or more digits. -/
def someDigits (t : Text) : Taken Text :=
  match t with
  | [] => .error .truncated
  | c :: r =>
    if c.isDigit then .ok (c :: r.takeWhile Char.isDigit, r.dropWhile Char.isDigit)
    else .error .malformed

/-- The point and the digits behind it, if there is a point. -/
def fractionPart (t : Text) : Taken (Option Text) :=
  match t with
  | '.' :: r => (someDigits r).map some
  | t => .ok (none, t)

/-- The digits of an exponent with their sign. -/
def exponentDigits (t : Text) : Taken Int :=
  match t with
  | '-' :: r => (someDigits r).map fun ds => -(Text.digitsValue ds : Int)
  | '+' :: r => (someDigits r).map fun ds => (Text.digitsValue ds : Int)
  | t => (someDigits t).map fun ds => (Text.digitsValue ds : Int)

/-- The exponent, if there is one. -/
def exponentPart (t : Text) : Taken (Option Int) :=
  match t with
  | 'e' :: r => (exponentDigits r).map some
  | 'E' :: r => (exponentDigits r).map some
  | t => .ok (none, t)

/-- The digits in front of the point, behind the digit `c`. No digit stands behind a zero. -/
def wholeDigits (c : Char) (r : Text) : Taken Text :=
  if c = '0' then
    if r.head?.any Char.isDigit then .error .malformed else .ok ([c], r)
  else .ok (c :: r.takeWhile Char.isDigit, r.dropWhile Char.isDigit)

/-- The parts of a number behind its sign and its digit `c`. -/
def numeral (negative : Bool) (c : Char) (r : Text) : Taken Numeral :=
  (wholeDigits c r).andThen fun whole r =>
    (fractionPart r).andThen fun fraction r =>
      (exponentPart r).map fun exponent => { negative, whole, fraction, exponent }

/-- The value of a number behind its sign and its digit `c`. One out of range is a fault. -/
def number (negative : Bool) (c : Char) (r : Text) : Taken Value :=
  (numeral negative c r).andThen fun n r =>
    match n.value? with
    | some v => .ok (v, r)
    | none => .error .malformed

theorem leaves_someDigits (t : Text) : Leaves t.length (someDigits t) := by
  rw [someDigits.eq_def]
  split
  · exact leaves_error _
  · split
    · exact leaves_ok (Nat.le_succ_of_le (List.dropWhile_sublist _).length_le)
    · exact leaves_error _

theorem leaves_fractionPart (t : Text) : Leaves t.length (fractionPart t) := by
  rw [fractionPart.eq_def]
  split
  · exact ((leaves_someDigits _).map _).mono (Nat.le_succ _)
  · exact leaves_ok (Nat.le_refl _)

theorem leaves_exponentDigits (t : Text) : Leaves t.length (exponentDigits t) := by
  rw [exponentDigits.eq_def]
  split
  · exact ((leaves_someDigits _).map _).mono (Nat.le_succ _)
  · exact ((leaves_someDigits _).map _).mono (Nat.le_succ _)
  · exact (leaves_someDigits _).map _

theorem leaves_exponentPart (t : Text) : Leaves t.length (exponentPart t) := by
  rw [exponentPart.eq_def]
  split
  · exact ((leaves_exponentDigits _).map _).mono (Nat.le_succ _)
  · exact ((leaves_exponentDigits _).map _).mono (Nat.le_succ _)
  · exact leaves_ok (Nat.le_refl _)

theorem leaves_wholeDigits (c : Char) (r : Text) : Leaves r.length (wholeDigits c r) := by
  rw [wholeDigits]
  split
  · split
    · exact leaves_error _
    · exact leaves_ok (Nat.le_refl _)
  · exact leaves_ok (List.dropWhile_sublist _).length_le

theorem leaves_numeral (b : Bool) (c : Char) (r : Text) : Leaves r.length (numeral b c r) := by
  refine (leaves_wholeDigits c r).andThen fun _ s hs => ?_
  refine ((leaves_fractionPart s).mono hs).andThen fun _ s hs => ?_
  exact ((leaves_exponentPart s).map _).mono hs

theorem leaves_number (b : Bool) (c : Char) (r : Text) : Leaves r.length (number b c r) := by
  refine (leaves_numeral b c r).andThen fun _ s hs => ?_
  split
  · exact leaves_ok hs
  · exact leaves_error _

/-! ### Tokens -/

/-- What follows the characters of `word`. -/
def afterWord : Text → Text → Taken Unit
  | [], t => .ok ((), t)
  | _ :: _, [] => .error .truncated
  | x :: word, c :: t => if x = c then afterWord word t else .error .malformed

theorem leaves_afterWord (word t : Text) : Leaves t.length (afterWord word t) := by
  induction word generalizing t with
  | nil => exact leaves_ok (Nat.le_refl _)
  | cons x word ih =>
    cases t with
    | nil => exact leaves_error _
    | cons c t =>
      rw [afterWord]
      split
      · exact (ih t).mono (Nat.le_succ _)
      · exact leaves_error _

/-- The marks between values. -/
def marks : List (Char × Token) :=
  [('[', .arrayStart), (']', .arrayEnd), ('\x7b', .objectStart), ('\x7d', .objectEnd),
   (':', .colon), (',', .comma)]

/-- The values with a name, by its first letter, with the letters that follow. -/
def namedValues : List (Char × String × Value) :=
  [('n', "ull", .null), ('t', "rue", .bool true), ('f', "alse", .bool false)]

/-- A negative number behind its sign. -/
def negativeNumber (t : Text) : Taken Value :=
  match t with
  | [] => .error .truncated
  | c :: r => if c.isDigit then number true c r else .error .malformed

/-- The token that the character `c` opens in front of `r`. -/
def token (c : Char) (r : Text) : Taken Token :=
  match marks.lookup c with
  | some k => .ok (k, r)
  | none =>
    match namedValues.lookup c with
    | some (word, v) => (afterWord word.toList r).map fun _ => .value v
    | none =>
      if c = '"' then (quoted r).map .text
      else if c = '-' then (negativeNumber r).map .value
      else if c.isDigit then (number false c r).map .value
      else .error .malformed

theorem leaves_negativeNumber (t : Text) : Leaves t.length (negativeNumber t) := by
  rw [negativeNumber.eq_def]
  split
  · exact leaves_error _
  · split
    · exact (leaves_number true _ _).mono (Nat.le_succ _)
    · exact leaves_error _

theorem leaves_token (c : Char) (r : Text) : Leaves r.length (token c r) := by
  rw [token]
  split
  · exact leaves_ok (Nat.le_refl _)
  · split
    · exact (leaves_afterWord _ r).map _
    · split
      · exact (leaves_quoted r).map _
      · split
        · exact (leaves_negativeNumber r).map _
        · split
          · exact (leaves_number false c r).map _
          · exact leaves_error _

/-- The blanks between tokens. -/
def isSeparator (c : Char) : Bool := c == ' ' || c == '\t' || c == '\n' || c == '\r'

/-- The tokens of a text. -/
def tokens (t : Text) : List Token :=
  match t with
  | [] => []
  | c :: r =>
    if isSeparator c then tokens r
    else
      match h : token c r with
      | .error e => [.broken e (c == '"')]
      | .ok (k, rest) =>
        have : rest.length ≤ r.length := leaves_token c r k rest h
        k :: tokens rest
termination_by t.length
decreasing_by
  all_goals
    simp only [List.length_cons]
    omega

end Json

end CardText
