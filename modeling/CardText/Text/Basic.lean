/-!
# Text

Printed rules text is read as a list of characters, so that a cut of a text is a statement about
lists: what stands before it, what is cut out and what is left.

* `Text.isBlank`, `Text.trim`, `Text.words`: blanks, their removal at both ends, and the runs
  between them (`Text.words_append_cons`);
* `Text.tidy`: a phrase without the blanks around it and the punctuation behind it;
* `Text.cut`: the pieces of a text between the characters of a class (`Text.cut_flatten` says what
  is kept, `Text.cut_append_cons` and `Text.cut_eq_singleton` where the cuts are);
* `Text.breakAt?`: the parts of a text around the first place where something stands;
* `Text.fold`: lower case for comparing with plain vocabulary.
-/

namespace CardText

/-- A text: its characters in print order. -/
abbrev Text := List Char

namespace Text

/-! ### Blanks -/

/-- `n` lies in one of the spans, given by their first and last numbers. -/
def inSpans (spans : List (Nat × Nat)) (n : Nat) : Bool :=
  spans.any fun s => s.1 ≤ n && n ≤ s.2

/-- The code points that separate words: the control blanks, the space, and the typographic
spaces and line ends. -/
def blankSpans : List (Nat × Nat) :=
  [(0x09, 0x0D), (0x20, 0x20), (0x85, 0x85), (0xA0, 0xA0), (0x1680, 0x1680), (0x2000, 0x200A),
   (0x2028, 0x2029), (0x202F, 0x202F), (0x205F, 0x205F), (0x3000, 0x3000)]

/-- `c` is white space. -/
def isBlank (c : Char) : Bool := inSpans blankSpans c.toNat

/-- `t` without its first characters of the class `p`. -/
def dropLeading (p : Char → Bool) (t : Text) : Text := t.dropWhile p

/-- `t` without its last characters of the class `p`. -/
def dropTrailing (p : Char → Bool) (t : Text) : Text := (t.reverse.dropWhile p).reverse

/-- `t` without the characters of the class `p` at either end. -/
def dropAround (p : Char → Bool) (t : Text) : Text := dropTrailing p (dropLeading p t)

/-- `t` without the blanks at either end. -/
def trim (t : Text) : Text := dropAround isBlank t

/-- A period or a comma. -/
def isPause (c : Char) : Bool := c == '.' || c == ','

/-- `t` without blanks at either end, and without a run of the characters `p` at its end. -/
def trimEnd (p : Char → Bool) (t : Text) : Text := (dropTrailing p t.trim).trim

/-- A phrase without blanks around it and without periods and commas at its end. -/
def tidy (t : Text) : Text := trimEnd isPause t

theorem length_dropLeading_le (p : Char → Bool) (t : Text) :
    (dropLeading p t).length ≤ t.length :=
  (List.dropWhile_sublist p).length_le

theorem length_dropTrailing_le (p : Char → Bool) (t : Text) :
    (dropTrailing p t).length ≤ t.length := by
  have := (List.dropWhile_sublist p (l := t.reverse)).length_le
  simpa [dropTrailing] using this

theorem length_trim_le (t : Text) : t.trim.length ≤ t.length :=
  Nat.le_trans (length_dropTrailing_le _ _) (length_dropLeading_le _ _)

/-- Nothing but blanks. -/
def isVoid (t : Text) : Bool := t.trim.isEmpty

/-! ### Pieces -/

/-- The pieces of a text between the characters of the class `p`; there is always one more piece
than there are such characters. -/
def cut (p : Char → Bool) : Text → List Text
  | [] => [[]]
  | c :: r => if p c then [] :: cut p r else (cut p r).modifyHead (c :: ·)

theorem cut_ne_nil (p : Char → Bool) (t : Text) : cut p t ≠ [] := by
  induction t with
  | nil => simp [cut]
  | cons c r ih =>
    rw [cut]
    split
    · simp
    · cases h : cut p r with
      | nil => exact absurd h ih
      | cons a l => simp

/-- Cutting keeps every character outside the class, in order. -/
theorem cut_flatten (p : Char → Bool) (t : Text) :
    (cut p t).flatten = t.filter fun c => !p c := by
  induction t with
  | nil => simp [cut]
  | cons c r ih =>
    rw [cut]
    split
    · next h => simp [h, ih]
    · next h =>
      cases hr : cut p r with
      | nil => exact absurd hr (cut_ne_nil p r)
      | cons a l => simp [hr] at ih; simp [h, ih]

/-- A text without characters of the class is a single piece. -/
theorem cut_eq_singleton {p : Char → Bool} {t : Text} (h : ∀ c ∈ t, p c = false) :
    cut p t = [t] := by
  induction t with
  | nil => rfl
  | cons c r ih =>
    rw [cut, ih fun x hx => h x (List.mem_cons_of_mem _ hx), h c List.mem_cons_self]
    simp

/-- A character of the class separates the pieces in front of it from those behind it. -/
theorem cut_append_cons {p : Char → Bool} {c : Char} (hc : p c = true) (s t : Text) :
    cut p (s ++ c :: t) = cut p s ++ cut p t := by
  induction s with
  | nil => simp [cut, hc]
  | cons x s ih =>
    rw [List.cons_append, cut, cut, ih]
    split
    · rfl
    · obtain ⟨a, l, h⟩ := List.exists_cons_of_ne_nil (cut_ne_nil p s)
      simp [h]

/-- No piece has a character of the class. -/
theorem eq_false_of_mem_cut {p : Char → Bool} {t w : Text} (hw : w ∈ cut p t) {c : Char}
    (hc : c ∈ w) : p c = false := by
  have h : c ∈ (cut p t).flatten := List.mem_flatten.2 ⟨w, hw, hc⟩
  rw [cut_flatten, List.mem_filter] at h
  simpa using h.2

/-- The words of a text: its longest runs without blanks. -/
def words (t : Text) : List Text := (cut isBlank t).filter fun w => !w.isEmpty

/-- A word has characters, and none of them is a blank. -/
theorem not_isBlank_of_mem_words {t w : Text} (h : w ∈ t.words) :
    w ≠ [] ∧ ∀ c ∈ w, isBlank c = false := by
  obtain ⟨hw, hne⟩ := List.mem_filter.1 h
  exact ⟨by simpa using hne, fun c hc => eq_false_of_mem_cut hw hc⟩

/-- A blank separates words. -/
theorem words_append_cons {c : Char} (hc : isBlank c = true) (s t : Text) :
    words (s ++ c :: t) = s.words ++ t.words := by
  rw [words, cut_append_cons hc, List.filter_append]
  rfl

/-- Words in a row, one space between two of them. -/
def unwords (ws : List Text) : Text := List.intercalate [' '] ws

/-- The words of `t` in a row: every run of blanks becomes one space. -/
def squeeze (t : Text) : Text := unwords t.words

/-- The lines of a text, trimmed, those left empty dropped. -/
def lines (t : Text) : List Text :=
  ((cut (· == '\n') t).map trim).filter fun l => !l.isEmpty

/-! ### Places -/

/-- The text before and the text after the first place where `here` finds something; `here` is
given what stands from a place on and answers with what follows its find. -/
def breakAt? (here : Text → Option Text) : Text → Option (Text × Text)
  | [] => (here []).map (([], ·))
  | c :: r =>
    match here (c :: r) with
    | some after => some ([], after)
    | none => (breakAt? here r).map fun b => (c :: b.1, b.2)

/-- A text stands in front of none that begins with another character. -/
theorem isPrefixOf?_cons_of_ne {x c : Char} (h : x ≠ c) (s r : Text) :
    (x :: s).isPrefixOf? (c :: r) = none := by
  change (if x == c then s.isPrefixOf? r else none) = none
  rw [if_neg (by simpa using h)]

theorem append_of_isPrefixOf? {sep t r : Text} (h : sep.isPrefixOf? t = some r) :
    sep ++ r = t := by
  induction sep generalizing t with
  | nil => exact (Option.some.inj h).symm
  | cons x sep ih =>
    cases t with
    | nil => cases h
    | cons y t =>
      change (if x == y then sep.isPrefixOf? t else none) = some r at h
      split at h
      · next hxy =>
        have hxy : x = y := by simpa using hxy
        rw [hxy, List.cons_append, ih h]
      · cases h

/-- A break leaves the front as it is and answers for what stands from the break on. -/
theorem exists_of_breakAt? {here : Text → Option Text} {t : Text} {b : Text × Text}
    (h : breakAt? here t = some b) : ∃ s, t = b.1 ++ s ∧ here s = some b.2 := by
  induction t generalizing b with
  | nil =>
    simp only [breakAt?, Option.map_eq_some_iff] at h
    obtain ⟨r, hr, rfl⟩ := h
    exact ⟨[], rfl, hr⟩
  | cons c r ih =>
    rw [breakAt?] at h
    split at h
    · next after ha => cases h; exact ⟨c :: r, rfl, ha⟩
    · simp only [Option.map_eq_some_iff] at h
      obtain ⟨b', hb, rfl⟩ := h
      obtain ⟨s, rfl, hs⟩ := ih hb
      exact ⟨s, rfl, hs⟩

/-- The text before and the text after the first `sep`. -/
def breakOn? (sep t : Text) : Option (Text × Text) := breakAt? sep.isPrefixOf? t

/-- Around the separator stand the two parts and nothing else. -/
theorem eq_of_breakOn? {sep t : Text} {b : Text × Text} (h : breakOn? sep t = some b) :
    t = b.1 ++ sep ++ b.2 := by
  obtain ⟨s, rfl, hs⟩ := exists_of_breakAt? h
  rw [List.append_assoc, append_of_isPrefixOf? hs]

/-- The pieces of a text between the places where `sep` stands, found from the front. -/
def cutOn (sep : Text) (hsep : sep ≠ []) (t : Text) : List Text :=
  match h : breakOn? sep t with
  | some (front, after) =>
    have : after.length < t.length := by
      have := congrArg List.length (eq_of_breakOn? h)
      have := List.length_pos_iff.2 hsep
      simp only [List.length_append] at *
      omega
    front :: cutOn sep hsep after
  | none => [t]
termination_by t.length

/-- `t` has `part` somewhere in it. -/
def has (part t : Text) : Bool := (breakOn? part t).isSome

/-- Takes `part` off the front of `t`, at most `n` times. -/
def dropPrefixes (part : Text) : Nat → Text → Text
  | 0, t => t
  | n + 1, t =>
    match part.isPrefixOf? t with
    | some rest => dropPrefixes part n rest
    | none => t

/-- `t` without `suffix` at its end, as often as it stands there. -/
def dropSuffixes (t suffix : Text) : Text :=
  (dropPrefixes suffix.reverse t.length t.reverse).reverse

/-! ### Letter case -/

/-- Lower case of one character as far as plain vocabulary can tell: the letters A to Z, the
Kelvin sign, which is a K, and the dotted capital I, which is an i and a dot. Any other letter
stays, for its lower case holds no plain letter either. -/
def foldChar (c : Char) : Text :=
  if c = '\u212A' then ['k'] else if c = '\u0130' then ['i', '\u0307'] else [c.toLower]

/-- `t` in lower case, for comparing with words spelt in the letters a to z. -/
def fold (t : Text) : Text := t.flatMap foldChar

/-- `t` with the letters A to Z in lower case and all else unchanged. -/
def lowerPlain (t : Text) : Text := t.map Char.toLower

/-- Equal up to the case of the letters A to Z. -/
def samePlain (a b : Text) : Bool := lowerPlain a == lowerPlain b

/-! ### Tables of words -/

/-- A word list as texts. -/
def lexicon (ws : List String) : List Text := ws.map String.toList

/-- The value that `table` gives to `t`. -/
def lookup? {α : Type} (table : List (String × α)) (t : Text) : Option α :=
  (table.find? fun e => e.1.toList == t).map (·.2)

/-! ### Measures and numbers -/

/-- The number of bytes of a text in UTF-8. -/
def byteCount : Text → Nat
  | [] => 0
  | c :: r => c.utf8Size + byteCount r

/-- The first text comes before the second in the order of characters, or is the same. -/
def isAtMost : Text → Text → Bool
  | [], _ => true
  | _ :: _, [] => false
  | a :: s, b :: t => a.toNat < b.toNat || a == b && isAtMost s t

/-- The decimal digits of `n`. -/
def ofNat (n : Nat) : Text := Nat.toDigits 10 n

/-- The decimal digits of `z`, after a `-` if it is negative. -/
def ofInt (z : Int) : Text := if z < 0 then '-' :: ofNat z.natAbs else ofNat z.natAbs

end Text

end CardText
