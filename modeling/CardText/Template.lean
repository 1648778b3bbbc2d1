import CardText.Text.Basic

/-!
# Templates

Rules text is written in fixed wordings with open places. A `Template` is such a wording: literal
words, classes of characters, choices, and named slots of type `σ` for the open places.

* `Template.ends`: all ways in which a template can go through a text, best first. A choice prefers
  its first branch, `longest` prefers more characters and `shortest` fewer;
* `Template.run`: the same search, stopped at the first way that a continuation accepts
  (`Template.run_eq`);
* `Template.match?`, `Template.search?`, `Template.split`: the best match at the start of a text,
  the match that begins first, and the pieces between matches;
* `Template.width`: a match is at least this long (`Template.length_of_match?`).

Letter case never matters to literal words; the letters A to Z are the only ones with two cases
here. A word edge (`edge`) stands between a letter a to z, digit or underscore and anything else.
-/

namespace CardText

/-- A wording with open places. -/
inductive Template (σ : Type) where
  /-- Nothing. -/
  | empty
  /-- These characters in either letter case. -/
  | lit (t : Text)
  /-- One character of the class. -/
  | one (p : Char → Bool)
  /-- One or more characters of the class, as many as possible. -/
  | longest (p : Char → Bool)
  /-- One or more characters of the class, as few as possible. -/
  | shortest (p : Char → Bool)
  /-- One wording and then another. -/
  | seq (a b : Template σ)
  /-- The first wording or else the second. -/
  | alt (a b : Template σ)
  /-- An open place. -/
  | slot (s : σ) (t : Template σ)
  /-- The edge of a word. -/
  | edge
  /-- The end of the text. -/
  | stop

namespace Template

variable {σ : Type}

/-! ### Places in a text -/

/-- A place in a text, and the slots that were filled on the way to it. -/
structure Cursor (σ : Type) where
  /-- The character in front of the place. -/
  before : Option Char
  /-- What follows the place. -/
  rest : Text
  /-- The slots filled so far, last first: what followed their start, and what followed their
  end. -/
  marks : List (σ × Text × Text)

/-- Letters a to z, digits and the underscore make words. -/
def isWordChar (c : Char) : Bool := c.isAlphanum || c == '_'

/-- A place with a word character on exactly one side. -/
def Cursor.isEdge (c : Cursor σ) : Bool :=
  c.before.any isWordChar != c.rest.head?.any isWordChar

/-- What stands before and behind the place after the characters `t`, in either letter case. -/
def skip? : Text → Option Char → Text → Option (Option Char × Text)
  | [], before, rest => some (before, rest)
  | _ :: _, _, [] => none
  | x :: t, _, c :: rest => if c.toLower = x.toLower then skip? t (some c) rest else none

/-- The place after the characters `t`. -/
def Cursor.skip? (t : Text) (c : Cursor σ) : Option (Cursor σ) :=
  (Template.skip? t c.before c.rest).map fun e => { c with before := e.1, rest := e.2 }

/-- Fills the slot `s` with what stands between `start` and `c`. -/
def Cursor.mark (s : σ) (start c : Cursor σ) : Cursor σ :=
  { c with marks := (s, start.rest, c.rest) :: c.marks }

/-- The places after one, two, … characters of the class, in this order. -/
def runs (p : Char → Bool) (marks : List (σ × Text × Text)) : Text → List (Cursor σ)
  | [] => []
  | c :: r => if p c then ⟨some c, r, marks⟩ :: runs p marks r else []

/-! ### Matching -/

/-- The places where the template can end when it starts at `c`, best first. -/
def ends : Template σ → Cursor σ → List (Cursor σ)
  | empty, c => [c]
  | lit t, c => (c.skip? t).toList
  | one p, c => (runs p c.marks c.rest).take 1
  | longest p, c => (runs p c.marks c.rest).reverse
  | shortest p, c => runs p c.marks c.rest
  | seq a b, c => (ends a c).flatMap (ends b)
  | alt a b, c => ends a c ++ ends b c
  | slot s t, c => (ends t c).map (Cursor.mark s c)
  | edge, c => if c.isEdge then [c] else []
  | stop, c => if c.rest.isEmpty then [c] else []

/-- The first answer of `k` on the places where the template can end. -/
def run {α : Type} : Template σ → Cursor σ → (Cursor σ → Option α) → Option α
  | empty, c, k => k c
  | lit t, c, k => (c.skip? t).bind k
  | one p, c, k => ((runs p c.marks c.rest).take 1).findSome? k
  | longest p, c, k => (runs p c.marks c.rest).reverse.findSome? k
  | shortest p, c, k => (runs p c.marks c.rest).findSome? k
  | seq a b, c, k => run a c fun d => run b d k
  | alt a b, c, k => (run a c k).or (run b c k)
  | slot s t, c, k => run t c fun d => k (Cursor.mark s c d)
  | edge, c, k => if c.isEdge then k c else none
  | stop, c, k => if c.rest.isEmpty then k c else none

/-- Running a template is trying its ends in order. -/
theorem run_eq {α : Type} (t : Template σ) (c : Cursor σ) (k : Cursor σ → Option α) :
    run t c k = (ends t c).findSome? k := by
  induction t generalizing c k with
  | empty => simp [run, ends]
  | lit t => cases h : c.skip? t <;> simp [run, ends, h]
  | one p => rfl
  | longest p => rfl
  | shortest p => rfl
  | seq a b iha ihb =>
    simp only [run, ends, iha, ihb]
    induction ends a c with
    | nil => rfl
    | cons d l ih =>
      simp only [List.findSome?_cons, List.flatMap_cons, List.findSome?_append, ← ih]
      cases List.findSome? k (b.ends d) <;> rfl
  | alt a b iha ihb => simp [run, ends, iha, ihb, List.findSome?_append]
  | slot s t ih => simp [run, ends, ih, List.findSome?_map, Function.comp_def]
  | edge => simp only [run, ends]; split <;> simp
  | stop => simp only [run, ends]; split <;> simp

/-! ### Lengths -/

/-- The least number of characters that a template goes through. -/
def width : Template σ → Nat
  | empty => 0
  | lit t => t.length
  | one _ => 1
  | longest _ => 1
  | shortest _ => 1
  | seq a b => a.width + b.width
  | alt a b => min a.width b.width
  | slot _ t => t.width
  | edge => 0
  | stop => 0

theorem length_of_skip? {t : Text} {b : Option Char} {r : Text} {e : Option Char × Text}
    (h : skip? t b r = some e) : e.2.length + t.length = r.length := by
  induction t generalizing b r with
  | nil => cases h; rfl
  | cons x t ih =>
    cases r with
    | nil => cases h
    | cons c r =>
      rw [skip?] at h
      split at h
      · have := ih h
        simp only [List.length_cons]
        omega
      · cases h

theorem length_of_mem_runs {p : Char → Bool} {m : List (σ × Text × Text)} {r : Text}
    {d : Cursor σ} (h : d ∈ runs p m r) : d.rest.length < r.length := by
  induction r with
  | nil => cases h
  | cons c r ih =>
    rw [runs] at h
    split at h
    · rcases List.mem_cons.1 h with rfl | h
      · simp
      · exact Nat.lt_succ_of_lt (ih h)
    · cases h

theorem length_of_mem_ends {t : Template σ} {c d : Cursor σ} (h : d ∈ ends t c) :
    d.rest.length + t.width ≤ c.rest.length := by
  induction t generalizing c d with
  | empty => simp only [ends, List.mem_singleton] at h; subst h; exact Nat.le_refl _
  | lit t =>
    simp only [ends, Option.mem_toList, Cursor.skip?, Option.map_eq_some_iff] at h
    obtain ⟨e, he, rfl⟩ := h
    exact Nat.le_of_eq (length_of_skip? he)
  | one p => exact length_of_mem_runs (List.mem_of_mem_take h)
  | longest p => exact length_of_mem_runs (List.mem_reverse.1 h)
  | shortest p => exact length_of_mem_runs h
  | seq a b iha ihb =>
    simp only [ends, List.mem_flatMap] at h
    obtain ⟨e, he, hd⟩ := h
    have h₁ := iha he
    have h₂ := ihb hd
    simp only [width]
    omega
  | alt a b iha ihb =>
    simp only [ends, List.mem_append] at h
    simp only [width]
    rcases h with h | h
    · have := iha h; omega
    · have := ihb h; omega
  | slot s t ih =>
    simp only [ends, List.mem_map] at h
    obtain ⟨e, he, rfl⟩ := h
    have := ih he
    simpa only [width, Cursor.mark] using this
  | edge =>
    simp only [ends] at h
    split at h
    · rw [List.mem_singleton.1 h]; exact Nat.le_refl _
    · cases h
  | stop =>
    simp only [ends] at h
    split at h
    · rw [List.mem_singleton.1 h]; exact Nat.le_refl _
    · cases h

/-! ### Matches -/

/-- A match of a template. -/
structure Match (σ : Type) where
  /-- The text from the start of the match on. -/
  text : Text
  /-- What follows the match. -/
  rest : Text
  /-- The slots filled, last first, as in `Cursor`. -/
  marks : List (σ × Text × Text)

/-- What stands between a place of a text and a later one, each given by what follows it. -/
def between (start stop : Text) : Text := start.take (start.length - stop.length)

/-- The matched text. -/
def Match.whole (m : Match σ) : Text := between m.text m.rest

/-- What fills the slot `s`, if the match went through it. -/
def Match.slot? [DecidableEq σ] (m : Match σ) (s : σ) : Option Text :=
  (m.marks.find? fun e => e.1 = s).map fun e => between e.2.1 e.2.2

/-- What fills the slot `s`; nothing if the match did not go through it. -/
def Match.slot [DecidableEq σ] (m : Match σ) (s : σ) : Text := (m.slot? s).getD []

/-- The best match at the start of `text`, with `before` in front of it. -/
def matchAfter? (t : Template σ) (before : Option Char) (text : Text) : Option (Match σ) :=
  run t ⟨before, text, []⟩ fun c => some ⟨text, c.rest, c.marks⟩

/-- The best match at the start of `text`. -/
def match? (t : Template σ) (text : Text) : Option (Match σ) := matchAfter? t none text

/-- `text` starts with a match. -/
def isMatch (t : Template σ) (text : Text) : Bool := (match? t text).isSome

/-- A match is the first end of the template. -/
theorem matchAfter?_eq (t : Template σ) (before : Option Char) (text : Text) :
    matchAfter? t before text =
      (ends t ⟨before, text, []⟩).head?.map fun c => ⟨text, c.rest, c.marks⟩ := by
  rw [matchAfter?, run_eq]
  cases ends t ⟨before, text, []⟩ <;> simp

theorem length_of_matchAfter? {t : Template σ} {b : Option Char} {text : Text} {m : Match σ}
    (h : matchAfter? t b text = some m) : m.rest.length + t.width ≤ text.length := by
  rw [matchAfter?_eq, Option.map_eq_some_iff] at h
  obtain ⟨c, hc, rfl⟩ := h
  exact length_of_mem_ends (List.mem_of_mem_head? hc)

/-- What follows a match is shorter than the text by at least the width of the template. -/
theorem length_of_match? {t : Template σ} {text : Text} {m : Match σ}
    (h : match? t text = some m) : m.rest.length + t.width ≤ text.length :=
  length_of_matchAfter? h

/-- The text in front of the match that begins first, and that match; `before` stands in front of
the text. -/
def searchAfter? (t : Template σ) : Option Char → Text → Option (Text × Match σ)
  | before, [] => (matchAfter? t before []).map ([], ·)
  | before, c :: r =>
    match matchAfter? t before (c :: r) with
    | some m => some ([], m)
    | none => (searchAfter? t (some c) r).map fun e => (c :: e.1, e.2)

/-- The text in front of the match that begins first, and that match. -/
def search? (t : Template σ) (text : Text) : Option (Text × Match σ) := searchAfter? t none text

theorem length_of_searchAfter? {t : Template σ} {b : Option Char} {text : Text}
    {e : Text × Match σ} (h : searchAfter? t b text = some e) :
    e.2.rest.length + t.width ≤ text.length := by
  induction text generalizing b e with
  | nil =>
    simp only [searchAfter?, Option.map_eq_some_iff] at h
    obtain ⟨m, hm, rfl⟩ := h
    exact length_of_matchAfter? hm
  | cons c r ih =>
    rw [searchAfter?] at h
    split at h
    · next m hm => cases h; exact length_of_matchAfter? hm
    · simp only [Option.map_eq_some_iff] at h
      obtain ⟨e', he, rfl⟩ := h
      have := ih he
      simp only [List.length_cons]
      omega

/-- `text` without the match that begins first. -/
def remove (t : Template σ) (text : Text) : Text :=
  match search? t text with
  | some (front, m) => front ++ m.rest
  | none => text

/-- The pieces of a text between the matches of a template that cannot match nothing; `before`
stands in front of the text. -/
def splitAfter (t : Template σ) (ht : 0 < t.width) (before : Option Char) (text : Text) :
    List Text :=
  match h : searchAfter? t before text with
  | some (front, m) =>
    have : m.rest.length < text.length := by
      have := length_of_searchAfter? h
      simp only at this
      omega
    front :: splitAfter t ht m.whole.getLast? m.rest
  | none => [text]
termination_by text.length

/-- The pieces of a text between the matches of a template that cannot match nothing. -/
def split (t : Template σ) (ht : 0 < t.width) (text : Text) : List Text :=
  splitAfter t ht none text

/-! ### Writing templates -/

/-- The open places of a wording that has two of them. -/
inductive Side where
  | head
  | tail
  deriving Repr, DecidableEq

instance : Coe String (Template σ) := ⟨fun s => lit s.toList⟩

/-- Wordings in a row. -/
def phrase (ts : List (Template σ)) : Template σ := ts.foldr seq empty

/-- The first of these words that stands there. -/
def oneOf : List String → Template σ
  | [] => empty
  | [w] => lit w.toList
  | w :: ws => alt (lit w.toList) (oneOf ws)

/-- A phrase that may be missing; it is read where it can be. -/
def opt (ts : List (Template σ)) : Template σ := alt (phrase ts) empty

/-- A phrase that may be missing; it is read only where nothing else goes on. -/
def lazyOpt (ts : List (Template σ)) : Template σ := alt empty (phrase ts)

/-- Any character but a line end. -/
def isInline (c : Char) : Bool := c != '\n'

/-- The blanks that templates know: space, tab and the line, form and vertical feeds. -/
def isGap (c : Char) : Bool :=
  c == ' ' || c == '\t' || c == '\n' || c == '\x0b' || c == '\x0c' || c == '\r'

/-- Some text in one line, as little as possible. -/
def words : Template σ := shortest isInline

/-- All text up to the end of the line. -/
def toLineEnd : Template σ := longest isInline

/-- One or more digits. -/
def digits : Template σ := longest Char.isDigit

/-- One or more blanks. -/
def gap : Template σ := longest isGap

/-- Blanks or nothing. -/
def optGap : Template σ := opt [gap]

/-- A sign and digits. -/
def signedDigits : Template σ := seq (one fun c => c == '+' || c == '-') digits

end Template

end CardText
