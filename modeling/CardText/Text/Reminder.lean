import CardText.Text.Basic

/-!
# Reminder text

Text in parentheses explains a rule and adds none. `Text.stripReminders` separates it from the
text that counts.

* `Text.parted`: the characters outside parentheses and the contents of the outermost ones;
* `Text.closeUp`: no space in front of a mark;
* `Text.stripReminders`: the body and its reminders.
-/

namespace CardText

namespace Text

/-- Text split into what counts and what only reminds. -/
structure Reminded where
  /-- The text outside parentheses. -/
  body : Text
  /-- The texts of the outermost parentheses, trimmed, blank ones left out. -/
  reminders : List Text
  deriving Repr, DecidableEq

/-- Adds a character in front of the body. -/
def Reminded.pushBody (c : Char) (t : Reminded) : Reminded := { t with body := c :: t.body }

/-- Adds a reminder in front of the others, unless it is blank. -/
def Reminded.pushReminder (r : Text) (t : Reminded) : Reminded :=
  if r.isVoid then t else { t with reminders := r.trim :: t.reminders }

/-- Reads on at the given depth of parentheses; `inner` holds, last first, what the open outermost
parenthesis contains so far. A parenthesis that is never closed hides nothing: what follows it
is body text. A closing one that was never opened is an ordinary character. -/
def parted : Nat → Text → Text → Reminded
  | 0, _, [] => ⟨[], []⟩
  | _ + 1, inner, [] => ⟨inner.reverse, []⟩
  | 0, _, '(' :: r => parted 1 [] r
  | 0, _, c :: r => (parted 0 [] r).pushBody c
  | 1, inner, ')' :: r => (parted 0 [] r).pushReminder inner.reverse
  | d + 2, inner, ')' :: r => parted (d + 1) (')' :: inner) r
  | d + 1, inner, '(' :: r => parted (d + 2) ('(' :: inner) r
  | d + 1, inner, c :: r => parted (d + 1) (c :: inner) r

/-- `t` without the spaces that stand directly in front of `mark`. -/
def closeUp (mark : Char) : Text → Text
  | [] => []
  | [c] => [c]
  | c :: d :: r => if c = ' ' ∧ d = mark then closeUp mark (d :: r) else c :: closeUp mark (d :: r)

/-- The body in single spaces, with no space before a period or a comma, and the reminders. -/
def stripReminders (t : Text) : Reminded :=
  let p := parted 0 [] t
  { p with body := closeUp ',' (closeUp '.' (squeeze p.body)) }

/-- The body alone. -/
def body (t : Text) : Text := (stripReminders t).body

end Text

end CardText
