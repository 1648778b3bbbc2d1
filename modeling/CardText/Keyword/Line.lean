import CardText.Keyword.Basic
import CardText.Template
import CardText.Text.Numeral
import CardText.Text.Reminder

/-!
# Keyword lines

A line of rules text can consist of keywords alone: "Evasive, Shift 5 (You may pay 5 {I} …)".

* `Keyword.Entry`: a keyword with what is printed next to it;
* `Keyword.entry?`: one entry of a keyword line;
* `Keyword.entries?`: all entries of a line, if every part of it is one.
-/

namespace CardText

namespace Keyword

/-- A keyword with what is printed next to it. -/
structure Entry where
  keyword : Keyword
  /-- The number next to it. -/
  value : Option Int := none
  /-- The number, or the other price of a shift, as printed. -/
  valueText : Option Text := none
  /-- The reminder text. -/
  reminder : Option Text := none
  deriving Repr, DecidableEq

/-- The open places of a keyword line. -/
inductive Slot where
  | keyword
  | value
  deriving Repr, DecidableEq

/-- The template "Resist +2" or "Shift 5 {I}". -/
def plainEntry : Template Slot :=
  .phrase [
    .slot .keyword (.oneOf ["alert", "bodyguard", "boost", "challenger", "evasive", "reckless",
      "resist", "rush", "shift", "singer", "sing together", "support", "vanish", "ward"]),
    .opt [.gap,
      .slot .value (.phrase [.opt [.one fun c => c == '+' || c == '-'], .digits])],
    .opt [.optGap, "\x7bi\x7d"], .stop]

/-- The template "Shift: Discard a song card", for a shift that is not paid in ink. -/
def shiftEntry : Template Slot :=
  .phrase ["shift", .opt [":"], .gap,
    .slot .value (.phrase [.one fun c => !c.isDigit, .opt [.toLineEnd]]), .stop]

/-- One part of a keyword line. A number next to a keyword that takes none makes it no keyword
line. -/
def entry? (part : Text) : Option Entry :=
  match plainEntry.match? part with
  | some m =>
    match ofName? (m.slot .keyword) with
    | none => none
    | some keyword =>
      let valueText := m.slot? .value
      if valueText.isSome && !keyword.takesValue then none
      else some { keyword, value := valueText.bind Text.signed?, valueText }
  | none =>
    match shiftEntry.match? part with
    | some m => some { keyword := .shift, valueText := some (m.slot .value).trim }
    | none => none

/-- Puts a reminder text next to the last entry. -/
def remindLast (reminder : Option Text) : List Entry → List Entry
  | [] => []
  | [e] => [{ e with reminder }]
  | e :: es => e :: remindLast reminder es

/-- The entries of a line that consists of keywords alone; its first reminder text belongs to the
last of them. -/
def entries? (t : Text) : Option (List Entry) :=
  let p := t.stripReminders
  let body := p.body.trimEnd (· == '.')
  if body.isEmpty then none
  else
    (((Text.cut (· == ',') body).map Text.trim).mapM entry?).map
      (remindLast p.reminders.head?)

end Keyword

end CardText
