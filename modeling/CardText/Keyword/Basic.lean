import CardText.Text.Basic

/-!
# Keywords

The keyword abilities, with their printed names (`Keyword.name`), the reading of a name in any
letter case (`Keyword.ofName?`), and whether a number belongs to the keyword
(`Keyword.takesValue`).
-/

namespace CardText

/-- The keyword abilities. -/
inductive Keyword where
  | alert
  | bodyguard
  | boost
  | challenger
  | evasive
  | reckless
  | resist
  | rush
  | shift
  | singer
  | singTogether
  | support
  | vanish
  | ward
  deriving Repr, DecidableEq

namespace Keyword

/-- All keywords. -/
def all : List Keyword :=
  [alert, bodyguard, boost, challenger, evasive, reckless, resist, rush, shift, singer,
   singTogether, support, vanish, ward]

theorem mem_all (k : Keyword) : k ∈ all := by cases k <;> decide

/-- The printed name. -/
def name : Keyword → String
  | alert => "Alert"
  | bodyguard => "Bodyguard"
  | boost => "Boost"
  | challenger => "Challenger"
  | evasive => "Evasive"
  | reckless => "Reckless"
  | resist => "Resist"
  | rush => "Rush"
  | shift => "Shift"
  | singer => "Singer"
  | singTogether => "Sing Together"
  | support => "Support"
  | vanish => "Vanish"
  | ward => "Ward"

/-- The keyword of a name, in either letter case. -/
def ofName? (t : Text) : Option Keyword :=
  all.find? fun k => Text.samePlain k.name.toList t.trim

/-- The keyword is printed with a number. -/
def takesValue : Keyword → Bool
  | boost => true
  | challenger => true
  | resist => true
  | shift => true
  | singer => true
  | singTogether => true
  | _ => false

end Keyword

end CardText
