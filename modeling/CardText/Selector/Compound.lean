import CardText.Amount
import CardText.Selector.Phrase

/-!
# Compound phrases

"Chosen character and chosen item" names two selectors. `Selector.parts` cuts a phrase at every
"and" that has the name of an object in front of it and a selector of its own behind it; "your
characters and locations" stays whole.
-/

namespace CardText

namespace Selector

/-- The nouns of objects and players. -/
def objectNouns : List Text :=
  Text.lexicon
    ["character", "item", "location", "card", "song", "action", "player", "opponent"]

/-- The text has the noun of an object in it. -/
def mentionsObject (t : Text) : Bool := objectNouns.any fun noun => Text.has noun t.fold

/-- What a selector phrase can begin with. -/
def openings : List Text :=
  Text.lexicon
    ["chosen", "up to", "each", "all", "your", "another", "one ", "a ", "an ", "this"]

/-- The text begins like a selector phrase. -/
def opensSelector (t : Text) : Bool :=
  (openings.any fun o => o.isPrefixOf t.fold) || t.fold.head?.any Char.isDigit

/-- The word that joins selectors, with the spaces around it. -/
def joint : Text := " and ".toList

/-- What follows a joint at the start of a text, in either letter case. -/
def afterJoint? (t : Text) : Option Text :=
  if Text.lowerPlain (t.take joint.length) = joint then some (t.drop joint.length) else none

/-- The phrase in front of the first joint and the one behind it, if both stand for selectors. -/
def breakCompound? (phrase : Text) : Option (Text × Text) :=
  match Text.breakAt? afterJoint? phrase with
  | none => none
  | some (left, right) =>
    let left := left.trim
    let right := right.trim
    if left.isEmpty || right.isEmpty || !opensSelector right || isElliptical right ||
        !mentionsObject left then none
    else some (left, right)

theorem length_of_afterJoint? {t r : Text} (h : afterJoint? t = some r) :
    r.length + 5 ≤ t.length := by
  rw [afterJoint?] at h
  split at h
  · next hj =>
    cases h
    have hl : (t.take joint.length).length = joint.length := by
      have := congrArg List.length hj
      simpa [Text.lowerPlain] using this
    have hj : joint.length = 5 := rfl
    simp only [List.length_take, List.length_drop, hj] at *
    omega
  · cases h

theorem length_of_breakCompound? {phrase left right : Text}
    (h : breakCompound? phrase = some (left, right)) : right.length < phrase.length := by
  rw [breakCompound?] at h
  split at h
  · cases h
  · next l r hb =>
    have hr : r.length + 5 ≤ phrase.length := by
      obtain ⟨s, rfl, hs⟩ := Text.exists_of_breakAt? hb
      have : r.length + 5 ≤ s.length := length_of_afterJoint? hs
      simp only [List.length_append]
      omega
    simp only at h
    split at h
    · cases h
    · simp only [Option.some.injEq, Prod.mk.injEq] at h
      have := Text.length_trim_le r
      rw [← h.2]
      omega

/-- The selector phrases that a phrase joins. -/
def parts (phrase : Text) : List Text :=
  match h : breakCompound? phrase with
  | none => [phrase.trim]
  | some (left, right) =>
    have := length_of_breakCompound? h
    left :: parts right
termination_by phrase.length

end Selector

end CardText
