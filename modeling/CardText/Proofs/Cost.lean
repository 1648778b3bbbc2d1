import CardText.Cost
import CardText.Proofs.Text.Spacing

/-!
# The cost side of an activated ability

A text is split at a dash only where a known cost stands in front of the first comma.

* `Cost.isKnown_ofToken_nil`: an empty token is no known cost;
* `splitActivated?_spec`: the two sides of the split, and the known cost in the first of them;
* `Cost.listOfText_ne_nil`: the cost side has at least one cost.
-/

namespace CardText

namespace Text

/-- A separator that begins with another character leaves the first character where it is. -/
theorem cutOn_cons {x c : Char} {s : Text} (h : x :: s ≠ []) (hc : x ≠ c) (r : Text) :
    ∃ q ps, cutOn (x :: s) h (c :: r) = (c :: q) :: ps := by
  have hn := isPrefixOf?_cons_of_ne hc s r
  rw [cutOn]
  split
  · next front after hb =>
    simp only [breakOn?, breakAt?, hn, Option.map_eq_some_iff] at hb
    obtain ⟨b, -, hb⟩ := hb
    cases hb
    exact ⟨_, _, rfl⟩
  · exact ⟨r, [], rfl⟩

end Text

namespace Cost

theorem isKnown_ofToken_nil (source : ObjectKind) : (ofToken source []).isKnown = false := by
  cases source <;> decide +kernel

/-- The first cost token of a text begins like the text. -/
theorem tokens_cons {c : Char} (hc : c ≠ ',') (hs : c ≠ ' ') (r : Text) :
    ∃ q ts, tokens (c :: r) = (c :: q) :: ts := by
  obtain ⟨p, ps, h⟩ := List.exists_cons_of_ne_nil (Text.cut_ne_nil (· == ',') r)
  obtain ⟨q, qs, hq⟩ := Text.cutOn_cons (s := "and ".toList) (by decide) (Ne.symm hs) p
  have hcut : Text.cut (· == ',') (c :: r) = (c :: p) :: ps := by
    rw [Text.cut_cons_of_not (by simpa using hc), h]
    rfl
  exact ⟨q, qs ++ _, by rw [tokens, hcut, List.flatMap_cons]; exact congrArg (· ++ _) hq⟩

/-- A text that begins with no comma and no blank has a cost. -/
theorem listOfText_cons_ne_nil (source : ObjectKind) {c : Char} (hc : c ≠ ',')
    (hb : Text.isBlank c = false) (r : Text) : listOfText source (c :: r) ≠ [] := by
  obtain ⟨q, ts, h⟩ := tokens_cons hc (Text.ne_space hb) r
  have hq : Text.trim (c :: q) ≠ [] := Text.trim_ne_nil_of_mem (by simp) hb
  simp [listOfText, listOfTokens, h, hq]

end Cost

/-- What stands on the two sides of the separator of an activated ability. -/
theorem activated?_spec {source : ObjectKind} {left right : Text} {a : Activated}
    (h : activated? source left right = some a) :
    a.cost = left.trim ∧ a.effect = right.trim ∧ a.cost ≠ [] ∧ a.effect ≠ [] ∧
      (Cost.ofToken source ((Text.cut (· == ',') a.cost).head?.getD []).trim).isKnown = true := by
  rw [activated?] at h
  simp only [Option.ite_none_left_eq_some, Bool.or_eq_true, Bool.not_eq_true', not_or,
    Bool.not_eq_false, List.isEmpty_iff] at h
  obtain ⟨⟨⟨hc, he⟩, hk⟩, h⟩ := h
  cases h
  exact ⟨rfl, rfl, hc, he, hk⟩

/-- A split text has a dash or a spaced hyphen between its two sides. -/
theorem splitActivated?_spec {source : ObjectKind} {t : Text} {a : Activated}
    (h : splitActivated? source t = some a) :
    ∃ left right, activated? source left right = some a := by
  rw [splitActivated?, Option.or_eq_some_iff] at h
  rcases h with h | ⟨-, h⟩ <;>
  · obtain ⟨b, -, hb⟩ := Option.bind_eq_some_iff.1 h
    exact ⟨b.1, b.2, hb⟩

/-- **An activated ability has a cost.** -/
theorem Cost.listOfText_ne_nil {source : ObjectKind} {t : Text} {a : Activated}
    (h : splitActivated? source t = some a) : Cost.listOfText source a.cost ≠ [] := by
  obtain ⟨left, right, ha⟩ := splitActivated?_spec h
  obtain ⟨hl, -, hne, -, hk⟩ := activated?_spec ha
  obtain ⟨c, r, hcr⟩ := List.exists_cons_of_ne_nil hne
  have hb : Text.isBlank c = false := Text.head_trim (t := left) (by simp [← hl, hcr])
  rw [hcr] at hk ⊢
  -- a text in front of a leading comma is empty, and so is no known cost
  have hc : c ≠ ',' := by
    rintro rfl
    have : (Text.cut (· == ',') (',' :: r)).head?.getD [] = [] := by simp [Text.cut]
    rw [this, show Text.trim [] = [] from rfl, Cost.isKnown_ofToken_nil] at hk
    cases hk
  exact Cost.listOfText_cons_ne_nil source hc hb r

end CardText
