import CardText.Proofs.Selector.Core

/-!
# Printed limits

The limit of a selector phrase ("with cost 3 or less", "with 2 {S}") as a text, and how the filters
of several words match it.

* `Core.Limit.text`: the limit as it is printed;
* `Core.costFilter_append`, `Core.statFilter_append`: a filter goes over the whole limit, whatever
  its number;
* `Core.costFilter_text`, `Core.statFilter_text`: a limit in range is read as its parts.
-/

namespace CardText

namespace Core

open Selector Template

/-- What follows the number of a limit. -/
def comparisonText : Comparison → Text
  | .exactly => []
  | .atMost => " or less".toList
  | .atLeast => " or more".toList

/-- The letter of the symbol of a measure; the cost has none. -/
def Measure.letter : Measure → Text
  | cost => []
  | strength => "S".toList
  | willpower => "W".toList
  | lore => "L".toList

/-- What follows the number of a limit on the cost, or on the other measures. -/
def Limit.tail (l : Limit) : Text :=
  match l.measure with
  | .cost => comparisonText l.comparison
  | m => " \x7b".toList ++ (m.letter ++ ("\x7d".toList ++ comparisonText l.comparison))

/-- The limit as it is printed. -/
def Limit.text (l : Limit) : Text :=
  match l.measure with
  | .cost => "with ".toList ++ ("cost ".toList ++ (Text.ofNat l.value ++ l.tail))
  | _ => "with ".toList ++ (Text.ofNat l.value ++ l.tail)

theorem unwords_comparison {ws : List Text} (h : ws ≠ []) (c : Comparison) :
    Text.unwords (ws ++ comparisonWords c) = Text.unwords ws ++ comparisonText c := by
  have key : ∀ {us : List Text} {t : Text}, us ≠ [] → ' ' :: Text.unwords us = t →
      Text.unwords (ws ++ us) = Text.unwords ws ++ t := fun hu ht =>
    ht ▸ Text.unwords_append h hu
  cases c with
  | exactly => change Text.unwords (ws ++ []) = Text.unwords ws ++ []; simp
  | atMost => exact key (by decide) (by rfl)
  | atLeast => exact key (by decide) (by rfl)

theorem unwords_words (l : Limit) : Text.unwords l.words = l.text := by
  rw [Limit.words, unwords_comparison (by cases l.measure <;> simp), Limit.text, Limit.tail]
  cases l.measure <;> simp [Text.lexicon, Measure.letter, Text.strengthSymbol,
    Text.willpowerSymbol, Text.loreSymbol]

theorem head_comparisonText (c : Comparison) :
    (comparisonText c).head?.any Char.isDigit = false := by
  cases c <;> rfl

theorem leads_digits {σ : Type} {x : Option Char} {ms : List (σ × Text × Text)} (n : Nat) {r : Text}
    (hr : r.head?.any Char.isDigit = false) :
    Leads digits ⟨x, Text.ofNat n ++ r, ms⟩ ⟨(Text.ofNat n).getLast?, r, ms⟩ :=
  .longest (fun _ => Text.isDigit_of_mem_ofNat) hr (Text.ofNat_ne_nil n)

/-- A literal that begins with a letter is a dead end in front of a number. -/
theorem ends_lit_ofNat {σ : Type} {x : Option Char} {ms : List (σ × Text × Text)} {c : Char}
    {w : Text} (hc : c.toLower.isDigit = false) (n : Nat) (r : Text) :
    ends (lit (c :: w)) ⟨x, Text.ofNat n ++ r, ms⟩ = [] := by
  obtain ⟨d, ds, hd, hdd⟩ := Text.exists_ofNat_eq_cons n
  rw [hd]
  refine ends_lit_ne fun he => ?_
  rw [← he, Text.toLower_of_isDigit hdd, hdd] at hc
  cases hc

/-- The place that a comparison fills. -/
def comparisonMarks : Comparison → List (Selector.Slot × Text × Text)
  | .exactly => []
  | .atMost => [(.comparison, "less".toList, [])]
  | .atLeast => [(.comparison, "more".toList, [])]

theorem leads_comparisonTail (c : Comparison) (x : Option Char)
    (ms : List (Selector.Slot × Text × Text)) :
    ∃ y, Leads comparisonTail ⟨x, comparisonText c, ms⟩ ⟨y, [], comparisonMarks c ++ ms⟩ := by
  cases c with
  | exactly => exact ⟨x, .skip rfl⟩
  | atMost => exact ⟨some 's', rfl⟩
  | atLeast => exact ⟨some 'e', rfl⟩

theorem comparisonOf_marks (c : Comparison) {ms : List (Selector.Slot × Text × Text)}
    (hm : ms.find? (fun e => e.1 = .comparison) = none) (t r : Text) :
    comparisonOf (Match.slot? ⟨t, r, comparisonMarks c ++ ms⟩ .comparison) = c := by
  cases c with
  | exactly => simp [Match.slot?, comparisonMarks, hm, comparisonOf]
  | atMost => rfl
  | atLeast => rfl

/-- The value that a number slot holds. -/
theorem valueOf_eq {m : Match Selector.Slot} {v : Nat} {r : Text}
    (hm : m.marks.find? (fun e => e.1 = .value) = some (.value, Text.ofNat v ++ r, r)) :
    valueOf m = if v < Text.naturalBound then v else 0 := by
  have hs : m.slot .value = Text.ofNat v := by
    simp [Match.slot, Match.slot?, hm, between]
  rw [valueOf, hs, Text.natural?_ofNat_eq]
  split_ifs <;> rfl

theorem costFilter_append (v : Nat) (c : Comparison) : ∃ m,
    costFilter.matchAfter? (some ' ') ("with ".toList ++ ("cost ".toList ++ (Text.ofNat v ++
      comparisonText c))) = some m ∧ m.rest = [] ∧ comparisonOf (m.slot? .comparison) = c ∧
      valueOf m = if v < Text.naturalBound then v else 0 := by
  obtain ⟨y, hy⟩ := leads_comparisonTail c (Text.ofNat v).getLast?
    [(.value, Text.ofNat v ++ comparisonText c, comparisonText c)]
  refine ⟨_, Leads.matchAfter? (.cons (.edge rfl) (.cons (.lit rfl) (.cons (.skip ?_)
    (.cons (.lit rfl) (.cons (.skip ?_) (.cons (.slot _ (leads_digits v (head_comparisonText c)))
      (.cons hy .nil))))))), rfl, ?_, ?_⟩
  · exact ends_phrase_eq_nil (ends_lit_ne (by decide))
  · exact ends_phrase_eq_nil (ends_lit_ofNat (by decide) v _)
  · exact comparisonOf_marks c rfl _ _
  · refine valueOf_eq (r := comparisonText c) ?_
    cases c <;> rfl

theorem statFilter_append (v : Nat) (c : Comparison) {letter : Text}
    (hl : ∀ x r (ms : List (Selector.Slot × Text × Text)), Leads (oneOf ["s", "w", "l"])
      ⟨x, letter ++ r, ms⟩ ⟨letter.getLast?.or x, r, ms⟩) : ∃ m,
    statFilter.matchAfter? (some ' ') ("with ".toList ++ (Text.ofNat v ++ (" \x7b".toList ++
      (letter ++ ("\x7d".toList ++ comparisonText c))))) = some m ∧ m.rest = [] ∧
      m.slot .symbol = letter ∧ comparisonOf (m.slot? .comparison) = c ∧
      valueOf m = if v < Text.naturalBound then v else 0 := by
  obtain ⟨y, hy⟩ := leads_comparisonTail c (some '\x7d')
    [(.symbol, letter ++ ("\x7d".toList ++ comparisonText c), "\x7d".toList ++ comparisonText c),
     (.value, Text.ofNat v ++ (" \x7b".toList ++ (letter ++ ("\x7d".toList ++ comparisonText c))),
       " \x7b".toList ++ (letter ++ ("\x7d".toList ++ comparisonText c)))]
  refine ⟨_, Leads.matchAfter? (.cons (.edge rfl) (.cons (.lit rfl) (.cons (.slot _
    (leads_digits v rfl)) (.cons (.lit rfl) (.cons (.slot _ (hl _ _ _)) (.cons (.lit rfl)
      (.cons hy .nil))))))), rfl, ?_, ?_, ?_⟩
  · have hs : ∀ ms : List (Selector.Slot × Text × Text), (comparisonMarks c ++ ms).find?
        (fun e => e.1 = .symbol) = ms.find? fun e => e.1 = .symbol := fun ms => by cases c <;> rfl
    simp [Match.slot, Match.slot?, hs, between]
  · exact comparisonOf_marks c rfl _ _
  · refine valueOf_eq (r := " \x7b".toList ++ (letter ++ ("\x7d".toList ++ comparisonText c))) ?_
    cases c <;> rfl

/-- A limit on the cost matches up to the end of the phrase. -/
theorem costFilter_text {l : Limit} (hl : l.measure = .cost) : ∃ m,
    costFilter.matchAfter? (some ' ') l.text = some m ∧ m.rest = [] ∧
      comparisonOf (m.slot? .comparison) = l.comparison ∧ valueOf m = l.value := by
  obtain ⟨m, hm, hr, hc, hv⟩ := costFilter_append l.value l.comparison
  rw [if_pos l.value_lt] at hv
  rw [Limit.text, Limit.tail, hl]
  exact ⟨m, hm, hr, hc, hv⟩

/-- A limit on another measure matches up to the end of the phrase. -/
theorem statFilter_text {l : Limit} (hl : l.measure ≠ .cost) : ∃ m,
    statFilter.matchAfter? (some ' ') l.text = some m ∧ m.rest = [] ∧
      statOf (m.slot .symbol) = l.measure.compared ∧
      comparisonOf (m.slot? .comparison) = l.comparison ∧ valueOf m = l.value := by
  have key : ∀ {letter : Text} {a : Attribute}, statOf letter = a →
      (∀ x r (ms : List (Selector.Slot × Text × Text)), Leads (oneOf ["s", "w", "l"])
        ⟨x, letter ++ r, ms⟩ ⟨letter.getLast?.or x, r, ms⟩) →
      ∃ m, statFilter.matchAfter? (some ' ') ("with ".toList ++ (Text.ofNat l.value ++
        (" \x7b".toList ++ (letter ++ ("\x7d".toList ++ comparisonText l.comparison))))) = some m ∧
        m.rest = [] ∧ statOf (m.slot .symbol) = a ∧
        comparisonOf (m.slot? .comparison) = l.comparison ∧ valueOf m = l.value := by
    intro letter a ha hletter
    obtain ⟨m, hm, hr, hs, hc, hv⟩ := statFilter_append l.value l.comparison hletter
    rw [if_pos l.value_lt] at hv
    exact ⟨m, hm, hr, hs ▸ ha, hc, hv⟩
  rw [Limit.text, Limit.tail]
  cases hm : l.measure with
  | cost => exact absurd hm hl
  | strength => exact key rfl fun _ _ _ => rfl
  | willpower => exact key rfl fun _ _ _ => rfl
  | lore => exact key rfl fun _ _ _ => rfl

end Core

end CardText
