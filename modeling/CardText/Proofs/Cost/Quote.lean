import Mathlib.Algebra.Group.Nat.Even
import CardText.Proofs.Cost.Token

/-!
# Quotes around the dash of an activated ability

The quotes of a granted ability play no part in where a text is split: the first dash counts, also
one in quotes.

* `Cost.isClosed`: costs whose wording has no place for a quote (`Cost.not_mem_of_isClosed`);
* `Cost.turners`: the other tokens, those among them that have an odd number of quotes
  (`Cost.even_count_iff`);
* `splitActivated?_even_iff`: when the dash that is taken stands outside the quotes.
-/

namespace CardText

open Template

namespace Text

/-- Pieces hold every character that is not in the separator. -/
theorem count_flatten_cutOn {x : Char} {sep : Text} (hsep : sep ≠ []) (hx : x ∉ sep) (t : Text) :
    (cutOn sep hsep t).flatten.count x = t.count x := by
  induction t using cutOn.induct sep hsep with
  | case1 t front after hb _ ih =>
    rw [cutOn_of_some hsep hb, List.flatten_cons, List.count_append, ih, eq_of_breakOn? hb,
      List.count_append, List.count_append, List.count_eq_zero.2 hx]
    rfl
  | case2 t hb => rw [cutOn_of_none hsep hb, List.flatten_singleton]

theorem count_trim {x : Char} (hx : isBlank x = false) (t : Text) :
    t.trim.count x = t.count x := by
  obtain ⟨a, b, ht, ha, hb⟩ := exists_trim t
  have hzero : ∀ {s : Text}, (∀ c ∈ s, isBlank c = true) → s.count x = 0 := fun hs =>
    List.count_eq_zero.2 fun hm => by
      rw [hs x hm] at hx
      cases hx
  conv_rhs => rw [ht, List.count_append, List.count_append, hzero ha, hzero hb]
  omega

end Text

namespace Cost

variable {source : ObjectKind} {t : Text}

/-! ### Closed costs -/

/-- The wording of the cost has no open place other than a number. -/
def isClosed : Cost → Bool
  | exertSelf => true
  | payInk _ => true
  | banishSelf => true
  | discardCard _ none => true
  | _ => false

/-- The parts of `discardToken` in front of the restriction on the cards. -/
def discardFront : List (Template Slot) :=
  [.opt ["choose and "], "discard ",
    .slot .count (.alt (.oneOf ["a", "an", "one", "two", "three"]) .digits), " "]

/-- The parts of `discardToken` behind the restriction on the cards. -/
def discardBack : List (Template Slot) := ["card", .opt ["s"], .stop]

theorem mem_ends_discardToken {c d : Cursor Slot} : d ∈ ends discardToken c ↔
    ∃ e ∈ ends (phrase discardFront) c, ∃ f ∈ ends (opt [.slot .filter .words, " "]) e,
      d ∈ ends (phrase discardBack) f := by
  have happend : ends discardToken c = (ends (phrase discardFront) c).flatMap
      (ends (phrase (.opt [.slot .filter .words, " "] :: discardBack))) :=
    ends_phrase_append discardFront (.opt [.slot .filter .words, " "] :: discardBack) c
  simp only [happend, List.mem_flatMap, mem_ends_phrase_cons]

/-- A discard of any cards has no quote in it. -/
theorem not_mem_of_discardToken {m : Match Slot} (hm : discardToken.match? t = some m)
    (hs : m.slot? .filter = none) : '"' ∉ t := by
  rw [match?, matchAfter?_eq, Option.map_eq_some_iff] at hm
  obtain ⟨d, hd, rfl⟩ := hm
  obtain ⟨e, he, f, hf, hd⟩ := mem_ends_discardToken.1 (List.mem_of_mem_head? hd)
  rcases List.mem_append.1 hf with hf | hf
  · -- a restriction that was read is filled in
    obtain ⟨g, hg, hf⟩ := mem_ends_phrase_cons.1 hf
    obtain ⟨g, -, rfl⟩ := List.mem_map.1 hg
    have hmark := ((marks_isSuffix_of_mem_ends hf).trans (marks_isSuffix_of_mem_ends hd)).subset
      List.mem_cons_self
    rw [Match.slot?, Option.map_eq_none_iff, List.find?_eq_none] at hs
    exact (hs _ hmark (decide_eq_true rfl)).elim
  · obtain rfl := List.mem_singleton.1 hf
    obtain ⟨v, hv, hqv⟩ := not_mem_of_spares (x := '"') (by decide) he
    obtain ⟨u, hu, hqu⟩ := not_mem_of_spares (x := '"') (by decide) hd
    rw [rest_eq_nil_of_stops (by decide) hd, List.append_nil] at hu
    change t = _ at hv
    rw [hv, hu]
    simp [hqv, hqu]

/-- A closed cost has no quote in it. -/
theorem not_mem_of_isClosed (h : (ofToken source t).isClosed = true) : '"' ∉ t := by
  intro hq
  have hcore : '"' ∈ core t := mem_core hq (by decide) (by decide)
  have hnone : ∀ {w : Template Slot}, w.stops = true → w.spares '"' = true →
      w.match? (core t) = none := fun hst hsp => matchAfter?_eq_none_of_spares hst hsp hcore none
  have hexert : Text.samePlain (core t) Text.exertSymbol = false := by
    by_contra hs
    rw [Bool.not_eq_false, Text.samePlain, beq_iff_eq] at hs
    have hm : '"' ∈ Text.lowerPlain (core t) := List.mem_map_of_mem hcore
    rw [hs] at hm
    exact absurd hm (by decide)
  have hink : ink? (core t) = none := by
    rw [ink?, hnone (by decide) (by decide)]
    rfl
  have hself : banishSelfToken.isMatch (core t) = false := by
    rw [isMatch, hnone (by decide) (by decide)]
    rfl
  simp only [ofToken, ← core.eq_1, hexert, hink, hself] at h
  cases hd : discardToken.match? (core t) with
  | some m =>
    cases hs : m.slot? .filter with
    | none => exact not_mem_of_discardToken hd hs hcore
    | some f => simp [hd, hs, isClosed] at h
  | none =>
    cases he : exertToken.match? (core t) with
    | some m => simp [hd, he, isClosed] at h
    | none => cases hb : banishToken.match? (core t) <;> simp [hd, he, hb, isClosed] at h

/-! ### Quotes of the tokens -/

theorem count_flatten_tokens {x : Char} (hc : x ≠ ',') (hx : x ∉ " and ".toList) (t : Text) :
    (tokens t).flatten.count x = t.count x := by
  have hcut : (Text.cut (· == ',') t).flatten.count x = t.count x := by
    rw [Text.cut_flatten, List.count_filter (by simpa using hc)]
  rw [← hcut, tokens]
  induction Text.cut (· == ',') t with
  | nil => rfl
  | cons u us ih =>
    rw [List.flatMap_cons, List.flatten_append, List.count_append, ih,
      Text.count_flatten_cutOn (by decide) hx, List.flatten_cons, List.count_append]

/-- The tokens that leave a quote open or close one. -/
def turners (source : ObjectKind) (t : Text) : List Text :=
  (tokens t).filter fun u => !(ofToken source u).isClosed && u.count '"' % 2 == 1

theorem even_count_iff (source : ObjectKind) (t : Text) :
    Even (t.count '"') ↔ Even (turners source t).length := by
  rw [← count_flatten_tokens (by decide) (by decide), turners]
  induction tokens t with
  | nil => simp
  | cons u us ih =>
    rw [List.flatten_cons, List.count_append, Nat.even_add, ih, List.filter_cons]
    split
    · next h =>
      rw [Bool.and_eq_true, beq_iff_eq, ← Nat.odd_iff, ← Nat.not_even_iff_odd] at h
      rw [List.length_cons, Nat.even_add_one]
      tauto
    · next h =>
      have heven : Even (u.count '"') := by
        by_cases hclosed : (ofToken source u).isClosed = true
        · rw [List.count_eq_zero.2 (not_mem_of_isClosed hclosed)]
          exact .zero
        · rw [Nat.even_iff]
          have : ¬ u.count '"' % 2 = 1 := fun hodd => h (by simp [hclosed, hodd])
          omega
      tauto

end Cost

/-- An activated ability is broken at its first dash or its first spaced hyphen. -/
theorem splitActivated?_sides {source : ObjectKind} {t : Text} {a : Activated}
    (h : splitActivated? source t = some a) :
    ∃ sep ∈ [[Text.dash], " - ".toList], ∃ left right,
      Text.breakOn? sep t = some (left, right) ∧ a.cost = left.trim ∧ a.effect = right.trim := by
  have hside : ∀ {sep : Text},
      ((Text.breakOn? sep t).bind fun b => activated? source b.1 b.2) = some a →
        ∃ left right, Text.breakOn? sep t = some (left, right) ∧ a.cost = left.trim ∧
          a.effect = right.trim := by
    intro sep h
    obtain ⟨b, hb, ha⟩ := Option.bind_eq_some_iff.1 h
    obtain ⟨hc, he, -⟩ := activated?_spec ha
    exact ⟨b.1, b.2, hb, hc, he⟩
  rw [splitActivated?, Option.or_eq_some_iff] at h
  rcases h with h | ⟨-, h⟩
  · exact ⟨_, by simp, hside h⟩
  · exact ⟨_, by simp, hside h⟩

/-- **Quotes around a separator.** In a text whose quotes are in pairs, the separator stands outside
the quotes just if the cost side has its quotes in pairs, and this just if an even number of its
tokens leave one of their quotes without the other. -/
theorem splitActivated?_even_iff {source : ObjectKind} {t : Text} {a : Activated}
    (h : splitActivated? source t = some a) (ht : Even (t.count '"')) :
    (∃ sep ∈ [[Text.dash], " - ".toList], ∃ left right,
      Text.breakOn? sep t = some (left, right) ∧ a.cost = left.trim ∧ a.effect = right.trim ∧
      (Even (a.cost.count '"') ↔ Even (left.count '"'))) ∧
    (Even (a.cost.count '"') ↔ Even (a.effect.count '"')) ∧
    (Even (a.cost.count '"') ↔ Even (Cost.turners source a.cost).length) := by
  obtain ⟨sep, hsep, left, right, hb, hc, he⟩ := splitActivated?_sides h
  have hquote : '"' ∉ sep := by
    have hseps : ∀ s ∈ [[Text.dash], " - ".toList], '"' ∉ s := by decide
    exact hseps sep hsep
  refine ⟨⟨sep, hsep, left, right, hb, hc, he, ?_⟩, ?_, Cost.even_count_iff source a.cost⟩
  · rw [hc, Text.count_trim (by decide)]
  · rw [Text.eq_of_breakOn? hb, List.count_append, List.count_append, List.count_eq_zero.2 hquote]
      at ht
    rw [hc, he, Text.count_trim (by decide), Text.count_trim (by decide)]
    exact Nat.even_add.1 ht

/-- An activated ability that grants another. -/
def grantsDraw : Text :=
  "\x7bE\x7d — Chosen character gains \"\x7bE\x7d — Draw a card.\" this turn.".toList

theorem splitActivated?_even_iff_grantsDraw :
    ∃ a, splitActivated? .item grantsDraw = some a ∧ Even (grantsDraw.count '"') ∧
      (∃ sep ∈ [[Text.dash], " - ".toList], ∃ left right,
        Text.breakOn? sep grantsDraw = some (left, right) ∧ a.cost = left.trim ∧
        a.effect = right.trim ∧ (Even (a.cost.count '"') ↔ Even (left.count '"'))) ∧
      (Even (a.cost.count '"') ↔ Even (a.effect.count '"')) ∧
      (Even (a.cost.count '"') ↔ Even (Cost.turners .item a.cost).length) := by
  have h : splitActivated? .item grantsDraw = some ⟨"\x7bE\x7d".toList,
      "Chosen character gains \"\x7bE\x7d — Draw a card.\" this turn.".toList⟩ := by decide +kernel
  exact ⟨_, h, by decide, splitActivated?_even_iff h (by decide)⟩

/-- A command with a quoted ability behind it. -/
def exertAndGrant : Text := "Exert chosen character. It gains \"\x7bE\x7d — Draw a card.\"".toList

/-- The dash in the quotes separates a cost from an effect. -/
theorem not_even_count_exertAndGrant :
    ¬ ∀ source t a, Even (t.count '"') → splitActivated? source t = some a →
      Even (a.cost.count '"') := by
  intro h
  have ha : splitActivated? .character exertAndGrant = some
      ⟨"Exert chosen character. It gains \"\x7bE\x7d".toList, "Draw a card.\"".toList⟩ := by
    decide +kernel
  exact absurd (h .character exertAndGrant _ (by decide) ha) (by decide)

end CardText
