import CardText.Proofs.Text.Vocabulary
import Mathlib.Data.List.Infix

/-!
# Pieces between separators

What the pieces of a text are, said without a way to find them: joined by the separator they give
the text, and the separator behind a piece is the first one that stands there.

* `Text.IsCut`: the pieces of a text; `Text.IsCut.intercalate_eq` joins them again;
* `Text.breakOn?_eq_some_iff`: a text breaks at the first of its separators;
* `Text.isCut_iff`: every text has just one list of pieces, and that is the one that is found;
* `Text.isCut_singleton_iff`: a separator of one character is a class of one character.
-/

namespace CardText

namespace Text

variable {sep t p r : Text} {ps : List Text}

/-- `ps` are the pieces of `t` between the places where `sep` stands, found from the front.  No
separator stands in a piece, and none begins in a piece and ends in the separator behind it. -/
inductive IsCut (sep : Text) : Text → List Text → Prop
  | whole {t : Text} : ¬ sep <:+: t → IsCut sep t [t]
  | piece {p t : Text} {ps : List Text} : ¬ sep <:+: p ++ sep.dropLast → IsCut sep t ps →
      IsCut sep (p ++ sep ++ t) (p :: ps)

namespace IsCut

theorem ne_nil (h : IsCut sep t ps) : ps ≠ [] := by cases h <;> simp

/-- Joined by the separator the pieces give the text. -/
theorem intercalate_eq (h : IsCut sep t ps) : List.intercalate sep ps = t := by
  induction h with
  | whole => simp [List.intercalate]
  | piece hp ht ih =>
    obtain ⟨q, qs, rfl⟩ := List.exists_cons_of_ne_nil ht.ne_nil
    rw [← ih, List.intercalate_cons_cons]

end IsCut

/-! ### The first separator -/

theorem isPrefixOf?_eq_none (h : ¬ sep <+: t) : sep.isPrefixOf? t = none := by
  by_contra hs
  obtain ⟨r, hr⟩ := Option.ne_none_iff_exists'.1 hs
  exact h ⟨r, append_of_isPrefixOf? hr⟩

theorem not_isInfix_dropLast (hsep : sep ≠ []) : ¬ sep <:+: sep.dropLast := fun h => by
  have hl := h.length_le
  have hpos := List.length_pos_iff.2 hsep
  rw [List.length_dropLast] at hl
  omega

/-- No separator begins in front of the one at which a text breaks. -/
theorem not_isInfix_of_breakOn? (hsep : sep ≠ []) (h : breakOn? sep t = some (p, r)) :
    ¬ sep <:+: p ++ sep.dropLast := by
  induction t generalizing p with
  | nil =>
    rw [breakOn?, breakAt?, isPrefixOf?_eq_none (by simpa using hsep)] at h
    cases h
  | cons c t ih =>
    rw [breakOn?, breakAt?] at h
    split at h
    · cases h
      exact not_isInfix_dropLast hsep
    · next hn =>
      obtain ⟨b, hb, heq⟩ := Option.map_eq_some_iff.1 h
      cases heq
      have ht := eq_of_breakOn? hb
      rw [List.cons_append, List.infix_cons_iff, not_or]
      refine ⟨fun hp => ?_, ih hb⟩
      -- a separator that begins in front of the break would have been found
      have hpre : sep <+: c :: t := by
        refine hp.trans (List.cons_prefix_cons.2 ⟨rfl, ?_⟩)
        rw [ht, List.append_assoc, List.prefix_append_right_inj]
        exact (List.dropLast_prefix sep).trans (List.prefix_append _ _)
      obtain ⟨s, hs⟩ := hpre
      rw [← hs, isPrefixOf?_append] at hn
      cases hn

/-- A text breaks at a separator that none begins in front of. -/
theorem breakOn?_append (hsep : sep ≠ []) (h : ¬ sep <:+: p ++ sep.dropLast) :
    breakOn? sep (p ++ sep ++ r) = some (p, r) := by
  induction p with
  | nil =>
    obtain ⟨x, s, rfl⟩ := List.exists_cons_of_ne_nil hsep
    have hp : (x :: s).isPrefixOf? (x :: (s ++ r)) = some r := isPrefixOf?_append (x :: s) r
    rw [List.nil_append, List.cons_append, breakOn?, breakAt?, hp]
  | cons c p ih =>
    rw [List.cons_append, List.infix_cons_iff, not_or] at h
    have hnone : sep.isPrefixOf? (c :: (p ++ sep ++ r)) = none := by
      refine isPrefixOf?_eq_none fun hp => h.1 ?_
      -- what stands there of the separator behind `p` is short of its last character
      have hfront : c :: (p ++ sep.dropLast) <+: c :: (p ++ sep ++ r) := by
        rw [List.cons_prefix_cons, List.append_assoc, List.prefix_append_right_inj]
        exact ⟨rfl, (List.dropLast_prefix sep).trans (List.prefix_append _ _)⟩
      refine List.prefix_of_prefix_length_le hp hfront ?_
      have hpos := List.length_pos_iff.2 hsep
      simp only [List.length_cons, List.length_append, List.length_dropLast]
      omega
    have hrest := ih h.2
    rw [breakOn?] at hrest
    rw [List.cons_append, List.cons_append, breakOn?, breakAt?, hnone, hrest]
    rfl

/-- **A text breaks at the first of its separators.** -/
theorem breakOn?_eq_some_iff (hsep : sep ≠ []) :
    breakOn? sep t = some (p, r) ↔ t = p ++ sep ++ r ∧ ¬ sep <:+: p ++ sep.dropLast := by
  constructor
  · exact fun h => ⟨eq_of_breakOn? h, not_isInfix_of_breakOn? hsep h⟩
  · rintro ⟨rfl, h⟩
    exact breakOn?_append hsep h

/-- A text breaks at the first of its characters `m`. -/
theorem breakOn?_singleton_eq_some_iff {m : Char} :
    breakOn? [m] t = some (p, r) ↔ t = p ++ m :: r ∧ m ∉ p := by
  rw [breakOn?_eq_some_iff (List.cons_ne_nil m [])]
  simp [List.singleton_infix_iff]

/-! ### All pieces -/

/-- **The pieces of a text** are those that are found. -/
theorem isCut_iff (hsep : sep ≠ []) : IsCut sep t ps ↔ ps = cutOn sep hsep t := by
  constructor
  · intro h
    induction h with
    | whole hn => rw [cutOn_eq_singleton hsep hn]
    | piece hp ht ih => rw [cutOn_of_some hsep ((breakOn?_eq_some_iff hsep).2 ⟨rfl, hp⟩), ih]
  · rintro rfl
    induction t using cutOn.induct sep hsep with
    | case1 t front after hb _ ih =>
      obtain ⟨rfl, hn⟩ := (breakOn?_eq_some_iff hsep).1 hb
      rw [cutOn_of_some hsep hb]
      exact .piece hn ih
    | case2 t hb =>
      rw [cutOn_of_none hsep hb]
      exact .whole (breakOn?_eq_none_iff.1 hb)

/-- Between single characters there is what stands outside of their class. -/
theorem isCut_singleton_iff {m : Char} : IsCut [m] t ps ↔ ps = cut (· == m) t := by
  have hwhole : ∀ {s : Text}, m ∉ s → cut (· == m) s = [s] := fun hs =>
    cut_eq_singleton fun c hc => by
      rw [beq_eq_false_iff_ne]
      rintro rfl
      exact hs hc
  rw [isCut_iff (List.cons_ne_nil m [])]
  suffices h : cutOn [m] (List.cons_ne_nil m []) t = cut (· == m) t by rw [h]
  induction t using cutOn.induct [m] (List.cons_ne_nil m []) with
  | case1 t front after hb _ ih =>
    obtain ⟨rfl, hm⟩ := breakOn?_singleton_eq_some_iff.1 hb
    rw [cutOn_of_some _ hb, ih, cut_append_cons (by simp), hwhole hm]
    rfl
  | case2 t hb =>
    rw [cutOn_of_none _ hb, hwhole]
    rwa [breakOn?_eq_none_iff, List.singleton_infix_iff] at hb

end Text

end CardText
