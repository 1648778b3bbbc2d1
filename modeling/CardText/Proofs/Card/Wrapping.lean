import CardText.Proofs.Card.Lines
import CardText.Proofs.Text.Dash

/-!
# Wrapped text

Loose text is printed in lines, some of which go on with the paragraph in front of them.

* `Text.GoesOn`: a line goes on with the one above it, as its begin or the end of that one tells;
* `Text.IsParagraph`, `Text.IsWrapped`: paragraphs wrapped into lines in such a way that the lines
  tell where each of them ends;
* `Text.joinLines_append_of_isChain`: lines that go on are joined, whatever follows them;
* `Text.flatMap_words_paragraphs`: the words of paragraphs are those of their text;
* `Text.paragraphs_unlines`: wrapped paragraphs are found again, each in one line.
-/

namespace CardText

namespace Text

/-! ### Lines that go on -/

/-- The text begins with a small letter. -/
def opensLower (t : Text) : Bool := t.head?.any isLower

theorem continues_eq (before line : Text) :
    continues before line = (isOpenEnded before || opensLower line) := by
  rw [continues, opensLower]
  cases line.head? <;> rfl

/-- The line `b` goes on with the line `a` above it: it begins in lower case, or `a` ends in a
comma, a dash or a hyphen. -/
def GoesOn (a b : Text) : Prop := opensLower b = true ∨ isOpenEnded a = true

instance (a b : Text) : Decidable (GoesOn a b) := inferInstanceAs (Decidable (_ ∨ _))

/-- How a text ends does not depend on what stands in front of its last line. -/
theorem isOpenEnded_append {t : Text} (ht : t ≠ []) (s : Text) :
    isOpenEnded (s ++ t) = isOpenEnded t := by
  rw [isOpenEnded, isOpenEnded, List.getLast?_append, Option.or_of_isSome (by simpa using ht)]

theorem isOpenEnded_unwords {ls : List Text} {l : Text} (h : ∀ x ∈ ls, x ≠ [])
    (hl : l ∈ ls.getLast?) : isOpenEnded (unwords ls) = isOpenEnded l := by
  induction ls with
  | nil => cases hl
  | cons x ls ih =>
    cases ls with
    | nil =>
      obtain rfl : x = l := by simpa using hl
      rw [unwords_singleton]
    | cons y ls =>
      have hne : unwords (y :: ls) ≠ [] :=
        unwords_ne_nil (by simp) fun z hz => h z (List.mem_cons_of_mem _ hz)
      rw [unwords_cons_cons, ← List.singleton_append, ← List.append_assoc, isOpenEnded_append hne]
      exact ih (fun z hz => h z (List.mem_cons_of_mem _ hz)) (by simpa using hl)

/-- Lines that go on with each other are joined, whatever lines follow them. -/
theorem joinLines_append_of_isChain {current l : Text} {ls : List Text} (rest : List Text)
    (hc : isOpenEnded current = isOpenEnded l) (h : (l :: ls).IsChain GoesOn)
    (hne : ∀ x ∈ ls, x ≠ []) :
    joinLines current (ls ++ rest) = joinLines (unwords (current :: ls)) rest := by
  -- the paragraph so far ends as its last line `l` does
  induction ls generalizing current l with
  | nil => rw [unwords_singleton, List.nil_append]
  | cons l' ls ih =>
    obtain ⟨hgo, hchain⟩ := List.isChain_cons_cons.1 h
    have hcont : continues current l' = true := by
      rw [continues_eq, hc, Bool.or_eq_true]
      exact hgo.symm
    have hl' : l' ≠ [] := hne l' (by simp)
    have hend : isOpenEnded (current ++ ' ' :: l') = isOpenEnded l' := by
      rw [← List.singleton_append, ← List.append_assoc, isOpenEnded_append hl']
    rw [List.cons_append, joinLines, if_pos hcont,
      ih hend hchain fun x hx => hne x (List.mem_cons_of_mem _ hx)]
    cases ls <;> simp

/-! ### Wrapped paragraphs -/

/-- The lines of one paragraph: the first one begins no further part of another paragraph, and each
of the others goes on with the one above it. -/
structure IsParagraph (ls : List Text) : Prop where
  ne_nil : ls ≠ []
  isLine : ∀ l ∈ ls, IsLine l
  opens : ∀ l ∈ ls.head?, opensLower l = false
  goesOn : ls.IsChain GoesOn

/-- Paragraphs wrapped into lines: none but the last one ends in a comma, a dash or a hyphen. -/
structure IsWrapped (ps : List (List Text)) : Prop where
  isParagraph : ∀ p ∈ ps, IsParagraph p
  ends : ∀ p ∈ ps.dropLast, ∀ l ∈ p.getLast?, isOpenEnded l = false

theorem IsWrapped.tail {p : List Text} {ps : List (List Text)} (h : IsWrapped (p :: ps)) :
    IsWrapped ps where
  isParagraph q hq := h.isParagraph q (List.mem_cons_of_mem _ hq)
  ends q hq := by
    cases ps with
    | nil => cases hq
    | cons p' ps =>
      refine h.ends q ?_
      rw [List.dropLast_cons_cons]
      exact List.mem_cons_of_mem _ hq

theorem IsParagraph.joinLines_eq {l : Text} {ls : List Text} (h : IsParagraph (l :: ls))
    (rest : List Text) :
    joinLines l (ls ++ rest) = joinLines (unwords (l :: ls)) rest :=
  joinLines_append_of_isChain rest rfl h.goesOn
    fun x hx => (h.isLine x (List.mem_cons_of_mem _ hx)).ne_nil

/-- Behind a paragraph the next one begins. -/
theorem joinLines_flatten {p : List Text} {ps : List (List Text)} (h : IsWrapped (p :: ps)) :
    joinLines (unwords p) ps.flatten = unwords p :: ps.map unwords := by
  induction ps generalizing p with
  | nil => rfl
  | cons q ps ih =>
    have hp := h.isParagraph p (by simp)
    have hq := h.isParagraph q (by simp)
    obtain ⟨l, ls, rfl⟩ := List.exists_cons_of_ne_nil hq.ne_nil
    have hlast := List.getLast?_eq_some_getLast hp.ne_nil
    have hend : isOpenEnded (unwords p) = false := by
      rw [isOpenEnded_unwords (fun x hx => (hp.isLine x hx).ne_nil) hlast]
      exact h.ends p (by simp) _ hlast
    have hnext : ¬ continues (unwords p) l = true := by
      rw [continues_eq, hend, hq.opens l rfl]
      exact Bool.false_ne_true
    rw [List.flatten_cons, List.cons_append, joinLines, if_neg hnext, hq.joinLines_eq, ih h.tail,
      List.map_cons]

/-! ### Words -/

/-- The words of lines are those of their text. -/
theorem flatMap_words_lines (t : Text) : t.lines.flatMap words = t.words := by
  have hcut := flatMap_cut_cut (p := (· == '\n')) (q := isBlank)
    (fun c hc => by rw [beq_iff_eq.1 hc]; rfl) t
  rw [lines, flatMap_filter_isEmpty (f := words) rfl, List.flatMap_map]
  simp only [words_trim]
  rw [words, ← hcut, List.filter_flatMap]
  rfl

theorem flatMap_words_joinLines (current : Text) (ls : List Text) :
    (joinLines current ls).flatMap words = current.words ++ ls.flatMap words := by
  fun_induction joinLines current ls with
  | case1 current => simp
  | case2 current l ls _ ih =>
    rw [ih, words_append_cons (by rfl), List.flatMap_cons, List.append_assoc]
  | case3 current l ls _ ih => rw [List.flatMap_cons, ih, List.flatMap_cons]

/-- The words of paragraphs are those of their text. -/
theorem flatMap_words_paragraphs (t : Text) : t.paragraphs.flatMap words = t.words := by
  rw [paragraphs, ← flatMap_words_lines t]
  split
  · next h => rw [h]
  · next h => rw [h, flatMap_words_joinLines, List.flatMap_cons]

/-! ### Wrapping and unwrapping -/

/-- **Wrapped paragraphs are found again**, each in one line; and whatever the lines of a text are,
its paragraphs have its words, in their order. -/
theorem paragraphs_unlines :
    (∀ ps, IsWrapped ps → (unlines ps.flatten).paragraphs = ps.map unwords) ∧
      ∀ t : Text, t.paragraphs.flatMap words = t.words := by
  refine ⟨fun ps h => ?_, flatMap_words_paragraphs⟩
  have hlines : (unlines ps.flatten).lines = ps.flatten := lines_unlines fun l hl => by
    obtain ⟨p, hp, hl⟩ := List.mem_flatten.1 hl
    exact (h.isParagraph p hp).isLine l hl
  rw [paragraphs, hlines]
  cases ps with
  | nil => rfl
  | cons p ps =>
    have hp := h.isParagraph p (by simp)
    obtain ⟨l, ls, rfl⟩ := List.exists_cons_of_ne_nil hp.ne_nil
    rw [List.flatten_cons, List.cons_append]
    exact (hp.joinLines_eq _).trans (joinLines_flatten h)

/-- A paragraph over three lines and one over two between two keywords. A line goes on because of
the comma in front of it, because of its small letter, and because of the dash in front of it. -/
theorem paragraphs_unlines_loyal :
    let ps := [["Evasive"], ["LOYAL When you play this character,", "Ready chosen character.",
      "they can't quest."], ["\x7bE\x7d —", "Draw a card."], ["Shift 4"]].map (·.map String.toList)
    IsWrapped ps ∧ (unlines ps.flatten).paragraphs = ["Evasive".toList,
      "LOYAL When you play this character, Ready chosen character. they can't quest.".toList,
      "\x7bE\x7d — Draw a card.".toList, "Shift 4".toList] := by
  intro ps
  have hline : ∀ l ∈ ps.flatten, IsLine l := by
    have : ∀ l ∈ ps.flatten, l ≠ [] ∧ '\n' ∉ l ∧ l.trim = l := by decide +kernel
    exact fun l hl => ⟨(this l hl).1, (this l hl).2.1, (this l hl).2.2⟩
  have h : IsWrapped ps := by
    refine ⟨fun p hp => ⟨?_, fun l hl => hline l (List.mem_flatten.2 ⟨p, hp, hl⟩), ?_, ?_⟩, ?_⟩
    · revert p hp
      decide +kernel
    · revert p hp
      decide +kernel
    · revert p hp
      decide +kernel
    · decide +kernel
  exact ⟨h, paragraphs_unlines.1 ps h⟩

end Text

end CardText
