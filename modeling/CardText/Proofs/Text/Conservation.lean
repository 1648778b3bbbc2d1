import CardText.Proofs.Text.Paragraph
import CardText.Proofs.Text.Sequence
import Mathlib.Algebra.BigOperators.Ring.List

/-!
# What sentences keep of a text

Of a text its sentences leave out blanks and the marks that can end a sentence, and nothing else.

* `Text.unmarked`: the printed characters of a text other than such marks;
* `Text.sentencePieces_cons`: what one character does to the pieces of a text;
* `Text.flatMap_unmarked_sentences`: the sentences have what their text has of such characters;
* `Text.exists_sentencePieces_even`: no quote is left open at the end of a piece, the last one
  apart;
* `Text.sentences_conserve`: all of this for the sentences of a text, and those of two texts with a
  period between them.
-/

namespace CardText

namespace Text

/-! ### Printed characters -/

/-- The printed characters of a text other than periods and exclamation marks. -/
def unmarked (t : Text) : Text := t.ink.filter fun c => c != '.' && c != '!'

theorem unmarked_append (s t : Text) : unmarked (s ++ t) = unmarked s ++ unmarked t := by
  rw [unmarked, ink_append, List.filter_append]
  rfl

theorem unmarked_flatten (ts : List Text) : unmarked ts.flatten = ts.flatMap unmarked := by
  induction ts with
  | nil => rfl
  | cons t ts ih => rw [List.flatten_cons, unmarked_append, ih, List.flatMap_cons]

theorem unmarked_trim (t : Text) : t.trim.unmarked = t.unmarked := by
  rw [unmarked, ink_trim, unmarked]

theorem count_unmarked (t : Text) : t.unmarked.count '"' = t.count '"' :=
  (List.count_filter rfl).trans (List.count_filter rfl)

/-! ### Pieces -/

theorem sentencePieces_ne_nil (quoted : Bool) (t : Text) : sentencePieces quoted t ≠ [] := by
  induction t generalizing quoted with
  | nil => exact List.cons_ne_nil _ _
  | cons c r ih =>
    rw [sentencePieces]
    split_ifs
    · simpa using ih (!quoted)
    · exact List.cons_ne_nil _ _
    · simpa using ih quoted

/-- A character of a text is a mark that ends a piece, with no quote open, or it is the first one of
the first piece; only a quote changes whether one is open. -/
theorem sentencePieces_cons (quoted : Bool) (c : Char) (r : Text) :
    (c = '.' ∨ c = '!') ∧ quoted = false ∧
        sentencePieces quoted (c :: r) = [] :: sentencePieces false r ∨
      ∃ p ps, sentencePieces (quoted != (c == '"')) r = p :: ps ∧
        sentencePieces quoted (c :: r) = (c :: p) :: ps := by
  by_cases hc : c = '"'
  · obtain ⟨p, ps, h⟩ := List.exists_cons_of_ne_nil (sentencePieces_ne_nil (!quoted) r)
    refine .inr ⟨p, ps, by simpa [hc] using h, ?_⟩
    rw [sentencePieces, if_pos hc, h]
    rfl
  by_cases hm : (c = '.' ∨ c = '!') ∧ !quoted ∧ endsBefore r
  · have hq : quoted = false := by simpa using hm.2.1
    refine .inl ⟨hm.1, hq, ?_⟩
    rw [sentencePieces, if_neg hc, if_pos hm, hq]
  · obtain ⟨p, ps, h⟩ := List.exists_cons_of_ne_nil (sentencePieces_ne_nil quoted r)
    refine .inr ⟨p, ps, by simpa [beq_false_of_ne hc] using h, ?_⟩
    rw [sentencePieces, if_neg hc, if_neg hm, h]
    rfl

/-- Pieces have all printed characters of their text, marks apart. -/
theorem flatMap_unmarked_sentencePieces (quoted : Bool) (t : Text) :
    (sentencePieces quoted t).flatMap unmarked = t.unmarked := by
  induction t generalizing quoted with
  | nil => rfl
  | cons c r ih =>
    have hcons : ∀ u : Text, unmarked (c :: u) = unmarked [c] ++ unmarked u := unmarked_append [c]
    rcases sentencePieces_cons quoted c r with ⟨hm, -, h⟩ | ⟨p, ps, hr, h⟩
    · have hnil : unmarked [c] = [] := by rcases hm with rfl | rfl <;> rfl
      rw [h, List.flatMap_cons, ih, hcons, hnil]
      rfl
    · rw [h, List.flatMap_cons, hcons, List.append_assoc, ← List.flatMap_cons, ← hr, ih, ← hcons]

theorem flatMap_unmarked_sentences (t : Text) : t.sentences.flatMap unmarked = t.unmarked := by
  rw [sentences, flatMap_filter_isEmpty rfl, List.flatMap_map]
  simp only [unmarked_trim]
  exact flatMap_unmarked_sentencePieces false t

/-! ### Quotes -/

/-- Where no quote is left open at the end of a text, none is left open at the end of a piece, nor is
one opened in the piece before. -/
theorem exists_sentencePieces_even {quoted : Bool} {t : Text}
    (h : quoted = true ↔ Odd (t.count '"')) : ∃ p ps, sentencePieces quoted t = p :: ps ∧
      (quoted = true ↔ Odd (p.count '"')) ∧ ∀ s ∈ ps, Even (s.count '"') := by
  induction t generalizing quoted with
  | nil => exact ⟨[], [], rfl, h, fun s hs => absurd hs List.not_mem_nil⟩
  | cons c r ih =>
    obtain ⟨p, ps, hr, hp, hps⟩ := ih (quoted_iff_cons.1 h)
    rcases sentencePieces_cons quoted c r with ⟨hm, rfl, hc⟩ | ⟨p', ps', hr', hc⟩
    · have hne : (c == '"') = false := by rcases hm with rfl | rfl <;> rfl
      rw [hne] at hr hp
      have heven : Even (p.count '"') := by simpa using hp
      exact ⟨[], p :: ps, by rw [hc, ← hr]; rfl, by simp,
        List.forall_mem_cons.2 ⟨heven, hps⟩⟩
    · obtain ⟨rfl, rfl⟩ := List.cons.inj (hr.symm.trans hr')
      exact ⟨c :: p, ps, hc, quoted_iff_cons.2 hp, hps⟩

/-- **Quotes in sentences.**  Each sentence closes the quotes that it opens just if the text does. -/
theorem forall_even_sentences_iff (t : Text) :
    (∀ s ∈ t.sentences, Even (s.count '"')) ↔ Even (t.count '"') := by
  have htrim : ∀ s : Text, s.trim.count '"' = s.count '"' := fun s => by
    rw [← count_unmarked, unmarked_trim, count_unmarked]
  constructor
  · intro h
    have hcount : t.count '"' = (t.sentences.map (List.count '"')).sum := by
      rw [← List.count_flatten, ← count_unmarked t, ← flatMap_unmarked_sentences,
        ← unmarked_flatten, count_unmarked]
    rw [hcount, even_iff_two_dvd]
    refine List.dvd_sum fun n hn => ?_
    obtain ⟨s, hs, rfl⟩ := List.mem_map.1 hn
    exact (h s hs).two_dvd
  · intro h s hs
    have hclosed : false = true ↔ Odd (t.count '"') := by simpa using h
    obtain ⟨p, ps, hpieces, hp, hps⟩ := exists_sentencePieces_even hclosed
    obtain ⟨u, hu, rfl⟩ := List.mem_map.1 (List.mem_filter.1 hs).1
    rw [htrim]
    rw [hpieces] at hu
    rcases List.mem_cons.1 hu with rfl | hu
    · simpa using hp
    · exact hps u hu

/-! ### Sentences -/

/-- **What sentences keep of a text.**  None of them is blank, in a row they have all printed
characters of the text but periods and exclamation marks, and they close their quotes just if the
text does.  Where it does, a period behind it ends a sentence, and what follows has its own. -/
theorem sentences_conserve (t : Text) :
    (∀ s ∈ t.sentences, s.isVoid = false) ∧ unmarked t.sentences.flatten = t.unmarked ∧
      ((∀ s ∈ t.sentences, Even (s.count '"')) ↔ Even (t.count '"')) ∧
      ∀ u : Text, Even (t.count '"') →
        sentences (t ++ ". ".toList ++ u) = sentences (t ++ ['.']) ++ sentences u := by
  refine ⟨fun s hs => ?_, ?_, forall_even_sentences_iff t, fun u hq => ?_⟩
  · obtain ⟨hm, hne⟩ := List.mem_filter.1 hs
    obtain ⟨p, -, rfl⟩ := List.mem_map.1 hm
    rw [isVoid, trim_trim]
    simpa using hne
  · rw [unmarked_flatten, flatMap_unmarked_sentences]
  · rw [List.append_assoc]
    exact sentences_append_period hq u

/-- Marks in quotes, next to quotes, in a number and in a row, in front of a quote left open. -/
theorem sentences_conserve_quotedMarks :
    Even (List.count '"' "Gain \"Go. Stop!\" Pay 1.5..! Draw".toList) ∧
      sentences ("Gain \"Go. Stop!\" Pay 1.5..! Draw".toList ++ ". ".toList ++ " \"A. B".toList) =
        sentences ("Gain \"Go. Stop!\" Pay 1.5..! Draw".toList ++ ['.']) ++
          sentences " \"A. B".toList := by
  have h : Even (List.count '"' "Gain \"Go. Stop!\" Pay 1.5..! Draw".toList) := by decide
  exact ⟨h, (sentences_conserve _).2.2.2 " \"A. B".toList h⟩

end Text

end CardText
