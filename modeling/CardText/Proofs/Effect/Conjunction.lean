import CardText.Effect.Clause
import Mathlib.Algebra.Ring.Parity

/-!
# Conjunctions between clauses

Cutting a sentence into clauses takes conjunctions out of it and leaves all other words in place.

* `Clause.Link`: a clause that is cut off, and the conjunction behind it;
* `Clause.IsDivision`: clauses that come about when words are cut into links and a last clause;
* `Clause.isDivision_cutWords`: the words of the open clause and those behind them are cut in that
  way, as long as it is known whether a quote is open;
* `Clause.ofSentence_links`: the clauses of a sentence, and the quotes in front of each cut.
-/

namespace CardText

namespace Clause

/-! ### Links -/

/-- What can stand between two clauses, in lower case. -/
def conjunctions : List (List Text) :=
  [Text.lexicon ["and"], Text.lexicon ["then"], Text.lexicon ["and", "then"]]

/-- A clause that is cut off, and the conjunction behind it. -/
structure Link where
  /-- The words of the clause. -/
  clause : List Text
  /-- The words of the conjunction. -/
  conjunction : List Text
  two_le_length : 2 ≤ clause.length
  exists_verb : ∃ w ∈ clause, bare w ∈ imperatives ∨ bare w ∈ verbForms
  /-- No quote of the clause is left open. -/
  even_quotes : Even (clause.flatten.count '"')
  mem_conjunctions : conjunction.map Text.fold ∈ conjunctions

namespace Link

/-- The words of a link in a row. -/
def words (l : Link) : List Text := l.clause ++ l.conjunction

/-- A conjunction has no quotes, in any letter case. -/
theorem not_mem_conjunction (l : Link) : '"' ∉ l.conjunction.flatten := by
  intro h
  obtain ⟨w, hw, hq⟩ := List.mem_flatten.1 h
  have hfold : '"' ∈ Text.fold w := List.mem_flatMap.2 ⟨'"', hq, by decide⟩
  have hall : ∀ ws ∈ conjunctions, '"' ∉ ws.flatten := by decide
  exact hall _ l.mem_conjunctions (List.mem_flatten.2 ⟨_, List.mem_map_of_mem hw, hfold⟩)

theorem even_words (l : Link) : Even (l.words.flatten.count '"') := by
  rw [words, List.flatten_append, List.count_append,
    List.count_eq_zero.2 l.not_mem_conjunction]
  exact l.even_quotes

/-- Behind links no quote is open. -/
theorem even_flatMap_words (ls : List Link) : Even ((ls.flatMap words).flatten.count '"') := by
  induction ls with
  | nil => exact Even.zero
  | cons l ls ih =>
    rw [List.flatMap_cons, List.flatten_append, List.count_append]
    exact l.even_words.add ih

end Link

theorem hasVerb_iff {ws : List Text} :
    hasVerb ws = true ↔ ∃ w ∈ ws, bare w ∈ imperatives ∨ bare w ∈ verbForms := by
  simp [hasVerb]

/-- Where a clause ends in front of a conjunction, the two are a link. -/
theorem exists_link {clause conjunction right : List Text} (h : endsHere clause right = true)
    (hq : Even (clause.flatten.count '"')) (hc : conjunction.map Text.fold ∈ conjunctions) :
    ∃ l : Link, l.clause = clause ∧ l.conjunction = conjunction := by
  simp only [endsHere, Bool.and_eq_true, decide_eq_true_eq] at h
  exact ⟨⟨clause, conjunction, h.1.1, hasVerb_iff.1 h.1.2, hq, hc⟩, rfl, rfl⟩

/-! ### Divisions -/

/-- The clauses `cs`, empty ones left out, come about when the words are cut into links and a last
clause. -/
def IsDivision (ws cs : List Text) : Prop :=
  ∃ (ls : List Link) (last : List Text), ws = ls.flatMap Link.words ++ last ∧
    cs.filter (fun c => !c.isEmpty) =
      ((ls.map Link.clause ++ [last]).map join).filter fun c => !c.isEmpty

theorem isDivision_nil : IsDivision [] [] := ⟨[], [], rfl, rfl⟩

theorem isDivision_join (ws : List Text) : IsDivision ws [join ws] := ⟨[], ws, rfl, rfl⟩

theorem IsDivision.cons {ws cs : List Text} (l : Link) (h : IsDivision ws cs) :
    IsDivision (l.words ++ ws) (join l.clause :: cs) := by
  obtain ⟨ls, last, rfl, hcs⟩ := h
  refine ⟨l :: ls, last, ?_, ?_⟩
  · rw [List.flatMap_cons, List.append_assoc]
  · rw [List.filter_cons, hcs, List.map_cons, List.cons_append, List.map_cons, List.filter_cons]

/-! ### Cutting -/

/-- A word joins the open clause, or it begins a conjunction in front of which that clause ends, with
no quote open. -/
theorem cutWords_cons (left : List Text) (quoted : Bool) (w : Text) (rest : List Text) :
    cutWords left quoted (w :: rest) = cutWords (w :: left) (quoted != turnsQuote w) rest ∨
      ∃ conjunction rest', w :: rest = conjunction ++ rest' ∧
        conjunction.map Text.fold ∈ conjunctions ∧ quoted = false ∧
        endsHere left.reverse rest' = true ∧
        cutWords left quoted (w :: rest) = join left.reverse :: cutWords [] false rest' := by
  generalize hcs : cutWords left quoted (w :: rest) = cs
  unfold cutWords at hcs
  split_ifs at hcs with hq hc
  · exact .inl hcs.symm
  -- otherwise no quote is open, and the word turns none
  all_goals
    obtain ⟨rfl, hw⟩ : quoted = false ∧ turnsQuote w = false := by simpa using hq
    rw [hw]
  · have hfold : w.fold = "and".toList ∨ w.fold = "then".toList := by
      rw [Bool.and_eq_true, isConjunction, decide_eq_true_eq] at hc
      exact hc.1
    cases rest with
    | nil => exact .inl hcs.symm
    | cons next rest =>
      -- "and then" is taken as a whole, and only if no clause ends in front of it the two apart
      dsimp only at hcs
      split_ifs at hcs with ht he he
      · refine .inr ⟨[w, next], rest, rfl, ?_, rfl, he, hcs.symm⟩
        simp [conjunctions, Text.lexicon, ht.1, ht.2]
      · exact .inl hcs.symm
      · refine .inr ⟨[w], next :: rest, rfl, ?_, rfl, he, hcs.symm⟩
        rcases hfold with h | h <;> simp [conjunctions, Text.lexicon, h]
      · exact .inl hcs.symm
  · exact .inl hcs.symm

/-- The flag tells whether the words leave a quote open. -/
def Tells (quoted : Bool) (ws : List Text) : Prop := quoted = true ↔ Odd (ws.flatten.count '"')

theorem Tells.concat {quoted : Bool} {ws : List Text} (h : Tells quoted ws) (w : Text) :
    Tells (quoted != turnsQuote w) (ws ++ [w]) := by
  have hw : turnsQuote w = true ↔ Odd (w.count '"') := by
    rw [turnsQuote, beq_iff_eq, Nat.odd_iff]
  unfold Tells at h ⊢
  rw [List.flatten_append, List.flatten_singleton, List.count_append, Nat.odd_add, ← h,
    ← Nat.not_odd_iff_even, ← hw]
  cases quoted <;> cases turnsQuote w <;> decide

theorem Tells.even {ws : List Text} (h : Tells false ws) : Even (ws.flatten.count '"') := by
  simpa [Tells] using h

theorem tells_nil : Tells false (List.reverse []) := by simp [Tells]

/-- The words of the open clause and those behind them are cut into links and a last clause, if it is
known whether a quote is open. -/
theorem isDivision_cutWords {left : List Text} {quoted : Bool} (h : Tells quoted left.reverse) :
    ∀ ws : List Text, IsDivision (left.reverse ++ ws) (cutWords left quoted ws)
  | [] => by
    rw [List.append_nil, cutWords]
    split_ifs with hl
    · rw [List.isEmpty_iff.1 hl]
      exact isDivision_nil
    · exact isDivision_join _
  | w :: rest => by
    rcases cutWords_cons left quoted w rest with hstep | ⟨con, rest', hw, hcon, rfl, hend, hstep⟩
    · have hopen : Tells (quoted != turnsQuote w) (w :: left).reverse := by
        rw [List.reverse_cons]
        exact h.concat w
      have ih := isDivision_cutWords hopen rest
      rw [List.reverse_cons, List.append_assoc] at ih
      rw [hstep]
      exact ih
    · have hlt : rest'.length < (w :: rest).length := by
        have hne : con ≠ [] := by rintro rfl; exact absurd hcon (by decide)
        rw [hw, List.length_append]
        exact Nat.lt_add_of_pos_left (List.length_pos_iff.2 hne)
      obtain ⟨l, hclause, hconj⟩ := exists_link hend h.even hcon
      have ih := (isDivision_cutWords tells_nil rest').cons l
      rw [Link.words, hclause, hconj, List.append_assoc] at ih
      rw [hstep, hw]
      exact ih
termination_by ws => ws.length
decreasing_by
  · exact Nat.lt_succ_self _
  · exact hlt

/-- **Clauses of a sentence.**  The words of a sentence are clauses with conjunctions between them.
Each clause but the last has a verb, another word and no open quote, so that no quote is open in
front of a cut. What is read are the words of each clause in a row without the commas at its end,
and nothing for a clause of which nothing is left. -/
theorem ofSentence_links (t : Text) : ∃ (ls : List Link) (last : List Text),
    t.words = ls.flatMap Link.words ++ last ∧
      ofSentence t = ((ls.map Link.clause ++ [last]).map fun ws =>
        (Text.unwords ws).trimEnd (· == ',')).filter (fun c => !c.isEmpty) ∧
      ∀ i : ℕ, Even (((ls.take i).flatMap Link.words).flatten.count '"') := by
  obtain ⟨ls, last, hwords, hclauses⟩ := isDivision_cutWords tells_nil t.words
  exact ⟨ls, last, hwords, hclauses, fun i => Link.even_flatMap_words (ls.take i)⟩

/-- A comma of its own, a conjunction in capitals, one in quotes and one at the end. -/
example : ofSentence "Draw a card, , AND THEN it gains \"Banish it and draw\" and then".toList =
    ["Draw a card,".toList, "it gains \"Banish it and draw\" and then".toList] := by
  decide +kernel

end Clause

end CardText
