import CardText.Proofs.Effect.Plain

/-!
# Sentences with a quote

The sentence "Chosen character gains "…" this turn." grants the ability in its quotes. Up to its
action, what is in the quotes plays no part.

* `Grant.sentences_text`: the quoted marks end no sentence;
* `Grant.ofSentence_sentence`: the quoted conjunctions join no clauses;
* `Grant.ofClause_sentence`: the quoted words are no modifiers, and "this turn" is one.
-/

namespace CardText

namespace Text

/-- Inside quotes no mark ends a sentence. -/
theorem sentencePieces_quoted {q : Text} (h : '"' ∉ q) (r : Text) :
    sentencePieces true (q ++ '"' :: r) =
      (sentencePieces false r).modifyHead (q ++ '"' :: ·) := by
  induction q with
  | nil => rw [List.nil_append, sentencePieces, if_pos rfl]; rfl
  | cons c q ih =>
    have hc : c ≠ '"' := fun he => h (he ▸ List.mem_cons_self)
    rw [List.cons_append, sentencePieces, if_neg hc, if_neg (by simp),
      ih fun hm => h (List.mem_cons_of_mem c hm)]
    cases sentencePieces false r <;> rfl

end Text

namespace Grant

open Template

/-! ### The sentence -/

/-- The text can stand in quotes: it has no quote and no parenthesis, and nothing of it is reminder
text. -/
structure IsQuotable (q : Text) : Prop where
  ne_nil : q ≠ []
  noQuote : '"' ∉ q
  noParenthesis : '(' ∉ q
  body_eq : q.body = q

/-- The words in front of the quote. -/
def front : Text := "Chosen character gains ".toList

/-- The action that grants the ability `q`. -/
def clause (q : Text) : Text := front ++ '"' :: (q ++ ['"'])

/-- The action and how long it lasts. -/
def sentence (q : Text) : Text := clause q ++ " this turn".toList

/-- The sentence as it is printed. -/
def text (q : Text) : Text := sentence q ++ ['.']

/-- The step that the sentence stands for. -/
def step (q : Text) : Step :=
  { effect := .grantAbility q
    target := { quantifier := .chosen 1, kinds := [.character] }
    duration := .thisTurn }

section

variable {q : Text}

theorem IsQuotable.spaced (hq : IsQuotable q) : q.Spaced := hq.body_eq ▸ Text.spaced_body q

theorem IsQuotable.head (hq : IsQuotable q) : ∀ c ∈ q.head?, Text.isBlank c = false := fun _ hc =>
  Text.head_body (hq.body_eq.symm ▸ hc)

theorem IsQuotable.trim_eq (hq : IsQuotable q) : q.trim = q :=
  Text.trim_eq_self hq.head fun _ hc => hq.spaced.getLast hc

/-- The text in its parts: what stands in front of `q`, `q`, and what follows it. -/
theorem text_eq (q : Text) :
    text q = (front ++ ['"']) ++ (q ++ ("\" this turn".toList ++ ['.'])) := by
  simp [text, sentence, clause]

theorem spaced_text (hq : IsQuotable q) : (text q).Spaced := by
  rw [text_eq]
  exact .append (by decide) (hq.spaced.append (by decide))

theorem noGapBefore_text (hq : IsQuotable q) {mark : Char}
    (hf : mark ∉ front ++ ['"']) (hl : mark ∉ "\" this turn".toList) (hg : q.NoGapBefore mark) :
    (text q).NoGapBefore mark := by
  have hlast : ∀ c ∈ q.getLast?, c ≠ ' ' := fun c hc => Text.ne_space (hq.spaced.getLast hc)
  rw [text_eq]
  refine .append (Text.noGapBefore_of_not_mem hf) (.append hg ?_ hlast) (by rintro c ⟨⟩; decide)
  exact .append (Text.noGapBefore_of_not_mem hl) (Text.noGapBefore_singleton _ _)
    (by rintro c ⟨⟩; decide)

/-- Nothing of the text is reminder text. -/
theorem body_text (hq : IsQuotable q) : (text q).body = text q := by
  have hp : '(' ∉ text q := by
    rw [text_eq]
    simp only [List.mem_append, not_or]
    exact ⟨⟨by decide, by decide⟩, hq.noParenthesis, by decide, by decide⟩
  have hd := noGapBefore_text hq (by decide) (by decide)
    (hq.body_eq ▸ Text.noGapBefore_period_body q)
  have hc := noGapBefore_text hq (by decide) (by decide)
    (hq.body_eq ▸ Text.noGapBefore_comma_body q)
  rw [Text.body, Text.stripReminders_eq_self hp (spaced_text hq) (by rintro c ⟨⟩; rfl) hd hc]

theorem getLast_sentence (q : Text) : (sentence q).getLast? = some 'n' := by
  rw [sentence, List.getLast?_append]
  rfl

theorem trim_sentence (q : Text) : (sentence q).trim = sentence q := by
  refine Text.trim_eq_self (by rintro c ⟨⟩; rfl) fun c hc => ?_
  obtain rfl : 'n' = c := Option.some.inj ((getLast_sentence q).symm.trans hc)
  rfl

theorem trimEnd_sentence {p : Char → Bool} (hp : p 'n' = false) (q : Text) :
    (sentence q).trimEnd p = sentence q := by
  have hd : Text.dropTrailing p (sentence q) = sentence q := Text.dropTrailing_eq_self fun c hc => by
    obtain rfl : 'n' = c := Option.some.inj ((getLast_sentence q).symm.trans hc)
    exact hp
  rw [Text.trimEnd, trim_sentence, hd, trim_sentence]

/-- The text is a single sentence, whatever marks are in the quotes. -/
theorem sentences_text (hq : IsQuotable q) : (text q).sentences = [sentence q] := by
  have hm : ∀ t : Text, (t.all fun c => c != '"' && c != '.' && c != '!') = true →
      ∀ c ∈ t, c ≠ '"' ∧ c ≠ '.' ∧ c ≠ '!' := by
    intro t ht c hc
    simpa [and_assoc] using List.all_eq_true.1 ht c hc
  have ht : text q = front ++ '"' :: (q ++ '"' :: (" this turn".toList ++ ['.'])) := by
    simp [text, sentence, clause]
  have hp : Text.sentencePieces false (text q) = [sentence q, []] := by
    rw [ht, Text.sentencePieces_append (hm _ (by rfl)), Text.sentencePieces, if_pos rfl,
      Bool.not_false, Text.sentencePieces_quoted hq.noQuote,
      Text.sentencePieces_period (hm _ (by rfl)) rfl]
    simp [Text.sentencePieces, sentence, clause]
  have hne : sentence q ≠ [] := by simp [sentence]
  rw [Text.sentences, hp, List.map_cons, trim_sentence]
  simp [hne, show Text.trim [] = [] from rfl]

/-- Nothing is said in front of the sentence. -/
theorem frame_sentence (q : Text) : Frame.ofSentence (sentence q) = ({}, sentence q) := by
  have hf : Frame.fronts.all (fun f => !admits (fun l => l.lowerPlain.head?.all
      (· == 'C'.toLower)) (fun _ => true) f.1) = true := by rfl
  refine Frame.ofSentence_eq_self (trim_sentence q) fun f hm => ?_
  exact match?_cons_eq_none (c := 'C') (by simpa using List.all_eq_true.1 hf f hm) _

/-! ### Its only clause -/

/-- The last word with a quote behind it. -/
def close : List Text → List Text
  | [] => []
  | [w] => [w ++ ['"']]
  | w :: ws => w :: close ws

theorem close_ne_nil {ws : List Text} (h : ws ≠ []) : close ws ≠ [] := by
  rcases ws with _ | ⟨w, _ | ⟨v, ws⟩⟩
  · exact absurd rfl h
  · simp [close]
  · simp [close]

theorem unwords_close {ws : List Text} (h : ws ≠ []) :
    Text.unwords (close ws) = Text.unwords ws ++ ['"'] := by
  induction ws with
  | nil => exact absurd rfl h
  | cons w ws ih =>
    rcases ws with _ | ⟨v, ws⟩
    · simp [close]
    · rw [close, Text.unwords_cons (close_ne_nil (by simp)), ih (by simp), Text.unwords_cons_cons,
        List.append_assoc]
      · rfl
      · simp

/-- The words of a quote that is open belong to the clause, and the last one closes the quote. -/
theorem cutWords_close {ws : List Text} (hne : ws ≠ []) (h : ∀ w ∈ ws, '"' ∉ w)
    (left rest : List Text) : Clause.cutWords left true (close ws ++ rest) =
      Clause.cutWords ((close ws).reverse ++ left) false rest := by
  induction ws generalizing left with
  | nil => exact absurd rfl hne
  | cons w ws ih =>
    have hw : List.count '"' w = 0 := List.count_eq_zero.2 (h w (by simp))
    rcases ws with _ | ⟨v, ws⟩
    · have ht : Clause.turnsQuote (w ++ ['"']) = true := by simp [Clause.turnsQuote, hw]
      rw [close, List.cons_append, Clause.cutWords_cons_of_quoted rfl, ht]
      rfl
    · have ht : Clause.turnsQuote w = false := by simp [Clause.turnsQuote, hw]
      rw [close, List.cons_append, Clause.cutWords_cons_of_quoted rfl, ht,
        show (true != false) = true from rfl, ih (by simp) fun u hu => h u (List.mem_cons_of_mem _ hu)]
      · simp
      · simp

/-- The quote as words. -/
def enclose (ws : List Text) : List Text := (close ws).modifyHead ('"' :: ·)

theorem unwords_enclose {ws : List Text} (h : ws ≠ []) :
    Text.unwords (enclose ws) = '"' :: (Text.unwords ws ++ ['"']) := by
  rw [← unwords_close h, enclose]
  obtain ⟨u, us, hu⟩ := List.exists_cons_of_ne_nil (close_ne_nil h)
  rw [hu, List.modifyHead_cons]
  cases us <;> simp

theorem cutWords_enclose {ws : List Text} (hne : ws ≠ []) (h : ∀ w ∈ ws, '"' ∉ w)
    (left rest : List Text) : Clause.cutWords left false (enclose ws ++ rest) =
      Clause.cutWords ((enclose ws).reverse ++ left) false rest := by
  obtain ⟨w, ws, rfl⟩ := List.exists_cons_of_ne_nil hne
  have hw : List.count '"' w = 0 := List.count_eq_zero.2 (h w (by simp))
  rcases ws with _ | ⟨v, ws⟩
  · -- a quote of one word turns nothing, and the word is no conjunction
    have hi : ∀ u ∈ ['"' :: (w ++ ['"'])], Clause.isInert u = true := by
      have hf : Text.fold ('"' :: (w ++ ['"'])) = '"' :: Text.fold (w ++ ['"']) := rfl
      simp [Clause.isInert, Clause.turnsQuote, hw, Clause.isConjunction, hf]
    exact Clause.cutWords_of_isInert hi left rest
  · have ht : Clause.turnsQuote ('"' :: w) = true := by simp [Clause.turnsQuote, hw]
    have hc := cutWords_close (List.cons_ne_nil v ws)
      (fun u hu => h u (List.mem_cons_of_mem _ hu)) (('"' :: w) :: left) rest
    change Clause.cutWords left false (('"' :: w) :: (close (v :: ws) ++ rest)) = _
    rw [Clause.cutWords_cons_of_quoted (by simp [ht]), ht]
    refine hc.trans ?_
    simp [enclose, close]

/-- The words of a quote are words. -/
theorem mem_enclose {ws : List Text} (h : ∀ w ∈ ws, w ≠ [] ∧ ∀ c ∈ w, Text.isBlank c = false) :
    ∀ w ∈ enclose ws, w ≠ [] ∧ ∀ c ∈ w, Text.isBlank c = false := by
  have hc : ∀ w ∈ close ws, w ≠ [] ∧ ∀ c ∈ w, Text.isBlank c = false := by
    induction ws with
    | nil => simp [close]
    | cons w ws ih =>
      obtain ⟨hw, hws⟩ := List.forall_mem_cons.1 h
      rcases ws with _ | ⟨v, ws⟩
      · simp only [close, List.mem_singleton, forall_eq]
        refine ⟨by simp, fun c hc => ?_⟩
        rcases List.mem_append.1 hc with hc | hc
        · exact hw.2 c hc
        · obtain rfl := List.mem_singleton.1 hc; rfl
      · exact List.forall_mem_cons.2 ⟨hw, ih hws⟩
  rw [enclose]
  rcases hcl : close ws with _ | ⟨u, us⟩
  · simp
  · rw [hcl] at hc
    obtain ⟨hu, hus⟩ := List.forall_mem_cons.1 hc
    refine List.forall_mem_cons.2 ⟨⟨by simp, ?_⟩, hus⟩
    exact List.forall_mem_cons.2 ⟨rfl, hu.2⟩

/-- The words in front of the quote. -/
def frontWords : List Text := Text.lexicon ["Chosen", "character", "gains"]

/-- The words behind the quote. -/
def backWords : List Text := Text.lexicon ["this", "turn"]

/-- A quote is its words. -/
theorem IsQuotable.unwords_words (hq : IsQuotable q) : Text.unwords q.words = q :=
  hq.spaced.squeeze_eq hq.head

theorem IsQuotable.words_ne_nil (hq : IsQuotable q) : q.words ≠ [] := fun h => by
  have hw := hq.unwords_words
  rw [h] at hw
  exact hq.ne_nil hw.symm

theorem enclose_ne_nil {ws : List Text} (h : ws ≠ []) : enclose ws ≠ [] := by
  obtain ⟨u, us, hu⟩ := List.exists_cons_of_ne_nil (close_ne_nil h)
  simp [enclose, hu]

/-- The sentence is its words. -/
theorem unwords_sentence (hq : IsQuotable q) :
    Text.unwords (frontWords ++ (enclose q.words ++ backWords)) = sentence q := by
  have hf : Text.unwords frontWords ++ [' '] = front := by rfl
  have hb : ' ' :: Text.unwords backWords = " this turn".toList := by rfl
  have hfront : frontWords ≠ [] := by simp [frontWords, Text.lexicon]
  have hback : backWords ≠ [] := by simp [backWords, Text.lexicon]
  have hne := enclose_ne_nil hq.words_ne_nil
  rw [Text.unwords_append hfront (List.append_ne_nil_of_left_ne_nil hne _),
    Text.unwords_append hne hback, unwords_enclose hq.words_ne_nil, hq.unwords_words, sentence,
    clause, ← hf, ← hb]
  simp only [List.append_assoc, List.cons_append, List.nil_append]

theorem words_sentence (hq : IsQuotable q) :
    (sentence q).words = frontWords ++ (enclose q.words ++ backWords) := by
  have hquote := mem_enclose fun w (h : w ∈ q.words) => Text.not_isBlank_of_mem_words h
  have hplain : ∀ ws : List Text, (ws.all fun w => !w.isEmpty && w.all fun c => !Text.isBlank c) →
      ∀ w ∈ ws, w ≠ [] ∧ ∀ c ∈ w, Text.isBlank c = false := fun ws h w hw => by
    simpa using List.all_eq_true.1 h w hw
  have hb : ∀ w ∈ frontWords ++ (enclose q.words ++ backWords),
      w ≠ [] ∧ ∀ c ∈ w, Text.isBlank c = false :=
    List.forall_mem_append.2 ⟨hplain frontWords (by rfl),
      List.forall_mem_append.2 ⟨hquote, hplain backWords (by rfl)⟩⟩
  rw [← unwords_sentence hq, Text.words_unwords hb]

/-- The sentence is a single clause, whatever words are in the quotes. -/
theorem ofSentence_sentence (hq : IsQuotable q) :
    Clause.ofSentence (sentence q) = [sentence q] := by
  have hnq : ∀ w ∈ q.words, '"' ∉ w := fun w hw hm =>
    hq.noQuote (hq.unwords_words ▸ Text.mem_unwords_of_mem hw hm)
  have hi : (frontWords ++ backWords).all Clause.isInert = true := by rfl
  rw [List.all_append, Bool.and_eq_true] at hi
  have hf := Clause.cutWords_of_isInert (List.all_eq_true.1 hi.1)
  have hl := Clause.cutWords_of_isInert (List.all_eq_true.1 hi.2)
    ((enclose q.words).reverse ++ (frontWords.reverse ++ [])) []
  rw [List.append_nil backWords] at hl
  have hj : Clause.join (frontWords ++ (enclose q.words ++ backWords)) = sentence q := by
    rw [Clause.join, unwords_sentence hq]
    exact trimEnd_sentence (by rfl) q
  rw [Clause.ofSentence, words_sentence hq, hf, cutWords_enclose hq.words_ne_nil hnq, hl,
    Clause.cutWords, if_neg (by simp [enclose_ne_nil hq.words_ne_nil])]
  have hne : sentence q ≠ [] := by simp [sentence]
  simp [hj, hne]

/-! ### Its duration -/

theorem getLast_clause (q : Text) : (clause q).getLast? = some '"' := by
  have hc : clause q = (front ++ '"' :: q) ++ ['"'] := by simp [clause]
  rw [hc, List.getLast?_concat]

theorem trim_clause (q : Text) : (clause q).trim = clause q := by
  refine Text.trim_eq_self (by rintro c ⟨⟩; rfl) fun c hc => ?_
  obtain rfl : '"' = c := Option.some.inj ((getLast_clause q).symm.trans hc)
  rfl

/-- The duration stands behind the quote, and what is in the quote tells none. -/
theorem takeDuration_sentence (q : Text) :
    Modifiers.takeDuration (sentence q) = (some .thisTurn, clause q) := by
  obtain ⟨m, hm⟩ : ∃ m, Modifiers.thisTurnEnd.matchAfter? (some '"') " this turn".toList = some m :=
    ⟨_, rfl⟩
  have hs : Modifiers.thisTurnEnd.search? (sentence q) = some (clause q, m) := by
    refine searchAfter?_append (fun a s has hne => ?_) (by rw [getLast_clause]; exact hm)
    have hl : s.getLast? = some '"' := by
      have := getLast_clause q
      rwa [← has, List.getLast?_append, List.getLast?_eq_some_getLast hne, Option.some_or,
        ← List.getLast?_eq_some_getLast hne] at this
    exact matchAfter?_eq_none_of_spares (x := '"') (by rfl) (by rfl)
      (List.mem_append_left _ (List.mem_of_mem_getLast? hl)) _
  simp only [Modifiers.takeDuration, Modifiers.endings, List.findSome?_cons, hs, Option.map_some]

theorem ofClause_sentence (q : Text) :
    Modifiers.ofClause (sentence q) = ({ duration := some .thisTurn }, clause q) := by
  have hc : (sentence q).contains '"' = true := by simp [sentence, clause]
  simp only [Modifiers.ofClause, Text.tidy, trimEnd_sentence (p := Text.isPause) (by rfl) q, hc,
    takeDuration_sentence, trim_clause, if_true]

end

end Grant

end CardText
