import CardText.Proofs.Effect.Plain
import CardText.Proofs.Text.Word

/-!
# Bare clauses

What a clause says around its action is told by whole words: no template of a modifier matches in a
clause without them, whatever its other words are.

* `Clause.markers`: the words that join clauses, and those of modifiers;
* `Clause.IsBare`: the words of a clause without them;
* `Clause.IsBare.ofSentence_unwords`, `Clause.IsBare.frame_unwords`,
  `Clause.IsBare.ofClause_unwords`: such a clause is a sentence of its own, with nothing in front,
  and an action as it stands.
-/

namespace CardText

open Template

namespace Clause

/-- The words that join clauses, and words of which each modifier has one. -/
def markers : List Text := Text.lexicon ["and", "then", "may", "if", "for", "until", "turn"]

/-- Plain words without any of the markers, in either letter case. -/
structure IsBare (ws : List Text) : Prop where
  ne_nil : ws ≠ []
  plain : ∀ w ∈ ws, w ≠ [] ∧ ∀ c ∈ w, Text.isPlain c = true
  unmarked : ∀ w ∈ ws, w.fold ∉ markers

namespace IsBare

variable {ws : List Text} {m : Text}

theorem isSentence (h : IsBare ws) : (Text.unwords ws).IsSentence := .of_words h.ne_nil h.plain

theorem spaceless (h : IsBare ws) : ∀ w ∈ ws, ' ' ∉ w := fun w hw hm => by
  have := (h.plain w hw).2 ' ' hm
  cases this

/-- No word of the clause breaks off a run of characters. -/
theorem inline (h : IsBare ws) :
    ∀ w ∈ ws, w ≠ [] ∧ w.all (fun c => c != ' ' && isInline c) = true := by
  intro w hw
  refine ⟨(h.plain w hw).1, List.all_eq_true.2 fun c hc => ?_⟩
  have hsp : c ≠ ' ' := fun he => h.spaceless w hw (he ▸ hc)
  have hin := h.isSentence.inline (Text.mem_unwords_of_mem hw hc)
  simp [hsp, hin]

theorem comma_notMem (h : IsBare ws) : ',' ∉ Text.unwords ws := fun hm =>
  (h.isSentence.ne_marks hm).2.2.2.2 rfl

/-- No word of the clause is a marker. -/
theorem false_of_mem (h : IsBare ws) {v : Text} (hw : v ∈ ws) (hv : v.lowerPlain = m)
    (hm : m ∈ markers) : False := by
  have hp : markers.all (fun u => u.all fun c => decide (c.toNat < 128)) = true := by rfl
  have hc : ∀ c ∈ m, c.toNat < 128 := by simpa using List.all_eq_true.1 hp m hm
  exact h.unmarked v hw (by rwa [Text.fold_of_lowerPlain hv hc])

theorem not_mem_space {v : Text} (hv : v.lowerPlain = m) (hm : m ∈ markers) : ' ' ∉ v := by
  have hp : markers.all (fun u => !u.contains ' ') = true := by rfl
  exact Text.not_mem_of_lowerPlain rfl hv (by simpa using List.all_eq_true.1 hp m hm)

/-! ### The clause of a sentence -/

theorem isInert (h : IsBare ws) : ∀ w ∈ ws, Clause.isInert w = true := by
  intro w hw
  have hq : w.count '"' = 0 := List.count_eq_zero.2 fun hm => by
    have := (h.plain w hw).2 '"' hm
    cases this
  have hc : isConjunction w = false := by
    have := h.unmarked w hw
    rw [isConjunction, decide_eq_false_iff_not]
    rintro (he | he) <;> exact this (by rw [he]; decide)
  rw [Clause.isInert, turnsQuote, hq, hc]
  rfl

theorem ofSentence_unwords (h : IsBare ws) :
    Clause.ofSentence (Text.unwords ws) = [Text.unwords ws] := by
  refine Clause.ofSentence_unwords h.isSentence (fun w hw => ⟨(h.plain w hw).1, fun c hc => ?_⟩)
    h.isInert
  have := (h.plain w hw).2 c hc
  simp only [Text.isPlain, Bool.and_eq_true, Bool.not_eq_true'] at this
  exact this.1.1.1.1.1

/-! ### Dead ends -/

section DeadEnds

variable {σ : Type} {c d : Cursor σ} {t : Template σ} {ts : List (Template σ)} {w : Text}

/-- No comma stands in the clause. -/
theorem ends_comma (h : IsBare ws) (hc : c.rest <:+ Text.unwords ws) :
    ends (phrase (opt [","] :: ts)) c = ends (phrase ts) c := by
  have hl : ends (lit ",".toList) c = [] := by
    rw [List.eq_nil_iff_forall_not_mem]
    intro d hd
    obtain ⟨v, hv, hr, -⟩ := exists_of_mem_ends_lit hd
    obtain ⟨x, r, rfl, hx, -⟩ := List.map_eq_cons_iff.1 hv
    obtain rfl : x = ',' := Text.eq_of_toLower_eq hx rfl
    exact h.comma_notMem (hc.subset (by rw [hr]; simp))
  have ho : ends (opt [","]) c = [c] := by
    change ends (phrase [","]) c ++ [c] = [c]
    rw [ends_phrase_eq_nil hl, List.nil_append]
  change (ends (opt [","]) c).flatMap (ends (phrase ts)) = _
  rw [ho, List.flatMap_cons, List.flatMap_nil, List.append_nil]

/-- Behind a gap stands the start of a word, and at its start a space. -/
theorem opensWord_of_mem_ends_gap (h : IsBare ws) (hc : c.rest <:+ Text.unwords ws)
    (hd : d ∈ ends gap c) :
    Text.OpensWord (Text.unwords ws) d.rest ∧ ∃ r, c.rest = ' ' :: r := by
  obtain ⟨⟨x, r, hx, hr⟩, a, y, hy, ha⟩ := exists_of_mem_ends_gap hd
  obtain ⟨b, hb⟩ := hc
  have hspace : ∀ z ∈ c.rest, isGap z = true → z = ' ' := fun z hz =>
    h.isSentence.eq_space_of_isGap (hb ▸ List.mem_append_right _ hz)
  obtain rfl := hspace x (by rw [hr]; simp) hx
  obtain rfl := hspace y (by rw [ha]; simp) hy
  exact ⟨.inr ⟨b ++ a, by rw [← hb, ha, List.append_assoc]⟩, r, hr⟩

/-- What is a dead end at the start of every word is one behind a gap. -/
theorem ends_gap_eq_nil (h : IsBare ws) (hc : c.rest <:+ Text.unwords ws)
    (ht : ∀ e : Cursor σ, Text.OpensWord (Text.unwords ws) e.rest → ends (phrase ts) e = []) :
    ends (phrase (gap :: ts)) c = [] :=
  ends_phrase_cons_eq_nil fun e he => ht e (h.opensWord_of_mem_ends_gap hc he).1

/-- A marker with a space behind it is a dead end at the start of a word. -/
theorem ends_lit_eq_nil (h : IsBare ws) (ho : Text.OpensWord (Text.unwords ws) c.rest) {b : Text}
    (hw : w.lowerPlain = m ++ ' ' :: b) (hm : m ∈ markers) : ends (lit w) c = [] := by
  rw [List.eq_nil_iff_forall_not_mem]
  intro d hd
  obtain ⟨u, hu, hr, -⟩ := exists_of_mem_ends_lit hd
  obtain ⟨v, r, rfl, hv⟩ := Text.exists_of_lowerPlain_append (hu.trans hw)
  rw [hr, List.append_assoc, List.cons_append] at ho
  exact h.false_of_mem (Text.mem_of_opensWord h.spaceless ho (not_mem_space hv hm)) hv hm

/-- So is a marker with a gap behind it. -/
theorem ends_word_eq_nil (h : IsBare ws) (ho : Text.OpensWord (Text.unwords ws) c.rest)
    (hm : w.lowerPlain ∈ markers) : ends (phrase (lit w :: gap :: ts)) c = [] := by
  rw [List.eq_nil_iff_forall_not_mem]
  intro d hd
  obtain ⟨e, he, hd⟩ := mem_ends_phrase_cons.1 hd
  obtain ⟨f, hf, -⟩ := mem_ends_phrase_cons.1 hd
  obtain ⟨v, hv, hr, -⟩ := exists_of_mem_ends_lit he
  have hs : e.rest <:+ Text.unwords ws := (hr ▸ List.suffix_append v e.rest).trans ho.isSuffix
  obtain ⟨r, her⟩ := (h.opensWord_of_mem_ends_gap hs hf).2
  rw [hr, her] at ho
  exact h.false_of_mem (Text.mem_of_opensWord h.spaceless ho (not_mem_space hv hm)) hv hm

/-- What ends in "turn" and goes to the end of the clause matches nowhere. -/
theorem search?_turn (h : IsBare ws) (hs : t.stops = true) (hc : t.closes " turn".toList = true) :
    search? t (Text.unwords ws) = none := by
  refine search?_eq_none_of_isSuffix fun b s ⟨p, hp⟩ => ?_
  rw [matchAfter?_eq_none_iff, List.eq_nil_iff_forall_not_mem]
  intro d hd
  -- nothing is left behind "turn", so it is the last word of the clause
  obtain ⟨a, u, hr, hu⟩ := exists_of_closes hc hd
  rw [rest_eq_nil_of_stops hs hd, List.append_nil] at hr
  obtain ⟨x, v, rfl, hx, hv⟩ := List.map_eq_cons_iff.1 hu
  obtain rfl : x = ' ' := Text.eq_of_toLower_eq hx rfl
  change s = a ++ ' ' :: v at hr
  rw [hr, ← List.append_assoc] at hp
  have hm : "turn".toList ∈ markers := by decide
  exact h.false_of_mem (Text.mem_of_unwords_eq h.spaceless hp.symm (not_mem_space hv hm)) hv hm

end DeadEnds

/-! ### The front of a sentence -/

/-- "Then" does not stand in front. -/
theorem match?_thenFront (h : IsBare ws) : Frame.thenFront.match? (Text.unwords ws) = none := by
  -- without a comma, what stands behind the word is a gap
  have hc : ∀ e ∈ ends (lit "then".toList) (⟨none, Text.unwords ws, []⟩ : Cursor Unit),
      ends (phrase [opt [","], gap]) e = ends (phrase [gap]) e :=
    fun e he => h.ends_comma (rest_isSuffix_of_mem_ends he)
  have hw : ends (phrase [lit "then".toList, gap]) (⟨none, Text.unwords ws, []⟩ : Cursor Unit) = [] :=
    h.ends_word_eq_nil (.inl rfl) (by decide)
  rw [match?, matchAfter?_eq_none_iff]
  refine ends_phrase_cons_eq_nil fun e he => ?_
  rw [hc e he]
  exact List.flatMap_eq_nil_iff.1 hw e he

/-- Any other phrase at the front of a sentence has a comma behind it. -/
theorem frame_unwords (h : IsBare ws) :
    Frame.ofSentence (Text.unwords ws) = ({}, Text.unwords ws) := by
  have hadmits : (Frame.fronts.tail.all fun f =>
      !admits (fun l => !l.contains ',') (fun l => !l.contains ',') f.1) = true := by rfl
  have hcomma : ∀ w : Text, w.lowerPlain <:+: (Text.unwords ws).lowerPlain →
      (!w.contains ',') = true := by
    intro w hw
    simp only [Bool.not_eq_true', List.contains_eq_mem, decide_eq_false_iff_not]
    intro hm
    have hm : ',' ∈ w.lowerPlain := List.mem_map_of_mem (f := Char.toLower) hm
    obtain ⟨c, hc, he⟩ := List.mem_map.1 (hw.subset hm)
    obtain rfl : c = ',' := Text.eq_of_toLower_eq he rfl
    exact h.comma_notMem hc
  refine Frame.ofSentence_eq_self h.isSentence.trim_eq fun f hf => ?_
  rcases List.mem_cons.1 hf with rfl | hf
  · exact h.match?_thenFront
  · exact matchAfter?_eq_none (by simpa using List.all_eq_true.1 hadmits f hf)
      (fun w hw => hcomma w hw.isInfix) fun w s hs _ hw => hcomma w (isInfix_lowerPlain hw hs)

/-! ### The modifiers of the clause -/

theorem match?_mayClause (h : IsBare ws) :
    Modifiers.mayClause.match? (Text.unwords ws) = none := by
  rw [match?, matchAfter?_eq_none_iff]
  refine ends_phrase_cons_eq_nil fun e he => ?_
  have ho : Text.OpensWord (Text.unwords ws) e.rest := by
    rcases List.mem_append.1 he with he | he
    · obtain ⟨f, hf, he⟩ := mem_ends_phrase_cons.1 he
      obtain ⟨g, hg, he⟩ := mem_ends_phrase_cons.1 he
      obtain rfl := List.mem_singleton.1 he
      exact (h.opensWord_of_mem_ends_gap (rest_isSuffix_of_mem_ends hf) hg).1
    · obtain rfl := List.mem_singleton.1 he
      exact .inl rfl
  exact h.ends_word_eq_nil ho (by decide)

theorem match?_ifClause (h : IsBare ws) :
    Modifiers.ifClause.match? (Text.unwords ws) = none := by
  rw [match?, matchAfter?_eq_none_iff]
  refine ends_phrase_cons_eq_nil fun c hc => ?_
  have hc := rest_isSuffix_of_mem_ends hc
  rw [h.ends_comma hc]
  exact h.ends_gap_eq_nil hc fun e ho =>
    ends_phrase_eq_nil (h.ends_lit_eq_nil ho (m := "if".toList) (b := []) rfl (by decide))

theorem match?_forEachClause (h : IsBare ws) :
    Modifiers.forEachClause.match? (Text.unwords ws) = none := by
  rw [match?, matchAfter?_eq_none_iff]
  refine ends_phrase_cons_eq_nil fun c hc => ?_
  exact h.ends_gap_eq_nil (rest_isSuffix_of_mem_ends hc) fun e ho => ends_phrase_eq_nil
    (h.ends_lit_eq_nil ho (m := "for".toList) (b := "each ".toList) rfl (by decide))

theorem search?_otherEnd (h : IsBare ws) :
    Modifiers.otherEnd.search? (Text.unwords ws) = none := by
  refine search?_eq_none_of_isSuffix fun b s hs => ?_
  rw [matchAfter?_eq_none_iff, Modifiers.otherEnd, h.ends_comma (c := ⟨b, s, []⟩) hs]
  exact h.ends_gap_eq_nil hs fun e ho => ends_phrase_eq_nil (ends_slot_eq_nil (ends_phrase_eq_nil
    (h.ends_lit_eq_nil ho (m := "until".toList) (b := []) rfl (by decide))))

/-- The action of the clause is the clause itself. -/
theorem ofClause_unwords (h : IsBare ws) :
    Modifiers.ofClause (Text.unwords ws) = ({}, Text.unwords ws) := by
  have hs := h.isSentence
  refine Modifiers.ofClause_eq (hs.trimEnd_eq fun _ h => h) (fun hq => (hs.ne_marks hq).2.1 rfl) ?_
    hs.trim_eq ?_ h.match?_ifClause h.match?_forEachClause
  · rw [Modifiers.takeMay, h.match?_mayClause]
  · simp only [Modifiers.endings, List.forall_mem_cons]
    exact ⟨h.search?_turn rfl rfl, h.search?_turn rfl rfl, h.search?_turn rfl rfl,
      h.search?_otherEnd, by simp⟩

end IsBare

end Clause

end CardText
