import Mathlib.Tactic.SplitIfs
import CardText.Selector.Phrase

/-!
# What a walk keeps

A word of a phrase changes little in what has been read so far. What all these changes keep is kept
by the whole phrase.

* `Walk.Closed`: a property that every change keeps;
* `Walk.Closed.take`: every word keeps it, one case for each role;
* `Walk.Closed.run`: so do all words of a phrase.
-/

namespace CardText

theorem Text.exists_key_of_lookup? {α : Type} {table : List (String × α)} {t : Text} {a : α}
    (h : lookup? table t = some a) : ∃ e ∈ table, e.1.toList = t ∧ e.2 = a := by
  obtain ⟨e, he, rfl⟩ := Option.map_eq_some_iff.1 h
  exact ⟨e, List.mem_of_find?_eq_some he, by simpa using List.find?_some he, rfl⟩

theorem Text.exists_of_lookup? {α : Type} {table : List (String × α)} {t : Text} {a : α}
    (h : lookup? table t = some a) : ∃ e ∈ table, e.2 = a := by
  obtain ⟨e, he, -, ha⟩ := exists_key_of_lookup? h
  exact ⟨e, he, ha⟩

namespace Selector.Walk

/-! ### The end of a classification -/

theorem flush_eq_self {w : Walk} (hw : w.trait = []) : w.flush = w := by simp [Walk.flush, hw]

theorem trait_flush (w : Walk) : w.flush.trait = [] := by
  rw [Walk.flush]
  split
  · next h => exact List.isEmpty_iff.1 h
  · rfl

/-- A word that is no part of a classification ends the one that is being read. -/
theorem run_flush {word : Text} {rest : List Text} {w : Walk} (ht : isTraitWord word = false) :
    Walk.run (word :: rest) w = Walk.run (word :: rest) w.flush := by
  rw [Walk.run, Walk.run, if_neg (by simp [ht]), if_neg (by simp [ht]),
    flush_eq_self (trait_flush w)]

/-! ### What every change keeps -/

/-- The property `P` is kept by every change that words can make: a quantifier, but for a
back-reference; whose objects are meant and in what state; a kind, but for players; a classification;
and words that are kept as printed, all of them with the property `Q`. -/
structure Closed (Q : Text → Prop) (P : Walk → Prop) : Prop where
  quantifier : ∀ {w} q, q ≠ .previous → P w → P { w with quantifier := some q }
  plural : ∀ {w} b, P w → P { w with plural := b }
  trait : ∀ {w} words, P w → P { w with trait := words }
  filter : ∀ {w} owner excludeSelf damaged exerted, P w →
    P { w with selector := { w.selector with owner, excludeSelf, damaged, exerted } }
  kind : ∀ {w} k, k ≠ .player → P w → P { w with selector := w.selector.withKind k }
  classification : ∀ {w} name, P w → P { w with selector := w.selector.withTrait name }
  keep : ∀ {w word}, Q word → P w → P (w.keep word)

/-- No word of the vocabulary refers back, and none is a noun for players. -/
theorem role_spec {word : Text} {r : Role} (h : Text.lookup? roles word = some r) :
    r ≠ .every .previous ∧ ∀ plural, r ≠ .noun .player plural := by
  have hall : ∀ e ∈ roles, e.2 ≠ .every .previous ∧ ∀ plural, e.2 ≠ .noun .player plural := by
    decide
  obtain ⟨e, he, rfl⟩ := Text.exists_of_lookup? h
  exact hall e he

namespace Closed

variable {Q : Text → Prop} {P : Walk → Prop} {w : Walk}

theorem flush (hc : Closed Q P) (h : P w) : P w.flush := by
  rw [Walk.flush]
  split_ifs
  · exact h
  · exact hc.trait [] (hc.classification _ h)

theorem orQuantifier (hc : Closed Q P) (h : P w) {q : Quantifier} (hq : q ≠ .previous) :
    P (w.orQuantifier q) := by
  rw [Walk.orQuantifier]
  cases hw : w.quantifier with
  | none => exact hc.quantifier q hq h
  | some p =>
    rw [Option.some_or, ← hw]
    exact h

theorem choose (hc : Closed Q P) (h : P w) : P w.choose := by
  rw [Walk.choose]
  split
  · exact h
  · exact h
  · exact hc.quantifier _ (by decide) h

theorem other (hc : Closed Q P) (h : P w) {word : Text} (hw : Q word) : P (w.other word) := by
  rw [Walk.other]
  split
  · exact hc.quantifier _ (by simp) h
  · split_ifs
    · exact h
    · exact hc.keep hw h

theorem noun (hc : Closed Q P) (h : P w) {k : ObjectKind} (hk : k ≠ .player) (plural : Bool) :
    P (w.noun k plural) :=
  hc.plural _ (hc.kind k hk h)

/-- One case for each role of a word. -/
theorem take (hc : Closed Q P) (h : P w) {word : Text} (hw : Q word) (next : Option Text) {r : Role}
    (hr : r ≠ .every .previous ∧ ∀ plural, r ≠ .noun .player plural) :
    P (w.take word next r) := by
  cases r with
  | chosen => exact hc.choose h
  | every q => exact hc.quantifier q (by simpa using hr.1) h
  | another => exact hc.orQuantifier (hc.filter _ true _ _ h) (by decide)
  | other => exact hc.filter _ true _ _ h
  | owned o => exact hc.filter o _ _ _ h
  | single => exact hc.orQuantifier h (by decide)
  | damaged b => exact hc.filter _ _ (some b) _ h
  | exerted b => exact hc.filter _ _ _ (some b) h
  | noun k plural => exact hc.noun h (fun hk => hr.2 plural (hk ▸ rfl)) plural
  | song plural => exact hc.classification _ (hc.noun h (by decide) plural)
  | card plural =>
    rw [Walk.take]
    simp only
    split_ifs
    · exact hc.kind .card (by decide) (hc.plural (w.plural || plural) h)
    · exact hc.plural _ h
  | up => exact hc.keep hw h
  | of => exact hc.other h hw

/-- The walk goes over the words as it reads them: "up to n" and "of yours" in one step. -/
theorem run (hc : Closed Q P) (h : P w) {words : List Text} (hw : ∀ word ∈ words, Q word) :
    P (w.run words) := by
  fun_induction Walk.run words w with
  | case1 w => exact hc.flush h
  | case2 word rest w _ ih => exact ih (hc.trait _ h) (List.forall_mem_cons.1 hw).2
  | case3 word rest w _ v _ ih =>
    obtain ⟨hword, hrest⟩ := List.forall_mem_cons.1 hw
    exact ih (hc.other (hc.flush h) hword) hrest
  | case4 word w _ v _ link number rest n _ ih =>
    simp only [List.forall_mem_cons] at hw
    exact ih (hc.quantifier _ (by simp) (hc.flush h)) hw.2.2.2
  | case5 word w _ v _ link number rest _ ih =>
    obtain ⟨hword, hrest⟩ := List.forall_mem_cons.1 hw
    exact ih (hc.keep hword (hc.flush h)) hrest
  | case6 word w _ v _ rest _ ih =>
    obtain ⟨hword, hrest⟩ := List.forall_mem_cons.1 hw
    exact ih (hc.keep hword (hc.flush h)) hrest
  | case7 word w _ v _ next rest _ ih =>
    simp only [List.forall_mem_cons] at hw
    exact ih (hc.filter .you _ _ _ (hc.flush h)) hw.2.2
  | case8 word w _ v _ next rest _ ih =>
    obtain ⟨hword, hrest⟩ := List.forall_mem_cons.1 hw
    exact ih (hc.other (hc.flush h) hword) hrest
  | case9 word w _ v _ ih =>
    obtain ⟨hword, hrest⟩ := List.forall_mem_cons.1 hw
    exact ih (hc.other (hc.flush h) hword) hrest
  | case10 word rest w _ v r _ _ hr ih =>
    obtain ⟨hword, hrest⟩ := List.forall_mem_cons.1 hw
    exact ih (hc.take (hc.flush h) hword rest.head? (role_spec hr)) hrest

end Closed

end Selector.Walk

end CardText
