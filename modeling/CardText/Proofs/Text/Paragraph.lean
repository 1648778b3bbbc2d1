import CardText.Proofs.Text.Reminder
import CardText.Text.Paragraph

/-!
# Texts in paragraphs

What the paragraphs of a text keep of the text, and what they break.

* `Text.flatMap_ink_paragraphs`: paragraphs have all characters of their text, blanks apart;
* `Text.parted_collect`: inside parentheses a text without a body is only collected;
* `Text.isVoid_body_iff`: where no paragraph has a body, the whole text has one just if a
  parenthesis is left open at the end of a paragraph other than the last.
-/

namespace CardText

namespace Text

/-! ### Characters of paragraphs -/

theorem ink_trim (t : Text) : t.trim.ink = t.ink := by
  obtain ⟨a, b, ht, ha, hb⟩ := exists_trim t
  have hnil : ∀ {u : Text}, (∀ c ∈ u, isBlank c = true) → u.ink = [] :=
    fun hu => isVoid_iff_ink.1 (isVoid_iff.2 hu)
  conv => rhs; rw [ht]
  rw [ink_append, ink_append, hnil ha, hnil hb, List.nil_append, List.append_nil]

/-- Empty texts in a row of texts have no part in what the others are made of. -/
theorem flatMap_filter_isEmpty {α : Type} {f : Text → List α} (hf : f [] = []) (ts : List Text) :
    (ts.filter fun t => !t.isEmpty).flatMap f = ts.flatMap f := by
  induction ts with
  | nil => rfl
  | cons t ts ih => cases t <;> simp [ih, hf]

/-- Lines have all characters of their text, blanks apart. -/
theorem flatMap_ink_lines (t : Text) : t.lines.flatMap ink = t.ink := by
  have hcut : (cut (· == '\n') t).flatMap ink = ink ((cut (· == '\n') t).flatten) := by
    rw [ink, List.filter_flatten, List.flatMap_def]
    rfl
  rw [lines, flatMap_filter_isEmpty rfl, List.flatMap_map]
  simp only [ink_trim]
  rw [hcut, cut_flatten, ink, ink, List.filter_filter]
  refine List.filter_congr fun c _ => ?_
  by_cases hc : c = '\n'
  · rw [hc]
    rfl
  · simp [hc]

theorem flatMap_ink_joinLines (current : Text) (ls : List Text) :
    (joinLines current ls).flatMap ink = current.ink ++ ls.flatMap ink := by
  induction ls generalizing current with
  | nil => simp [joinLines]
  | cons l ls ih =>
    rw [joinLines]
    split
    · rw [ih, ink_append, ink_cons_of_blank rfl, List.append_assoc, List.flatMap_cons]
    · rw [List.flatMap_cons, ih, List.flatMap_cons]

theorem flatMap_ink_paragraphs (t : Text) : t.paragraphs.flatMap ink = t.ink := by
  rw [paragraphs, ← flatMap_ink_lines t]
  split
  · next h => rw [h]
  · next h => rw [h, flatMap_ink_joinLines, List.flatMap_cons]

theorem isVoid_eq_false_of_mem_joinLines {current p : Text} {ls : List Text}
    (hc : current.isVoid = false) (hl : ∀ l ∈ ls, l.isVoid = false)
    (hp : p ∈ joinLines current ls) : p.isVoid = false := by
  induction ls generalizing current with
  | nil => rwa [List.mem_singleton.1 hp]
  | cons l ls ih =>
    have hl' : ∀ l ∈ ls, l.isVoid = false := fun x hx => hl x (List.mem_cons_of_mem _ hx)
    rw [joinLines] at hp
    split at hp
    · exact ih (by rw [isVoid_append, hc, Bool.false_and]) hl' hp
    · rcases List.mem_cons.1 hp with rfl | hp
      · exact hc
      · exact ih (hl l (by simp)) hl' hp

/-- No paragraph is blank. -/
theorem isVoid_eq_false_of_mem_paragraphs {t p : Text} (hp : p ∈ t.paragraphs) :
    p.isVoid = false := by
  have hl : ∀ l ∈ t.lines, l.isVoid = false := by
    intro l hl
    obtain ⟨hm, hne⟩ := List.mem_filter.1 hl
    obtain ⟨x, -, rfl⟩ := List.mem_map.1 hm
    simpa [isVoid] using hne
  rw [paragraphs] at hp
  split at hp
  · cases hp
  · next l ls h =>
    rw [h] at hl
    exact isVoid_eq_false_of_mem_joinLines (hl l (by simp))
      (fun x hx => hl x (List.mem_cons_of_mem _ hx)) hp

/-! ### Texts without a body in a row -/

/-- Inside parentheses a text without a body is only collected: it closes none of them. -/
theorem parted_collect {d : Nat} {inner p : Text} (h : (parted d inner p).body = []) (k : Nat)
    (outer t : Text) : parted (k + 1 + d) outer (p ++ t) =
      parted (k + 1 + depth '(' ')' d p) (p.reverse ++ outer) t := by
  have hcons : ∀ (c : Char) (r o : Text), (c :: r).reverse ++ o = r.reverse ++ c :: o := by simp
  -- `p` is read twice, on its own and `k + 1` parentheses further inside; no body means that no
  -- character of it stands outside when it is read on its own
  induction d, inner, p using parted_induction generalizing outer with
  | done | unclosed => rfl
  | opening inner r ih =>
    rw [hcons, List.cons_append, Nat.add_zero, parted_succ_open]
    exact ih h _
  | outside inner c r hc ih =>
    rw [parted_zero_cons hc] at h
    exact absurd h (List.cons_ne_nil _ _)
  | closing inner r ih =>
    rw [hcons]
    exact ih ((Reminded.body_pushReminder _ _).symm.trans h) _
  | closingInner d inner r ih =>
    rw [hcons]
    exact ih h _
  | openingInner d inner r ih =>
    rw [parted_succ_open] at h
    change parted (k + 1 + d + 1) outer ('(' :: (r ++ t)) = _
    rw [hcons, parted_succ_open]
    exact ih h _
  | inside d inner c r ho hc ih =>
    rw [parted_succ_cons ho hc] at h
    change parted (k + 1 + d + 1) outer (c :: (r ++ t)) = _
    rw [hcons, depth_cons, nest_eq_self ho hc, parted_succ_cons ho hc]
    exact ih h _

/-- A parenthesis that a text without a body leaves open is open for what follows. -/
theorem exists_parted_open {d : Nat} {inner p : Text} (h : (parted d inner p).body = [])
    (ho : depth '(' ')' d p ≠ 0) (t : Text) :
    ∃ k, (parted d inner (p ++ t)).body = (parted (k + 1) [] t).body := by
  induction d, inner, p using parted_induction with
  | done => exact absurd rfl ho
  | unclosed d inner =>
    -- nothing is collected yet, for a parenthesis that is not closed hides nothing
    rw [List.reverse_eq_nil_iff.1 h]
    exact ⟨d, rfl⟩
  | opening inner r ih => exact ih h ho
  | outside inner c r hc ih =>
    rw [parted_zero_cons hc] at h
    exact absurd h (List.cons_ne_nil _ _)
  | closing inner r ih =>
    obtain ⟨k, hk⟩ := ih ((Reminded.body_pushReminder _ _).symm.trans h) ho
    exact ⟨k, (Reminded.body_pushReminder _ _).trans hk⟩
  | closingInner d inner r ih => exact ih h ho
  | openingInner d inner r ih =>
    rw [parted_succ_open] at h
    rw [List.cons_append, parted_succ_open]
    exact ih h ho
  | inside d inner c r ho' hc ih =>
    rw [parted_succ_cons ho' hc] at h
    rw [depth_cons, nest_eq_self ho' hc] at ho
    rw [List.cons_append, parted_succ_cons ho' hc]
    exact ih h ho

/-- Inside parentheses texts without a body are only collected. -/
theorem body_parted_flatten {ps : List Text} (h : ∀ p ∈ ps, (parted 0 [] p).body = []) (k : Nat)
    (outer : Text) : (parted (k + 1) outer ps.flatten).body = outer.reverse ++ ps.flatten := by
  induction ps generalizing k outer with
  | nil => simp [parted]
  | cons p ps ih =>
    have hp := parted_collect (h p (by simp)) k outer ps.flatten
    rw [Nat.add_zero, Nat.add_right_comm] at hp
    rw [List.flatten_cons, hp, ih fun x hx => h x (List.mem_cons_of_mem _ hx)]
    simp

/-- Texts without a body in a row have none together, unless one of them leaves a parenthesis open
for the next. -/
theorem body_parted_flatten_eq_nil_iff {ps : List Text} (h : ∀ p ∈ ps, (parted 0 [] p).body = [])
    (hne : ∀ p ∈ ps, p ≠ []) :
    (parted 0 [] ps.flatten).body = [] ↔ ∀ p ∈ ps.dropLast, IsClosed '(' ')' p := by
  induction ps with
  | nil => simp [parted]
  | cons p ps ih =>
    have hp := h p (by simp)
    have htail : ∀ x ∈ ps, (parted 0 [] x).body = [] := fun x hx => h x (List.mem_cons_of_mem _ hx)
    cases ps with
    | nil => simpa using hp
    | cons p' ps =>
      rw [List.dropLast_cons_cons, List.forall_mem_cons, List.flatten_cons]
      by_cases ho : IsClosed '(' ')' p
      · have ha : (parted 0 [] (p ++ (p' :: ps).flatten)).body =
            (parted 0 [] (p' :: ps).flatten).body := by
          rw [parted_append ho, Reminded.append, hp, List.nil_append]
        rw [ha, ih htail fun x hx => hne x (List.mem_cons_of_mem _ hx)]
        exact (and_iff_right ho).symm
      · -- all that follows stands behind an open parenthesis, which is never closed
        obtain ⟨k, hk⟩ := exists_parted_open hp ho (p' :: ps).flatten
        rw [hk, body_parted_flatten htail k []]
        have hn : p' ≠ [] := hne p' (by simp)
        simp [hn, ho]

/-- **Paragraphs without a body.**  Where no paragraph of a text has a body, the text has none
either, unless a paragraph in front of another one leaves a parenthesis open. -/
theorem isVoid_body_iff {t : Text} (h : ∀ p ∈ t.paragraphs, p.body.isVoid = true) :
    t.body.isVoid = true ↔ ∀ p ∈ t.paragraphs.dropLast, IsClosed '(' ')' p := by
  have hb : ∀ q ∈ t.paragraphs.map ink, (parted 0 [] q).body = [] := by
    intro q hq
    obtain ⟨p, hp, rfl⟩ := List.mem_map.1 hq
    rw [← ink_parted, ← ink_body, ← isVoid_iff_ink]
    exact h p hp
  have hne : ∀ q ∈ t.paragraphs.map ink, q ≠ [] := by
    intro q hq
    obtain ⟨p, hp, rfl⟩ := List.mem_map.1 hq
    rw [ne_eq, ← isVoid_iff_ink, isVoid_eq_false_of_mem_paragraphs hp]
    exact Bool.false_ne_true
  rw [isVoid_iff_ink, ink_body, ink_parted, ← flatMap_ink_paragraphs, List.flatMap_def,
    body_parted_flatten_eq_nil_iff hb hne, ← List.map_dropLast, List.forall_mem_map]
  exact forall₂_congr fun p _ => by rw [IsClosed, IsClosed, depth_ink]

end Text

end CardText
