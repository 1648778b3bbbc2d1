import CardText.Proofs.Text.Paragraph

/-!
# Two dashes

A cost is divided from its effect by a dash, and some prints have an en dash there.  The plain form
of both is the same, but lines are joined before the plain form is taken, and then only the dash
leaves a line open.

* `Text.unifyDashes`: the text with the dash in the place of each en dash;
* `Text.normalize_unifyDashes`: its plain form is that of the text;
* `Text.paragraphs_unifyDashes`: in its paragraphs, those of the text that end in an en dash are
  joined with the next one (`Text.joinDashed`);
* `Text.isVoid_body_of_getLast`, `Text.normalize_append_ne`: a paragraph that ends in an en dash has
  a body, and is another one when it is joined with the next.
-/

namespace CardText

namespace Text

/-- The shorter dash, which has the dash for its plain form. -/
def enDash : Char := '–'

/-- The dash for an en dash; any other character stays. -/
def unifyDash (c : Char) : Char := if c = enDash then dash else c

/-- `t` with the dash in the place of each en dash. -/
def unifyDashes (t : Text) : Text := t.map unifyDash

/-! ### Characters one by one -/

section Map

variable {f : Char → Char} {p : Char → Bool}

theorem dropAround_map (hf : ∀ c, p (f c) = p c) (t : Text) :
    dropAround p (t.map f) = (dropAround p t).map f := by
  have hp : p ∘ f = p := funext hf
  simp only [dropAround, dropTrailing, dropLeading, List.dropWhile_map, ← List.map_reverse, hp]

theorem cut_map (hf : ∀ c, p (f c) = p c) (t : Text) :
    cut p (t.map f) = (cut p t).map (List.map f) := by
  induction t with
  | nil => rfl
  | cons c t ih =>
    obtain ⟨w, ws, h⟩ := List.exists_cons_of_ne_nil (cut_ne_nil p t)
    rw [List.map_cons, cut, cut, hf, ih, h]
    split_ifs <;> rfl

/-- Lines change with their characters, where blanks and line ends stay such. -/
theorem lines_map (hb : ∀ c, isBlank (f c) = isBlank c) (hn : ∀ c, (f c == '\n') = (c == '\n'))
    (t : Text) : lines (t.map f) = t.lines.map (List.map f) := by
  have htrim : trim ∘ List.map f = List.map f ∘ trim := funext (dropAround_map hb)
  rw [lines, lines, cut_map (p := (· == '\n')) hn, List.map_map, htrim, ← List.map_map,
    List.filter_map]
  refine congrArg (List.map (List.map f)) (List.filter_congr fun l _ => ?_)
  cases l <;> rfl

end Map

/-- What is the same for both dashes does not tell an en dash from the dash that takes its place. -/
theorem apply_unifyDash {α : Type} {f : Char → α} (h : f dash = f enDash) (c : Char) :
    f (unifyDash c) = f c := by
  rw [unifyDash]
  split_ifs with hc
  · rw [hc, h]
  · rfl

theorem lines_unifyDashes (t : Text) : t.unifyDashes.lines = t.lines.map unifyDashes :=
  lines_map (apply_unifyDash (by decide)) (apply_unifyDash (f := (· == '\n')) (by decide)) t

/-- Both dashes have one plain form. -/
theorem normalize_unifyDashes (t : Text) : t.unifyDashes.normalize = t.normalize := by
  have hplain : ∀ c, plainForm (unifyDash c) = plainForm c := apply_unifyDash (by decide)
  rw [normalize, normalize, unifyDashes, List.flatMap_map]
  simp only [hplain]

/-! ### Paragraphs -/

/-- With the dash for the en dash a text goes on in the next line if it did before, or if it ended
in an en dash. -/
theorem continues_unifyDashes (s t : Text) : continues s.unifyDashes t.unifyDashes =
    (continues s t || s.getLast? == some enDash) := by
  have hlast : isOpenEnded s.unifyDashes = (isOpenEnded s || s.getLast? == some enDash) := by
    rw [isOpenEnded, isOpenEnded, unifyDashes, List.getLast?_map]
    cases s.getLast? with
    | none => rfl
    | some c =>
      by_cases h : c = enDash
      · rw [h]
        decide
      · simp [unifyDash, h]
  rw [continues, continues, hlast, Bool.or_right_comm]
  congr 2
  cases t with
  | nil => rfl
  | cons c t => exact apply_unifyDash (f := isLower) (by decide) c

/-- Paragraphs that end in an en dash joined with the next one. -/
def joinDashed : List Text → List Text
  | [] => []
  | p :: ps =>
    if p.getLast? = some enDash ∧ ps ≠ [] then (joinDashed ps).modifyHead (p ++ ' ' :: ·)
    else p :: joinDashed ps

theorem joinDashed_cons {p : Text} {ps : List Text} (h : p.getLast? = some enDash)
    (hps : ps ≠ []) : joinDashed (p :: ps) = (joinDashed ps).modifyHead (p ++ ' ' :: ·) :=
  if_pos ⟨h, hps⟩

theorem joinDashed_cons_of_ne {p : Text} (h : p.getLast? ≠ some enDash) (ps : List Text) :
    joinDashed (p :: ps) = p :: joinDashed ps :=
  if_neg fun hc => h hc.1

theorem joinLines_ne_nil (current : Text) (ls : List Text) : joinLines current ls ≠ [] := by
  fun_induction joinLines current ls with
  | case1 => exact List.cons_ne_nil _ _
  | case2 _ _ _ _ ih => exact ih
  | case3 => exact List.cons_ne_nil _ _

/-- What stands in front of a paragraph on its line stays there. -/
theorem joinLines_append (s : Text) {t : Text} (ht : t ≠ []) (ls : List Text) :
    joinLines (s ++ t) ls = (joinLines t ls).modifyHead (s ++ ·) := by
  induction ls generalizing t with
  | nil => rfl
  | cons l ls ih =>
    have hlast : (s ++ t).getLast? = t.getLast? := by
      rw [List.getLast?_append, Option.or_of_isSome (by simpa using ht)]
    rw [joinLines, joinLines, continues, continues, isOpenEnded, isOpenEnded, hlast]
    split_ifs
    · rw [List.append_assoc]
      exact ih (by simp)
    · rfl

theorem unifyDashes_append_space (s t : Text) :
    unifyDashes (s ++ ' ' :: t) = s.unifyDashes ++ ' ' :: t.unifyDashes := by
  rw [unifyDashes, List.map_append, List.map_cons]
  rfl

theorem joinLines_unifyDashes (current : Text) {ls : List Text} (hls : ∀ l ∈ ls, l ≠ []) :
    joinLines current.unifyDashes (ls.map unifyDashes) =
      (joinDashed (joinLines current ls)).map unifyDashes := by
  induction ls generalizing current with
  | nil => simp [joinLines, joinDashed]
  | cons l ls ih =>
    have ih := fun s => ih s fun x hx => hls x (List.mem_cons_of_mem _ hx)
    rw [List.map_cons, joinLines, joinLines, continues_unifyDashes]
    by_cases hc : continues current l = true
    · rw [if_pos hc, if_pos (by rw [hc]; rfl), ← unifyDashes_append_space, ih]
    rw [if_neg hc]
    by_cases hd : current.getLast? = some enDash
    · -- the next line goes on only now, and with it all of what had been a paragraph of its own
      have hl : l.unifyDashes ≠ [] := by simpa [unifyDashes] using hls l (by simp)
      rw [if_pos (by simp [hd]), joinDashed_cons hd (joinLines_ne_nil l ls),
        ← List.singleton_append, ← List.append_assoc, joinLines_append _ hl, ih]
      cases joinDashed (joinLines l ls) with
      | nil => rfl
      | cons p ps => simp [unifyDashes_append_space]
    · rw [if_neg (by simp [hc, hd]), joinDashed_cons_of_ne hd, List.map_cons, ih]

/-- The paragraphs with the dash for the en dash: those of the text, joined where one ends in an en
dash. -/
theorem paragraphs_unifyDashes (t : Text) :
    t.unifyDashes.paragraphs = (joinDashed t.paragraphs).map unifyDashes := by
  have hne : ∀ l ∈ t.lines, l ≠ [] := fun l hl => by simpa using (List.mem_filter.1 hl).2
  rw [paragraphs, paragraphs, lines_unifyDashes]
  cases h : t.lines with
  | nil => rfl
  | cons l ls =>
    rw [h] at hne
    exact joinLines_unifyDashes l fun x hx => hne x (List.mem_cons_of_mem _ hx)

theorem isVoid_eq_false_of_mem_joinDashed {ps : List Text} (h : ∀ p ∈ ps, p.isVoid = false)
    {p : Text} (hp : p ∈ joinDashed ps) : p.isVoid = false := by
  induction ps generalizing p with
  | nil => cases hp
  | cons q ps ih =>
    have hq := h q (by simp)
    have ih := fun {p : Text} => ih (p := p) fun x hx => h x (List.mem_cons_of_mem _ hx)
    rw [joinDashed] at hp
    split at hp
    · cases hj : joinDashed ps with
      | nil =>
        rw [hj] at hp
        cases hp
      | cons r rs =>
        rw [hj, List.modifyHead_cons, List.mem_cons] at hp
        rcases hp with rfl | hp
        · rw [isVoid_append, hq, Bool.false_and]
        · exact ih (hj ▸ List.mem_cons_of_mem _ hp)
    · rcases List.mem_cons.1 hp with rfl | hp
      · exact hq
      · exact ih hp

/-! ### Paragraphs that end in an en dash -/

/-- A last character that is no parenthesis stands outside of them: those that are open in front of
it are never closed. -/
theorem mem_body_parted_append {c : Char} (ho : c ≠ '(') (hc : c ≠ ')') (d : Nat) (inner s : Text) :
    c ∈ (parted d inner (s ++ [c])).body := by
  induction d, inner, s using parted_induction with
  | done inner => 
    rw [List.nil_append, parted_zero_cons ho]
    exact List.mem_cons_self
  | unclosed d inner =>
    rw [List.nil_append, parted_succ_cons ho hc]
    simp [parted]
  | opening inner r ih => exact ih
  | outside inner x r hx ih =>
    rw [List.cons_append, parted_zero_cons hx]
    exact List.mem_cons_of_mem _ ih
  | closing inner r ih =>
    rw [List.cons_append, parted, Reminded.body_pushReminder]
    exact ih
  | closingInner d inner r ih => exact ih
  | openingInner d inner r ih =>
    rw [List.cons_append, parted_succ_open]
    exact ih
  | inside d inner x r hxo hxc ih =>
    rw [List.cons_append, parted_succ_cons hxo hxc]
    exact ih

theorem isVoid_body_of_getLast {p : Text} (h : p.getLast? = some enDash) :
    p.body.isVoid = false := by
  obtain ⟨s, rfl⟩ := List.getLast?_eq_some_iff.1 h
  have hm : enDash ∈ (body (s ++ [enDash])).ink := by
    rw [ink_body]
    exact List.mem_filter.2 ⟨mem_body_parted_append (by decide) (by decide) 0 [] s, by decide⟩
  exact isVoid_eq_false (List.mem_filter.1 hm).1 (by decide)

/-- More text that is not blank makes another plain form. -/
theorem normalize_append_ne (p : Text) {q : Text} (h : q.isVoid = false) :
    (p ++ ' ' :: q).normalize ≠ p.normalize := by
  have hlen : ∀ t : Text, t.normalize.ink.length = (ink (t.flatMap plainForm)).length := fun t => by
    rw [ink_normalize, ← List.length_map Char.toUpper, map_toUpper_capitalizeFrom, List.length_map]
  have hq : ink (q.flatMap plainForm) ≠ [] := by
    rw [ne_eq, ink_flatMap_plainForm_eq_nil, ← isVoid_iff_ink, h]
    exact Bool.false_ne_true
  intro he
  have heq := congrArg (List.length ∘ ink) he
  simp only [Function.comp_apply, hlen, List.flatMap_append, List.flatMap_cons, ink_append,
    List.length_append] at heq
  have := List.length_pos_iff.2 hq
  omega

end Text

end CardText
