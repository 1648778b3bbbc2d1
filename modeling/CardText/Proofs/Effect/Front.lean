import CardText.Proofs.Effect.Plain

/-!
# The front of a sentence

Phrases are taken off the front of a sentence one by one, and each of them makes it shorter, so that
at some point none is left.

* `Frame.Peels`: the phrases that are taken off, one after the other, and what is left;
* `Frame.front?_isSuffix`, `Frame.front?_eq_none_iff`: one phrase is taken off the text, or none of
  them stands there;
* `Frame.exists_peels_take`: taking phrases off comes to an end, and says what each of them says;
* `Frame.ofSentence_settles`: what is left of a sentence is its end, with no phrase in front of it.
-/

namespace CardText

namespace Frame

open Template

/-! ### One phrase -/

/-- No phrase is taken off just if none of the templates matches. -/
theorem front?_eq_none_iff {t : Text} :
    front? t = none ↔ ∀ f ∈ fronts, f.1.isMatch t = false := by
  rw [front?, List.findSome?_eq_none_iff]
  refine forall₂_congr fun f _ => ?_
  rw [Option.map_eq_none_iff, isMatch, Option.isSome_eq_false_iff, Option.isNone_iff_eq_none]

/-- Without its phrase a text is its own end, and begins with no blank. -/
theorem front?_isSuffix {t u : Text} {f : Front} (h : front? t = some (f, u)) :
    u <:+ t ∧ ∀ c ∈ u.head?, Text.isBlank c = false := by
  obtain ⟨e, -, he⟩ := List.exists_of_findSome?_eq_some h
  obtain ⟨m, hm, he⟩ := Option.map_eq_some_iff.1 he
  obtain ⟨-, rfl⟩ := Prod.mk.inj he
  exact ⟨(Text.dropLeading_isSuffix _ _).trans (rest_isSuffix_of_match? hm),
    fun _ => Text.head_dropLeading⟩

/-! ### One phrase after the other -/

/-- The phrases `fs` are taken off `t` one after the other, each of which leaves a shorter text. No
phrase stands in front of what is left at the end. -/
inductive Peels : Text → List Front → Text → Prop
  | done {t : Text} (h : front? t = none) : Peels t [] t
  | next {t u rest : Text} {f : Front} {fs : List Front} (h : front? t = some (f, u))
      (hlt : u.length < t.length) (hs : Peels u fs rest) : Peels t (f :: fs) rest

namespace Peels

variable {t rest : Text} {fs : List Front}

theorem front?_eq_none (h : Peels t fs rest) : front? rest = none := by
  induction h with
  | done h => exact h
  | next _ _ _ ih => exact ih

theorem isSuffix (h : Peels t fs rest) : rest <:+ t := by
  induction h with
  | done => exact List.suffix_rfl
  | next h _ _ ih => exact ih.trans (front?_isSuffix h).1

/-- Which phrases they are depends on the text alone. -/
theorem eq (h : Peels t fs rest) {fs' : List Front} {rest' : Text} (h' : Peels t fs' rest') :
    fs = fs' := by
  induction h generalizing fs' with
  | done h =>
    cases h' with
    | done => rfl
    | next h' => cases h.symm.trans h'
  | next h _ _ ih =>
    cases h' with
    | done h' => cases h.symm.trans h'
    | next h' _ hs' =>
      cases h.symm.trans h'
      rw [ih hs']

/-- There are not more phrases than characters. -/
theorem length_le (h : Peels t fs rest) : fs.length + rest.length ≤ t.length := by
  induction h with
  | done => simp
  | next _ hlt _ ih =>
    rw [List.length_cons]
    omega

/-- What is left begins with no blank, if the text does not. -/
theorem head (h : Peels t fs rest) (ht : ∀ c ∈ t.head?, Text.isBlank c = false) :
    ∀ c ∈ rest.head?, Text.isBlank c = false := by
  induction h with
  | done => exact ht
  | next h _ _ ih => exact ih (front?_isSuffix h).2

/-- No blank stands around what is left of a trimmed text. -/
theorem trim_eq (h : Peels t fs rest) (ht : t.trim = t) : rest.trim = rest := by
  refine Text.trim_eq_self (h.head fun c hc => Text.head_trim (ht ▸ hc)) fun c hc => ?_
  -- the last character of what is left is that of the text
  obtain ⟨s, hs⟩ := h.isSuffix
  refine Text.getLast_trim (t := t) ?_
  rw [ht, ← hs, List.getLast?_append, Option.mem_def.1 hc, Option.some_or]
  rfl

end Peels

/-- Taking phrases off a text comes to an end, whatever the text is. -/
theorem exists_peels_take (frame : Frame) (t : Text) :
    ∃ fs, Peels t fs (take frame t).2 ∧ (take frame t).1 = fs.foldl add frame := by
  fun_induction take frame t with
  | case1 frame t h => exact ⟨[], .done h, rfl⟩
  | case2 frame t f rest h hlt ih =>
    obtain ⟨fs, hs, ha⟩ := ih
    exact ⟨f :: fs, .next h hlt hs, ha⟩

/-! ### Sentences -/

/-- **What is left of a sentence has no phrase in front of it.**  The phrases of its frame are taken
off one after the other, and each time the text gets shorter, so that there are not more of them
than characters.  What is left is the end of the trimmed sentence; none of the templates matches it,
and nothing more is taken off it. -/
theorem ofSentence_settles (t : Text) :
    (∃ fs, Peels t.trim fs (ofSentence t).2 ∧ (ofSentence t).1 = fs.foldl add {} ∧
        fs.length + (ofSentence t).2.length ≤ t.trim.length) ∧
      (ofSentence t).2 <:+ t.trim ∧
      (∀ f ∈ fronts, f.1.isMatch (ofSentence t).2 = false) ∧
      ofSentence (ofSentence t).2 = ({}, (ofSentence t).2) := by
  obtain ⟨fs, hs, ha⟩ := exists_peels_take {} t.trim
  have hnone : ∀ f ∈ fronts, f.1.isMatch (ofSentence t).2 = false :=
    front?_eq_none_iff.1 hs.front?_eq_none
  refine ⟨⟨fs, hs, ha, hs.length_le⟩, hs.isSuffix, hnone, ?_⟩
  refine ofSentence_eq_self (hs.trim_eq (Text.trim_trim t)) fun f hf => ?_
  simpa [isMatch] using hnone f hf

/-- Three phrases, with a wide blank behind the last of them. The first condition is that of the
frame. -/
theorem ofSentence_settles_threeFronts :
    let t : Text := " Then, if you do, during your turn,\u3000draw a card. ".toList
    let rest : Text := "draw a card.".toList
    let fs : List Front := [.nothing, .condition (.ofPhrase "you do".toList),
      .condition (.ofPhrase "during your turn".toList)]
    ofSentence t = ({ condition := some (.ofPhrase "you do".toList) }, rest) ∧
      Peels t.trim fs rest ∧ fs.length + rest.length ≤ t.trim.length ∧ rest <:+ t.trim ∧
      (∀ f ∈ fronts, f.1.isMatch rest = false) ∧ ofSentence rest = ({}, rest) := by
  intro t rest fs
  have hs : ofSentence t = ({ condition := some (.ofPhrase "you do".toList) }, rest) := by
    decide +kernel
  have hp : Peels t.trim fs rest :=
    .next (u := "if you do, during your turn,\u3000draw a card.".toList) (by decide +kernel)
      (by decide) <|
    .next (u := "during your turn,\u3000draw a card.".toList) (by decide +kernel) (by decide) <|
    .next (by decide +kernel) (by decide) <| .done (by decide +kernel)
  obtain ⟨⟨fs', hp', -, hlen⟩, hsuffix, hnone, hfix⟩ := ofSentence_settles t
  rw [hs] at hp' hlen hsuffix hnone hfix
  obtain rfl := hp'.eq hp
  exact ⟨hs, hp, hlen, hsuffix, hnone, hfix⟩

end Frame

end CardText
