import CardText.Proofs.Text.Spacing
import CardText.Text.Label
import Mathlib.Data.List.DropRight

/-!
# Names in capitals in front of a text

Where the name in front of a text ends.

* `Text.IsHeading`: words that are as a name neither too long nor too short;
* `Text.exists_isHeading`, `Text.IsHeading.eq_of_append_eq`: all words begin with one such name, and
  with no other; `Text.labelWords` finds it (`Text.IsHeading.labelWords_append`);
* `Text.stripLabel_spec`: a name is told from the text behind it with no word lost
  (`Text.of_stripLabel_eq_some`), and there is none only where the words in capitals are no name
  (`Text.stripLabel_eq_none_iff`).
-/

namespace CardText

namespace Text

/-- In front of `rest` the words `label` are as a name neither too long nor too short. They are in
capitals, and the words in capitals right behind them are lone capitals. A lone capital is the last
word of the name only if it is the first one. -/
structure IsHeading (label rest : List Text) : Prop where
  capitals : ∀ w ∈ label, isLabelWord w = true
  head : label = [] → ∀ w ∈ rest.head?, isLabelWord w = false
  last : ∀ w ∈ label.tail.getLast?, isLoneCapital w = false
  following : ∀ w ∈ rest.takeWhile isLabelWord, isLoneCapital w = true

/-- No words in capitals are in front where the first word is none. -/
theorem takeWhile_isLabelWord {ws : List Text} (h : ∀ w ∈ ws.head?, isLabelWord w = false) :
    ws.takeWhile isLabelWord = [] := by
  cases ws with
  | nil => rfl
  | cons w ws => rw [List.takeWhile_cons_of_neg (by simp [h w rfl])]

theorem isLongWord_iff {w : Text} : isLongWord w = true ↔ 2 ≤ (w.filter isLetter).length :=
  decide_eq_true_iff

theorem isLoneCapital_iff {w : Text} : isLoneCapital w = true ↔ w = ['A'] ∨ w = ['I'] := by
  simp [isLoneCapital]

/-- A lone capital is no long word. -/
theorem isLoneCapital_of_isLongWord {w : Text} (h : isLongWord w = true) :
    isLoneCapital w = false := by
  by_contra hl
  rcases isLoneCapital_iff.1 (Bool.not_eq_false _ ▸ hl) with rfl | rfl
  · exact absurd h (by decide)
  · exact absurd h (by decide)

namespace IsHeading

variable {label rest : List Text}

/-- Words of which the first is not in capitals begin with no name. -/
theorem of_head (h : ∀ w ∈ rest.head?, isLabelWord w = false) : IsHeading [] rest where
  capitals _ hw := nomatch hw
  head _ := h
  last _ hw := nomatch hw
  following w hw := by
    rw [takeWhile_isLabelWord h] at hw
    cases hw

/-- Words begin with at most one name. -/
theorem labelWords_append (h : IsHeading label rest) : labelWords (label ++ rest) = label := by
  rw [labelWords, List.takeWhile_append_of_pos h.capitals]
  cases label with
  | nil => rw [takeWhile_isLabelWord (h.head rfl), List.nil_append]
  | cons w more =>
    have hlone : ∀ v ∈ (rest.takeWhile isLabelWord).reverse, isLoneCapital v = true :=
      fun v hv => h.following v (List.mem_reverse.1 hv)
    have hmore : more.rdropWhile isLoneCapital = more :=
      List.rdropWhile_eq_self_iff.2 fun hne => by
        simp [h.last (more.getLast hne) (List.getLast?_eq_some_getLast hne)]
    simp only [List.cons_append]
    rw [List.reverse_append, List.dropWhile_append_of_pos hlone]
    exact congrArg (w :: ·) hmore

/-- So the name and the words behind it are determined. -/
theorem eq_of_append_eq (h : IsHeading label rest) {label' rest' : List Text}
    (h' : IsHeading label' rest') (he : label ++ rest = label' ++ rest') :
    label = label' ∧ rest = rest' := by
  have hlabel : label = label' := by rw [← h.labelWords_append, he, h'.labelWords_append]
  subst hlabel
  exact ⟨rfl, List.append_cancel_left he⟩

/-- A name with a long word does not end in a lone capital. -/
theorem getLast_of_isLongWord (h : IsHeading label rest) (hl : label.any isLongWord = true) :
    ∀ w ∈ label.getLast?, isLoneCapital w = false := by
  rcases label with - | ⟨w, - | ⟨v, more⟩⟩
  · simp
  · intro u hu
    obtain rfl : w = u := by simpa using hu
    exact isLoneCapital_of_isLongWord (by simpa using hl)
  · rw [List.getLast?_cons_cons]
    exact h.last

end IsHeading

/-- All words begin with a name: the words in capitals but for the lone capitals at their end. -/
theorem exists_isHeading (ws : List Text) :
    ∃ label rest, ws = label ++ rest ∧ IsHeading label rest := by
  have hws : ws.takeWhile isLabelWord ++ ws.dropWhile isLabelWord = ws :=
    List.takeWhile_append_dropWhile
  have hcapitals : ∀ w ∈ ws.takeWhile isLabelWord, isLabelWord w = true :=
    fun _ => List.mem_takeWhile_imp
  have hend : (ws.dropWhile isLabelWord).takeWhile isLabelWord = [] :=
    takeWhile_isLabelWord fun w hw => by
      simpa [Option.mem_def.1 hw] using List.head?_dropWhile_not isLabelWord ws
  cases hrun : ws.takeWhile isLabelWord with
  | nil =>
    refine ⟨[], ws, rfl, by simp, fun _ w hw => ?_, by simp, by simp [hrun]⟩
    obtain ⟨rest, rfl⟩ := List.head?_eq_some_iff.1 hw
    by_contra hl
    rw [List.takeWhile_cons_of_pos (by simpa using hl)] at hrun
    cases hrun
  | cons w more =>
    rw [hrun] at hws hcapitals
    obtain ⟨hw, hmore⟩ := List.forall_mem_cons.1 hcapitals
    have hcut : more.rdropWhile isLoneCapital ++ more.rtakeWhile isLoneCapital = more :=
      List.rdropWhile_append_rtakeWhile
    -- the lone capitals at the end of the run stand behind the name
    refine ⟨w :: more.rdropWhile isLoneCapital,
      more.rtakeWhile isLoneCapital ++ ws.dropWhile isLabelWord, ?_, ?_, by simp, ?_, ?_⟩
    · rw [List.cons_append, ← List.append_assoc, hcut, ← List.cons_append, hws]
    · exact List.forall_mem_cons.2
        ⟨hw, fun v hv => hmore v ((List.rdropWhile_prefix _ _).subset hv)⟩
    · intro v hv
      rw [List.tail_cons] at hv
      obtain ⟨hne, rfl⟩ := List.mem_getLast?_eq_getLast hv
      simpa using List.rdropWhile_last_not isLoneCapital more hne
    · have hrest : ∀ v ∈ more.rtakeWhile isLoneCapital, isLabelWord v = true :=
        fun v hv => hmore v ((List.rtakeWhile_suffix _ _).subset hv)
      rw [List.takeWhile_append_of_pos hrest, hend, List.append_nil]
      exact fun v hv => List.mem_rtakeWhile_imp hv

variable {t : Text} {label rest : List Text}

/-- The name is told from the text behind it if it has a long word and there is a text. -/
theorem stripLabel_of_isHeading (ht : t.words = label ++ rest) (h : IsHeading label rest) :
    t.stripLabel = if label.any isLongWord && !rest.isEmpty then
      (some (unwords label), unwords rest) else (none, t.trim) := by
  rw [stripLabel, ht, h.labelWords_append]
  simp only [List.drop_left]

/-- A name that is told from its text opens the words, and a text stands behind it. -/
theorem of_stripLabel_eq_some {name body : Text} (h : t.stripLabel = (some name, body)) :
    t.words = name.words ++ body.words ∧ IsHeading name.words body.words ∧
      name.words.any isLongWord = true ∧ body ≠ [] := by
  obtain ⟨label, rest, ht, hh⟩ := exists_isHeading t.words
  have hmem : ∀ w ∈ label ++ rest, w ≠ [] ∧ ∀ c ∈ w, isBlank c = false :=
    fun w hw => not_isBlank_of_mem_words (ht ▸ hw)
  rw [stripLabel_of_isHeading ht hh] at h
  split_ifs at h with hname
  · obtain ⟨hlong, hne⟩ := Bool.and_eq_true_iff.1 hname
    obtain ⟨rfl, rfl⟩ : unwords label = name ∧ unwords rest = body := by simpa using h
    rw [words_unwords fun w hw => hmem w (List.mem_append_left _ hw),
      words_unwords fun w hw => hmem w (List.mem_append_right _ hw)]
    exact ⟨ht, hh, hlong, unwords_ne_nil (by simpa using hne)
      fun w hw => (hmem w (List.mem_append_right _ hw)).1⟩
  · cases h

/-- A text is left as it is just if its words begin with no name that has a long word and a text
behind it. -/
theorem stripLabel_eq_none_iff {body : Text} : t.stripLabel = (none, body) ↔ body = t.trim ∧
    ∃ label rest, t.words = label ++ rest ∧ IsHeading label rest ∧
      (label = [] ∨ rest = [] ∨ ∀ w ∈ label, isLongWord w = false) := by
  constructor
  · intro h
    obtain ⟨label, rest, ht, hh⟩ := exists_isHeading t.words
    rw [stripLabel_of_isHeading ht hh] at h
    split_ifs at h with hname
    · cases h
    · obtain ⟨-, rfl⟩ := Prod.mk.inj h
      refine ⟨rfl, label, rest, ht, hh, .inr ?_⟩
      rw [Bool.and_eq_true, not_and_or, Bool.not_eq_true, List.any_eq_false] at hname
      exact hname.symm.imp (by simp) (by simp)
  · rintro ⟨rfl, label, rest, ht, hh, hnone⟩
    rw [stripLabel_of_isHeading ht hh, if_neg]
    rw [Bool.and_eq_true, not_and_or, Bool.not_eq_true, List.any_eq_false]
    rcases hnone with rfl | rfl | hshort
    · exact .inl (by simp)
    · exact .inr (by simp)
    · exact .inl (by simpa using hshort)

/-- **Telling a name from its text.** The words of the name and those of the text behind it are the
words of the text as it was. All words of the name are in capitals, one is a long word, with at
least two letters, and the last is no lone capital; the words in capitals that follow it are lone
capitals. They are the only words in front that are as a name neither too long nor too short. A text
is left as it is, but for the blanks around it, just if it begins with no word in capitals, has
nothing behind them or no long word among them. -/
theorem stripLabel_spec (t : Text) :
    (∀ name body, t.stripLabel = (some name, body) →
      t.words = name.words ++ body.words ∧ (∀ w ∈ name.words, isLabelWord w = true) ∧
        (∃ w ∈ name.words, isLongWord w = true ∧ 2 ≤ (w.filter isLetter).length) ∧
        (∀ w ∈ name.words.getLast?, w ≠ ['A'] ∧ w ≠ ['I']) ∧ body ≠ [] ∧
        (∀ w ∈ body.words.takeWhile isLabelWord, w = ['A'] ∨ w = ['I']) ∧
        ∀ label rest, t.words = label ++ rest → IsHeading label rest →
          label = name.words ∧ rest = body.words) ∧
    ∀ body, t.stripLabel = (none, body) ↔ body = t.trim ∧
      ∃ label rest, t.words = label ++ rest ∧ IsHeading label rest ∧
        (label = [] ∨ rest = [] ∨ ∀ w ∈ label, isLongWord w = false) := by
  refine ⟨fun name body h => ?_, fun body => stripLabel_eq_none_iff⟩
  obtain ⟨ht, hh, hlong, hne⟩ := of_stripLabel_eq_some h
  obtain ⟨v, hv, hvlong⟩ := List.any_eq_true.1 hlong
  refine ⟨ht, hh.capitals, ⟨v, hv, hvlong, isLongWord_iff.1 hvlong⟩, fun w hw => ?_, hne,
    fun w hw => ?_, fun label rest ht' hh' => ?_⟩
  · have := hh.getLast_of_isLongWord hlong w hw
    rwa [← Bool.not_eq_true, isLoneCapital_iff, not_or] at this
  · exact isLoneCapital_iff.1 (hh.following w hw)
  · exact hh'.eq_of_append_eq hh (ht'.symm.trans ht)

/-- The article that opens the text is no part of the name. -/
theorem stripLabel_spec_article :
    let t : Text := "TRIAL BY FIRE A character gains Rush.".toList
    let name : Text := "TRIAL BY FIRE".toList
    let body : Text := "A character gains Rush.".toList
    t.stripLabel = (some name, body) ∧ t.words = name.words ++ body.words ∧
      ∀ w ∈ body.words.takeWhile isLabelWord, w = ['A'] ∨ w = ['I'] := by
  intro t name body
  have h : t.stripLabel = (some name, body) := by decide
  obtain ⟨hwords, -, -, -, -, hlone, -⟩ := (stripLabel_spec t).1 name body h
  exact ⟨h, hwords, hlone⟩

end Text

end CardText
