import CardText.Proofs.Ability.Assembly
import CardText.Proofs.Text.Numeral
import CardText.Proofs.Text.Typography
import CardText.Proofs.Trigger

/-!
# Segments without an ability

A segment shows up in the reading of its card, with an ability under its id or with a report.  The
only ones that do not are those whose hint gives a triggered effect with a comma directly behind
its trigger word.

* `Assembly.Accounts`: an ability or a report of a segment;
* `Segment.LacksClause`: the exception;
* `Draft.ofSegment_eq_nil_iff`: the segments that no ability is read from;
* `Card.accounts_iff`: the segments of a card that show up.
-/

namespace CardText

/-! ### Bodies -/

namespace Text

theorem unwords_drop_isSuffix (ws : List Text) (n : Nat) : unwords (ws.drop n) <:+ unwords ws := by
  induction ws generalizing n with
  | nil => simp
  | cons w ws ih =>
    cases n with
    | zero => exact List.suffix_rfl
    | succ n =>
      refine (ih n).trans ?_
      rcases ws with _ | ⟨v, ws⟩
      · exact List.nil_suffix
      · rw [unwords_cons_cons]
        exact (List.suffix_cons ' ' _).trans (List.suffix_append w _)

/-- A text in single spaces, with none around it and none in front of a comma. -/
structure IsBody (t : Text) : Prop where
  spaced : t.Spaced
  head : ∀ c ∈ t.head?, isBlank c = false
  noGap : t.NoGapBefore ','

theorem isBody_body (t : Text) : t.body.IsBody :=
  ⟨spaced_body t, fun _ => head_body, noGapBefore_comma_body t⟩

theorem IsBody.trim_of_isSuffix {s t : Text} (h : t.IsBody) (hs : s <:+ t) : s.trim.IsBody := by
  have ht := (h.spaced.suffix hs).trim_isSuffix.trans hs
  exact ⟨h.spaced.suffix ht, fun _ => head_trim, h.noGap.infix ht.isInfix⟩

theorem IsBody.trim_eq {t : Text} (h : t.IsBody) : t.trim = t :=
  trim_eq_self h.head fun _ => h.spaced.getLast

theorem IsBody.words_drop {t : Text} (h : t.IsBody) (n : Nat) :
    (unwords (t.words.drop n)).IsBody := by
  have hw : ∀ w ∈ t.words.drop n, w ≠ [] ∧ ∀ c ∈ w, isBlank c = false :=
    fun w hw => not_isBlank_of_mem_words (List.mem_of_mem_drop hw)
  have hs : unwords (t.words.drop n) <:+ t := by
    have := unwords_drop_isSuffix t.words n
    rwa [show unwords t.words = t from h.spaced.squeeze_eq h.head] at this
  refine ⟨spaced_unwords hw, fun c hc => ?_, h.noGap.infix hs.isInfix⟩
  rcases hd : t.words.drop n with _ | ⟨w, ws⟩
  · rw [hd] at hc; cases hc
  · have hm := hw w (by simp [hd])
    rw [hd, head_unwords hm.1] at hc
    exact hm.2 c (List.mem_of_mem_head? hc)

/-- What is left behind a name in capitals is a body. -/
theorem IsBody.stripLabel {t : Text} (h : t.IsBody) : t.stripLabel.2.IsBody := by
  rw [Text.stripLabel]
  split_ifs
  · exact h.words_drop _
  · exact h.trim_of_isSuffix List.suffix_rfl

end Text

/-! ### Triggers of a segment -/

namespace Keyword

theorem remindLast_ne_nil {es : List Entry} (h : es ≠ []) (reminder : Option Text) :
    remindLast reminder es ≠ [] := by
  match es with
  | [] => exact absurd rfl h
  | [e] => simp [remindLast]
  | e :: e' :: es => simp [remindLast]

/-- A keyword line has a keyword. -/
theorem entries?_ne_some_nil (t : Text) : entries? t ≠ some [] := by
  rw [entries?]
  split_ifs
  · simp
  · intro h
    obtain ⟨es, hm, he⟩ := Option.map_eq_some_iff.1 h
    refine remindLast_ne_nil ?_ _ he
    rintro rfl
    obtain ⟨p, ps, hp⟩ := List.exists_cons_of_ne_nil
      (Text.cut_ne_nil (· == ',') (t.stripReminders.body.trimEnd (· == '.')))
    simp [hp, List.mapM_cons, Option.bind_eq_some_iff] at hm

end Keyword

/-- A body that is triggered has a trigger. -/
theorem Triggered.triggers_ne_nil {ctx : Context} {t : Text} (ht : t.IsBody) {a : Triggered}
    (h : ofText? ctx t = some a) : a.triggers ≠ [] := by
  rw [ne_eq, triggers_eq_nil_iff ht.spaced ht.head h, lacksClause_eq_false ht.spaced ht.noGap]
  simp

/-- What is left of a body without a given name is a body. -/
theorem Classified.isBody_bodyAfterName (name : Option Text) {t : Text} (h : t.IsBody) :
    (bodyAfterName name t).IsBody := by
  cases name with
  | none => exact h.stripLabel
  | some n =>
    unfold bodyAfterName
    simp only
    split
    · next rest hr =>
      rw [← Text.append_of_isPrefixOf? hr] at h
      exact h.trim_of_isSuffix (List.suffix_append n rest)
    · exact h

/-! ### Segments without drafts -/

namespace Shape

/-- No ability is read from the shape. -/
def IsVacant : Shape → Prop
  | .keyword entries => entries = []
  | .triggered (some t) _ => t.triggers = []
  | _ => False

theorem not_isVacant_ofBody {ctx : Context} {body : Text} (h : body.IsBody) :
    ¬ (ofBody ctx body).IsVacant := by
  rw [ofBody]
  split
  · exact id
  · split
    · next t ht => exact Triggered.triggers_ne_nil h ht
    · exact id

/-- A triggered effect without a clause is the only vacant one. -/
theorem isVacant_ofTriggeredHint_iff {ctx : Context} {body : Text} (h : body.IsBody)
    (effect : Text) : (ofTriggeredHint ctx body effect.normalize).IsVacant ↔
      Triggered.lacksClause effect.normalize = true := by
  have hs := Text.spaced_normalize effect
  have hh : ∀ c ∈ effect.normalize.head?, Text.isBlank c = false := fun _ => Text.head_normalize
  rw [ofTriggeredHint]
  split
  · next t ht => exact Triggered.triggers_eq_nil_iff hs hh ht
  · next hn =>
    -- a text that lacks its clause is read as triggered
    have hl : Triggered.lacksClause effect.normalize = false :=
      Triggered.lacksClause_eq_false_of_ofText?
        (Text.trim_eq_self hh fun _ => hs.getLast) hn
    rw [hl]
    split
    · next t ht => simpa [IsVacant, ofTriggered] using Triggered.triggers_ne_nil h ht
    · simp [IsVacant]

theorem not_isVacant_ofActivatedHint {ctx : Context} {h : Hint} {body : Text} (hb : body.IsBody)
    (effect : Text) : ¬ (ofActivatedHint ctx h body effect).IsVacant := by
  rw [ofActivatedHint]
  split_ifs
  · exact id
  · split
    · exact id
    · exact not_isVacant_ofBody hb

theorem isVacant_ofHint_iff {ctx : Context} {h : Hint} {body : Text} (hb : body.IsBody) :
    (ofHint ctx h body).IsVacant ↔ h.hintType = some .triggered ∧
      ∃ e, h.effect = some e ∧ Triggered.lacksClause e.normalize = true := by
  rcases he : h.effect with _ | e
  · have : ofHint ctx h body = ofBody ctx body := by
      rw [ofHint, he]
      split <;> simp_all
    simp [this, not_isVacant_ofBody hb]
  · rcases ht : h.hintType with _ | t
    · simp [ofHint, ht, not_isVacant_ofBody hb]
    · cases t with
      | keyword => simp [ofHint, ht, not_isVacant_ofBody hb]
      | static => simp [ofHint, ht, he, IsVacant]
      | triggered => simp [ofHint, ht, he, isVacant_ofTriggeredHint_iff hb]
      | activated => simp [ofHint, ht, he, not_isVacant_ofActivatedHint hb]

end Shape

/-- The hint of the segment names no keyword and gives a triggered effect that has a comma directly
behind its trigger word, and the text is no keyword line. -/
def Segment.LacksClause (s : Segment) : Prop :=
  ∃ h, s.hint = some h ∧ Keyword.entryOfHint? h = none ∧ Keyword.entries? s.text = none ∧
    h.hintType = some .triggered ∧ ∃ e, h.effect = some e ∧
      Triggered.lacksClause e.normalize = true

namespace Draft

theorem ofClassified_eq_nil_iff {ctx : Context} {raw : Text} {c : Classified} :
    ofClassified ctx raw c = [] ↔ c.shape.IsVacant := by
  rw [ofClassified]
  split <;> simp_all [Shape.IsVacant]

/-- Only a segment that lacks the clause of its trigger has no ability. -/
theorem ofSegment_eq_nil_iff (ctx : Context) {s : Segment} :
    ofSegment ctx s = [] ↔ s.LacksClause := by
  rw [ofSegment, ofClassified_eq_nil_iff, Classified.ofSegment, Segment.LacksClause]
  rcases s.hint with _ | h
  · simp only [reduceCtorEq, false_and, exists_false, iff_false]
    rw [Classified.ofText]
    split
    · next entries he => exact fun hv => Keyword.entries?_ne_some_nil _ (he.trans (congrArg _ hv))
    · exact Shape.not_isVacant_ofBody (Text.isBody_body _).stripLabel
  · simp only [Option.some.injEq, exists_eq_left']
    rw [Classified.ofHint]
    split
    · next e he => simp [he, Shape.IsVacant]
    · next hk =>
      split
      · next entries he =>
        have hne : entries ≠ [] := fun hv => Keyword.entries?_ne_some_nil _ (he.trans (congrArg _ hv))
        simp [he, Shape.IsVacant, hne]
      · next he =>
        simp [hk, he, Shape.isVacant_ofHint_iff
          (Classified.isBody_bodyAfterName h.name (Text.isBody_body s.text))]

end Draft

/-! ### Ids -/

/-- The reading has an ability under the id of the segment at `n`, with or without a number of its
own behind it, or a report on that segment. -/
def Assembly.Accounts (p : Assembly) (cardId : Text) (n : Nat) : Prop :=
  (∃ a ∈ p.abilities, a.id = cardId ++ '-' :: Text.ofNat n ∨
    ∃ k ≥ 1, a.id = cardId ++ '-' :: Text.ofNat n ++ '-' :: Text.ofNat k) ∨
  ∃ x ∈ p.diagnostics, x.segment = n

namespace Ability

/-- An id tells the place of its segment. -/
theorem makeId_spec (cardId : Text) (n i count : Nat) :
    makeId cardId n i count = cardId ++ '-' :: Text.ofNat n ∨
      ∃ k ≥ 1, makeId cardId n i count = cardId ++ '-' :: Text.ofNat n ++ '-' :: Text.ofNat k := by
  rw [makeId]
  split_ifs
  · exact .inr ⟨i + 1, by omega, rfl⟩
  · exact .inl rfl

theorem segment_inj {cardId : Text} {m n i count : Nat}
    (h : makeId cardId m i count = cardId ++ '-' :: Text.ofNat n ∨
      ∃ k ≥ 1, makeId cardId m i count = cardId ++ '-' :: Text.ofNat n ++ '-' :: Text.ofNat k) :
    m = n := by
  -- behind the digits of the segment stands nothing, or the hyphen of a further number
  have key : ∀ {s t : Text}, s.head?.any Char.isDigit = false → t.head?.any Char.isDigit = false →
      cardId ++ '-' :: Text.ofNat m ++ s = cardId ++ '-' :: Text.ofNat n ++ t → m = n := by
    intro s t hs ht he
    simp only [List.append_assoc, List.cons_append, List.append_cancel_left_eq,
      List.cons.injEq, true_and] at he
    exact Text.ofNat_append_inj hs ht he
  have hd : ∀ k, ('-' :: Text.ofNat k).head?.any Char.isDigit = false := fun k => rfl
  rcases makeId_spec cardId m i count with h₁ | ⟨k, -, h₁⟩ <;> rw [h₁] at h
  · rcases h with h | ⟨k', -, h⟩
    · exact key (s := []) (t := []) rfl rfl (by simpa using h)
    · exact key (s := []) rfl (hd k') (by simpa using h)
  · rcases h with h | ⟨k', -, h⟩
    · exact key (t := []) (hd k) rfl (by simpa using h)
    · exact key (hd k) (hd k') h

end Ability

/-- **Which segments show up.**  A segment of a card has an ability under its id or a report, unless
its hint gives a triggered effect that lacks the clause of its trigger. -/
theorem Card.accounts_iff {options : Options} {c : Card} {p : Assembly}
    (h : c.read options = .ok p) {s : Segment} (hs : s ∈ Segment.ofCard options c) :
    p.Accounts c.id s.index ↔ ¬ s.LacksClause := by
  obtain ⟨-, rfl⟩ := Card.read_eq_ok_iff.1 h
  rw [← Draft.ofSegment_eq_nil_iff (c.context options)]
  constructor
  · rintro (⟨a, ha, hid⟩ | ⟨x, hx, hid⟩) hn
    · obtain ⟨s', hs', d, i, hm, -, rfl⟩ := Assembly.mem_abilities_read.1 ha
      obtain rfl := Segment.index_inj hs' hs (Ability.segment_inj hid)
      rw [hn] at hm
      cases hm
    · obtain ⟨s', hs', hi, hne⟩ := Assembly.mem_diagnostics_read hx
      obtain rfl := Segment.index_inj hs' hs (hi.symm.trans hid)
      exact hne hn
  · intro hn
    rcases Assembly.accounts_of_draft hs hn with ⟨a, ha, hid⟩ | hx
    · exact .inl ⟨a, ha, hid ▸ Ability.makeId_spec c.id s.index 0 _⟩
    · exact .inr hx

/-- The text "Draw a card." shows up. -/
theorem Card.accounts_drawCard :
    let c : Card :=
      { id := "c".toList, name := "n".toList, fullTextSections := ["Draw a card.".toList] }
    let s : Segment := ⟨0, "Draw a card.".toList, "Draw a card.".toList, none⟩
    ∃ p, c.read {} = .ok p ∧ s ∈ Segment.ofCard {} c ∧ p.Accounts c.id s.index := by
  intro c s
  have hr : c.read {} = .ok (.read c.id (c.context {}) (Segment.ofCard {} c)) := rfl
  have hs : s ∈ Segment.ofCard {} c := by decide +kernel
  exact ⟨_, hr, hs, (Card.accounts_iff hr hs).2 fun ⟨_, hh, _⟩ => by cases hh⟩

/-- The effect "When , draw a card." of a hint leaves no trace in the reading of its card. -/
theorem Card.not_accounts_whenComma :
    let h : Hint :=
      { hintType := some .triggered, effect := some "When , draw a card.".toList
        fullText := "When, draw a card.".toList }
    let c : Card := { id := "c".toList, name := "n".toList, abilities := [h] }
    let s : Segment :=
      ⟨0, "When, draw a card.".toList, "When, draw a card.".toList, some h⟩
    ∃ p, c.read {} = .ok p ∧ s ∈ Segment.ofCard {} c ∧ ¬ p.Accounts c.id s.index := by
  intro h c s
  have hr : c.read {} = .ok (.read c.id (c.context {}) (Segment.ofCard {} c)) := rfl
  have hp : Assembly.read c.id (c.context {}) (Segment.ofCard {} c) = ⟨[], []⟩ := by
    decide +kernel
  refine ⟨_, hr, by decide +kernel, ?_⟩
  rw [hp]
  simp [Assembly.Accounts]

end CardText
