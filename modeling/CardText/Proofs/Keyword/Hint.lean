import CardText.Proofs.Keyword.Line

/-!
# Keywords of hints

A hint that names a keyword settles what its segment is: that keyword and nothing else, whatever
the other parts of the hint and the text say.  Only the value can come from the text, and only where
the hint has none.

* `Hint.Names`: the hint names a keyword;
* `Hint.valueOf`, `Hint.priceOf`: where the value of the keyword comes from, and the price of a
  shift that has no value;
* `Keyword.entryOfHint?_of_names`, `Keyword.Entry.orPrinted_spec`: the entry of the hint, and what
  it takes from the text;
* `Draft.ofKeyword_shift`, `Draft.ofKeyword_plain`: the abilities of keywords with their steps;
* `Draft.ofSegment_keywordHint`: the ability of a segment whose hint names a keyword.
-/

namespace CardText

/-- The entry for a keyword that stands first on a keyword line. -/
def Keyword.printed? (k : Keyword) (t : Text) : Option Keyword.Entry :=
  (Keyword.entries? t).bind fun es => es.find? fun e => e.keyword == k

namespace Hint

/-- The hint names the keyword, in some letter case and with any blanks around it. -/
def Names (h : Hint) (k : Keyword) : Prop :=
  ∃ name, h.keyword = some name ∧ Text.samePlain k.name.toList name.trim = true

/-- The value of the keyword on a segment with the text `t`: the number of the hint, else its
printed value if that is a number, else the value in the text. -/
def valueOf (h : Hint) (k : Keyword) (t : Text) : Option Int :=
  h.keywordValueNumber.or ((h.keywordValue.bind Text.signed?).or
    ((k.printed? t).bind Keyword.Entry.value))

/-- What is printed in the place of a value: by the hint, or else in the text. -/
def priceOf (h : Hint) (k : Keyword) (t : Text) : Option Text :=
  h.keywordValue.or ((k.printed? t).bind Keyword.Entry.valueText)

end Hint

/-! ### The entry of a hint -/

namespace Keyword

/-- The keyword that a hint names is the one that is read. -/
theorem entryOfHint?_of_names {h : Hint} {k : Keyword} (hk : h.Names k) : ∃ reminder,
    entryOfHint? h = some ⟨k, h.keywordValueNumber.or (h.keywordValue.bind Text.signed?),
      h.keywordValue.or (h.keywordValueNumber.map Text.ofInt), reminder⟩ := by
  obtain ⟨name, hn, hs⟩ := hk
  have hof : h.keyword.bind ofName? = some k := by
    rw [hn, Option.bind_some]
    exact ofName?_eq_some_iff.2 hs
  rw [entryOfHint?, hof]
  exact ⟨h.reminderText, rfl⟩

/-- What an entry takes from the text: a value if it has none, and what is printed in its place. -/
theorem Entry.orPrinted_spec (e : Entry) (t : Text) :
    (e.orPrinted ((entries? t).getD [])).keyword = e.keyword ∧
      (e.orPrinted ((entries? t).getD [])).value =
        e.value.or ((e.keyword.printed? t).bind Entry.value) ∧
      (e.value = none → (e.orPrinted ((entries? t).getD [])).valueText =
        e.valueText.or ((e.keyword.printed? t).bind Entry.valueText)) := by
  have hfind : (((entries? t).getD []).find? fun p => p.keyword == e.keyword) =
      e.keyword.printed? t := by
    rw [printed?]
    cases entries? t <;> rfl
  rw [orPrinted, hfind]
  cases hv : e.value with
  | some n => exact ⟨rfl, by simp [hv], nofun⟩
  | none => cases e.keyword.printed? t <;> simp [hv]

/-- A segment whose hint names a keyword is that keyword, with the value of the hint or else of the
text. -/
theorem exists_ofSegment_of_names (ctx : Context) {s : Segment} {h : Hint} {k : Keyword}
    (hs : s.hint = some h) (hk : h.Names k) :
    ∃ e, Classified.ofSegment ctx s = ⟨h.name, s.text.body, .keyword [e]⟩ ∧ e.keyword = k ∧
      e.value = h.valueOf k s.text ∧ (e.value = none → e.valueText = h.priceOf k s.text) := by
  obtain ⟨reminder, he⟩ := entryOfHint?_of_names hk
  generalize hf : Entry.mk k _ _ reminder = f at he
  obtain ⟨hkeyword, hvalue, htext⟩ := f.orPrinted_spec s.text
  refine ⟨f.orPrinted ((entries? s.text).getD []), ?_, ?_, ?_, fun hnone => ?_⟩
  · simp only [Classified.ofSegment, hs, Classified.ofHint, he]
  · rw [hkeyword, ← hf]
  · rw [hvalue, ← hf, Hint.valueOf, Option.or_assoc]
  · have hown : f.value = none := (Option.or_eq_none_iff.1 (hvalue ▸ hnone)).1
    rw [htext hown, ← hf, Hint.priceOf]
    -- a hint without a value has no number to print
    rw [← hf] at hown
    rw [(Option.or_eq_none_iff.1 hown).1, Option.map_none, Option.or_none]

end Keyword

/-! ### The ability of a keyword -/

namespace Draft

variable {source : ObjectKind} {e : Keyword.Entry} {raw : Text}

/-- A shift is played for its value, or for what is printed in its place. -/
theorem ofKeyword_shift (h : e.keyword = .shift) : (ofKeyword source e raw).effects =
    [{ effect := .shiftPlay
       target := .this source
       amount := e.value.map .exact
       note := if e.value.isSome then none else e.valueText }] := by
  rw [ofKeyword, h]
  simp only [ofShift]
  cases e.value <;> rfl

/-- Any other keyword but Support is granted with its value. -/
theorem ofKeyword_plain (hshift : e.keyword ≠ .shift) (hsupport : e.keyword ≠ .support) :
    (ofKeyword source e raw).effects =
      [{ effect := .grantKeyword e.keyword e.value
         target := .this source
         amount := e.value.map .exact }] := by
  rw [ofKeyword]
  split
  · next h => exact absurd h hshift
  · next h => exact absurd h hsupport
  · rfl

/-- **A hint that names a keyword settles its segment.**  The segment is classified as that keyword
alone and has one ability, under that keyword and the name of the hint.  Its value is the number of
the hint, else the printed value of the hint if that is a number, else the value printed first for
the keyword in the text; a shift without a value keeps what is printed in its place. -/
theorem ofSegment_keywordHint (ctx : Context) {s : Segment} {h : Hint} {k : Keyword}
    (hs : s.hint = some h) (hk : h.Names k) :
    (∃ e, (Classified.ofSegment ctx s).shape = .keyword [e] ∧ e.keyword = k ∧
        e.value = h.valueOf k s.text) ∧
      ∃ d, ofSegment ctx s = [d] ∧ d.keyword = some k ∧ d.name = h.name ∧
        (k = .shift → d.effects =
          [{ effect := .shiftPlay
             target := .this ctx.source
             amount := (h.valueOf k s.text).map .exact
             note := if (h.valueOf k s.text).isSome then none else h.priceOf k s.text }]) ∧
        (k ≠ .shift → k ≠ .support → d.effects =
          [{ effect := .grantKeyword k (h.valueOf k s.text)
             target := .this ctx.source
             amount := (h.valueOf k s.text).map .exact }]) := by
  obtain ⟨e, hclass, rfl, hvalue, hprice⟩ := Keyword.exists_ofSegment_of_names ctx hs hk
  have hone : ofSegment ctx s = [{ ofKeyword ctx.source e s.raw with name := h.name }] := by
    rw [ofSegment, hclass]
    rfl
  have hnote : (if e.value.isSome then none else e.valueText) =
      if e.value.isSome then none else h.priceOf e.keyword s.text := by
    cases hv : e.value with
    | some n => rfl
    | none => exact hprice hv
  refine ⟨⟨e, by rw [hclass], rfl, hvalue⟩, _, hone, (ofKeyword_spec ctx.source e s.raw).1, rfl,
    fun hshift => ?_, fun hshift hsupport => ?_⟩
  · rw [← hvalue, ← hnote]
    exact ofKeyword_shift hshift
  · rw [← hvalue]
    exact ofKeyword_plain hshift hsupport

/-- A hint with another type, with an effect and costs, and with a price that is no number.  The
first shift of the text gives the value. -/
theorem ofSegment_keywordHint_shift :
    let h : Hint :=
      { hintType := some .activated
        name := some "REFLECTION".toList
        keyword := some " sHIFT ".toList
        keywordValue := some "five".toList
        effect := some "Draw a card.".toList
        costs := ["{E}".toList] }
    let s : Segment := ⟨0, [], "Evasive, Shift 5 {I}, Shift 6 (To play this.)".toList, some h⟩
    h.Names .shift ∧ h.valueOf .shift s.text = some 5 ∧ ∃ d, ofSegment ⟨.character, {}⟩ s = [d] ∧
      d.keyword = some .shift ∧ d.name = h.name ∧ d.effects =
        [{ effect := .shiftPlay, target := .this .character, amount := some (.exact 5) }] := by
  intro h s
  have hk : h.Names .shift := ⟨_, rfl, by decide⟩
  have hv : h.valueOf .shift s.text = some 5 := by decide +kernel
  obtain ⟨-, d, hd, hkeyword, hn, hshift, -⟩ := ofSegment_keywordHint ⟨.character, {}⟩
    (show s.hint = some h from rfl) hk
  refine ⟨hk, hv, d, hd, hkeyword, hn, ?_⟩
  rw [hshift rfl, hv]
  rfl

end Draft

end CardText
