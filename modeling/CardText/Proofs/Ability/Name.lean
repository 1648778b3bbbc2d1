import CardText.Proofs.Ability.Accounting
import CardText.Proofs.Card.Reminder
import CardText.Proofs.Text.Label

/-!
# Named abilities

A name in front of an ability is only kept: type, costs, trigger and steps are those of the text
behind it.  A text that is a keyword line as a whole has no name.

* `Segment.ofText`: a segment without a hint;
* `Classified.ofBody_of_not_isLabelWord`, `Classified.ofBody_label`: the shape of a body without a
  name and with one in front;
* `Draft.name_eq_none`: the abilities of a keyword line have no name;
* `Draft.ofSegment_label_iff`: when the abilities of a text are those of the text behind its name.
-/

namespace CardText

open Text (IsLabel)

/-- The segment without a hint that came as `raw` and has the plain form `t`. -/
def Segment.ofText (index : Nat) (raw t : Text) : Segment := ⟨index, raw, t, none⟩

/-! ### Names of drafts -/

namespace Draft

/-- The ability under a name, as if read from another text. -/
def named (name raw : Text) (d : Draft) : Draft := { d with name := some name, rawText := raw }

/-- A name is only kept. -/
theorem ofClassified_some (ctx : Context) (raw raw' name body : Text) (shape : Shape) :
    ofClassified ctx raw ⟨some name, body, shape⟩ =
      (ofClassified ctx raw' ⟨none, body, shape⟩).map (named name raw) := by
  rcases shape with entries | ⟨costs, effect⟩ | ⟨_ | t, effect⟩ | effect
  · simp only [ofClassified, List.map_map]
    refine List.map_congr_left fun e _ => ?_
    rw [← ofKeyword_withRaw ctx.source e raw' raw]
    rfl
  · rfl
  · rfl
  · simp only [ofClassified, List.map_map]
    rfl
  · rfl

variable {ctx : Context} {n : Nat} {raw t : Text}

theorem ofSegment_ofText (ctx : Context) (n : Nat) (raw t : Text) :
    ofSegment ctx (.ofText n raw t) = ofClassified ctx raw (Classified.ofBody ctx t.body) :=
  ofSegment_eq_ofBody ctx rfl

theorem ofSegment_ofText_ne_nil (ctx : Context) (n : Nat) (raw t : Text) :
    ofSegment ctx (.ofText n raw t) ≠ [] := by
  rw [ne_eq, ofSegment_eq_nil_iff]
  rintro ⟨h, hh, -⟩
  cases hh

/-- The abilities of a keyword line have no name. -/
theorem name_eq_none {entries : List Keyword.Entry} (h : Keyword.entries? t = some entries) :
    ∀ d ∈ ofSegment ctx (.ofText n raw t), d.name = none := by
  intro d hd
  simp only [ofSegment, Segment.ofText, Classified.ofSegment, Classified.ofText, h, ofClassified,
    List.mem_map] at hd
  obtain ⟨e, -, rfl⟩ := hd
  rfl

end Draft

/-! ### Texts behind a name -/

section Label

variable {ctx : Context} {ws : List Text} {t : Text}

/-- The shape of a body that is no keyword line and has no name. -/
theorem Classified.ofBody_of_not_isLabelWord (ht : t.trim = t)
    (hf : ∀ w ∈ t.words.head?, Text.isLabelWord w = false)
    (hk : Keyword.entriesOfBody? t = none) : ofBody ctx t = ⟨none, t, Shape.ofBody ctx t⟩ := by
  simp only [ofBody, hk, Text.stripLabel_eq_none hf, ht]

/-- With a name in front it has the same shape. -/
theorem Classified.ofBody_label (hw : IsLabel ws) (ht : t.squeeze = t) (hne : t.words ≠ [])
    (hf : ∀ w ∈ t.words.head?, Text.isLabelWord w = false)
    (hk : Keyword.entriesOfBody? (Text.unwords ws ++ ' ' :: t) = none) :
    ofBody ctx (Text.unwords ws ++ ' ' :: t) = ⟨some (Text.unwords ws), t, Shape.ofBody ctx t⟩ := by
  simp only [ofBody, hk, Text.stripLabel_label hw hne hf, ht]

theorem Keyword.entries?_eq_none_iff : entries? t = none ↔ entriesOfBody? t.body = none := by
  rw [entries?_eq, Option.map_eq_none_iff]

/-- **The name of an ability is cosmetic.**  With a name in front of it a text has the abilities
that it has without the name, under that name, just if the whole is no keyword line. -/
theorem Draft.ofSegment_label_iff (ctx : Context) (hw : IsLabel ws) (hne : t ≠ [])
    (hb : t.body = t) (hm : ∀ c ∈ t.head?, c ≠ '.' ∧ c ≠ ',')
    (hf : ∀ w ∈ t.words.head?, Text.isLabelWord w = false) (hk : Keyword.entries? t = none)
    (n n' : Nat) (raw raw' : Text) :
    ofSegment ctx (.ofText n raw (Text.unwords ws ++ ' ' :: t)) =
        (ofSegment ctx (.ofText n' raw' t)).map (named (Text.unwords ws) raw) ↔
      Keyword.entries? (Text.unwords ws ++ ' ' :: t) = none := by
  have hs : t.Spaced := hb ▸ Text.spaced_body t
  have hh : ∀ c ∈ t.head?, Text.isBlank c = false := fun c hc =>
    Text.head_body (t := t) (by rwa [hb])
  constructor
  · intro h
    by_contra hn
    obtain ⟨entries, he⟩ := Option.ne_none_iff_exists'.1 hn
    -- a keyword line has an ability, and that has no name
    obtain ⟨d, ds, hd⟩ := List.exists_cons_of_ne_nil
      (ofSegment_ofText_ne_nil ctx n raw (Text.unwords ws ++ ' ' :: t))
    have hmem : d ∈ ofSegment ctx (.ofText n raw (Text.unwords ws ++ ' ' :: t)) := by simp [hd]
    have hnone := name_eq_none he d hmem
    rw [h] at hmem
    obtain ⟨d', -, rfl⟩ := List.mem_map.1 hmem
    cases hnone
  · intro h
    have hsq : t.squeeze = t := hs.squeeze_eq hh
    have hwords : t.words ≠ [] := fun hn => hne (by rw [← hsq, Text.squeeze_eq_nil_iff, hn])
    have hbody : Text.body (Text.unwords ws ++ ' ' :: t) = Text.unwords ws ++ ' ' :: t := by
      rw [Text.body_label hw (by rwa [hb]), hb, Text.gapBefore_eq_space hm, List.append_assoc,
        List.singleton_append]
    rw [Keyword.entries?_eq_none_iff, hbody] at h
    rw [Keyword.entries?_eq_none_iff, hb] at hk
    rw [ofSegment_ofText, ofSegment_ofText, hbody, hb, Classified.ofBody_label hw hsq hwords hf h,
      Classified.ofBody_of_not_isLabelWord (Text.trim_eq_self hh fun _ => hs.getLast) hf hk,
      ofClassified_some ctx raw raw']

/-- The name in front of an activated ability. -/
theorem Draft.ofSegment_label_wideWorld :
    let ctx : Context := { source := .item }
    let ws : List Text := ["A".toList, "WIDE".toList, "WORLD".toList]
    let t : Text := "\x7bE\x7d, 2 \x7bI\x7d — Draw a card.".toList
    ofSegment ctx (.ofText 0 [] (Text.unwords ws ++ ' ' :: t)) =
        (ofSegment ctx (.ofText 1 t t)).map (named (Text.unwords ws) []) ∧
      (ofSegment ctx (.ofText 1 t t)).map (·.abilityType) = [.activated] := by
  intro ctx ws t
  have hm : ∀ c ∈ t.head?, c ≠ '.' ∧ c ≠ ',' := by
    rintro c ⟨⟩
    decide
  exact ⟨(ofSegment_label_iff ctx (by decide) (by decide) (by decide +kernel) hm (by decide)
    (by decide +kernel) 0 1 [] t).2 (by decide +kernel), by decide +kernel⟩

/-- A name that makes the text a keyword line: "SHIFT Draw a card." -/
theorem Draft.ofSegment_label_shift :
    let ctx : Context := { source := .character }
    let ws : List Text := ["SHIFT".toList]
    let t : Text := "Draw a card.".toList
    let named : Text := Text.unwords ws ++ ' ' :: t
    IsLabel ws ∧ t ≠ [] ∧ t.normalize = t ∧ t.body = t ∧
      (∀ c ∈ t.head?, Text.isLetter c = true) ∧
      (∀ w ∈ t.words.head?, Text.isLabelWord w = false) ∧ Keyword.entries? t = none ∧
      ofSegment ctx (.ofText 0 named named) ≠
        (ofSegment ctx (.ofText 0 t t)).map (Draft.named (Text.unwords ws) named) := by
  intro ctx ws t named
  have hl : ∀ c ∈ t.head?, Text.isLetter c = true := by
    rintro c ⟨⟩
    decide
  exact ⟨by decide, by decide, by decide +kernel, by decide +kernel, hl, by decide,
    by decide +kernel, by decide +kernel⟩

end Label

end CardText
