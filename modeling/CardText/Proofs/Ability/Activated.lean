import CardText.Card.Reading
import CardText.Proofs.Cost.Printed

/-!
# Printed activated abilities

An activated ability with a name can come as one text or as a hint that has its name, its costs and
its effect apart.  Both are read as the same ability.

* `Activated.Line`: the parts of such an ability, with its text and its hint;
* `Activated.Line.IsPrinted`: what the parts have to be;
* `Activated.Line.ofSegment_text`: the shape of the ability, with the hint or without;
* `Card.read_hint_eq`: a card with the hint alone is read as the card with the text alone.
-/

namespace CardText

namespace Activated

/-- The parts of a printed activated ability. -/
structure Line where
  /-- The words of the name. -/
  name : List Text
  costs : List Text
  effect : Text

namespace Line

/-- The printed ability: "MAGIC MIRROR {E}, 2 {I} — Draw a card." -/
def text (l : Line) : Text := Text.unwords l.name ++ ' ' :: Cost.sides l.costs l.effect

/-- The hint that has the parts of the ability apart. -/
def hint (l : Line) : Hint :=
  { hintType := some .activated
    name := some (Text.unwords l.name)
    effect := some l.effect
    costs := l.costs
    fullText := l.text }

/-- The parts are a name in capitals, cost tokens and an effect.  The first cost, on a card of kind
`source`, is known and begins with no word in capitals. -/
structure IsPrinted (source : ObjectKind) (l : Line) : Prop where
  name : Text.IsLabel l.name
  costs_ne_nil : l.costs ≠ []
  isToken : ∀ c ∈ l.costs, Cost.IsToken c
  isKnown : ∀ c ∈ l.costs.head?, (Cost.ofToken source c).isKnown = true
  noLabel : ∀ c ∈ l.costs.head?, ∀ w ∈ c.words.head?, Text.isLabelWord w = false
  effect_ne_nil : l.effect ≠ []
  effect : l.effect.IsSettled

/-- What the body keeps of the costs and the effect. -/
def body (l : Line) : Text :=
  Cost.row l.costs ++ ' ' :: Text.dash :: (Text.gapBefore l.effect ++ l.effect)

variable {source : ObjectKind} {l : Line}

namespace IsPrinted

/-- The costs begin with a letter, a digit or a symbol, and no word in capitals stands there. -/
theorem exists_body_cons (h : IsPrinted source l) : ∃ c r, l.body = c :: r ∧
    Text.isBlank c = false ∧ (Text.isLetter c = true ∨ c.isDigit = true ∨ c = '\x7b') ∧
      ∀ w ∈ (Text.words (c :: r)).head?, Text.isLabelWord w = false := by
  obtain ⟨token, cs, hcs⟩ := List.exists_cons_of_ne_nil h.costs_ne_nil
  have ht := h.isToken token (by simp [hcs])
  have hk := h.isKnown token (by simp [hcs])
  have hl := h.noLabel token (by simp [hcs])
  obtain ⟨c, q, rfl⟩ := List.exists_cons_of_ne_nil ht.ne_nil
  have hb := ht.settled.head c rfl
  have hc := Cost.of_isKnown_cons rfl hb hk
  obtain ⟨r, hr⟩ := Cost.exists_row_cons (c :: q) cs
  refine ⟨c, q ++ (r ++ ' ' :: Text.dash :: (Text.gapBefore l.effect ++ l.effect)), ?_, hb, hc, ?_⟩
  · rw [body, hcs, hr]
    simp
  · exact Text.isLabelWord_head_append hb hc hl _

theorem head_body (h : IsPrinted source l) : ∀ x ∈ l.body.head?, Text.isBlank x = false := by
  obtain ⟨c, r, hc, hb, -⟩ := h.exists_body_cons
  rw [hc]
  rintro x ⟨⟩
  exact hb

theorem body_sides (h : IsPrinted source l) : (Cost.sides l.costs l.effect).body = l.body :=
  Cost.body_sides h.costs_ne_nil h.isToken h.effect_ne_nil h.effect

/-- The body is in single spaces. -/
theorem spaced_body (h : IsPrinted source l) : l.body.Spaced :=
  h.body_sides ▸ Text.spaced_body _

theorem text_normalize (h : IsPrinted source l) : l.text.normalize = l.text := by
  obtain ⟨c, r, hc, -⟩ := h.name.exists_cons
  exact Text.normalize_append_space h.name.isSettled.normalize (by simp [hc])
    (.of_not_mem (h.name.not_mem rfl (by decide)))
    (Cost.normalize_sides h.costs_ne_nil h.isToken h.effect_ne_nil h.effect) Cost.sides_ne_nil

theorem text_body (h : IsPrinted source l) :
    l.text.body = Text.unwords l.name ++ ' ' :: l.body := by
  obtain ⟨c, r, hc, -, hg, -⟩ := h.exists_body_cons
  have hgap : Text.gapBefore l.body = [' '] := Text.gapBefore_eq_space fun x hx => by
    rw [hc] at hx
    cases hx
    constructor <;>
    · rintro rfl
      revert hg
      decide
  rw [text, Text.body_label h.name (by rw [h.body_sides, hc]; simp), h.body_sides, hgap,
    List.append_assoc, List.singleton_append]

/-- The name in front of the text is told from the costs. -/
theorem stripLabel_body (h : IsPrinted source l) :
    l.text.body.stripLabel = (some (Text.unwords l.name), l.body) := by
  obtain ⟨c, r, hc, hb, -, hl⟩ := h.exists_body_cons
  have hsq : l.body.squeeze = l.body := h.spaced_body.squeeze_eq h.head_body
  rw [h.text_body, Text.stripLabel_label h.name
    (by rw [hc]; exact Text.words_ne_nil (by simp) hb) (by rw [hc]; exact hl), hsq]

/-- A given name is told from the costs as well. -/
theorem bodyAfterName_body (h : IsPrinted source l) :
    Classified.bodyAfterName (some (Text.unwords l.name)) l.text.body = l.body := by
  have htrim : l.body.trim = l.body :=
    Text.trim_eq_self h.head_body fun _ => h.spaced_body.getLast
  simp only [Classified.bodyAfterName, h.text_body, Text.isPrefixOf?_append, Text.trim_cons_space,
    htrim]

theorem ofBody_body (h : IsPrinted source l) {ctx : Context} (hctx : ctx.source = source) :
    Shape.ofBody ctx l.body = .activated (l.costs.map (Cost.ofToken source)) l.effect := by
  obtain ⟨c, cs, hcs⟩ := List.exists_cons_of_ne_nil h.costs_ne_nil
  have htokens : ∀ x ∈ c :: cs, Cost.IsToken x := fun x hx => h.isToken x (hcs ▸ hx)
  have hsplit := splitActivated?_row htokens (h.isKnown c (by simp [hcs])) h.effect_ne_nil h.effect
  have hcosts := Cost.listOfText_row source h.costs_ne_nil h.isToken
  rw [← hcs] at hsplit
  rw [Shape.ofBody, hctx, body, hsplit]
  simp only
  rw [hcosts]

/-- **The shape of a printed activated ability** that is no keyword line, with its hint or
without. -/
theorem ofSegment_text {ctx : Context} (h : IsPrinted ctx.source l)
    (hk : Keyword.entries? l.text = none) {hint : Option Hint}
    (hh : hint = none ∨ hint = some l.hint) (n : Nat) (raw : Text) :
    Classified.ofSegment ctx ⟨n, raw, l.text, hint⟩ = ⟨some (Text.unwords l.name), l.body,
      .activated (l.costs.map (Cost.ofToken ctx.source)) l.effect⟩ := by
  rcases hh with rfl | rfl
  · simp only [Classified.ofSegment, Classified.ofText, hk, h.stripLabel_body, h.ofBody_body rfl]
  · have hcosts : (!l.hint.costs.isEmpty) = true := by simpa [hint] using h.costs_ne_nil
    have hshape : Shape.ofHint ctx l.hint l.body =
        .activated (l.costs.map (Cost.ofToken ctx.source)) l.effect := by
      change Shape.ofActivatedHint ctx l.hint l.body l.effect.normalize = _
      rw [Shape.ofActivatedHint, if_pos hcosts, h.effect.normalize,
        ← Cost.listOfTokens_normalize ctx.source h.isToken]
      rfl
    have hname : l.hint.name = some (Text.unwords l.name) := rfl
    have hkeyword : Keyword.entryOfHint? l.hint = none := rfl
    simp only [Classified.ofSegment, Classified.ofHint, hk, hkeyword, hname, h.bodyAfterName_body,
      hshape]

/-- Either way there is one ability. -/
theorem draft_ofSegment {ctx : Context} (h : IsPrinted ctx.source l)
    (hk : Keyword.entries? l.text = none) {hint : Option Hint}
    (hh : hint = none ∨ hint = some l.hint) (n : Nat) (raw : Text) :
    Draft.ofSegment ctx ⟨n, raw, l.text, hint⟩ =
      [{ abilityType := .activated
         name := some (Text.unwords l.name)
         rawText := raw
         costs := l.costs.map (Cost.ofToken ctx.source)
         effects := Draft.effectSteps ctx l.effect l.body }] := by
  rw [Draft.ofSegment, h.ofSegment_text hk hh]
  rfl

theorem isVoid_text (h : IsPrinted source l) : l.text.isVoid = false := by
  obtain ⟨c, r, hc, hu⟩ := h.name.exists_cons
  exact Text.isVoid_eq_false (c := c) (by simp [text, hc]) (Text.isBlank_of_isUpper hu)

theorem hasBody_text (h : IsPrinted source l) : Segment.hasBody l.text = true := by
  obtain ⟨c, r, hc, hu⟩ := h.name.exists_cons
  rw [Segment.hasBody, h.text_body, Bool.not_eq_true']
  exact Text.isVoid_eq_false (c := c) (by simp [hc]) (Text.isBlank_of_isUpper hu)

end IsPrinted

end Line

end Activated

/-! ### Cards -/

namespace Card

/-- The card with a single hint and no other text. -/
def withHint (c : Card) (h : Hint) : Card :=
  { c with abilities := [h], fullTextSections := [], effects := [], fullText := none }

/-- The card with a single printed paragraph and no other text. -/
def withSection (c : Card) (t : Text) : Card :=
  { c with abilities := [], fullTextSections := [t], effects := [], fullText := none }

variable {options : Options}

theorem ofCard_withHint (hu : options.useHints = true) (c : Card) {h : Hint}
    (hv : h.fullText.isVoid = false) : Segment.ofCard options (c.withHint h) =
      [⟨0, h.fullText, h.fullText.normalize, some h⟩] := by
  simp [Segment.ofCard, Segment.sources, withHint, hu, Segment.number, Hint.text, hv]

theorem ofCard_withSection (c : Card) {t : Text} (hv : t.isVoid = false)
    (hb : Segment.hasBody t.normalize = true) :
    Segment.ofCard options (c.withSection t) = [⟨0, t, t.normalize, none⟩] := by
  simp [Segment.ofCard, Segment.sources, withSection, hv, Segment.number, hb]

/-- **Hint and text agree.**  A card whose only text is the hint of a printed activated ability is
read as the card whose only text is the printed ability: the two readings have the same abilities
and the same reports, or refuse the card for the same reason. -/
theorem read_hint_eq (hu : options.useHints = true) (c : Card) {l : Activated.Line}
    (h : l.IsPrinted c.cardType.objectKind) (hk : Keyword.entries? l.text = none) :
    (c.withHint l.hint).read options = (c.withSection l.text).read options := by
  have hproblem : (c.withHint l.hint).problem? = (c.withSection l.text).problem? := rfl
  have hctx : (c.withHint l.hint).context options = (c.withSection l.text).context options := rfl
  have hbody : Segment.hasBody l.text.normalize = true := by rw [h.text_normalize, h.hasBody_text]
  have hdraft : Draft.ofSegment ((c.withSection l.text).context options)
      ⟨0, l.text, l.text.normalize, some l.hint⟩ =
        Draft.ofSegment ((c.withSection l.text).context options)
          ⟨0, l.text, l.text.normalize, none⟩ := by
    have h : l.IsPrinted ((c.withSection l.text).context options).source := h
    rw [h.text_normalize, h.draft_ofSegment hk (.inr rfl), h.draft_ofSegment hk (.inl rfl)]
  rw [read, read, hproblem, ofCard_withHint hu c h.isVoid_text,
    ofCard_withSection c h.isVoid_text hbody, hctx]
  simp only [Assembly.read, List.map_cons, List.map_nil]
  rw [← hdraft]
  rfl

/-- Three costs in front of an effect with a dash of its own. -/
theorem read_hint_eq_mirror :
    let c : Card := { id := "c".toList, name := "n".toList, cardType := .item }
    let l : Activated.Line :=
      { name := ["MAGIC".toList, "MIRROR".toList]
        costs := ["2 \x7bI\x7d".toList, "\x7bE\x7d".toList, "Banish one of your items".toList]
        effect := "Draw a card — or two. They can't quest.".toList }
    Keyword.entries? l.text = none ∧
      (c.withHint l.hint).read {} = (c.withSection l.text).read {} := by
  intro c l
  have h : l.IsPrinted c.cardType.objectKind :=
    { name := by decide
      costs_ne_nil := by decide
      isToken := by
        simp only [l, List.forall_mem_cons]
        refine ⟨?_, ?_, ?_, by simp⟩ <;>
        · exact ⟨by decide, ⟨by decide +kernel, by decide +kernel⟩, by decide, by decide, by decide,
            by rw [← Text.has_iff]; decide⟩
      isKnown := by decide +kernel
      noLabel := by decide
      effect_ne_nil := by decide
      effect := ⟨by decide +kernel, by decide +kernel⟩ }
  have hk : Keyword.entries? l.text = none := by decide +kernel
  exact ⟨hk, read_hint_eq rfl c h hk⟩

end Card

end CardText
