import Mathlib.Algebra.GroupWithZero.Nat
import CardText.Proofs.Ability.Identity
import CardText.Proofs.Effect.Strict

/-!
# Strict reading of cards

Strict reading changes nothing about a card but the steps of its abilities and, with these, which
abilities are left out.

* `Step.ofEffect_strict_eq_nil`: an effect without steps has none in strict reading;
* `Classified.ofSegment_withStrict`: the shape of a segment is the same;
* `Draft.ofSegment_strict`: so are the drafts, one by one, but for their steps;
* `Assembly.tally`: the abilities of a segment and the reports of those left out;
  `Assembly.tally_read` says that every draft is one or the other;
* `Card.read_strict`: what the two readings of a card have in common.
-/

namespace CardText

/-- The same options with strict reading or without. -/
def Options.withStrict (options : Options) (strict : Bool) : Options := { options with strict }

/-! ### Effects without steps -/

/-- What strict reading keeps of no steps. -/
theorem Reading.keptSteps_eq_nil {rs : List Reading} (h : rs.flatMap (·.steps) = []) (kept : Bool) :
    keptSteps kept rs = [] := by
  induction rs generalizing kept with
  | nil => rfl
  | cons r rs ih =>
    rw [List.flatMap_cons, List.append_eq_nil_iff] at h
    rw [keptSteps]
    split_ifs
    · rw [h.1, ih h.2]
      rfl
    · exact ih h.2 kept

theorem Step.inSentence_eq_nil_iff {frame : Frame} {steps : List Step} :
    inSentence frame steps = [] ↔ steps = [] := by
  rw [inSentence_eq, List.map_eq_nil_iff]

/-- An effect without steps has none in strict reading. -/
theorem Step.ofEffect_strict_eq_nil {ctx : Context} {t : Text}
    (h : ofEffect (ctx.withStrict false) t = []) : ofEffect (ctx.withStrict true) t = [] := by
  rw [ofEffect, ofSentences_eq, List.flatMap_eq_nil_iff] at h
  rw [ofEffect, ofSentences_strict_eq, List.flatMap_eq_nil_iff]
  intro r hr
  exact inSentence_eq_nil_iff.2
    (Reading.keptSteps_eq_nil (inSentence_eq_nil_iff.1 (h r hr)) false)

/-! ### Shapes -/

namespace Shape

variable (ctx : Context) (strict : Bool)

theorem ofBody_withStrict (body : Text) : ofBody (ctx.withStrict strict) body = ofBody ctx body :=
  rfl

theorem ofTriggeredHint_withStrict (body effect : Text) :
    ofTriggeredHint (ctx.withStrict strict) body effect = ofTriggeredHint ctx body effect := rfl

theorem ofHint_withStrict (h : Hint) (body : Text) :
    ofHint (ctx.withStrict strict) h body = ofHint ctx h body := by
  simp only [ofHint, ofTriggeredHint_withStrict, ofActivatedHint, ofBody_withStrict]
  rfl

end Shape

/-- Strict reading has no part in what a segment turns out to be. -/
theorem Classified.ofSegment_withStrict (ctx : Context) (strict : Bool) (s : Segment) :
    ofSegment (ctx.withStrict strict) s = ofSegment ctx s := by
  simp only [ofSegment, ofHint, ofText, Shape.ofHint_withStrict, Shape.ofBody_withStrict]

/-! ### Drafts -/

namespace Draft

/-- The draft without its steps. -/
def heading (d : Draft) : Draft := { d with effects := [] }

/-- The draft `d'` is `d` but for its steps, and has none if `d` has none. -/
structure Weakens (d' d : Draft) : Prop where
  heading_eq : d'.heading = d.heading
  effects_eq_nil : d.effects = [] → d'.effects = []

theorem Weakens.refl (d : Draft) : Weakens d d := ⟨rfl, id⟩

/-- Other steps in the same draft. -/
theorem Weakens.of_effects (d : Draft) {es' es : List Step} (h : es = [] → es' = []) :
    Weakens { d with effects := es' } { d with effects := es } := ⟨rfl, h⟩

variable {ctx : Context}

theorem effectSteps_strict_eq_nil {effect body : Text}
    (h : effectSteps (ctx.withStrict false) effect body = []) :
    effectSteps (ctx.withStrict true) effect body = [] := by
  have hs : effectSteps (ctx.withStrict true) effect body =
      Step.ofEffect (ctx.withStrict true) effect :=
    (effectSteps_eq (ctx.withStrict true) effect body).resolve_right fun hk => by cases hk.1
  rw [hs]
  refine Step.ofEffect_strict_eq_nil ?_
  rcases effectSteps_eq (ctx.withStrict false) effect body with he | ⟨-, clause, he⟩
  · rw [← he, h]
  · rw [he] at h
    cases h

/-- One case for each shape. -/
theorem ofClassified_strict (ctx : Context) (raw : Text) (c : Classified) :
    List.Forall₂ Weakens (ofClassified (ctx.withStrict true) raw c)
      (ofClassified (ctx.withStrict false) raw c) := by
  rw [ofClassified, ofClassified]
  split
  · exact List.forall₂_same.2 fun d _ => .refl d
  · next costs _ _ =>
    exact .cons (.of_effects ⟨.activated, c.name, none, raw, costs, none, []⟩
      effectSteps_strict_eq_nil) .nil
  · rw [List.forall₂_map_left_iff, List.forall₂_map_right_iff, List.forall₂_same]
    intro trigger _
    refine .of_effects ⟨.triggered, c.name, none, raw, [], some trigger, []⟩ fun h => ?_
    rw [List.map_eq_nil_iff] at h ⊢
    exact effectSteps_strict_eq_nil h
  · exact .cons (.of_effects ⟨.triggered, c.name, none, raw, [], _, []⟩
      effectSteps_strict_eq_nil) .nil
  · exact .cons (.of_effects ⟨.static, c.name, none, raw, [], none, []⟩
      effectSteps_strict_eq_nil) .nil

/-- The drafts of a segment are the same but for their steps. -/
theorem ofSegment_strict (ctx : Context) (s : Segment) :
    List.Forall₂ Weakens (ofSegment (ctx.withStrict true) s)
      (ofSegment (ctx.withStrict false) s) := by
  rw [ofSegment, ofSegment, Classified.ofSegment_withStrict, Classified.ofSegment_withStrict]
  exact ofClassified_strict ctx s.raw _

end Draft

/-! ### Abilities -/

/-- The ability without its steps. -/
def Ability.heading (a : Ability) : Ability := { a with effects := [] }

theorem Draft.heading_toAbility (d : Draft) (id cardId : Text) :
    (d.toAbility id cardId).heading = (d.heading.toAbility id cardId) := rfl

namespace Assembly

variable {ds' ds : List Draft} {segments : List Segment}

/-- Of drafts that are the same but for their steps, those with fewer steps give fewer abilities. -/
theorem abilitiesOf_sublist (h : List.Forall₂ Draft.Weakens ds' ds) (cardId : Text) (n : Nat) :
    ((abilitiesOf cardId n ds').map Ability.heading).Sublist
      ((abilitiesOf cardId n ds).map Ability.heading) := by
  rw [abilitiesOf, abilitiesOf, List.map_map, List.map_map, h.length_eq]
  -- the count in the ids and the first number stay fixed while the lists are walked through
  generalize ds.length = count
  generalize 0 = k
  induction h generalizing k with
  | nil => exact .slnil
  | @cons d' d ds' ds hd _ ih =>
    rw [List.zipIdx_cons, List.zipIdx_cons, List.filter_cons, List.filter_cons]
    by_cases he' : d'.effects = []
    · rw [if_neg (by simp [he'])]
      by_cases he : d.effects = []
      · rw [if_neg (by simp [he])]
        exact ih (k + 1)
      · rw [if_pos (by simp [he]), List.map_cons]
        exact (ih (k + 1)).cons _
    · have he : d.effects ≠ [] := fun he => he' (hd.effects_eq_nil he)
      rw [if_pos (by simpa using he'), if_pos (by simpa using he), List.map_cons, List.map_cons]
      simp only [Function.comp_apply, Draft.heading_toAbility, hd.heading_eq]
      exact (ih (k + 1)).cons_cons _

/-- So it is for all the segments together. -/
theorem abilities_read_strict_sublist (cardId : Text) (ctx : Context) (segments : List Segment) :
    ((Assembly.read cardId (ctx.withStrict true) segments).abilities.map Ability.heading).Sublist
      ((Assembly.read cardId (ctx.withStrict false) segments).abilities.map Ability.heading) := by
  simp only [Assembly.read, ofSegments, List.flatMap_map, List.map_flatMap]
  induction segments with
  | nil => exact .slnil
  | cons s segments ih =>
    rw [List.flatMap_cons, List.flatMap_cons]
    exact (abilitiesOf_sublist (Draft.ofSegment_strict ctx s) cardId s.index).append ih

end Assembly

/-! ### The tally of a segment -/

/-- The id belongs to the segment at `n`: it is the card id with that number behind it, and there it
ends or has another hyphen. -/
def Ability.isOn (cardId : Text) (n : Nat) (a : Ability) : Bool :=
  a.id == cardId.hyphened n || (cardId.hyphened n ++ ['-']).isPrefixOf a.id

/-- The report is on an ability of the segment at `n` that was left out. -/
def Diagnostic.isOmission (n : Nat) (x : Diagnostic) : Bool :=
  x.segment == n && x.kind == .noEffects

namespace Ability

/-- An ability belongs to the segment that it gets its id from. -/
theorem isOn_toAbility (d : Draft) (cardId : Text) (m n i count : Nat) :
    (d.toAbility (makeId cardId m i count) cardId).isOn cardId n = (m == n) := by
  rw [Bool.eq_iff_iff, isOn, Bool.or_eq_true, beq_iff_eq, List.isPrefixOf_iff_prefix, beq_iff_eq]
  rw [show (d.toAbility (makeId cardId m i count) cardId).id = makeId cardId m i count from rfl,
    makeId_eq]
  by_cases hc : 1 < count
  -- of the two numbers in the id, and of a single one, the first ends where its digits end
  · rw [if_pos hc, Text.hyphened_inj]
    constructor
    · rintro (⟨h, -⟩ | ⟨rest, h⟩)
      · exact absurd h (Text.hyphened_ne_self cardId m)
      · simp only [Text.hyphened, List.append_assoc, List.cons_append, List.nil_append,
          List.append_cancel_left_eq, List.cons.injEq, true_and] at h
        exact (Text.ofNat_append_inj rfl rfl h).symm
    · rintro rfl
      exact .inr ⟨Text.ofNat (i + 1), by simp [Text.hyphened]⟩
  · rw [if_neg hc, Text.hyphened_inj]
    constructor
    · rintro (⟨-, h⟩ | ⟨rest, h⟩)
      · exact h
      · simp only [Text.hyphened, List.append_assoc, List.cons_append, List.nil_append,
          List.append_cancel_left_eq, List.cons.injEq, true_and] at h
        exact (Text.ofNat_append_inj (t := []) rfl rfl (by simpa using h)).symm
    · rintro rfl
      exact .inl ⟨rfl, rfl⟩

end Ability

namespace Assembly

/-- The abilities of the segment at `n` together with the reports of those left out. -/
def tally (p : Assembly) (cardId : Text) (n : Nat) : Nat :=
  p.abilities.countP (Ability.isOn cardId n) + p.diagnostics.countP (Diagnostic.isOmission n)

theorem countP_isOn_abilitiesOf (cardId : Text) (m n : Nat) (ds : List Draft) :
    (abilitiesOf cardId m ds).countP (Ability.isOn cardId n) =
      if m = n then ds.countP (fun d => !d.effects.isEmpty) else 0 := by
  have hon : ∀ a ∈ abilitiesOf cardId m ds, a.isOn cardId n = (m == n) := by
    intro a ha
    obtain ⟨d, i, -, -, rfl⟩ := mem_abilitiesOf.1 ha
    exact Ability.isOn_toAbility d cardId m n i ds.length
  by_cases h : m = n
  · have hl := congrArg List.length (map_toDraft_abilitiesOf cardId m ds)
    rw [List.length_map, ← List.countP_eq_length_filter] at hl
    rw [if_pos h, ← hl, List.countP_eq_length]
    exact fun a ha => by simp [hon a ha, h]
  · rw [if_neg h, List.countP_eq_zero]
    exact fun a ha => by simp [hon a ha, h]

theorem countP_isOmission_diagnose (cardId : Text) (m n : Nat) (flagged : Bool) (ds : List Draft) :
    (diagnose cardId m flagged ds).countP (Diagnostic.isOmission n) =
      if m = n then ds.countP (fun d => d.effects.isEmpty) else 0 := by
  by_cases h : m = n
  · subst h
    have hf := congrArg List.length (filter_noEffects_diagnose cardId m flagged ds)
    rw [List.length_map, ← List.countP_eq_length_filter, ← List.countP_eq_length_filter] at hf
    rw [if_pos rfl]
    exact hf
  · rw [if_neg h, List.countP_eq_zero]
    intro x hx
    simp [Diagnostic.isOmission, (segment_of_mem_diagnose hx).2, h]

/-- Every draft of a segment becomes an ability or is reported as left out. -/
theorem tally_read (cardId : Text) (ctx : Context) (segments : List Segment) (n : Nat) :
    (Assembly.read cardId ctx segments).tally cardId n =
      ((segments.filter fun s => s.index = n).map fun s => (Draft.ofSegment ctx s).length).sum := by
  simp only [tally, Assembly.read, ofSegments, List.flatMap_map]
  induction segments with
  | nil => rfl
  | cons s segments ih =>
    rw [List.flatMap_cons, List.flatMap_cons, List.countP_append, List.countP_append,
      countP_isOn_abilitiesOf, countP_isOmission_diagnose, List.filter_cons]
    by_cases h : s.index = n
    · have hl : (Draft.ofSegment ctx s).length =
          (Draft.ofSegment ctx s).countP (fun d => d.effects.isEmpty) +
            (Draft.ofSegment ctx s).countP (fun d => !d.effects.isEmpty) := by
        rw [List.length_eq_countP_add_countP fun d : Draft => d.effects.isEmpty]
        simp only [Bool.not_eq_true, Bool.decide_eq_false]
      -- the drafts with steps are abilities, the others are reported
      simp only [h, decide_true, if_true, List.map_cons, List.sum_cons, ← ih, hl]
      omega
    · simpa [h] using ih

end Assembly

/-! ### Cards -/

/-- **Strict reading keeps identity and shape.**  A card that strict reading refuses is refused
otherwise, for the same reason.  Where it is read, the abilities of strict reading are among those
of the other reading, in the same order and with the same id, card id, type, name, keyword, text,
costs and trigger, and on every segment there are as many abilities together with those left
out. -/
theorem Card.read_strict (options : Options) (c : Card) :
    (∃ e, c.read (options.withStrict true) = .error e ∧
      c.read (options.withStrict false) = .error e) ∨
    ∃ p q, c.read (options.withStrict true) = .ok p ∧ c.read (options.withStrict false) = .ok q ∧
      (p.abilities.map Ability.heading).Sublist (q.abilities.map Ability.heading) ∧
      ∀ n, p.tally c.id n = q.tally c.id n := by
  rw [Card.read, Card.read]
  cases c.problem? with
  | some e => exact .inl ⟨e, rfl, rfl⟩
  | none =>
    refine .inr ⟨_, _, rfl, rfl,
      Assembly.abilities_read_strict_sublist c.id (c.context options) (Segment.ofCard options c),
      fun n => ?_⟩
    have hlen := fun s => (Draft.ofSegment_strict (c.context options) s).length_eq
    rw [Assembly.tally_read, Assembly.tally_read]
    exact congrArg List.sum (List.map_congr_left fun s _ => hlen s)

end CardText
