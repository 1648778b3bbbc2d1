import CardText.Proofs.Ability.Accounting

/-!
# Compound triggers

A trigger with several events is split into one ability for each of them, or is kept as one.
Either way its abilities are the same but for their triggers.

* `Triggered.Splits`, `Shape.Splits`: what splitting leaves of a triggered ability, and of the shape
  of a segment (`Classified.ofSegment_splits`);
* `Draft.Shares`: drafts that are the same but for their triggers;
* `Draft.ofSegment_splitting`: the abilities of a segment with splitting and without.
-/

namespace CardText

/-- The same options with compound triggers split or not. -/
def Options.withSplitting (options : Options) (split : Bool) : Options :=
  { options with splitCompoundTriggers := split }

/-- What a text is read for, with compound triggers split or not. -/
def Context.withSplitting (ctx : Context) (split : Bool) : Context :=
  { ctx with options := ctx.options.withSplitting split }

theorem Context.withSplitting_eq_self (ctx : Context) :
    ctx.withSplitting ctx.options.splitCompoundTriggers = ctx := rfl

variable {ctx : Context}

/-! ### Triggers -/

namespace Triggered

/-- The ability `b` is `a` with its trigger split: the effect is the same, `a` has one trigger at
most, and all triggers agree in whether they happen once per turn. -/
structure Splits (a b : Triggered) : Prop where
  effect : b.effect = a.effect
  condition : b.condition = a.condition
  length_le : a.triggers.length ≤ 1
  oncePerTurn : ∀ x ∈ a.triggers, ∀ y ∈ b.triggers, y.oncePerTurn = x.oncePerTurn

/-- Without splitting a clause is one part at most. -/
theorem length_clauses_le {options : Options} (h : options.splitCompoundTriggers = false)
    (clause : Text) : (clauses options clause).length ≤ 1 := by
  rw [clauses, h]
  exact List.length_filter_le _ _

theorem oncePerTurn_of_mem_map {source : ObjectKind} {guard : Option Condition} {once : Bool}
    {parts : List Text} {x : Trigger} (h : x ∈ parts.map (trigger source guard once)) :
    x.oncePerTurn = once := by
  obtain ⟨part, -, rfl⟩ := List.mem_map.1 h
  rfl

theorem ofText?_splits (t : Text) :
    Option.Rel Splits (ofText? (ctx.withSplitting false) t)
      (ofText? (ctx.withSplitting true) t) := by
  rw [ofText?, ofText?]
  split
  · exact .none
  · split
    next rest _ =>
      generalize triggerWord.match? rest = m
      cases m with
      | none => exact .none
      | some m =>
        refine Option.Rel.some ?_
        exact
          { effect := rfl
            condition := rfl
            length_le := by
              rw [List.length_map]
              exact length_clauses_le rfl _
            oncePerTurn := fun x hx y hy =>
              (oncePerTurn_of_mem_map hy).trans (oncePerTurn_of_mem_map hx).symm }

end Triggered

/-! ### Shapes -/

namespace Shape

/-- A trigger with a trigger phrase that is recognised. -/
def isTriggered : Shape → Bool
  | .triggered (some _) _ => true
  | _ => false

/-- The shape `u` is `s` with its trigger split, if it has one. -/
inductive Splits : Shape → Shape → Prop
  | same {s : Shape} (h : s.isTriggered = false) : Splits s s
  | triggered {a b : Triggered} (h : a.Splits b) (effect : Text) :
      Splits (.triggered (some a) effect) (.triggered (some b) effect)

theorem Splits.isTriggered_eq {s u : Shape} (h : Splits s u) : u.isTriggered = s.isTriggered := by
  cases h <;> rfl

theorem splits_ofTriggered {a b : Triggered} (h : a.Splits b) :
    Splits (ofTriggered a) (ofTriggered b) := by
  rw [ofTriggered, ofTriggered, h.effect]
  exact .triggered h _

/-- A text is read as triggered with splitting if it is without, and as `other` otherwise. -/
theorem splits_of_ofText? {other other' : Shape} (h : Splits other other') (t : Text) :
    Splits
      (match Triggered.ofText? (ctx.withSplitting false) t with
        | some a => ofTriggered a
        | none => other)
      (match Triggered.ofText? (ctx.withSplitting true) t with
        | some b => ofTriggered b
        | none => other') := by
  have ht : Option.Rel Triggered.Splits (Triggered.ofText? (ctx.withSplitting false) t)
      (Triggered.ofText? (ctx.withSplitting true) t) := Triggered.ofText?_splits t
  generalize Triggered.ofText? (ctx.withSplitting false) t = x at ht ⊢
  generalize Triggered.ofText? (ctx.withSplitting true) t = y at ht ⊢
  cases ht with
  | none => exact h
  | some hab => exact splits_ofTriggered hab

theorem splits_ofBody (body : Text) :
    Splits (ofBody (ctx.withSplitting false) body) (ofBody (ctx.withSplitting true) body) := by
  have hs : ∀ b, (ctx.withSplitting b).source = ctx.source := fun _ => rfl
  rw [ofBody, ofBody, hs, hs]
  split
  · exact .same rfl
  · exact splits_of_ofText? (.same rfl) body

theorem splits_ofActivatedHint (h : Hint) (body effect : Text) :
    Splits (ofActivatedHint (ctx.withSplitting false) h body effect)
      (ofActivatedHint (ctx.withSplitting true) h body effect) := by
  have hs : ∀ b, (ctx.withSplitting b).source = ctx.source := fun _ => rfl
  rw [ofActivatedHint, ofActivatedHint, hs, hs]
  split
  · exact .same rfl
  · split
    · exact .same rfl
    · exact splits_ofBody body

theorem splits_ofHint (h : Hint) (body : Text) :
    Splits (ofHint (ctx.withSplitting false) h body) (ofHint (ctx.withSplitting true) h body) := by
  rw [ofHint, ofHint]
  split
  · exact splits_ofActivatedHint h body _
  · exact splits_of_ofText? (splits_of_ofText? (.same rfl) body) _
  · exact .same rfl
  · exact splits_ofBody body

end Shape

namespace Classified

/-- Splitting changes nothing about what a segment turns out to be but its triggers. -/
theorem exists_ofSegment_splits (ctx : Context) (s : Segment) : ∃ name body u v,
    Shape.Splits u v ∧ ofSegment (ctx.withSplitting false) s = ⟨name, body, u⟩ ∧
      ofSegment (ctx.withSplitting true) s = ⟨name, body, v⟩ := by
  rw [ofSegment, ofSegment]
  cases s.hint with
  | none =>
    simp only
    rw [ofText, ofText]
    split
    · exact ⟨_, _, _, _, .same rfl, rfl, rfl⟩
    · exact ⟨_, _, _, _, Shape.splits_ofBody _, rfl, rfl⟩
  | some h =>
    simp only
    rw [ofHint, ofHint]
    split
    · exact ⟨_, _, _, _, .same rfl, rfl, rfl⟩
    · split
      · exact ⟨_, _, _, _, .same rfl, rfl, rfl⟩
      · exact ⟨_, _, _, _, Shape.splits_ofHint h _, rfl, rfl⟩

end Classified

/-! ### Steps -/

theorem Reading.ofClauses_withSplitting (ctx : Context) (split : Bool) (thread : Thread)
    (clauses : List Text) :
    ofClauses (ctx.withSplitting split) thread clauses = ofClauses ctx thread clauses := by
  induction clauses generalizing thread with
  | nil => rfl
  | cons clause clauses ih =>
    have hc : ofClause (ctx.withSplitting split) thread clause = ofClause ctx thread clause := rfl
    rw [ofClauses, ofClauses, hc]
    simp only [ih]

theorem Step.ofSentences_withSplitting (ctx : Context) (split : Bool)
    (antecedent : Option Selector) (sentences : List Text) :
    ofSentences (ctx.withSplitting split) antecedent sentences =
      ofSentences ctx antecedent sentences := by
  induction sentences generalizing antecedent with
  | nil => rfl
  | cons sentence sentences ih =>
    simp only [ofSentences, ofSentence, Reading.ofClauses_withSplitting, ih]

/-- Splitting has no part in the steps of an effect. -/
theorem Step.ofEffect_withSplitting (ctx : Context) (split : Bool) (t : Text) :
    ofEffect (ctx.withSplitting split) t = ofEffect ctx t :=
  ofSentences_withSplitting ctx split none _

/-! ### Drafts -/

namespace Draft

/-- The drafts are the same but for what their triggers say beyond how often they happen. -/
structure Shares (e d : Draft) : Prop where
  fields : { e with trigger := none } = { d with trigger := none }
  oncePerTurn : e.trigger.map (·.oncePerTurn) = d.trigger.map (·.oncePerTurn)

variable {u v : Shape} {d e : Draft}

theorem effectSteps_withSplitting (ctx : Context) (split : Bool) (effect body : Text) :
    effectSteps (ctx.withSplitting split) effect body = effectSteps ctx effect body := by
  rw [effectSteps, effectSteps, Step.ofEffect_withSplitting]
  rfl

/-- Whether triggers are split shows in the shape of a segment alone. -/
theorem ofClassified_withSplitting (ctx : Context) (split : Bool) (raw : Text) (c : Classified) :
    ofClassified (ctx.withSplitting split) raw c = ofClassified ctx raw c := by
  simp only [ofClassified, effectSteps_withSplitting]
  rfl

theorem ofClassified_eq_of_splits (h : Shape.Splits u v) (hu : u.isTriggered = false)
    (raw : Text) (name : Option Text) (body : Text) :
    ofClassified ctx raw ⟨name, body, v⟩ = ofClassified ctx raw ⟨name, body, u⟩ := by
  cases h with
  | same => rfl
  | triggered => cases hu

/-- The drafts of a trigger that is split have the steps of the one that is not. -/
theorem shares_of_splits (ctx : Context) (h : Shape.Splits u v) (hu : u.isTriggered = true)
    (raw : Text) (name : Option Text) (body : Text) :
    (ofClassified ctx raw ⟨name, body, u⟩).length ≤ 1 ∧
      ∀ d ∈ ofClassified ctx raw ⟨name, body, u⟩, ∀ e ∈ ofClassified ctx raw ⟨name, body, v⟩,
        e.Shares d := by
  cases h with
  | same hf => rw [hf] at hu; cases hu
  | @triggered a b hab effect =>
    simp only [ofClassified, hab.condition]
    refine ⟨by simpa using hab.length_le, fun d hd e he => ?_⟩
    obtain ⟨x, hx, rfl⟩ := List.mem_map.1 hd
    obtain ⟨y, hy, rfl⟩ := List.mem_map.1 he
    exact ⟨rfl, congrArg some (hab.oncePerTurn x hx y hy)⟩

/-- **Splitting a compound trigger** changes nothing but the triggers.  A segment has an ability
with splitting if it has one without; the two readings are equal where the segment has no trigger
phrase that is recognised; and where it has one, there is a single ability without splitting, which
all those with splitting share, unless the clause of the trigger is missing. -/
theorem ofSegment_splitting (ctx : Context) (s : Segment) :
    let off := ofSegment (ctx.withSplitting false) s
    let on := ofSegment (ctx.withSplitting true) s
    (off = [] ↔ on = []) ∧
      ((Classified.ofSegment ctx s).shape.isTriggered = false → on = off) ∧
      ((Classified.ofSegment ctx s).shape.isTriggered = true →
        ((∃ d, off = [d] ∧ on ≠ [] ∧ ∀ e ∈ on, e.Shares d) ↔ ¬ s.LacksClause)) := by
  intro off on
  obtain ⟨name, body, u, v, hsplits, hu, hv⟩ := Classified.exists_ofSegment_splits ctx s
  have hoff : off = ofClassified ctx s.raw ⟨name, body, u⟩ := by
    rw [← ofClassified_withSplitting ctx false, ← hu]
    rfl
  have hon : on = ofClassified ctx s.raw ⟨name, body, v⟩ := by
    rw [← ofClassified_withSplitting ctx true, ← hv]
    rfl
  -- the context itself splits triggers or does not
  have hshape : (Classified.ofSegment ctx s).shape.isTriggered = u.isTriggered := by
    rw [← ctx.withSplitting_eq_self]
    cases ctx.options.splitCompoundTriggers with
    | false => rw [hu]
    | true => rw [hv, hsplits.isTriggered_eq]
  have hoffNil : off = [] ↔ s.LacksClause := ofSegment_eq_nil_iff _
  have honNil : on = [] ↔ s.LacksClause := ofSegment_eq_nil_iff _
  refine ⟨hoffNil.trans honNil.symm, fun h => ?_, fun h => ?_⟩
  · rw [hon, hoff]
    exact ofClassified_eq_of_splits hsplits (hshape.symm.trans h) s.raw name body
  · obtain ⟨hlen, hshares⟩ := shares_of_splits ctx hsplits (hshape.symm.trans h) s.raw name body
    rw [← hoff] at hlen hshares
    rw [← hon] at hshares
    constructor
    · rintro ⟨d, -, hne, -⟩ hl
      exact hne (honNil.2 hl)
    · intro hl
      have hne : off ≠ [] := fun hn => hl (hoffNil.1 hn)
      obtain ⟨d, hd⟩ := List.length_eq_one_iff.1
        (le_antisymm hlen (List.length_pos_iff.2 hne))
      exact ⟨d, hd, fun hn => hl (honNil.1 hn), fun e he => hshares d (by simp [hd]) e he⟩

/-- Two events under one limit: two abilities with the steps of one. -/
theorem ofSegment_splitting_questAndSing :
    let ctx : Context := { source := .character }
    let text : Text :=
      "SING ALONG Once per turn, whenever she quests or when she sings, draw a card.".toList
    let s : Segment := ⟨0, text, text, none⟩
    (Classified.ofSegment ctx s).shape.isTriggered = true ∧
      (ofSegment (ctx.withSplitting true) s).length = 2 ∧
      ∃ d, ofSegment (ctx.withSplitting false) s = [d] ∧
        ofSegment (ctx.withSplitting true) s ≠ [] ∧
        ∀ e ∈ ofSegment (ctx.withSplitting true) s, e.Shares d := by
  intro ctx text s
  have ht : (Classified.ofSegment ctx s).shape.isTriggered = true := by decide +kernel
  exact ⟨ht, by decide +kernel,
    ((ofSegment_splitting ctx s).2.2 ht).2 fun ⟨_, hh, _⟩ => by cases hh⟩

/-- The effect "When , draw a card." of a hint has a trigger phrase and no ability, with splitting
or without. -/
theorem ofSegment_splitting_whenComma :
    let ctx : Context := { source := .character }
    let h : Hint :=
      { hintType := some .triggered, effect := some "When , draw a card.".toList
        fullText := "When, draw a card.".toList }
    let s : Segment :=
      ⟨0, "When, draw a card.".toList, "When, draw a card.".toList, some h⟩
    (Classified.ofSegment ctx s).shape.isTriggered = true ∧
      ofSegment (ctx.withSplitting false) s = [] ∧ ofSegment (ctx.withSplitting true) s = [] := by
  decide +kernel

end Draft

end CardText
