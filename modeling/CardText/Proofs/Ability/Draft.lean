import CardText.Proofs.Ability.Assembly
import CardText.Proofs.Selector.WellFormed

/-!
# Where drafts come from

A draft stands for a keyword, or it is read from text: each cost from a token, the trigger from a
clause, the steps from an effect. What holds of each of these holds of every draft.

* `Event.IsSubject`: who or what an event can happen to (`Event.isSubject_ofClause`), which nobody
  chooses (`Event.IsSubject.spec`);
* `Shape.IsRead`: what a segment turns out to be, by tokens and clauses;
* `Draft.IsRead`: how a draft comes about (`Draft.isRead_of_mem_ofSegment`).
-/

namespace CardText

/-! ### Subjects -/

namespace Event

/-- The selector is the subject of some event: the source card, what a phrase of the clause names, or
the players whose turn is meant. The wording of the event may tell whose object it is. -/
inductive IsSubject (source : ObjectKind) : Selector → Prop
  | this : IsSubject source (.this source)
  | subject (t : Text) : IsSubject source (subject source t)
  | owned (t : Text) (o : Owner) : IsSubject source { subject source t with owner := o }
  | turn (whose : Text) : IsSubject source (turnSubject whose)

/-- One of three ways to read the subject. -/
theorem isSubject_of_mem_wordings {w : Wording} (h : w ∈ wordings) (source : ObjectKind)
    (t : Text) : IsSubject source (w.read source t).2 := by
  simp only [wordings, List.mem_cons, List.not_mem_nil, or_false] at h
  rcases h with rfl | rfl | rfl | rfl | rfl | rfl | rfl | rfl | rfl | rfl | rfl | rfl | rfl | rfl |
    rfl | rfl | rfl | rfl | rfl | rfl | rfl <;>
    first | exact .subject t | exact .owned t _ | exact .turn t

theorem isSubject_ofClause (source : ObjectKind) (clause : Text) :
    IsSubject source (ofClause source clause).2 := by
  rw [ofClause]
  split
  · next r hr =>
    obtain ⟨w, hw, hm⟩ := List.exists_of_findSome?_eq_some hr
    obtain ⟨m, -, rfl⟩ := Option.map_eq_some_iff.1 hm
    exact isSubject_of_mem_wordings hw source _
  · exact .this

/-- A choice is widened to any object that could be chosen. -/
theorem subject_spec (source : ObjectKind) (t : Text) : (subject source t).IsWellFormed ∧
    (subject source t).quantifier ≠ .previous ∧ ∀ n, (subject source t).quantifier ≠ .chosen n := by
  rw [subject]
  split
  · exact ⟨.this _, by simp [Selector.this], by simp [Selector.this]⟩
  · have h := Selector.isWellFormed_ofPhrase_none source t
    simp only
    split
    · exact ⟨h.withQuantifier _, by simp, by simp⟩
    · next hq => exact ⟨h, Selector.quantifier_ofPhrase_none source t, hq⟩

/-- What an event happens to is well-formed, it was not picked before, and nobody chooses it. -/
theorem IsSubject.spec {source : ObjectKind} {s : Selector} (h : IsSubject source s) :
    s.IsWellFormed ∧ s.quantifier ≠ .previous ∧ ∀ n, s.quantifier ≠ .chosen n := by
  have players : ∀ o, (Selector.players .each o).IsWellFormed ∧
      (Selector.players .each o).quantifier ≠ .previous ∧
        ∀ n, (Selector.players .each o).quantifier ≠ .chosen n :=
    fun o => ⟨.players _ o, by simp [Selector.players], by simp [Selector.players]⟩
  cases h with
  | this => exact ⟨.this source, by simp [Selector.this], by simp [Selector.this]⟩
  | subject t => exact subject_spec source t
  | owned t o =>
    obtain ⟨h, hq⟩ := subject_spec source t
    exact ⟨h.alike ((Selector.Alike.refl _).withOwner o), hq⟩
  | turn whose =>
    rw [turnSubject]
    cases turnOwner whose
    · exact players .you
    · exact players .opponent
    · exact players .any

end Event

theorem Triggered.isSubject_of_ofText? {ctx : Context} {t : Text} {a : Triggered}
    (h : ofText? ctx t = some a) : ∀ trigger ∈ a.triggers,
      Event.IsSubject ctx.source trigger.subject := by
  intro trigger ht
  rw [ofText?] at h
  split at h
  · cases h
  · simp only at h
    split at h
    · cases h
    · cases h
      obtain ⟨clause, -, rfl⟩ := List.mem_map.1 ht
      simp only [Triggered.trigger]
      exact Event.isSubject_ofClause ctx.source _

/-! ### Shapes -/

namespace Shape

/-- The costs of the shape are read from tokens, and its triggers from clauses. -/
inductive IsRead (source : ObjectKind) : Shape → Prop
  | keyword (entries : List Keyword.Entry) : IsRead source (.keyword entries)
  | activated (tokens : List Text) (effect : Text) :
      IsRead source (.activated (Cost.listOfTokens source tokens) effect)
  | triggered {t : Triggered}
      (subjects : ∀ trigger ∈ t.triggers, Event.IsSubject source trigger.subject)
      (effect : Text) : IsRead source (.triggered (some t) effect)
  | hinted (effect : Text) : IsRead source (.triggered none effect)
  | static (effect : Text) : IsRead source (.static effect)

theorem isRead_ofTriggered {ctx : Context} {t : Text} {a : Triggered}
    (h : Triggered.ofText? ctx t = some a) : (ofTriggered a).IsRead ctx.source :=
  .triggered (Triggered.isSubject_of_ofText? h) a.effect

theorem isRead_ofBody (ctx : Context) (body : Text) : (ofBody ctx body).IsRead ctx.source := by
  rw [ofBody]
  split
  · exact .activated _ _
  · split
    · next t ht => exact isRead_ofTriggered ht
    · exact .static body

theorem isRead_ofTriggeredHint (ctx : Context) (body effect : Text) :
    (ofTriggeredHint ctx body effect).IsRead ctx.source := by
  rw [ofTriggeredHint]
  split
  · next t ht => exact isRead_ofTriggered ht
  · split
    · next t ht => exact isRead_ofTriggered ht
    · exact .hinted effect

theorem isRead_ofActivatedHint (ctx : Context) (h : Hint) (body effect : Text) :
    (ofActivatedHint ctx h body effect).IsRead ctx.source := by
  rw [ofActivatedHint]
  split_ifs
  · exact .activated _ effect
  · split
    · exact .activated _ effect
    · exact isRead_ofBody ctx body

theorem isRead_ofHint (ctx : Context) (h : Hint) (body : Text) :
    (ofHint ctx h body).IsRead ctx.source := by
  rw [ofHint]
  split
  · exact isRead_ofActivatedHint ctx h body _
  · exact isRead_ofTriggeredHint ctx body _
  · exact .static _
  · exact isRead_ofBody ctx body

end Shape

theorem Classified.isRead_ofSegment (ctx : Context) (s : Segment) :
    (ofSegment ctx s).shape.IsRead ctx.source := by
  rw [ofSegment]
  split
  · next h _ =>
    rw [ofHint]
    simp only
    split
    · exact .keyword _
    · split
      · exact .keyword _
      · exact Shape.isRead_ofHint ctx h _
  · rw [ofText]
    split
    · exact .keyword _
    · exact Shape.isRead_ofBody ctx s.text.body.stripLabel.2

/-! ### Drafts -/

namespace Draft

theorem map_withCondition_none (steps : List Step) : steps.map (withCondition none) = steps := by
  have hid : withCondition none = id := by
    funext s
    simp [withCondition]
  rw [hid, List.map_id]

/-- How the draft comes about: it stands for a keyword, or its steps are those of an effect, its
costs read from tokens and its trigger from a clause. -/
inductive IsRead (ctx : Context) : Draft → Prop
  | keyword (e : Keyword.Entry) (raw : Text) (name : Option Text) :
      IsRead ctx { ofKeyword ctx.source e raw with name }
  | text {d : Draft} {effect body : Text} {condition : Option Condition}
      (effects : d.effects = (effectSteps ctx effect body).map (withCondition condition))
      (costs : ∀ c ∈ d.costs, ∃ token, c = Cost.ofToken ctx.source token)
      (trigger : ∀ t ∈ d.trigger, Event.IsSubject ctx.source t.subject) : IsRead ctx d

/-- One case for each shape. -/
theorem isRead_of_mem_ofSegment {ctx : Context} {s : Segment} {d : Draft}
    (h : d ∈ ofSegment ctx s) : d.IsRead ctx := by
  have hs := Classified.isRead_ofSegment ctx s
  rw [ofSegment, ofClassified] at h
  split at h
  · obtain ⟨e, -, rfl⟩ := List.mem_map.1 h
    exact .keyword e s.raw _
  · next costs effect hshape =>
    rw [hshape] at hs
    cases hs with
    | activated tokens =>
      rw [List.mem_singleton.1 h]
      refine .text (map_withCondition_none _).symm (fun c hc => ?_) (by simp)
      obtain ⟨token, -, rfl⟩ := List.mem_map.1 hc
      exact ⟨token, rfl⟩
  · next t effect hshape =>
    rw [hshape] at hs
    cases hs with
    | triggered subjects =>
      obtain ⟨trigger, ht, rfl⟩ := List.mem_map.1 h
      exact .text rfl (by simp) (by simpa using subjects trigger ht)
  · rw [List.mem_singleton.1 h]
    exact .text (map_withCondition_none _).symm (by simp) (by simpa using .this)
  · rw [List.mem_singleton.1 h]
    exact .text (map_withCondition_none _).symm (by simp) (by simp)

end Draft

end CardText
