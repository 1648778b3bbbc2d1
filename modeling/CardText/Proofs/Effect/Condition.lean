import Mathlib.Data.List.Forall2
import CardText.Proofs.Effect.Proper
import CardText.Proofs.Effect.Table

/-!
# The conditions of a step

A clause can end with a condition, and any number of conditions can stand in front of its sentence.
All of them hold for each step of the clause, which has one place for a condition.

* `Frame.gates`, `Modifiers.gate?`: the conditions in front of a sentence and at the end of a
  clause, with their phrases;
* `Step.gates`: the conditions that each step of an effect stands under, in the order in which they
  claim its place;
* `Step.Answers`: the first of them has the place, so that the others are shown only if they are the
  same, or happen to be printed in the note or in the text of the step;
* `Step.answers_ofEffect`: every step of an effect answers to its conditions.
-/

namespace CardText

open Template

/-- A condition and the phrase it is printed with. -/
structure Gate where
  phrase : Text
  condition : Condition
  deriving Repr, DecidableEq

/-! ### In front of a sentence -/

namespace Frame

/-- The condition that a phrase states. -/
def Front.condition? : Front → Option Condition
  | condition c => some c
  | _ => none

/-- The phrase that a sentence opens with, what it says, and the sentence without it. -/
def opening? (t : Text) : Option (Text × Front × Text) :=
  fronts.findSome? fun f => (f.1.match? t).map fun m =>
    (m.slot (), f.2 (m.slot ()), Text.dropLeading Text.isBlank m.rest)

theorem front?_eq (t : Text) : front? t = (opening? t).map (·.2) := by
  rw [front?, opening?, List.map_findSome?]
  simp only [Function.comp_def, Option.map_map]

theorem length_of_opening? {t phrase rest : Text} {front : Front}
    (h : opening? t = some (phrase, front, rest)) : rest.length < t.length := by
  have hf : front? t = some (front, rest) := by rw [front?_eq, h, Option.map_some]
  exact length_of_front? hf

/-- The conditions in front of a sentence, the first one in front. -/
def gates (t : Text) : List Gate :=
  match h : opening? t with
  | none => []
  | some (phrase, front, rest) =>
    have : rest.length < t.length := length_of_opening? h
    (front.condition?.map (Gate.mk phrase)).toList ++ gates rest
termination_by t.length

theorem gates_of_none {t : Text} (h : opening? t = none) : gates t = [] := by
  rw [gates]
  split <;> simp_all

theorem gates_of_some {t phrase rest : Text} {front : Front}
    (h : opening? t = some (phrase, front, rest)) :
    gates t = (front.condition?.map (Gate.mk phrase)).toList ++ gates rest := by
  rw [gates]
  split <;> simp_all

theorem condition_add (frame : Frame) (front : Front) :
    (frame.add front).condition = frame.condition.or front.condition? := by
  cases front <;> simp [add, Front.condition?]

/-- Of the conditions in front of a sentence the first one stays. -/
theorem condition_take (frame : Frame) (t : Text) :
    (take frame t).1.condition = frame.condition.or ((gates t).head?.map (·.condition)) := by
  fun_induction take frame t with
  | case1 frame t h =>
    have ho : opening? t = none := by simpa [front?_eq] using h
    simp [gates_of_none ho]
  | case2 frame t front rest h _ ih =>
    obtain ⟨⟨phrase, _, _⟩, ho, he⟩ := Option.map_eq_some_iff.1 (front?_eq t ▸ h)
    cases he
    rw [ih, condition_add, gates_of_some ho, List.head?_append, Option.map_or, Option.or_assoc]
    cases front.condition? <;> rfl

theorem condition_ofSentence (t : Text) :
    (ofSentence t).1.condition = (gates t.trim).head?.map (·.condition) := by
  rw [ofSentence, condition_take, Option.none_or]

end Frame

/-! ### At the end of a clause -/

namespace Modifiers

/-- The condition at the end of a clause; one in quotes belongs to the quoted ability. -/
def gate? (clause : Text) : Option Gate :=
  if clause.tidy.contains '"' then none
  else (ifClause.match? (takeDuration (takeMay clause.tidy).2).2).map fun m =>
    ⟨m.slot .tail, .ofPhrase (m.slot .tail)⟩

theorem condition_ofClause (clause : Text) :
    (ofClause clause).1.condition = (gate? clause).map (·.condition) := by
  rw [ofClause, gate?]
  split_ifs
  · rfl
  · simp only [takeIf]
    split
    · next m h => simp [h]
    · next h => simp [h]

end Modifiers

/-! ### The steps of a clause -/

namespace Step

theorem condition_of_ofAction? {scope : Scope} {action : Text} {steps : List Step}
    (h : ofAction? scope action = some steps) : ∀ s ∈ steps, s.condition = none := by
  obtain ⟨w, m, -, -, rfl⟩ := exists_of_ofAction? h
  intro s hs
  obtain ⟨u, hu, rfl | rfl⟩ := eq_of_mem_noteLast hs
  · exact w.condition_read m scope s hu
  · exact w.condition_read m scope u hu

end Step

namespace Reading

/-- A step has the condition of its clause, whether the clause is understood or not. -/
theorem condition_of_mem_ofClause {ctx : Context} {thread : Thread} {clause : Text} {s : Step}
    (h : s ∈ (ofClause ctx thread clause).1.steps) :
    s.condition = (Modifiers.gate? clause).map (·.condition) := by
  rw [← Modifiers.condition_ofClause]
  obtain ⟨u, rfl, ⟨steps, hu, hm⟩ | ⟨-, -, rfl⟩⟩ := exists_of_mem_ofClause h
  · simp [Step.modify, Step.condition_of_ofAction? (ofAction?_of_understood? hu) u hm]
  · simp [Step.modify, Step.ofOpaque]

theorem condition_of_mem_ofClauses {ctx : Context} {thread : Thread} {clauses : List Text}
    {r : Reading} (h : r ∈ (ofClauses ctx thread clauses).1) :
    ∀ s ∈ r.steps, s.condition = (Modifiers.gate? r.clause).map (·.condition) := by
  obtain ⟨thread', clause, rfl⟩ := exists_of_mem_ofClauses h
  intro s hs
  rw [clause_ofClause]
  exact condition_of_mem_ofClause hs

/-- The conditions that the steps of a clause stand under, for each of the steps. -/
def gates (front : List Gate) (r : Reading) : List (List Gate) :=
  r.steps.map fun _ => (Modifiers.gate? r.clause).toList ++ front

end Reading

/-! ### The steps of an effect -/

namespace Step

/-- What a step keeps as it is printed. -/
def freeTexts (s : Step) : List Text :=
  s.note.toList ++ match s.effect with
    | .opaqueText t => [t]
    | _ => []

/-- The condition is the one of the step, or its phrase is kept as it is printed. -/
def Shows (s : Step) (g : Gate) : Prop :=
  s.condition = some g.condition ∨ ∃ t ∈ s.freeTexts, g.phrase <:+: t

instance (s : Step) (g : Gate) : Decidable (s.Shows g) := inferInstanceAs (Decidable (_ ∨ _))

/-- What has become of the conditions of a step: it has the first one, and all are shown exactly if
each of the others is the same or is kept as it is printed. -/
structure Answers (s : Step) (gs : List Gate) : Prop where
  condition : s.condition = gs.head?.map (·.condition)
  shows : (∀ g ∈ gs, s.Shows g) ↔ ∀ g ∈ gs.tail,
    gs.head?.map (·.condition) = some g.condition ∨ ∃ t ∈ s.freeTexts, g.phrase <:+: t

theorem answers_of_condition {s : Step} {gs : List Gate}
    (h : s.condition = gs.head?.map (·.condition)) : s.Answers gs where
  condition := h
  shows := by
    cases gs with
    | nil => simp
    | cons g gs =>
      have hg : s.Shows g := .inl h
      simp only [List.forall_mem_cons, hg, true_and, List.tail_cons, ← h]
      rfl

/-- The conditions that the steps of an effect stand under, for each of the steps: that of its
clause, and those in front of its sentence. -/
def gates (ctx : Context) (t : Text) : List (List Gate) :=
  (t.body.sentences.zip (readings ctx none t.body.sentences)).flatMap fun p =>
    p.2.2.flatMap (Reading.gates (Frame.gates p.1.trim))

/-- The steps of one sentence. -/
theorem answers_inSentence {frame : Frame} {front : List Gate} {rs : List Reading}
    (hf : frame.condition = front.head?.map (·.condition))
    (hr : ∀ r ∈ rs, ∀ s ∈ r.steps, s.condition = (Modifiers.gate? r.clause).map (·.condition)) :
    List.Forall₂ Answers (inSentence frame (rs.flatMap (·.steps)))
      (rs.flatMap (Reading.gates front)) := by
  have hshare : ∀ d s, (inFrame frame (share d s)).condition = s.condition.or frame.condition := by
    intro d s
    rw [share]
    split_ifs <;> rfl
  rw [inSentence_eq]
  -- the duration that is shared comes from all of the steps, and does not touch their conditions
  generalize lastDuration? (rs.flatMap (·.steps)) = d
  induction rs with
  | nil => exact .nil
  | cons r rs ih =>
    rw [List.forall_mem_cons] at hr
    rw [List.flatMap_cons, List.flatMap_cons, List.map_append]
    refine List.rel_append ?_ (ih hr.2)
    rw [Reading.gates, List.forall₂_map_left_iff, List.forall₂_map_right_iff, List.forall₂_same]
    intro s hs
    refine answers_of_condition ?_
    rw [hshare, hr.1 s hs, hf, List.head?_append, Option.map_or]
    cases Modifiers.gate? r.clause <;> rfl

theorem answers_ofSentences (ctx : Context) (antecedent : Option Selector)
    (sentences : List Text) : List.Forall₂ Answers (ofSentences ctx antecedent sentences)
      ((sentences.zip (readings ctx antecedent sentences)).flatMap fun p =>
        p.2.2.flatMap (Reading.gates (Frame.gates p.1.trim))) := by
  rw [ofSentences_eq]
  -- each sentence hands on what was picked last, by which the readings of the others vary
  induction sentences generalizing antecedent with
  | nil => exact .nil
  | cons sentence sentences ih =>
    rw [readings, List.zip_cons_cons, List.flatMap_cons, List.flatMap_cons]
    refine List.rel_append (answers_inSentence (Frame.condition_ofSentence sentence) ?_) (ih _)
    exact fun r hr => Reading.condition_of_mem_ofClauses hr

/-- **Every step of an effect answers to the conditions that are printed for it**, in strict reading
or not. -/
theorem answers_ofEffect (ctx : Context) (t : Text) :
    List.Forall₂ Answers (ofEffect ctx t) (gates ctx t) :=
  answers_ofSentences ctx none t.body.sentences

/-- Two conditions in front of a sentence. -/
def twiceGated : Text :=
  "During your turn, while this character has no damage, she gets +2 \x7bS\x7d.".toList

/-- The second of two conditions is nowhere. -/
theorem not_shows_twiceGated :
    let ctx : Context := ⟨.character, {}⟩
    ctx.options.strict = false ∧
      ¬ List.Forall₂ (fun s gs => ∀ g ∈ gs, s.Shows g) (ofEffect ctx twiceGated)
        (gates ctx twiceGated) := by
  intro ctx
  have hs : ofEffect ctx twiceGated =
      [{ effect := .modifyStat .strength
         target := .this .character
         amount := some (.exact 2)
         condition := some .duringYourTurn }] := by decide +kernel
  have hg : gates ctx twiceGated =
      [[⟨"During your turn".toList, .duringYourTurn⟩,
        ⟨"this character has no damage".toList, .thisHasNoDamage⟩]] := by decide +kernel
  refine ⟨rfl, ?_⟩
  rw [hs, hg, List.forall₂_cons]
  rintro ⟨h, -⟩
  have h' := h ⟨"this character has no damage".toList, .thisHasNoDamage⟩ (by simp)
  exact absurd h' (by decide)

end Step

end CardText
