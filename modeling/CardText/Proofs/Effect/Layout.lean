import CardText.Proofs.Effect.Condition
import CardText.Proofs.Effect.Measure

/-!
# The steps of an effect, clause by clause

Every clause of an effect has its steps, at its place among those of the others. What a clause takes
from the ones in front of it in its sentence is their last verb and their "may".

* `Step.byClause`: the clauses of an effect with their steps; `Step.IsLayout`, that these are all
  clauses and all steps in order; `Step.AtEachClause`, what holds at every place;
* `Step.exists_of_byClause`: a clause is read by itself, behind those in front of it;
* `Reading.Contributes`, `Step.contributes_byClause`: unless reading is strict, each clause has
  steps, and they are optional exactly if it, or a clause in front of it, has a "may".
-/

namespace CardText

/-! ### Clauses of a sentence -/

namespace Reading

variable {ctx : Context}

/-- Clauses behind others are read with what those hand on. -/
theorem ofClauses_append (ctx : Context) (thread : Thread) (us vs : List Text) :
    ofClauses ctx thread (us ++ vs) =
      ((ofClauses ctx thread us).1 ++ (ofClauses ctx (ofClauses ctx thread us).2 vs).1,
        (ofClauses ctx (ofClauses ctx thread us).2 vs).2) := by
  induction us generalizing thread with
  | nil => rfl
  | cons u us ih => simp only [List.cons_append, ofClauses, ih]

theorem map_clause_ofClauses (ctx : Context) (thread : Thread) (clauses : List Text) :
    (ofClauses ctx thread clauses).1.map (·.clause) = clauses := by
  induction clauses generalizing thread with
  | nil => rfl
  | cons clause clauses ih =>
    rw [ofClauses, List.map_cons, clause_ofClause]
    exact congrArg (clause :: ·) (ih _)

/-- A clause is read with what the clauses in front of it hand on. -/
theorem eq_ofClause_of_append {thread : Thread} {clauses : List Text} {front behind : List Reading}
    {r : Reading} (h : (ofClauses ctx thread clauses).1 = front ++ r :: behind) :
    r = (ofClause ctx (ofClauses ctx thread (front.map (·.clause))).2 r.clause).1 := by
  have hc := map_clause_ofClauses ctx thread clauses
  rw [h, List.map_append, List.map_cons] at hc
  rw [← hc, ofClauses_append, ofClauses] at h
  have hl : (ofClauses ctx thread (front.map (·.clause))).1.length = front.length := by
    simpa using congrArg List.length (map_clause_ofClauses ctx thread (front.map (·.clause)))
  exact (List.cons.inj (List.append_inj h hl).2).1.symm

/-- The verb is handed on in any case. -/
theorem verb_ofClause (ctx : Context) (thread : Thread) (clause : Text) :
    (ofClause ctx thread clause).2.verb = nextVerb? thread.verb clause := by
  rw [ofClause]
  simp only
  split_ifs <;> rfl

theorem verb_ofClauses (ctx : Context) (thread : Thread) (clauses : List Text) :
    (ofClauses ctx thread clauses).2.verb = clauses.foldl nextVerb? thread.verb := by
  induction clauses generalizing thread with
  | nil => rfl
  | cons clause clauses ih =>
    rw [ofClauses, List.foldl_cons, ← verb_ofClause ctx]
    exact ih _

/-- The clause has a "may". -/
def isOptional (clause : Text) : Bool := (Modifiers.ofClause clause).1.optional

/-- A "may" is handed on unless reading is strict. -/
theorem optional_ofClause (hs : ctx.options.strict = false) (thread : Thread) (clause : Text) :
    (ofClause ctx thread clause).2.optional = (thread.optional || isOptional clause) := by
  simp [ofClause, hs, isOptional]

theorem optional_ofClauses (hs : ctx.options.strict = false) (thread : Thread)
    (clauses : List Text) :
    (ofClauses ctx thread clauses).2.optional = (thread.optional || clauses.any isOptional) := by
  induction clauses generalizing thread with
  | nil => simp [ofClauses]
  | cons clause clauses ih =>
    rw [ofClauses, List.any_cons, ← Bool.or_assoc, ← optional_ofClause hs]
    exact ih _

/-- The steps of a clause have the "may" of it and of those in front. -/
theorem optional_of_mem_ofClause {thread : Thread} {clause : Text} {s : Step}
    (h : s ∈ (ofClause ctx thread clause).1.steps) :
    s.optional = (thread.optional || isOptional clause) := by
  obtain ⟨u, rfl, -⟩ := exists_of_mem_ofClause h
  rfl

end Reading

/-! ### What is understood -/

/-- The action is understood, whatever its phrases refer to. -/
def Step.IsKnown (action : Text) : Prop := ∃ scope, (Step.ofAction? scope action).isSome = true

/-- Whether an action is understood does not depend on what its phrases refer to. -/
theorem Step.isSome_ofAction?_iff (scope : Scope) (action : Text) :
    (ofAction? scope action).isSome = true ↔ IsKnown action := by
  refine ⟨fun h => ⟨scope, h⟩, fun ⟨scope', h⟩ => ?_⟩
  obtain ⟨steps, hs⟩ := Option.isSome_iff_exists.1 h
  obtain ⟨w, m, hb, hne, -⟩ := exists_of_ofAction? hs
  rw [ne_eq, Wording.read_eq_nil_iff, ← Wording.read_eq_nil_iff w m scope] at hne
  simp [ofAction?, hb, hne]

namespace Reading

/-- The action of a clause behind others: an amount takes the last verb in front of it. -/
def action (front : List Text) (clause : Text) : Text :=
  completeAction (front.foldl nextVerb? none) (Modifiers.ofClause clause).2

end Reading

namespace Clause

theorem exists_join_of_mem_cutWords {left : List Text} {quoted : Bool} {ws : List Text} {c : Text}
    (h : c ∈ cutWords left quoted ws) : ∃ us, c = join us := by
  fun_induction cutWords left quoted ws
  case case1 => cases h
  case case2 => exact ⟨_, List.mem_singleton.1 h⟩
  -- a conjunction ends the open clause, and any other word joins it
  case case5 ih | case7 ih => exact (List.mem_cons.1 h).elim (fun h => ⟨_, h⟩) ih
  case case3 ih | case4 ih | case6 ih | case8 ih | case9 ih => exact ih h

/-- No blanks stand around a clause. -/
theorem trim_eq_of_mem_ofSentence {t c : Text} (h : c ∈ ofSentence t) : c.trim = c := by
  obtain ⟨us, rfl⟩ := exists_join_of_mem_cutWords (List.mem_of_mem_filter h)
  exact Text.trim_trim _

end Clause

/-! ### The layout of an effect -/

namespace Step

/-- The clauses of a sentence with the steps that they have in it. -/
def settle (frame : Frame) (rs : List Reading) : List Reading :=
  rs.map fun r => { r with
    steps := r.steps.map fun s => inFrame frame (share (lastDuration? (rs.flatMap (·.steps))) s) }

/-- The clauses of an effect with their steps, sentence by sentence. -/
def byClause (ctx : Context) (t : Text) : List (Frame × List Reading) :=
  (readings ctx none t.body.sentences).map fun p => (p.1, settle p.1 p.2)

/-- The clauses are those of the effect's sentences, and their steps those of the effect, both in
order. -/
structure IsLayout (ctx : Context) (t : Text) (ps : List (Frame × List Reading)) : Prop where
  steps : ofEffect ctx t = ps.flatMap fun p => p.2.flatMap (·.steps)
  clauses : ps.map (fun p => (p.1, p.2.map (·.clause))) = t.body.sentences.map fun s =>
    ((Frame.ofSentence s).1, Clause.ofSentence (Frame.ofSentence s).2)

/-- What holds of every clause, with the clauses in front of it and behind it in its sentence. -/
def AtEachClause (ps : List (Frame × List Reading))
    (P : Frame → List Reading → Reading → List Reading → Prop) : Prop :=
  ∀ p ∈ ps, ∀ front r behind, p.2 = front ++ r :: behind → P p.1 front r behind

variable {ctx : Context} {t : Text}

theorem flatMap_settle (frame : Frame) (rs : List Reading) :
    (settle frame rs).flatMap (·.steps) = inSentence frame (rs.flatMap (·.steps)) := by
  rw [inSentence_eq, List.map_flatMap, settle, List.flatMap_map]

theorem map_clause_settle (frame : Frame) (rs : List Reading) :
    (settle frame rs).map (·.clause) = rs.map (·.clause) := by
  simp [settle]

theorem map_clauses_readings (ctx : Context) (antecedent : Option Selector)
    (sentences : List Text) :
    (readings ctx antecedent sentences).map (fun p => (p.1, p.2.map (·.clause))) =
      sentences.map fun s =>
        ((Frame.ofSentence s).1, Clause.ofSentence (Frame.ofSentence s).2) := by
  induction sentences generalizing antecedent with
  | nil => rfl
  | cons sentence sentences ih =>
    rw [readings, List.map_cons, List.map_cons, ih, Reading.map_clause_ofClauses]

theorem isLayout_byClause (ctx : Context) (t : Text) : IsLayout ctx t (byClause ctx t) where
  steps := by
    rw [ofEffect, ofSentences_eq, byClause, List.flatMap_map]
    simp only [flatMap_settle]
  clauses := by
    rw [← map_clauses_readings ctx none, byClause, List.map_map]
    exact List.map_congr_left fun p _ => congrArg (p.1, ·) (map_clause_settle p.1 p.2)

/-- The clauses of a sentence are read one behind the other, starting with what was picked in front
of the sentence. -/
theorem exists_of_mem_byClause {p : Frame × List Reading} (h : p ∈ byClause ctx t) :
    ∃ a sentence, p.2 = settle p.1
      (Reading.ofClauses ctx { antecedent := a } (Clause.ofSentence sentence)).1 := by
  obtain ⟨q, hq, rfl⟩ := List.mem_map.1 h
  obtain ⟨a, s, rfl⟩ := exists_of_mem_readings hq
  exact ⟨a, _, rfl⟩

/-- The clauses around one of them, before the sentence has settled. -/
theorem exists_of_settle {frame : Frame} {rs front behind : List Reading} {r : Reading}
    (h : settle frame rs = front ++ r :: behind) : ∃ front' r' behind',
      rs = front' ++ r' :: behind' ∧ front'.map (·.clause) = front.map (·.clause) ∧
        r'.clause = r.clause ∧ r.steps = r'.steps.map fun s =>
          inFrame frame (share (lastDuration? (rs.flatMap (·.steps))) s) := by
  rw [settle] at h
  obtain ⟨front', l, hrs, hf, hl⟩ := List.map_eq_append_iff.1 h
  obtain ⟨r', behind', rfl, hr, -⟩ := List.map_eq_cons_iff.1 hl
  refine ⟨front', r', behind', hrs, ?_, ?_, ?_⟩
  · rw [← hf, List.map_map]
    rfl
  · rw [← hr]
  · rw [← hr]

/-- **A clause is read by itself, behind those in front of it in its sentence.** -/
theorem exists_of_byClause {p : Frame × List Reading} (hp : p ∈ byClause ctx t)
    {front behind : List Reading} {r : Reading} (h : p.2 = front ++ r :: behind) :
    r.clause.trim = r.clause ∧ ∃ a d, r.steps =
      (Reading.ofClause ctx (Reading.ofClauses ctx { antecedent := a } (front.map (·.clause))).2
        r.clause).1.steps.map fun s => inFrame p.1 (share d s) := by
  obtain ⟨a, sentence, hs⟩ := exists_of_mem_byClause hp
  -- the sentence settles when all its clauses are read, which keeps their places
  obtain ⟨front', r', behind', hrs, hf, hc, hr⟩ := exists_of_settle (hs.symm.trans h)
  have hm := Reading.map_clause_ofClauses ctx { antecedent := a } (Clause.ofSentence sentence)
  have he := Reading.eq_ofClause_of_append hrs
  rw [hf, hc] at he
  refine ⟨Clause.trim_eq_of_mem_ofSentence (t := sentence) ?_, a, _, he ▸ hr⟩
  rw [← hm, hrs, ← hc]
  exact List.mem_map_of_mem (by simp)

end Step

/-! ### What a clause contributes -/

namespace Reading

/-- The clause has steps. If it is understood, none of them keeps its text; if it is not, its text
is its only step. The steps are optional exactly if the clause, or one in front of it, has a
"may". -/
structure Contributes (front : List Text) (clause : Text) (steps : List Step) : Prop where
  ne_nil : steps ≠ []
  known : Step.IsKnown (action front clause) → ∀ s ∈ steps, s.isOpaque = false
  unknown : ¬ Step.IsKnown (action front clause) →
    ∃ s, steps = [s] ∧ s.effect = .opaqueText clause
  optional : ∀ s ∈ steps, s.optional = true ↔ ∃ c ∈ front ++ [clause], isOptional c = true

/-- What keeps the effects and the "may" of steps does not matter. -/
theorem Contributes.map {front : List Text} {clause : Text} {steps : List Step}
    (h : Contributes front clause steps) {g : Step → Step} (hg : Step.KeepsAim g)
    (ho : ∀ s, (g s).optional = s.optional) : Contributes front clause (steps.map g) where
  ne_nil := by simpa using h.ne_nil
  known hk := List.forall_mem_map.2 fun s hs => by rw [(hg s).isOpaque, h.known hk s hs]
  unknown hk := by
    obtain ⟨s, rfl, hs⟩ := h.unknown hk
    exact ⟨g s, rfl, by rw [(hg s).effect, hs]⟩
  optional := List.forall_mem_map.2 fun s hs => by rw [ho, h.optional s hs]

theorem understood?_ofClauses (ctx : Context) (a : Option Selector) (front : List Text)
    (clause : Text) :
    let thread := (ofClauses ctx { antecedent := a } front).2
    understood? ctx.source thread.antecedent thread.verb clause =
      Step.ofAction? ⟨ctx.source, thread.antecedent, (Modifiers.ofClause clause).1.counted⟩
        (action front clause) := by
  simp only [understood?_eq, verb_ofClauses, action]

theorem contributes_ofClause (ctx : Context) (hs : ctx.options.strict = false)
    (a : Option Selector) (front : List Text) {clause : Text} (ht : clause.trim = clause) :
    Contributes front clause
      (ofClause ctx (ofClauses ctx { antecedent := a } front).2 clause).1.steps := by
  have hu := understood?_ofClauses ctx a front clause
  have hopt : ∀ s ∈ (ofClause ctx (ofClauses ctx { antecedent := a } front).2 clause).1.steps,
      s.optional = true ↔ ∃ c ∈ front ++ [clause], isOptional c = true := by
    intro s hm
    rw [optional_of_mem_ofClause hm, optional_ofClauses hs]
    simp [or_and_right, exists_or]
  cases hk : Step.ofAction? _ (action front clause) with
  | some steps =>
    have hknown := (Step.isSome_ofAction?_iff _ _).1 (Option.isSome_iff_exists.2 ⟨_, hk⟩)
    have hu := hu.trans hk
    rw [ofClause_of_some ctx _ hu] at hopt ⊢
    refine ⟨by simpa using understood?_ne_nil hu, fun _ => ?_, absurd hknown, hopt⟩
    exact List.forall_mem_map.2 fun s hm => (admits_of_understood? hu s hm).isOpaque
  | none =>
    have hunknown : ¬ Step.IsKnown (action front clause) := by
      rw [← Step.isSome_ofAction?_iff, hk]
      simp
    rw [ofClause_of_none ctx _ (hu.trans hk), hs] at hopt ⊢
    refine ⟨by simp, (absurd · hunknown), fun _ => ⟨_, rfl, ?_⟩, hopt⟩
    exact congrArg Effect.opaqueText ht

end Reading

namespace Step

/-- **Every clause contributes its steps in order**, and a "may" reaches the clauses behind it in
its sentence and no others. -/
theorem contributes_byClause (ctx : Context) (t : Text) :
    let ps := byClause (ctx.withStrict false) t
    IsLayout (ctx.withStrict false) t ps ∧ AtEachClause ps fun _ front r _ =>
      Reading.Contributes (front.map (·.clause)) r.clause r.steps := by
  refine ⟨isLayout_byClause _ t, fun p hp front r behind h => ?_⟩
  obtain ⟨ht, a, d, hr⟩ := exists_of_byClause hp h
  have hc := Reading.contributes_ofClause (ctx.withStrict false) rfl a (front.map (·.clause)) ht
  rw [hr]
  refine hc.map (fun s => (keepsAim_share d s).trans (keepsAim_inFrame p.1 _)) fun s => ?_
  rw [share]
  split_ifs <;> rfl

end Step

end CardText
