import CardText.Proofs.Effect.Layout

/-!
# Shared durations

A clause can tell at its end how long its steps last. The duration that is told last in a sentence
also holds for the lasting effects of all clauses without one, wherever they stand.

* `Reading.told?`, `Reading.lastTold?`: the duration that a clause with steps tells, and the one
  that is told last;
* `Step.lastDuration?_flatMap`: it is the one that the steps of a sentence share;
* `Step.LastsBy`, `Step.lastsBy_byClause`: how long each step of an effect lasts.
-/

namespace CardText

/-! ### Told durations -/

namespace Modifiers

theorem duration_takeDuration_ne (t : Text) : (takeDuration t).1 ≠ some .permanent := by
  rw [takeDuration]
  split
  · next d front h =>
    obtain ⟨e, he, hd⟩ := List.exists_of_findSome?_eq_some h
    obtain ⟨b, -, hb⟩ := Option.map_eq_some_iff.1 hd
    cases hb
    simp only [endings, List.mem_cons, List.not_mem_nil, or_false] at he
    rcases he with rfl | rfl | rfl | rfl <;> simp
  · simp

/-- No clause tells that its steps last without end. -/
theorem duration_ofClause_ne (clause : Text) : (ofClause clause).1.duration ≠ some .permanent := by
  rw [ofClause]
  simp only
  split_ifs
  · exact duration_takeDuration_ne _
  · exact duration_takeDuration_ne _

end Modifiers

namespace Reading

/-- The duration that a clause with steps tells. -/
def told? (r : Reading) : Option Duration :=
  if r.steps.isEmpty then none else (Modifiers.ofClause r.clause).1.duration

/-- The duration that is told last. -/
def lastTold? (rs : List Reading) : Option Duration := rs.reverse.findSome? told?

theorem told?_of_mem {r : Reading} {s : Step} (h : s ∈ r.steps) :
    r.told? = (Modifiers.ofClause r.clause).1.duration := by
  rw [told?, List.isEmpty_eq_false_iff.2 (List.ne_nil_of_mem h)]
  rfl

theorem told?_ne (r : Reading) : r.told? ≠ some .permanent := by
  rw [told?]
  split_ifs
  · simp
  · exact Modifiers.duration_ofClause_ne _

theorem lastTold?_append (us vs : List Reading) :
    lastTold? (us ++ vs) = (lastTold? vs).or (lastTold? us) := by
  rw [lastTold?, List.reverse_append, List.findSome?_append]
  rfl

theorem lastTold?_cons (r : Reading) (rs : List Reading) :
    lastTold? (r :: rs) = (lastTold? rs).or r.told? := by
  rw [← List.singleton_append, lastTold?_append]
  simp [lastTold?]

/-- What is told last is told by some clause. -/
theorem exists_of_lastTold? {rs : List Reading} {d : Duration} (h : lastTold? rs = some d) :
    ∃ r ∈ rs, r.told? = some d := by
  obtain ⟨r, hr, hd⟩ := List.exists_of_findSome?_eq_some h
  exact ⟨r, List.mem_reverse.1 hr, hd⟩

theorem isSome_lastTold?_iff {rs : List Reading} :
    (lastTold? rs).isSome = true ↔ ∃ r ∈ rs, r.told?.isSome = true := by
  simp [lastTold?, List.findSome?_isSome_iff]

theorem lastTold?_ne (rs : List Reading) : lastTold? rs ≠ some .permanent := by
  intro h
  obtain ⟨r, -, hr⟩ := exists_of_lastTold? h
  exact told?_ne r hr

end Reading

/-! ### The steps of a clause by themselves -/

theorem Step.duration_of_ofAction? {scope : Scope} {action : Text} {steps : List Step}
    (h : ofAction? scope action = some steps) : ∀ s ∈ steps, s.duration = .permanent := by
  obtain ⟨w, m, -, -, rfl⟩ := exists_of_ofAction? h
  intro s hs
  obtain ⟨u, hu, rfl | rfl⟩ := eq_of_mem_noteLast hs
  · exact w.duration_read m scope s hu
  · exact w.duration_read m scope u hu

namespace Reading

/-- Without the others of its sentence, a step lasts as long as its clause tells. -/
theorem duration_of_mem_ofClause {ctx : Context} {thread : Thread} {clause : Text} {s : Step}
    (h : s ∈ (ofClause ctx thread clause).1.steps) :
    s.duration = (Modifiers.ofClause clause).1.duration.getD .permanent := by
  obtain ⟨u, rfl, ⟨steps, hu, hm⟩ | ⟨-, -, rfl⟩⟩ := exists_of_mem_ofClause h
  · rw [Step.modify, Step.duration_of_ofAction? (ofAction?_of_understood? hu) u hm]
  · rfl

theorem duration_of_mem_ofClauses {ctx : Context} {thread : Thread} {clauses : List Text}
    {r : Reading} (h : r ∈ (ofClauses ctx thread clauses).1) :
    ∀ s ∈ r.steps, s.duration = (Modifiers.ofClause r.clause).1.duration.getD .permanent := by
  obtain ⟨thread', clause, rfl⟩ := exists_of_mem_ofClauses h
  intro s hs
  rw [clause_ofClause]
  exact duration_of_mem_ofClause hs

end Reading

namespace Step

/-! ### The duration that is shared -/

theorem lastDuration?_append (us vs : List Step) :
    lastDuration? (us ++ vs) = (lastDuration? vs).or (lastDuration? us) := by
  rw [lastDuration?, List.reverse_append, List.map_append, List.find?_append]
  rfl

/-- Steps that last equally long. -/
theorem lastDuration?_of_forall {steps : List Step} {o : Option Duration}
    (ho : o ≠ some .permanent) (h : ∀ s ∈ steps, s.duration = o.getD .permanent) :
    lastDuration? steps = if steps.isEmpty then none else o := by
  have hr : steps.reverse.map (·.duration) = List.replicate steps.length (o.getD .permanent) := by
    refine List.eq_replicate_iff.2 ⟨by simp, fun d hd => ?_⟩
    obtain ⟨s, hs, rfl⟩ := List.mem_map.1 hd
    exact h s (List.mem_reverse.1 hs)
  rw [lastDuration?, hr, List.find?_replicate]
  cases o with
  | none => simp
  | some d =>
    have hd : d ≠ .permanent := fun he => ho (by rw [he])
    cases steps <;> simp [hd]

/-- The steps of a sentence share the duration that is told last. -/
theorem lastDuration?_flatMap {rs : List Reading} (h : ∀ r ∈ rs, ∀ s ∈ r.steps,
    s.duration = (Modifiers.ofClause r.clause).1.duration.getD .permanent) :
    lastDuration? (rs.flatMap (·.steps)) = Reading.lastTold? rs := by
  induction rs with
  | nil => rfl
  | cons r rs ih =>
    rw [List.forall_mem_cons] at h
    rw [List.flatMap_cons, lastDuration?_append, ih h.2, Reading.lastTold?_cons, Reading.told?,
      lastDuration?_of_forall (Modifiers.duration_ofClause_ne _) h.1]

/-- What the clauses tell does not change when their sentence settles. -/
theorem lastTold?_settle (frame : Frame) (rs : List Reading) :
    Reading.lastTold? (settle frame rs) = Reading.lastTold? rs := by
  rw [Reading.lastTold?, settle, ← List.map_reverse, List.findSome?_map]
  refine congrArg (rs.reverse.findSome? ·) (funext fun r => ?_)
  simp [Reading.told?]

/-! ### How long steps last -/

/-- A step of a clause that tells `o`, in a sentence where `behind` and `front` are told last around
it. -/
theorem duration_share_of {s : Step} {o behind front : Option Duration} (ho : o ≠ some .permanent)
    (h : s.duration = o.getD .permanent) :
    (share ((behind.or o).or front) s).duration = o.getD
      (if s.effect.isContinuous then (behind.or front).getD .permanent else .permanent) := by
  rw [share]
  cases o with
  | some d =>
    have hd : s.duration ≠ .permanent := fun he => ho (by rw [← he, h]; rfl)
    rw [if_neg fun hs => hd hs.1, h]
    rfl
  | none =>
    have hp : s.duration = .permanent := h
    rw [Option.or_none, hp]
    cases hc : s.effect.isContinuous with
    | true => simp
    | false => simp [hp]

/-- How long a step of a clause lasts, between the clauses in front of it and behind it. The
duration of the sentence counts first and that of the clause next. A lasting effect without either
takes what is told last: behind the clause if anything is told there, else in front of it. -/
structure LastsBy (frame : Frame) (front : List Reading) (r : Reading) (behind : List Reading)
    (s : Step) : Prop where
  duration : s.duration = frame.duration.getD (r.told?.getD
    (if s.effect.isContinuous then
      ((Reading.lastTold? behind).or (Reading.lastTold? front)).getD .permanent else .permanent))
  ends : frame.duration = none → (s.duration ≠ .permanent ↔ r.told?.isSome = true ∨
    s.effect.isContinuous = true ∧ ∃ q ∈ behind ++ front, q.told?.isSome = true)

theorem LastsBy.of_duration {frame : Frame} {front behind : List Reading} {r : Reading} {s : Step}
    (h : s.duration = frame.duration.getD (r.told?.getD (if s.effect.isContinuous then
      ((Reading.lastTold? behind).or (Reading.lastTold? front)).getD .permanent
      else .permanent))) : LastsBy frame front r behind s where
  duration := h
  ends hf := by
    have ht := r.told?_ne
    have hl := Reading.lastTold?_ne (front ++ behind)
    rw [Reading.lastTold?_append] at hl
    have hq : (∃ q ∈ behind ++ front, q.told?.isSome = true) ↔
        ((Reading.lastTold? behind).or (Reading.lastTold? front)).isSome = true := by
      rw [← Reading.lastTold?_append, Reading.isSome_lastTold?_iff]
      simp [or_comm]
    rw [h, hf, Option.getD_none, hq]
    generalize (Reading.lastTold? behind).or (Reading.lastTold? front) = told at hl
    cases hr : r.told? with
    | some d => simpa [hr] using ht
    | none => cases told <;> simp_all

/-- **How long the steps of an effect last**, in strict reading or not. -/
theorem lastsBy_byClause (ctx : Context) (t : Text) :
    IsLayout ctx t (byClause ctx t) ∧ AtEachClause (byClause ctx t) fun frame front r behind =>
      ∀ s ∈ r.steps, LastsBy frame front r behind s := by
  refine ⟨isLayout_byClause ctx t, fun p hp front r behind h s hs => .of_duration ?_⟩
  obtain ⟨a, sentence, hset⟩ := exists_of_mem_byClause hp
  have hmem : ∀ r ∈ (Reading.ofClauses ctx { antecedent := a } (Clause.ofSentence sentence)).1,
      ∀ s ∈ r.steps, s.duration = (Modifiers.ofClause r.clause).1.duration.getD .permanent :=
    fun _ hr => Reading.duration_of_mem_ofClauses hr
  -- the duration that the sentence shares is the one told last, in front, here or behind
  have hlast := lastDuration?_flatMap hmem
  rw [← lastTold?_settle p.1, ← hset, h, Reading.lastTold?_append, Reading.lastTold?_cons] at hlast
  obtain ⟨front', r', behind', hrs, -, hc, hr⟩ := exists_of_settle (hset.symm.trans h)
  rw [Reading.told?_of_mem hs] at hlast ⊢
  rw [hr, hlast] at hs
  obtain ⟨u, hu, rfl⟩ := List.mem_map.1 hs
  have hud := hmem r' (by rw [hrs]; simp) u hu
  rw [hc] at hud
  rw [((keepsAim_share _ u).trans (keepsAim_inFrame p.1 _)).effect]
  exact congrArg p.1.duration.getD (duration_share_of (Modifiers.duration_ofClause_ne _) hud)

/-- A duration in front of a clause without one. -/
def toldInFront : Text := "Chosen character gets +2 \x7bS\x7d this turn and gains Evasive.".toList

/-- The second clause tells no duration, and none is told behind it; its step has one even so. -/
theorem not_atEachClause_toldInFront :
    let ctx : Context := ⟨.character, {}⟩
    (∃ s, toldInFront.body.sentences = [s] ∧ (Frame.ofSentence s).1.duration = none) ∧
      ¬ AtEachClause (byClause ctx toldInFront) fun _ _ r behind =>
        ∀ s ∈ r.steps, s.duration ≠ .permanent →
          ∃ q ∈ r :: behind, (Modifiers.ofClause q.clause).1.duration.isSome = true := by
  intro ctx
  let first : Reading :=
    { clause := "Chosen character gets +2 \x7bS\x7d this turn".toList
      mods := { duration := some .thisTurn }
      steps := [{ effect := .modifyStat .strength
                  target := { quantifier := .chosen 1, kinds := [.character] }
                  amount := some (.exact 2)
                  duration := .thisTurn }] }
  let second : Reading :=
    { clause := "gains Evasive".toList
      mods := {}
      steps := [{ effect := .grantKeyword .evasive none
                  target := { quantifier := .previous, kinds := [.character] }
                  duration := .thisTurn }] }
  have hb : byClause ctx toldInFront = [({}, [first, second])] := by decide +kernel
  constructor
  · refine ⟨"Chosen character gets +2 \x7bS\x7d this turn and gains Evasive".toList, ?_⟩
    decide +kernel
  · intro h
    obtain ⟨q, hq, hd⟩ := h _ (hb ▸ List.mem_singleton_self _) [first] second [] rfl _
      (List.mem_singleton_self _) (by decide)
    obtain rfl := List.mem_singleton.1 hq
    exact absurd hd (by decide +kernel)

end Step

end CardText
