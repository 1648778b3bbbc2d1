import CardText.Proofs.Effect.Clause

/-!
# Strict reading

Strict reading leaves out the clauses that are not understood.  What they say beside their action
goes with them: their "may" does not reach the clauses behind them, and a duration printed in them
is not shared.

* `Step.understood`: the steps that strict reading keeps;
* `Step.readings`, `Step.ofSentences_eq`: the readings of all sentences, and their steps;
* `Reading.keptSteps`, `Step.ofSentences_strict_eq`: the steps of strict reading by the same
  readings;
* `Reading.keepsMay`, `Step.keepsDuration`: nothing is lost with the clauses left out;
* `Step.ofEffect_strict_iff`: strict reading differs in nothing but durations and "may", and not at
  all exactly where these are kept.
-/

namespace CardText

/-- The same context with strict reading or without. -/
def Context.withStrict (ctx : Context) (strict : Bool) : Context :=
  { ctx with options.strict := strict }

namespace Step

/-- The steps that were understood. -/
def understood (steps : List Step) : List Step := steps.filter fun s => !s.isOpaque

theorem understood_append (us vs : List Step) :
    understood (us ++ vs) = understood us ++ understood vs :=
  List.filter_append us vs

theorem understood_eq_self {steps : List Step} (h : ∀ s ∈ steps, s.isOpaque = false) :
    understood steps = steps :=
  List.filter_eq_self.2 fun s hs => by rw [h s hs]; rfl

theorem understood_flatMap {α : Type} (l : List α) (f : α → List Step) :
    understood (l.flatMap f) = l.flatMap fun a => understood (f a) := by
  rw [understood, List.filter_flatMap]
  rfl

theorem understood_map {g : Step → Step} (hg : KeepsAim g) (steps : List Step) :
    understood (steps.map g) = (understood steps).map g := by
  rw [understood, List.filter_map, understood]
  congr 1
  exact List.filter_congr fun s _ => by rw [Function.comp_apply, (hg s).isOpaque]

/-- The step, optional or not. -/
def withOptional (optional : Bool) (s : Step) : Step := { s with optional }

theorem withOptional_comp_modify (b b' : Bool) (mods : Modifiers) :
    withOptional b ∘ modify b' mods = modify b mods := rfl

/-- The step without its duration and its "may". -/
def core (s : Step) : Step := { s with duration := .permanent, optional := false }

end Step

/-! ### Clauses -/

namespace Reading

/-- The clause was understood. -/
def isUnderstood (r : Reading) : Bool := !r.steps.any Step.isOpaque

/-- The steps that strict reading keeps of readings that are not strict; `kept` tells that a clause
understood so far is optional. -/
def keptSteps : Bool → List Reading → List Step
  | _, [] => []
  | kept, r :: rs =>
    if r.isUnderstood then
      r.steps.map (Step.withOptional (kept || r.mods.optional)) ++
        keptSteps (kept || r.mods.optional) rs
    else keptSteps kept rs

/-- Each clause understood is optional because of a clause understood, if it is; `may` tells that a
clause so far is optional, `kept` that one understood is. -/
def keepsMay : Bool → Bool → List Reading → Bool
  | _, _, [] => true
  | may, kept, r :: rs =>
    if r.isUnderstood then
      (may || r.mods.optional) == (kept || r.mods.optional) &&
        keepsMay (may || r.mods.optional) (kept || r.mods.optional) rs
    else keepsMay (may || r.mods.optional) kept rs

/-- The readings of clauses that are not strict; `may` tells that a clause in front is optional. -/
inductive Lenient : Bool → List Reading → Prop
  | nil (may : Bool) : Lenient may []
  | known {may : Bool} {r : Reading} {rs : List Reading} (ne : r.steps ≠ [])
      (clear : ∀ s ∈ r.steps, s.isOpaque = false)
      (optional : ∀ s ∈ r.steps, s.optional = (may || r.mods.optional))
      (rest : Lenient (may || r.mods.optional) rs) : Lenient may (r :: rs)
  | unknown {may : Bool} {r : Reading} {rs : List Reading} {s : Step} (steps : r.steps = [s])
      (isOpaque : s.isOpaque = true) (rest : Lenient (may || r.mods.optional) rs) :
      Lenient may (r :: rs)

theorem isUnderstood_eq_true {r : Reading} (h : ∀ s ∈ r.steps, s.isOpaque = false) :
    r.isUnderstood = true := by
  simpa [isUnderstood] using h

theorem isUnderstood_eq_false {r : Reading} {s : Step} (h : r.steps = [s])
    (hs : s.isOpaque = true) : r.isUnderstood = false := by
  simp [isUnderstood, h, hs]

variable {ctx : Context} {rs : List Reading}

theorem lenient_ofClauses (ctx : Context) (thread : Thread) (clauses : List Text) :
    Lenient thread.optional (ofClauses (ctx.withStrict false) thread clauses).1 := by
  -- the thread varies: each clause hands its "may" on to the rest
  induction clauses generalizing thread with
  | nil => exact .nil _
  | cons clause clauses ih =>
    rw [ofClauses]
    have hrest := ih (ofClause (ctx.withStrict false) thread clause).2
    cases hu : understood? ctx.source thread.antecedent thread.verb clause with
    | some steps =>
      have hc := ofClause_of_some (ctx.withStrict false) thread hu
      rw [hc] at hrest ⊢
      refine .known ?_ ?_ ?_ hrest
      · simpa using understood?_ne_nil hu
      · intro s hs
        obtain ⟨u, hm, rfl⟩ := List.mem_map.1 hs
        exact (admits_of_understood? hu u hm).isOpaque
      · intro s hs
        obtain ⟨u, -, rfl⟩ := List.mem_map.1 hs
        rfl
    | none =>
      have hc := ofClause_of_none (ctx.withStrict false) thread hu
      rw [hc] at hrest ⊢
      exact .unknown rfl rfl hrest

/-- One clause: strict reading hands on the same antecedent and verb, and keeps the steps that are
understood, with the "may" of such clauses alone. -/
theorem ofClause_strict (ctx : Context) {thread thread' : Thread}
    (ha : thread'.antecedent = thread.antecedent) (hv : thread'.verb = thread.verb)
    (clause : Text) (rs : List Reading) :
    let r := ofClause (ctx.withStrict false) thread clause
    let r' := ofClause (ctx.withStrict true) thread' clause
    r'.2.antecedent = r.2.antecedent ∧ r'.2.verb = r.2.verb ∧
      keptSteps thread'.optional (r.1 :: rs) = r'.1.steps ++ keptSteps r'.2.optional rs := by
  intro r r'
  cases hu : understood? ctx.source thread.antecedent thread.verb clause with
  | some steps =>
    have hu' : understood? ctx.source thread'.antecedent thread'.verb clause = some steps := by
      rw [ha, hv, hu]
    have hd : r = _ := ofClause_of_some (ctx.withStrict false) thread hu
    have hs : r' = _ := ofClause_of_some (ctx.withStrict true) thread' hu'
    have hr : r.1.isUnderstood = true := by
      refine isUnderstood_eq_true fun s hm => ?_
      rw [hd] at hm
      obtain ⟨u, hmem, rfl⟩ := List.mem_map.1 hm
      exact (admits_of_understood? hu u hmem).isOpaque
    rw [keptSteps, if_pos hr, hd, hs, ha, hv, List.map_map, Step.withOptional_comp_modify]
    exact ⟨rfl, rfl, rfl⟩
  | none =>
    have hu' : understood? ctx.source thread'.antecedent thread'.verb clause = none := by
      rw [ha, hv, hu]
    have hd : r = _ := ofClause_of_none (ctx.withStrict false) thread hu
    have hs : r' = _ := ofClause_of_none (ctx.withStrict true) thread' hu'
    have hr : r.1.isUnderstood = false := by
      rw [hd]
      exact isUnderstood_eq_false rfl rfl
    rw [keptSteps, if_neg (by simp [hr]), hd, hs, ← ha, hv]
    exact ⟨rfl, rfl, rfl⟩

/-- The clauses of a sentence, one after the other. -/
theorem ofClauses_strict (ctx : Context) (thread thread' : Thread)
    (ha : thread'.antecedent = thread.antecedent) (hv : thread'.verb = thread.verb)
    (clauses : List Text) :
    (ofClauses (ctx.withStrict true) thread' clauses).1.flatMap (·.steps) =
        keptSteps thread'.optional (ofClauses (ctx.withStrict false) thread clauses).1 ∧
      (ofClauses (ctx.withStrict true) thread' clauses).2.antecedent =
        (ofClauses (ctx.withStrict false) thread clauses).2.antecedent := by
  -- the threads differ in their "may" alone, and no clause is understood by that
  induction clauses generalizing thread thread' with
  | nil => exact ⟨rfl, ha⟩
  | cons clause clauses ih =>
    have hstep := ofClause_strict ctx ha hv clause
    obtain ⟨hsteps, hant⟩ := ih _ _ (hstep []).1 (hstep []).2.1
    refine ⟨?_, hant⟩
    rw [ofClauses, ofClauses, List.flatMap_cons, (hstep _).2.2, hsteps]

/-! ### The steps of a sentence -/

section Lenient

variable {may : Bool}

/-- What strict reading keeps differs from what is understood in the "may" alone. -/
theorem map_keptSteps (h : Lenient may rs) (kept : Bool) :
    (keptSteps kept rs).map (Step.withOptional false) =
      (Step.understood (rs.flatMap (·.steps))).map (Step.withOptional false) := by
  induction h generalizing kept with
  | nil => rfl
  | known ne clear optional rest ih =>
    rw [keptSteps, if_pos (isUnderstood_eq_true clear), List.flatMap_cons,
      Step.understood_append, Step.understood_eq_self clear, List.map_append, List.map_append, ih,
      List.map_map]
    rfl
  | @unknown may r rs s steps isOpaque rest ih =>
    have hn : Step.understood [s] = [] := by simp [Step.understood, isOpaque]
    rw [keptSteps, if_neg (by simp [isUnderstood_eq_false steps isOpaque]), List.flatMap_cons,
      Step.understood_append, steps, hn, List.nil_append, ih]

/-- Strict reading keeps just what is understood where each "may" stays. -/
theorem keptSteps_eq_iff (h : Lenient may rs) (kept : Bool) :
    keptSteps kept rs = Step.understood (rs.flatMap (·.steps)) ↔ keepsMay may kept rs = true := by
  induction h generalizing kept with
  | nil => exact ⟨fun _ => rfl, fun _ => rfl⟩
  | @known may r rs ne clear optional rest ih =>
    have hmap : r.steps.map (Step.withOptional (kept || r.mods.optional)) = r.steps ↔
        (may || r.mods.optional) = (kept || r.mods.optional) := by
      obtain ⟨s, ss, hs⟩ := List.exists_cons_of_ne_nil ne
      constructor
      · intro he
        -- a clause understood has a step, and that tells the "may" it was read with
        rw [← optional s (by simp [hs])]
        rw [hs, List.map_cons, List.cons.injEq] at he
        rw [← he.1]
        rfl
      · intro he
        refine (List.map_congr_left fun u hu => ?_).trans (List.map_id r.steps)
        rw [← he, ← optional u hu]
        rfl
    rw [keptSteps, keepsMay, if_pos (isUnderstood_eq_true clear),
      if_pos (isUnderstood_eq_true clear), List.flatMap_cons,
      Step.understood_append, Step.understood_eq_self clear, Bool.and_eq_true, beq_iff_eq, ← ih,
      ← hmap]
    exact ⟨fun he => List.append_inj he (by simp), fun he => by rw [he.1, he.2]⟩
  | @unknown may r rs s steps isOpaque rest ih =>
    have hn : Step.understood [s] = [] := by simp [Step.understood, isOpaque]
    have hu := isUnderstood_eq_false steps isOpaque
    rw [keptSteps, keepsMay, if_neg (by simp [hu]), if_neg (by simp [hu]), List.flatMap_cons,
      Step.understood_append, steps, hn, List.nil_append, ih]

end Lenient

end Reading

namespace Step

/-! ### Durations -/

theorem lastDuration?_ne (steps : List Step) : lastDuration? steps ≠ some .permanent := by
  intro h
  have := List.find?_some h
  simp at this

/-- The step lasts and has no duration of its own. -/
def lacksDuration (s : Step) : Bool := s.duration == .permanent && s.effect.isContinuous

theorem share_of_lacksDuration {s : Step} (h : s.lacksDuration = true) (d : Option Duration) :
    share d s = { s with duration := d.getD .permanent } := by
  rw [lacksDuration, Bool.and_eq_true, beq_iff_eq] at h
  rw [share, if_pos h, h.1]

theorem share_of_not_lacksDuration {s : Step} (h : s.lacksDuration = false)
    (d : Option Duration) : share d s = s := by
  rw [share, if_neg]
  rintro ⟨hp, hc⟩
  rw [lacksDuration, hp, hc] at h
  cases h

/-- The steps understood get the durations that they get together with the others: the sentence has
one of its own, or the same one is printed last, or none of them is without. -/
def keepsDuration (frame : Frame) (steps : List Step) : Bool :=
  frame.duration.isSome || lastDuration? (understood steps) == lastDuration? steps ||
    (understood steps).all fun s => !s.lacksDuration

theorem keepsDuration_iff (frame : Frame) (steps : List Step) :
    keepsDuration frame steps = true ↔ ∀ s ∈ understood steps,
      inFrame frame (share (lastDuration? (understood steps)) s) =
        inFrame frame (share (lastDuration? steps) s) := by
  have hd := lastDuration?_ne steps
  have hd' := lastDuration?_ne (understood steps)
  generalize hl : lastDuration? steps = d at hd
  generalize hl' : lastDuration? (understood steps) = d' at hd'
  rw [keepsDuration, hl, hl', Bool.or_eq_true, Bool.or_eq_true, beq_iff_eq, List.all_eq_true]
  constructor
  · rintro ((hf | rfl) | hall) s hs
    · obtain ⟨f, hf⟩ := Option.isSome_iff_exists.1 hf
      cases hs : s.lacksDuration with
      | true => simp [share_of_lacksDuration hs, inFrame, hf]
      | false => rw [share_of_not_lacksDuration hs, share_of_not_lacksDuration hs]
    · rfl
    · have hs : s.lacksDuration = false := by simpa using hall s hs
      rw [share_of_not_lacksDuration hs, share_of_not_lacksDuration hs]
  · intro h
    by_contra hn
    simp only [not_or, not_forall, Bool.not_eq_true', Bool.not_eq_false] at hn
    obtain ⟨⟨hf, hne⟩, s, hm, hs⟩ := hn
    have hf : frame.duration = none := by simpa using hf
    have he := congrArg (·.duration) (h s hm)
    simp only [share_of_lacksDuration hs, inFrame, hf, Option.getD_none] at he
    -- no duration printed is the one of a step without any
    cases d <;> cases d' <;> simp_all

/-! ### Sentences -/

/-- The readings of sentences with their frames; `antecedent` is what was picked before. -/
def readings (ctx : Context) : Option Selector → List Text → List (Frame × List Reading)
  | _, [] => []
  | antecedent, sentence :: rest =>
    let (frame, text) := Frame.ofSentence sentence
    let (rs, thread) := Reading.ofClauses ctx { antecedent } (Clause.ofSentence text)
    (frame, rs) :: readings ctx thread.antecedent rest

/-- The steps of clauses in a sentence. -/
def inSentence (frame : Frame) (steps : List Step) : List Step :=
  (shareDuration steps).map (inFrame frame)

variable {ctx : Context} {antecedent : Option Selector} {sentences : List Text}

theorem ofSentences_eq (ctx : Context) (antecedent : Option Selector) (sentences : List Text) :
    ofSentences ctx antecedent sentences =
      (readings ctx antecedent sentences).flatMap fun r =>
        inSentence r.1 (r.2.flatMap (·.steps)) := by
  induction sentences generalizing antecedent with
  | nil => rfl
  | cons sentence sentences ih =>
    rw [ofSentences, readings, ofSentence, List.flatMap_cons, ← ih]
    rfl

/-- Strict reading, by the readings that are not strict. -/
theorem ofSentences_strict_eq (ctx : Context) (antecedent : Option Selector)
    (sentences : List Text) : ofSentences (ctx.withStrict true) antecedent sentences =
      (readings (ctx.withStrict false) antecedent sentences).flatMap fun r =>
        inSentence r.1 (Reading.keptSteps false r.2) := by
  induction sentences generalizing antecedent with
  | nil => rfl
  | cons sentence sentences ih =>
    obtain ⟨hsteps, hant⟩ := Reading.ofClauses_strict ctx { antecedent } { antecedent } rfl rfl
      (Clause.ofSentence (Frame.ofSentence sentence).2)
    rw [ofSentences, readings, ofSentence, List.flatMap_cons, ← ih]
    simp only [hsteps, hant]
    rfl

theorem lenient_of_mem_readings {r : Frame × List Reading}
    (h : r ∈ readings (ctx.withStrict false) antecedent sentences) : Reading.Lenient false r.2 := by
  induction sentences generalizing antecedent with
  | nil => cases h
  | cons sentence sentences ih =>
    rw [readings] at h
    rcases List.mem_cons.1 h with rfl | h
    · exact Reading.lenient_ofClauses ctx { antecedent } _
    · exact ih h

theorem understood_inSentence (frame : Frame) (steps : List Step) :
    understood (inSentence frame steps) =
      (understood steps).map fun s => inFrame frame (share (lastDuration? steps) s) := by
  rw [inSentence, shareDuration_eq, understood_map (keepsAim_inFrame frame),
    understood_map (keepsAim_share _), List.map_map]
  rfl

theorem inSentence_eq (frame : Frame) (steps : List Step) :
    inSentence frame steps = steps.map fun s => inFrame frame (share (lastDuration? steps) s) := by
  rw [inSentence, shareDuration_eq, List.map_map]
  rfl

theorem eq_of_map_withOptional {us vs : List Step}
    (h : us.map (withOptional false) = vs.map (withOptional false))
    (ho : us.map (·.optional) = vs.map (·.optional)) : us = vs := by
  induction us generalizing vs with
  | nil => simpa using h.symm
  | cons u us ih =>
    cases vs with
    | nil => cases h
    | cons v vs =>
      simp only [List.map_cons, List.cons.injEq] at h ho
      have huv : u = v := by
        have := congrArg (withOptional u.optional) h.1
        rwa [show withOptional u.optional (withOptional false v) = v by rw [ho.1]; rfl] at this
      rw [huv, ih h.2 ho.2]

/-- A sentence reads the same exactly if its "may" and its durations stay. -/
theorem inSentence_eq_iff {kept steps : List Step}
    (h : kept.map (withOptional false) = (understood steps).map (withOptional false))
    (frame : Frame) : inSentence frame kept = understood (inSentence frame steps) ↔
      kept = understood steps ∧ keepsDuration frame steps = true := by
  have hopt : ∀ d s, (inFrame frame (share d s)).optional = s.optional := by
    intro d s
    rw [share]
    split_ifs <;> rfl
  rw [understood_inSentence, inSentence_eq, keepsDuration_iff]
  constructor
  · intro he
    -- durations come last and leave "may" alone, so that equal results had the same "may"
    have ho := congrArg (List.map (·.optional)) he
    simp only [List.map_map, Function.comp_def, hopt] at ho
    obtain rfl := eq_of_map_withOptional h ho
    exact ⟨rfl, List.map_inj_left.1 he⟩
  · rintro ⟨rfl, hd⟩
    exact List.map_inj_left.2 hd

/-- Sentences read the same but for their "may" and their durations. -/
theorem map_core_inSentence {kept steps : List Step}
    (h : kept.map (withOptional false) = (understood steps).map (withOptional false))
    (frame : Frame) :
    (inSentence frame kept).map core = (understood (inSentence frame steps)).map core := by
  have hcore : ∀ d s, (inFrame frame (share d s)).core =
      (inFrame frame (withOptional false s)).core := by
    intro d s
    rw [share]
    split_ifs <;> rfl
  have hmap : ∀ us : List Step, us.map (fun s => (inFrame frame (withOptional false s)).core) =
      (us.map (withOptional false)).map fun s => (inFrame frame s).core := fun us => by
    rw [List.map_map]
    rfl
  rw [understood_inSentence, inSentence_eq]
  simp only [List.map_map, Function.comp_def, hcore]
  rw [hmap, hmap, h]

/-! ### Effects -/

/-- Lists of equally long pieces are equal piece by piece. -/
theorem flatMap_eq_flatMap_iff {α β : Type} {l : List α} {f g : α → List β}
    (h : ∀ a ∈ l, (f a).length = (g a).length) :
    l.flatMap f = l.flatMap g ↔ ∀ a ∈ l, f a = g a := by
  induction l with
  | nil => simp
  | cons a l ih =>
    rw [List.forall_mem_cons] at h
    rw [List.flatMap_cons, List.flatMap_cons, List.forall_mem_cons, ← ih h.2]
    exact ⟨fun he => List.append_inj he h.1, fun he => by rw [he.1, he.2]⟩

/-- Nothing that the clauses left out say is missing in the others. -/
def KeepsAll (r : Frame × List Reading) : Prop :=
  Reading.keepsMay false false r.2 = true ∧ keepsDuration r.1 (r.2.flatMap (·.steps)) = true

instance (r : Frame × List Reading) : Decidable (KeepsAll r) :=
  inferInstanceAs (Decidable (_ ∧ _))

/-- **What strict reading changes.**  The steps of strict reading are those understood otherwise, in
the same order, but for durations and "may"; and they are the same steps exactly if in no sentence
the clauses left out have a "may" or a duration that the others need. -/
theorem ofEffect_strict_iff (ctx : Context) (t : Text) :
    (ofEffect (ctx.withStrict true) t).map core =
        (understood (ofEffect (ctx.withStrict false) t)).map core ∧
      (ofEffect (ctx.withStrict true) t = understood (ofEffect (ctx.withStrict false) t) ↔
        ∀ r ∈ readings (ctx.withStrict false) none t.body.sentences, KeepsAll r) := by
  have hkept : ∀ r ∈ readings (ctx.withStrict false) none t.body.sentences,
      Reading.Lenient false r.2 := fun r hr => lenient_of_mem_readings hr
  rw [ofEffect, ofEffect, ofSentences_strict_eq, ofSentences_eq, understood_flatMap]
  generalize readings (ctx.withStrict false) none t.body.sentences = rs at hkept
  have hcore : ∀ r ∈ rs, (inSentence r.1 (Reading.keptSteps false r.2)).map core =
      (understood (inSentence r.1 (r.2.flatMap (·.steps)))).map core := fun r hr =>
    map_core_inSentence (Reading.map_keptSteps (hkept r hr) false) r.1
  constructor
  · rw [List.map_flatMap, List.map_flatMap, List.flatMap_def, List.flatMap_def,
      List.map_congr_left hcore]
  · -- no sentence gains or loses a step, so that they can be compared one by one
    rw [flatMap_eq_flatMap_iff fun r hr => by simpa using congrArg List.length (hcore r hr)]
    refine forall₂_congr fun r hr => ?_
    rw [inSentence_eq_iff (Reading.map_keptSteps (hkept r hr) false),
      Reading.keptSteps_eq_iff (hkept r hr)]
    rfl

/-- In "You may sing a sea shanty and draw a card." strict reading loses the "may". -/
theorem ofEffect_strict_ne_shanty :
    let ctx : Context := ⟨.character, {}⟩
    let t := "You may sing a sea shanty and draw a card.".toList
    ofEffect (ctx.withStrict true) t ≠ understood (ofEffect (ctx.withStrict false) t) := by
  decide +kernel

end Step

end CardText
