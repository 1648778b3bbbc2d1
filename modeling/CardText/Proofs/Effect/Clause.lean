import CardText.Effect.Steps
import CardText.Proofs.Effect.Contest
import CardText.Proofs.Effect.Target

/-!
# The reading of a clause

Whether a clause is understood, and by which steps, depends on what was picked and on the verb that
it may leave out, and on nothing else that the clauses before it hand on.

* `Reading.understood?`, `Reading.nextVerb?`: the steps of a clause without its modifiers, and the
  verb that it hands on;
* `Reading.ofClause_of_some`, `Reading.ofClause_of_none`: the reading of a clause by these;
  `Reading.exists_of_mem_ofClause` and `Reading.admits_of_mem_ofClause` for each of its steps;
* `Step.SameAim`: steps with the same effect, targets and amount; the modifiers of a clause, a
  shared duration and the frame of a sentence lead to such steps.
-/

namespace CardText

namespace Step

/-! ### Effect and targets -/

/-- The steps do the same to the same objects, by the same amount. -/
structure SameAim (s u : Step) : Prop where
  effect : u.effect = s.effect
  target : u.target = s.target
  additionalTargets : u.additionalTargets = s.additionalTargets
  amount : u.amount = s.amount

/-- What does not touch effect, targets and amount of a step. -/
def KeepsAim (g : Step → Step) : Prop := ∀ s, SameAim s (g s)

theorem SameAim.trans {s u v : Step} (h : SameAim s u) (h' : SameAim u v) : SameAim s v :=
  ⟨h'.effect.trans h.effect, h'.target.trans h.target,
    h'.additionalTargets.trans h.additionalTargets, h'.amount.trans h.amount⟩

theorem SameAim.isOpaque {s u : Step} (h : SameAim s u) : u.isOpaque = s.isOpaque := by
  rw [Step.isOpaque, Step.isOpaque, h.effect]

theorem SameAim.selectors {s u : Step} (h : SameAim s u) : u.selectors = s.selectors := by
  rw [Step.selectors, Step.selectors, h.effect, h.target, h.additionalTargets]

theorem keepsAim_addNote (t : Text) : KeepsAim (addNote t) := fun _ => ⟨rfl, rfl, rfl, rfl⟩

theorem keepsAim_modify (optional : Bool) (mods : Modifiers) : KeepsAim (modify optional mods) :=
  fun _ => ⟨rfl, rfl, rfl, rfl⟩

theorem keepsAim_inFrame (frame : Frame) : KeepsAim (inFrame frame) :=
  fun _ => ⟨rfl, rfl, rfl, rfl⟩

/-- A lasting effect without a duration of its own takes the one given. -/
def share (d : Option Duration) (s : Step) : Step :=
  if s.duration = .permanent ∧ s.effect.isContinuous then { s with duration := d.getD s.duration }
  else s

theorem keepsAim_share (d : Option Duration) : KeepsAim (share d) := by
  intro s
  rw [share]
  split_ifs
  · exact ⟨rfl, rfl, rfl, rfl⟩
  · exact ⟨rfl, rfl, rfl, rfl⟩

theorem shareDuration_eq (steps : List Step) :
    shareDuration steps = steps.map (share (lastDuration? steps)) := by
  rw [shareDuration]
  cases lastDuration? steps with
  | none =>
    have hid : share none = id := by
      funext s
      rw [share]
      split_ifs <;> rfl
    rw [hid, List.map_id]
  | some d => rfl

/-- What is left over by a match goes to the note of a step, and all else stays. -/
theorem eq_of_mem_noteLast {rest : Text} {steps : List Step} {s : Step}
    (h : s ∈ noteLast rest steps) : ∃ u ∈ steps, s = u ∨ s = u.addNote rest := by
  induction steps with
  | nil => cases h
  | cons u us ih =>
    cases us with
    | nil =>
      rw [noteLast] at h
      split at h
      · exact ⟨u, List.mem_singleton_self u, .inl (List.mem_singleton.1 h)⟩
      · exact ⟨u, List.mem_singleton_self u, .inr (List.mem_singleton.1 h)⟩
    | cons v vs =>
      rcases List.mem_cons.1 h with rfl | h
      · exact ⟨s, List.mem_cons_self, .inl rfl⟩
      · obtain ⟨x, hx, he⟩ := ih h
        exact ⟨x, List.mem_cons_of_mem _ hx, he⟩

theorem exists_of_mem_noteLast {rest : Text} {steps : List Step} {s : Step}
    (h : s ∈ noteLast rest steps) : ∃ u ∈ steps, SameAim u s := by
  obtain ⟨u, hu, rfl | rfl⟩ := eq_of_mem_noteLast h
  · exact ⟨s, hu, rfl, rfl, rfl, rfl⟩
  · exact ⟨u, hu, keepsAim_addNote rest u⟩

theorem noteLast_ne_nil (rest : Text) {steps : List Step} (h : steps ≠ []) :
    noteLast rest steps ≠ [] := by
  match steps with
  | [] => exact absurd rfl h
  | [s] => rw [noteLast]; split <;> simp
  | s :: u :: us => simp [noteLast]

/-- An action is understood by its best wording, if that reads some step. -/
theorem exists_of_ofAction? {scope : Scope} {action : Text} {steps : List Step}
    (h : ofAction? scope action = some steps) : ∃ w m, Wording.best? action = some (w, m) ∧
      w.read m scope ≠ [] ∧ steps = noteLast (remainder m) (w.read m scope) := by
  rw [ofAction?] at h
  split at h
  · cases h
  · next w m hb =>
    simp only at h
    split at h
    · cases h
    · next hne =>
      cases h
      exact ⟨w, m, hb, by simpa using hne, rfl⟩

theorem ofAction?_ne_nil {scope : Scope} {action : Text} {steps : List Step}
    (h : ofAction? scope action = some steps) : steps ≠ [] := by
  obtain ⟨w, m, -, hne, rfl⟩ := exists_of_ofAction? h
  exact noteLast_ne_nil _ hne

theorem ofAction?_nil (scope : Scope) : ofAction? scope [] = none := by
  have hb : Wording.best? [] = none := by
    refine Wording.pick?_eq_none_iff.2 (List.filterMap_eq_nil_iff.2 fun w _ => ?_)
    rw [Option.map_eq_none_iff, Option.eq_none_iff_forall_not_mem]
    intro m hm
    have h := Template.length_of_match? hm
    have := w.width_template_pos
    simp only [List.length_nil] at h
    omega
  rw [ofAction?, hb]

end Step

theorem Scope.Admits.sameAim {scope : Scope} {s u : Step} (h : scope.Admits s)
    (ha : Step.SameAim s u) : scope.Admits u :=
  h.congr ha.effect ha.target ha.additionalTargets ha.amount

/-- The steps of an action that is understood. -/
theorem Scope.admits_of_ofAction? {scope : Scope} {action : Text} {steps : List Step}
    (h : Step.ofAction? scope action = some steps) : ∀ s ∈ steps, scope.Admits s := by
  intro s hs
  obtain ⟨w, m, -, -, rfl⟩ := Step.exists_of_ofAction? h
  obtain ⟨u, hu, ha⟩ := Step.exists_of_mem_noteLast hs
  exact (w.admits_read m scope u hu).sameAim ha

namespace Reading

/-! ### What is understood -/

/-- The steps of a clause without its modifiers, if it is understood. -/
def understood? (source : ObjectKind) (antecedent : Option Selector) (verb : Option Text)
    (clause : Text) : Option (List Step) :=
  let (mods, action) := Modifiers.ofClause clause
  let action := completeAction verb action
  if action.isEmpty then none else Step.ofAction? ⟨source, antecedent, mods.counted⟩ action

/-- The verb that a clause hands on. -/
def nextVerb? (verb : Option Text) (clause : Text) : Option Text :=
  (Clause.leadingVerb? (completeAction verb (Modifiers.ofClause clause).2)).or verb

variable {clause : Text} {steps : List Step}

/-- A clause is understood exactly if its action is. -/
theorem understood?_eq (source : ObjectKind) (antecedent : Option Selector) (verb : Option Text)
    (clause : Text) : understood? source antecedent verb clause =
      Step.ofAction? ⟨source, antecedent, (Modifiers.ofClause clause).1.counted⟩
        (completeAction verb (Modifiers.ofClause clause).2) := by
  rw [understood?]
  simp only
  split_ifs with h
  · rw [List.isEmpty_iff.1 h, Step.ofAction?_nil]
  · rfl

theorem ofAction?_of_understood? {source : ObjectKind} {antecedent : Option Selector}
    {verb : Option Text} (h : understood? source antecedent verb clause = some steps) :
    Step.ofAction? ⟨source, antecedent, (Modifiers.ofClause clause).1.counted⟩
      (completeAction verb (Modifiers.ofClause clause).2) = some steps := by
  rwa [understood?_eq] at h

theorem understood?_of_ofAction? {source : ObjectKind} {antecedent : Option Selector}
    {verb : Option Text} {mods : Modifiers} {action : Text}
    (hm : Modifiers.ofClause clause = (mods, action))
    (h : Step.ofAction? ⟨source, antecedent, mods.counted⟩ (completeAction verb action) =
      some steps) : understood? source antecedent verb clause = some steps := by
  rw [understood?_eq, hm, h]

theorem admits_of_understood? {source : ObjectKind} {antecedent : Option Selector}
    {verb : Option Text} (h : understood? source antecedent verb clause = some steps) :
    ∀ s ∈ steps, Scope.Admits ⟨source, antecedent, (Modifiers.ofClause clause).1.counted⟩ s :=
  Scope.admits_of_ofAction? (ofAction?_of_understood? h)

theorem understood?_ne_nil {source : ObjectKind} {antecedent : Option Selector}
    {verb : Option Text} (h : understood? source antecedent verb clause = some steps) :
    steps ≠ [] :=
  Step.ofAction?_ne_nil (ofAction?_of_understood? h)

theorem picked?_map {g : Step → Step} (hg : Step.KeepsAim g) (steps : List Step) :
    picked? (steps.map g) = picked? steps := by
  have ht : ∀ s : Step, (g s).target = s.target := fun s => (hg s).target
  have ho : ∀ s : Step, (g s).isOpaque = s.isOpaque := fun s => (hg s).isOpaque
  simp only [picked?, ← List.map_reverse, List.find?_map, Function.comp_def, ht, ho, Option.map_map]

/-- A clause that is understood. -/
theorem ofClause_of_some (ctx : Context) (thread : Thread)
    (h : understood? ctx.source thread.antecedent thread.verb clause = some steps) :
    let mods := (Modifiers.ofClause clause).1
    let optional := thread.optional || mods.optional
    ofClause ctx thread clause =
      (⟨clause, mods, steps.map (Step.modify optional mods)⟩,
        ⟨(picked? steps).or thread.antecedent, optional, nextVerb? thread.verb clause⟩) := by
  rw [understood?] at h
  simp only at h
  simp only [ofClause, h, Option.isNone_some, Bool.false_and, Bool.false_eq_true, if_false,
    Option.getD_some, picked?_map (Step.keepsAim_modify _ _), nextVerb?]

/-- A clause that is not understood hands on its verb, and its "may" unless reading is strict. -/
theorem ofClause_of_none (ctx : Context) (thread : Thread)
    (h : understood? ctx.source thread.antecedent thread.verb clause = none) :
    let mods := (Modifiers.ofClause clause).1
    let optional := thread.optional || mods.optional
    let verb := nextVerb? thread.verb clause
    ofClause ctx thread clause =
      if ctx.options.strict then (⟨clause, mods, []⟩, { thread with verb })
      else (⟨clause, mods, [(Step.ofOpaque clause).modify optional mods]⟩,
        { thread with optional, verb }) := by
  rw [understood?] at h
  simp only at h
  have hp : ∀ b m, picked? [(Step.ofOpaque clause).modify b m] = none := fun _ _ => rfl
  simp only [ofClause, h, Option.isNone_none, Bool.true_and, Option.getD_none, List.map_singleton,
    hp, Option.none_or, nextVerb?]

theorem clause_ofClause (ctx : Context) (thread : Thread) (clause : Text) :
    (ofClause ctx thread clause).1.clause = clause := by
  rw [ofClause]
  simp only
  split_ifs <;> rfl

/-- A step of a clause has the modifiers of the clause. Without them it is a step of the action, or
it keeps the text of the clause because reading is not strict. -/
theorem exists_of_mem_ofClause {ctx : Context} {thread : Thread} {s : Step}
    (h : s ∈ (ofClause ctx thread clause).1.steps) :
    let mods := (Modifiers.ofClause clause).1
    let known := understood? ctx.source thread.antecedent thread.verb clause
    ∃ u, s = u.modify (thread.optional || mods.optional) mods ∧
      ((∃ steps, known = some steps ∧ u ∈ steps) ∨
        known = none ∧ ctx.options.strict = false ∧ u = .ofOpaque clause) := by
  intro mods known
  cases hu : known with
  | some steps =>
    rw [ofClause_of_some ctx thread hu] at h
    obtain ⟨u, hm, rfl⟩ := List.mem_map.1 h
    exact ⟨u, rfl, .inl ⟨steps, rfl, hm⟩⟩
  | none =>
    rw [ofClause_of_none ctx thread hu] at h
    split_ifs at h with hs
    · cases h
    · exact ⟨_, List.mem_singleton.1 h, .inr ⟨rfl, by simpa using hs, rfl⟩⟩

/-- A step of a clause is admitted where the clause stands, or it keeps the text of the clause
because reading is not strict. -/
theorem admits_of_mem_ofClause {ctx : Context} {thread : Thread} {s : Step}
    (h : s ∈ (ofClause ctx thread clause).1.steps) :
    (∃ scope : Scope, scope.antecedent = thread.antecedent ∧ scope.Admits s) ∨
      ctx.options.strict = false ∧ (Step.ofOpaque clause).SameAim s := by
  obtain ⟨u, rfl, ⟨steps, hu, hm⟩ | ⟨-, hs, rfl⟩⟩ := exists_of_mem_ofClause h
  · exact .inl ⟨_, rfl, (admits_of_understood? hu u hm).sameAim (Step.keepsAim_modify _ _ u)⟩
  · exact .inr ⟨hs, Step.keepsAim_modify _ _ _⟩

end Reading

end CardText
