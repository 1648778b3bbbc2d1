import CardText.Proofs.Effect.Clause

/-!
# Steps that refer back

A step that refers to what was picked before stands behind a step that picked it.

* `Step.Grounds`: a step picks on its own what a selector asks for;
* `Step.Chained`: every back-reference of a list of steps is grounded in front of it, with
  `Step.chained_append` for lists in a row;
* `Step.Anchored`: so is the antecedent that is handed on.  Each clause keeps this
  (`Reading.chained_ofClause`), and so does each sentence (`Step.chained_ofSentence`);
* `Step.chained_ofEffect`: nothing in the steps of an effect refers to a thing never picked.
-/

namespace CardText

namespace Step

/-! ### Grounds -/

/-- The step is understood and picks, on its own and no players, what the selector asks for. -/
structure Grounds (t : Step) (r : Selector) : Prop where
  isOpaque : t.isOpaque = false
  isPlayer : t.target.isPlayer = false
  quantifier : t.target.quantifier ≠ .previous
  alike : t.target.Alike r

/-- One of the steps grounds the selector. -/
def IsGrounded (steps : List Step) (r : Selector) : Prop := ∃ t ∈ steps, t.Grounds r

/-- The antecedent is grounded in the steps. -/
def Anchored (steps : List Step) (antecedent : Option Selector) : Prop :=
  ∀ a ∈ antecedent, IsGrounded steps a

/-- Every back-reference of the steps is grounded in front of it, in the steps `before` or those
between. -/
inductive Chained : List Step → List Step → Prop
  | nil (before : List Step) : Chained before []
  | cons {before : List Step} {s : Step} {steps : List Step}
      (grounded : ∀ r ∈ s.selectors, r.quantifier = .previous → IsGrounded before r)
      (rest : Chained (before ++ [s]) steps) : Chained before (s :: steps)

variable {before steps : List Step} {r : Selector} {antecedent : Option Selector}

theorem Grounds.congr {s u : Step} (h : s.Grounds r) (ha : SameAim s u) : u.Grounds r where
  isOpaque := ha.isOpaque.trans h.isOpaque
  isPlayer := by rw [ha.target]; exact h.isPlayer
  quantifier := by rw [ha.target]; exact h.quantifier
  alike := by rw [ha.target]; exact h.alike

theorem IsGrounded.append_left (h : IsGrounded before r) (steps : List Step) :
    IsGrounded (before ++ steps) r := by
  obtain ⟨t, ht, hg⟩ := h
  exact ⟨t, List.mem_append_left steps ht, hg⟩

theorem IsGrounded.alike {a : Selector} (h : IsGrounded steps a) (ha : a.Alike r) :
    IsGrounded steps r := by
  obtain ⟨t, ht, hg⟩ := h
  exact ⟨t, ht, hg.isOpaque, hg.isPlayer, hg.quantifier, hg.alike.trans ha⟩

theorem IsGrounded.map {g : Step → Step} (hg : KeepsAim g)
    (h : IsGrounded (before ++ steps) r) : IsGrounded (before ++ steps.map g) r := by
  obtain ⟨t, ht, hgr⟩ := h
  rcases List.mem_append.1 ht with ht | ht
  · exact ⟨t, List.mem_append_left _ ht, hgr⟩
  · exact ⟨g t, List.mem_append_right _ (List.mem_map_of_mem ht), hgr.congr (hg t)⟩

/-- What refers to an anchored antecedent is grounded where that is. -/
theorem IsGrounded.of_refers (ha : Anchored before antecedent) (hr : r.Refers antecedent)
    (hq : r.quantifier = .previous) : IsGrounded before r := by
  obtain ⟨a, hant, halike⟩ := hr hq
  exact (ha a hant).alike halike

/-! ### Chains -/

theorem chained_cons {s : Step} : Chained before (s :: steps) ↔
    (∀ r ∈ s.selectors, r.quantifier = .previous → IsGrounded before r) ∧
      Chained (before ++ [s]) steps := by
  constructor
  · rintro (_ | ⟨hg, hr⟩)
    exact ⟨hg, hr⟩
  · rintro ⟨hg, hr⟩
    exact .cons hg hr

theorem chained_append {us vs : List Step} :
    Chained before (us ++ vs) ↔ Chained before us ∧ Chained (before ++ us) vs := by
  induction us generalizing before with
  | nil => simp [Chained.nil]
  | cons u us ih =>
    rw [List.cons_append, chained_cons, chained_cons, ih, List.append_assoc,
      List.singleton_append, and_assoc]

theorem chained_of_forall
    (h : ∀ s ∈ steps, ∀ r ∈ s.selectors, r.quantifier = .previous → IsGrounded before r) :
    Chained before steps := by
  induction steps generalizing before with
  | nil => exact .nil before
  | cons s steps ih =>
    refine .cons (h s List.mem_cons_self) (ih fun u hu r hr hq => ?_)
    exact (h u (List.mem_cons_of_mem s hu) r hr hq).append_left [s]

/-- A chain is one whatever else than effects and targets changes. -/
theorem Chained.map {g : Step → Step} (hg : KeepsAim g) (h : Chained before steps) :
    Chained before (steps.map g) := by
  -- the steps passed so far change too; those in front of the chain do not
  have key : ∀ front : List Step, Chained (before ++ front) steps →
      Chained (before ++ front.map g) (steps.map g) := by
    clear h
    induction steps with
    | nil => exact fun _ _ => .nil _
    | cons s steps ih =>
      intro front h
      obtain ⟨hs, hrest⟩ := chained_cons.1 h
      refine .cons (fun r hr hq => ?_) ?_
      · rw [(hg s).selectors] at hr
        exact (hs r hr hq).map hg
      · have := ih (front ++ [s]) (by rwa [← List.append_assoc])
        rwa [List.map_append, ← List.append_assoc] at this
  simpa using key [] (by simpa using h)

/-- What the steps of a clause pick is grounded in front of them, or picked by one of them. -/
theorem isGrounded_picked?
    (h : ∀ s ∈ steps, ∀ r ∈ s.selectors, r.quantifier = .previous → IsGrounded before r)
    (hr : Reading.picked? steps = some r) : IsGrounded (before ++ steps) r := by
  rw [Reading.picked?, Option.map_eq_some_iff] at hr
  obtain ⟨s, hs, rfl⟩ := hr
  have hm : s ∈ steps := List.mem_reverse.1 (List.mem_of_find?_eq_some hs)
  have hp := List.find?_some hs
  rw [Bool.and_eq_true, Bool.not_eq_true', Bool.not_eq_true'] at hp
  -- a step that refers back hands on what it refers to, any other one its own target
  by_cases hq : s.target.quantifier = .previous
  · exact (h s hm _ List.mem_cons_self hq).append_left steps
  · exact ⟨s, List.mem_append_right before hm, hp.1, hp.2, hq, .refl _⟩

end Step

namespace Reading

open Step

variable {ctx : Context} {before : List Step}

/-- The steps of a clause refer to what was picked before it. -/
theorem refers_of_mem_steps {thread : Thread} {clause : Text} {s : Step}
    (hs : s ∈ (ofClause ctx thread clause).1.steps) {r : Selector} (hr : r ∈ s.selectors) :
    r.Refers thread.antecedent := by
  rcases admits_of_mem_ofClause hs with ⟨scope, ha, h⟩ | ⟨-, ha⟩
  · exact ha ▸ h.refers r hr
  · rw [ha.selectors] at hr
    rw [List.mem_singleton.1 hr]
    exact .of_ne (by simp [ofOpaque])

theorem antecedent_ofClause (ctx : Context) (thread : Thread) (clause : Text) :
    (ofClause ctx thread clause).2.antecedent =
      (picked? (ofClause ctx thread clause).1.steps).or thread.antecedent := by
  cases hu : understood? ctx.source thread.antecedent thread.verb clause with
  | some steps => rw [ofClause_of_some ctx thread hu, picked?_map (keepsAim_modify _ _)]
  | none =>
    rw [ofClause_of_none ctx thread hu]
    split_ifs <;> rfl

/-- One clause keeps the chain and the anchor. -/
theorem chained_ofClause (ctx : Context) {thread : Thread}
    (ha : Anchored before thread.antecedent) (clause : Text) :
    Chained before (ofClause ctx thread clause).1.steps ∧
      Anchored (before ++ (ofClause ctx thread clause).1.steps)
        (ofClause ctx thread clause).2.antecedent := by
  have hg : ∀ s ∈ (ofClause ctx thread clause).1.steps, ∀ r ∈ s.selectors,
      r.quantifier = .previous → IsGrounded before r := fun s hs r hr =>
    IsGrounded.of_refers ha (refers_of_mem_steps hs hr)
  refine ⟨chained_of_forall hg, fun a hm => ?_⟩
  rw [antecedent_ofClause, Option.mem_def, Option.or_eq_some_iff] at hm
  rcases hm with hp | ⟨-, hp⟩
  · exact isGrounded_picked? hg hp
  · exact (ha a hp).append_left _

/-- So do the clauses of a sentence, one after the other. -/
theorem chained_ofClauses (ctx : Context) {thread : Thread}
    (ha : Anchored before thread.antecedent) (clauses : List Text) :
    Chained before ((ofClauses ctx thread clauses).1.flatMap (·.steps)) ∧
      Anchored (before ++ (ofClauses ctx thread clauses).1.flatMap (·.steps))
        (ofClauses ctx thread clauses).2.antecedent := by
  induction clauses generalizing thread before with
  | nil => exact ⟨.nil before, by simpa [ofClauses] using ha⟩
  | cons clause clauses ih =>
    obtain ⟨hc, hn⟩ := chained_ofClause ctx ha clause
    obtain ⟨hcs, hns⟩ := ih hn
    rw [ofClauses, List.flatMap_cons, ← List.append_assoc]
    exact ⟨chained_append.2 ⟨hc, hcs⟩, hns⟩

end Reading

namespace Step

variable {ctx : Context} {before : List Step} {antecedent : Option Selector}

theorem chained_ofSentence (ha : Anchored before antecedent) (sentence : Text) :
    Chained before (ofSentence ctx antecedent sentence).1 ∧
      Anchored (before ++ (ofSentence ctx antecedent sentence).1)
        (ofSentence ctx antecedent sentence).2 := by
  have ha : Anchored before ({ antecedent } : Thread).antecedent := ha
  obtain ⟨hc, hn⟩ := Reading.chained_ofClauses ctx ha
    (Clause.ofSentence (Frame.ofSentence sentence).2)
  rw [ofSentence]
  simp only [shareDuration_eq]
  exact ⟨(hc.map (keepsAim_share _)).map (keepsAim_inFrame _), fun a hm =>
    ((hn a hm).map (keepsAim_share _)).map (keepsAim_inFrame _)⟩

theorem chained_ofSentences (ha : Anchored before antecedent) (sentences : List Text) :
    Chained before (ofSentences ctx antecedent sentences) := by
  induction sentences generalizing before antecedent with
  | nil => exact .nil before
  | cons sentence sentences ih =>
    obtain ⟨hc, hn⟩ := chained_ofSentence ha sentence
    rw [ofSentences]
    exact chained_append.2 ⟨hc, ih hn⟩

/-- Every back-reference in the steps of an effect is grounded in front of it. -/
theorem chained_ofEffect (ctx : Context) (t : Text) : Chained [] (ofEffect ctx t) :=
  chained_ofSentences (fun _ ha => by cases ha) t.body.sentences

end Step

end CardText
