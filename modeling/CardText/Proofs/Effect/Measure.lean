import CardText.Effect.Wording

/-!
# What the wordings measure

How much each step of a wording is about, and for how long.

* `Amount.counted?`, `Amount.isLiteral`: an amount for each of several things, and a plain number;
* `Wording.Measures`: the amounts of a reading are those that are printed, changed in one way;
* `Wording.multiplying`: the wordings that change a number into an amount for each of the things
  counted (`Wording.measures_of_mem_multiplying`); all others leave it as it is
  (`Wording.measures_of_not_mem`);
* `Wording.counted?_iff`, `Wording.read_eq_nil_iff`, `Wording.duration_read`: what follows for
  the amounts, the number and the durations of steps.
-/

namespace CardText

open Template

/-! ### Amounts -/

namespace Amount

/-- What is counted, if the amount holds for each of several things. -/
def counted? : Amount → Option Text
  | perEach _ counted => some counted
  | _ => none

/-- The amount is a number as printed. -/
def isLiteral : Amount → Bool
  | exact _ => true
  | _ => false

theorem counted?_negate (a : Amount) : a.negate.counted? = a.counted? := by
  cases a <;> rfl

/-- No amount as printed holds for each of several things. -/
theorem counted?_of_ofText? {t : Text} {a : Amount} (h : ofText? t = some a) :
    a.counted? = none := by
  rw [ofText?] at h
  split at h
  · obtain ⟨n, -, rfl⟩ := Option.map_eq_some_iff.1 h
    rfl
  · split at h
    · cases h
      rfl
    · split at h
      · cases h
        rfl
      · obtain ⟨n, -, rfl⟩ := Option.map_eq_some_iff.1 h
        rfl

end Amount

namespace Scope

variable {scope : Scope}

theorem scaled_eq_self (h : scope.counted = none) : scope.scaled = id := by
  funext a
  unfold scaled
  split <;> simp_all

/-- Of the amounts as printed, those that are literal hold for each of the things counted. -/
theorem counted?_scaled {t : Text} (h : scope.counted = some t) {a : Amount}
    (ha : a.counted? = none) : (scope.scaled a).counted? = some t ↔ a.isLiteral = true := by
  cases a <;> simp_all [scaled, Amount.counted?, Amount.isLiteral]

end Scope

namespace Wording

/-- What is said of a step beside its effect and its targets. -/
def measures (steps : List Step) : List (Option Amount × Duration) :=
  steps.map fun s => (s.amount, s.duration)

/-- Amounts as they are printed: none holds for each of several things, and all of them are literal
or none is. -/
structure ArePrinted (l : List (Option Amount)) : Prop where
  counted? : ∀ o ∈ l, o.bind Amount.counted? = none
  isLiteral : ∃ b, ∀ o ∈ l, o.any Amount.isLiteral = b

/-- The steps of the reading last as long as steps do without a word on it, and they have the
amounts that are printed, changed by `f`. -/
def Measures (f : Scope → Amount → Amount) (r : Match Slot → Scope → List Step) : Prop :=
  ∀ m, ∃ l, ArePrinted l ∧ ∀ scope,
    measures (r m scope) = l.map fun o => (o.map (f scope), .permanent)

variable {m : Match Slot}

theorem arePrinted_nil : ArePrinted [] := ⟨by simp, false, by simp⟩

theorem arePrinted_singleton {o : Option Amount} (h : o.bind Amount.counted? = none) :
    ArePrinted [o] :=
  ⟨List.forall_mem_singleton.2 h, _, List.forall_mem_singleton.2 rfl⟩

theorem arePrinted_of_isLiteral {l : List (Option Amount)}
    (h : ∀ o ∈ l, o.any Amount.isLiteral = true) : ArePrinted l where
  counted? o ho := by
    obtain ⟨a, rfl, ha⟩ := (Option.any_eq_true _ _).1 (h o ho)
    cases a <;> simp_all [Amount.isLiteral, Amount.counted?]
  isLiteral := ⟨true, h⟩

theorem counted?_amount? (m : Match Slot) : (amount? m).bind Amount.counted? = none := by
  cases h : amount? m with
  | none => rfl
  | some a =>
    obtain ⟨t, -, ht⟩ := Option.bind_eq_some_iff.1 h
    exact Amount.counted?_of_ofText? ht

theorem counted?_amount?_getD (m : Match Slot) (n : Int) :
    ((amount? m).getD (.exact n)).counted? = none := by
  have h := counted?_amount? m
  cases ha : amount? m with
  | none => rfl
  | some a => rwa [ha] at h

/-! ### Readings -/

section Readings

variable {r : Match Slot → Scope → List Step}

/-- A reading of one step, with an amount that the scope does not change. -/
theorem measures_fixed (o : Match Slot → Option Amount)
    (ho : ∀ m, (o m).bind Amount.counted? = none)
    (h : ∀ m scope, measures (r m scope) = [(o m, .permanent)]) : Measures (fun _ => id) r :=
  fun m => ⟨[o m], arePrinted_singleton (ho m), fun scope => by simp [h]⟩

/-- A reading of one step without an amount. -/
theorem measures_none (h : ∀ m scope, measures (r m scope) = [(none, .permanent)]) :
    Measures (fun _ => id) r :=
  measures_fixed (fun _ => none) (fun _ => rfl) h

/-- A reading of one step, with the amount that is printed. -/
theorem measures_amount? (h : ∀ m scope, measures (r m scope) = [(amount? m, .permanent)]) :
    Measures (fun _ => id) r :=
  measures_fixed amount? counted?_amount? h

/-- A reading of one step, with an amount that holds for each of the things counted. -/
theorem measures_scaled (a : Match Slot → Amount) (ha : ∀ m, (a m).counted? = none)
    (h : ∀ m scope, measures (r m scope) = [(some (scope.scaled (a m)), .permanent)]) :
    Measures Scope.scaled r :=
  fun m => ⟨[some (a m)], arePrinted_singleton (ha m), fun scope => by simp [h]⟩

end Readings

/-- The number of a stat that changes is a literal one. -/
theorem exists_measures_statChange (m : Match Slot) (change symbol : Slot) :
    ∃ l : List (Option Amount), (∀ o ∈ l, o.any Amount.isLiteral = true) ∧ ∀ scope : Scope,
      measures (statChange m scope change symbol) =
        l.map fun o => (o.map scope.scaled, .permanent) := by
  simp only [statChange]
  split
  · next n _ _ _ =>
    exact ⟨[some (.exact n)], List.forall_mem_singleton.2 rfl, fun _ => rfl⟩
  · exact ⟨[], by simp, fun _ => rfl⟩

/-- A stat can change twice. -/
theorem measures_modifyStat : Measures Scope.scaled modifyStat.read := by
  intro m
  obtain ⟨l, hl, h⟩ := exists_measures_statChange m .delta .stat
  obtain ⟨l', hl', h'⟩ := exists_measures_statChange m .secondDelta .secondStat
  refine ⟨l ++ l', arePrinted_of_isLiteral (List.forall_mem_append.2 ⟨hl, hl'⟩), fun scope => ?_⟩
  rw [List.map_append, ← h, ← h']
  exact List.map_append

/-- A loss of lore is the opposite of a number that is printed. -/
theorem measures_lore : Measures Scope.scaled lore := by
  refine measures_scaled (fun m => _) (fun m => ?_) fun _ _ => rfl
  split
  · rw [Amount.counted?_negate, counted?_amount?_getD]
  · exact counted?_amount?_getD m 0

theorem measures_inkLess : Measures Scope.scaled inkLess :=
  measures_scaled (fun m => .exact (number m)) (fun _ => rfl) fun _ _ => rfl

/-- The number of a keyword that is granted stays as it is printed. -/
theorem measures_grantKeyword : Measures (fun _ => id) grantKeyword := by
  intro m
  simp only [grantKeyword, Option.map_id, id]
  split
  · exact ⟨[], arePrinted_nil, fun _ => rfl⟩
  · split
    · exact ⟨[], arePrinted_nil, fun _ => rfl⟩
    · refine ⟨[_], arePrinted_singleton ?_, fun _ => rfl⟩
      split <;> rfl

/-! ### The table -/

/-- The wordings whose amount holds for each of the things counted: of stats gained, of lore, of
cards drawn, and of ink saved. -/
def multiplying : List Wording := [modifyStat, loreChange, draw, payLess, costsLess]

theorem measures_of_mem_multiplying {w : Wording} (h : w ∈ multiplying) :
    Measures Scope.scaled w.read := by
  simp only [multiplying, List.mem_cons, List.not_mem_nil, or_false] at h
  rcases h with rfl | rfl | rfl | rfl | rfl
  · exact measures_modifyStat
  · exact measures_lore
  · exact measures_scaled _ (counted?_amount?_getD · 1) fun _ _ => rfl
  · exact measures_inkLess
  · exact measures_inkLess

/-- **All wordings but the multiplying ones leave their amount as it is printed.** -/
theorem measures_of_not_mem {w : Wording} (h : w ∉ multiplying) :
    Measures (fun _ => id) w.read := by
  cases w with
  | modifyStat | loreChange | draw | payLess | costsLess => exact absurd (by decide) h
  | loseStat =>
    exact measures_fixed (fun m => some (.exact (-number m))) (fun _ => rfl) fun _ _ => rfl
  | dealDamage | sourceDealsDamage | putDamage | removeDamage | moveDamage | discard | lookAtTop =>
    exact measures_amount? fun _ _ => rfl
  | dealDamageEqual | loreEqual =>
    exact measures_fixed (fun m => some (.computed (formula m))) (fun _ => rfl) fun _ _ => rfl
  | drawUntil =>
    exact measures_fixed (fun m => some (.computed ("until ".toList ++ formula m))) (fun _ => rfl)
      fun _ _ => rfl
  | discardHand | lookAtHand | revealHand =>
    exact measures_fixed (fun _ => some .all) (fun _ => rfl) fun _ _ => rfl
  | gainKeyword => exact measures_grantKeyword
  | returnToHand | putIntoHand | putIntoInkwell | shuffleIntoDeck | putOnDeck | putIntoDiscard
  | playFree | play | reveal | searchDeck | banish | exert | ready | choosesAndActs | gainAbility
  | restrictKnown | restrictOther => exact measures_none fun _ _ => rfl

/-! ### What is said by a match -/

/-- The amounts that a match states where nothing is counted. -/
def amounts (w : Wording) (m : Match Slot) : List (Option Amount) :=
  (w.read m { source := .card }).map (·.amount)

theorem amounts_spec (w : Wording) (m : Match Slot) :
    ArePrinted (w.amounts m) ∧ ∀ scope : Scope, measures (w.read m scope) =
      (w.amounts m).map fun o =>
        (o.map (if w ∈ multiplying then scope.scaled else id), .permanent) := by
  have hw : Measures (fun scope => if w ∈ multiplying then scope.scaled else id) w.read := by
    by_cases h : w ∈ multiplying
    · simpa only [if_pos h] using measures_of_mem_multiplying h
    · simpa only [if_neg h] using measures_of_not_mem h
  obtain ⟨l, hl, h⟩ := hw m
  have hal : w.amounts m = l := by
    have := congrArg (List.map Prod.fst) (h { source := .card })
    simpa [measures, Scope.scaled_eq_self, amounts, Function.comp_def] using this
  rw [hal]
  exact ⟨hl, h⟩

/-- What the scope does to the amounts of a match: it may say of each that it holds for each of the
things counted. -/
theorem measures_read (w : Wording) (m : Match Slot) (scope : Scope) :
    measures (w.read m scope) = (w.amounts m).map fun o =>
      (o.map (if w ∈ multiplying then scope.scaled else id), .permanent) :=
  (amounts_spec w m).2 scope

theorem arePrinted_amounts (w : Wording) (m : Match Slot) : ArePrinted (w.amounts m) :=
  (amounts_spec w m).1

/-- The amount of a step and what its wording does to it. -/
theorem exists_of_mem_read {w : Wording} {m : Match Slot} {scope : Scope} {s : Step}
    (hs : s ∈ w.read m scope) : s.duration = .permanent ∧ ∃ o ∈ w.amounts m,
      s.amount = o.map (if w ∈ multiplying then scope.scaled else id) := by
  have hm : (s.amount, s.duration) ∈ measures (w.read m scope) := List.mem_map_of_mem hs
  rw [measures_read] at hm
  obtain ⟨o, ho, he⟩ := List.mem_map.1 hm
  obtain ⟨ha, hd⟩ := Prod.mk.inj he
  exact ⟨hd.symm, o, ho, ha.symm⟩

/-- No wording says how long its steps last. -/
theorem duration_read (w : Wording) (m : Match Slot) (scope : Scope) :
    ∀ s ∈ w.read m scope, s.duration = .permanent :=
  fun _ hs => (exists_of_mem_read hs).1

/-- Whether a match stands for any step does not depend on the scope. -/
theorem read_eq_nil_iff (w : Wording) (m : Match Slot) (scope : Scope) :
    w.read m scope = [] ↔ w.amounts m = [] := by
  rw [← List.map_eq_nil_iff (f := fun s : Step => (s.amount, s.duration)), ← measures,
    measures_read, List.map_eq_nil_iff]

/-- **An amount holds for each of the things counted exactly if it is literal and its wording is a
multiplying one.** -/
theorem counted?_iff {w : Wording} {m : Match Slot} {scope : Scope} {t : Text}
    (ht : scope.counted = some t) {s : Step} (hs : s ∈ w.read m scope) :
    s.amount.bind Amount.counted? = some t ↔
      w ∈ multiplying ∧ ∃ o ∈ w.amounts m, o.any Amount.isLiteral = true := by
  obtain ⟨-, o, ho, ha⟩ := exists_of_mem_read hs
  have hp := arePrinted_amounts w m
  rw [ha]
  by_cases hw : w ∈ multiplying
  · obtain ⟨b, hb⟩ := hp.isLiteral
    -- the amounts of a match are literal together
    have hall : (∃ o ∈ w.amounts m, o.any Amount.isLiteral = true) ↔
        o.any Amount.isLiteral = true :=
      ⟨fun ⟨o', ho', h'⟩ => by rw [hb o ho, ← hb o' ho', h'], fun h => ⟨o, ho, h⟩⟩
    rw [if_pos hw, hall, and_iff_right hw]
    cases o with
    | none => simp
    | some a => simpa using Scope.counted?_scaled ht (by simpa using hp.counted? _ ho)
  · rw [if_neg hw, Option.map_id, id, hp.counted? o ho]
    simp [hw]

end Wording

end CardText
