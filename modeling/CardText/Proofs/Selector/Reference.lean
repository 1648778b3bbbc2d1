import CardText.Effect.Scope
import CardText.Proofs.Selector.Walk

/-!
# Back-references

Only a pronoun refers back, and it refers to the antecedent: whatever else a phrase says, its
quantifier is one of its own.

* `Selector.Alike`: two selectors ask for the same, apart from how many, whose and from where;
* `Selector.quantifier_ofWords`: a phrase that is read word by word refers to nothing;
* `Selector.Refers`: a selector that refers back is like the antecedent;
* `Scope.Names`: what a phrase is read as in a scope (`Scope.names_targets`, `Scope.names_player`);
  it refers to the antecedent if it refers to anything (`Scope.Names.refers`).
-/

namespace CardText

namespace Selector

/-! ### Selectors that ask for the same -/

/-- The selectors ask for the same. How many objects they pick, whose and from which zone is left
open. -/
structure Alike (s t : Selector) : Prop where
  kinds : s.kinds = t.kinds
  traits : s.traits = t.traits
  name : s.name = t.name
  excludeSelf : s.excludeSelf = t.excludeSelf
  bound : s.bound = t.bound
  damaged : s.damaged = t.damaged
  exerted : s.exerted = t.exerted
  qualifier : s.qualifier = t.qualifier

namespace Alike

variable {s t u : Selector}

theorem refl (s : Selector) : Alike s s := ⟨rfl, rfl, rfl, rfl, rfl, rfl, rfl, rfl⟩

theorem trans (h : Alike s t) (h' : Alike t u) : Alike s u :=
  ⟨h.kinds.trans h'.kinds, h.traits.trans h'.traits, h.name.trans h'.name,
    h.excludeSelf.trans h'.excludeSelf, h.bound.trans h'.bound, h.damaged.trans h'.damaged,
    h.exerted.trans h'.exerted, h.qualifier.trans h'.qualifier⟩

theorem asPrevious (s : Selector) : Alike s s.asPrevious := ⟨rfl, rfl, rfl, rfl, rfl, rfl, rfl, rfl⟩

theorem withOwner (h : Alike s t) (o : Owner) : Alike s { t with owner := o } :=
  ⟨h.kinds, h.traits, h.name, h.excludeSelf, h.bound, h.damaged, h.exerted, h.qualifier⟩

theorem withZone (h : Alike s t) (z : Option Zone) : Alike s { t with zone := z } :=
  ⟨h.kinds, h.traits, h.name, h.excludeSelf, h.bound, h.damaged, h.exerted, h.qualifier⟩

end Alike

/-! ### The walk -/

namespace Walk

/-- The quantifier of the walk is no back-reference. -/
def IsOwn (w : Walk) : Prop := w.quantifier ≠ some .previous

/-- No word makes the quantifier a back-reference. -/
theorem closed_isOwn : Closed (fun _ => True) IsOwn where
  quantifier q hq _ := by simpa [IsOwn] using hq
  plural _ h := h
  trait _ h := h
  filter _ _ _ _ h := h
  kind _ _ h := h
  classification _ h := h
  keep _ h := h

theorem IsOwn.result {w : Walk} (h : w.IsOwn) : w.result.quantifier ≠ .previous := by
  unfold IsOwn at h
  rw [Walk.result]
  cases hq : w.quantifier with
  | none => simp only [Option.getD_none]; split_ifs <;> simp
  | some q => simpa [hq] using h

end Walk

/-- A phrase that is read word by word refers to nothing. -/
theorem quantifier_ofWords (phrase : Text) : (ofWords phrase).quantifier ≠ .previous := by
  have h : (openWalk phrase).1.IsOwn := by simp [openWalk, Walk.IsOwn]
  rw [ofWords]
  simp only
  split_ifs
  · simp
  · exact (Walk.closed_isOwn.run h fun _ _ => trivial).result

/-! ### Phrases -/

/-- The selector refers to the antecedent if it refers to anything. -/
def Refers (antecedent : Option Selector) (s : Selector) : Prop :=
  s.quantifier = .previous → ∃ a, antecedent = some a ∧ Alike a s

theorem Refers.of_ne {antecedent : Option Selector} {s : Selector}
    (h : s.quantifier ≠ .previous) : Refers antecedent s := fun hp => absurd hp h

/-- Without an antecedent there is nothing to refer to. -/
theorem Refers.quantifier_ne {s : Selector} (h : Refers none s) : s.quantifier ≠ .previous := by
  intro hp
  obtain ⟨_, ha, -⟩ := h hp
  cases ha

theorem Refers.withOwner {antecedent : Option Selector} {s : Selector} (h : Refers antecedent s)
    (o : Owner) : Refers antecedent { s with owner := o } := fun hp =>
  (h hp).imp fun _ => And.imp_right (·.withOwner o)

theorem Refers.withZone {antecedent : Option Selector} {s : Selector} (h : Refers antecedent s)
    (z : Option Zone) : Refers antecedent { s with zone := z } := fun hp =>
  (h hp).imp fun _ => And.imp_right (·.withZone z)

theorem refers_ofAntecedent (source : ObjectKind) (antecedent : Option Selector) :
    Refers antecedent (ofAntecedent source antecedent) := by
  intro h
  cases antecedent with
  | none => cases h
  | some a => exact ⟨a, rfl, Alike.asPrevious a⟩

/-- Of the phrases that are read as a whole the pronouns refer to the antecedent. -/
theorem refers_of_fixed? {source : ObjectKind} {antecedent : Option Selector} {phrase : Text}
    {s : Selector} (h : fixed? source antecedent phrase = some s) : Refers antecedent s := by
  rw [fixed?] at h
  split at h
  · cases h
    exact .of_ne (by simp [this])
  · split_ifs at h
    · cases h
      exact refers_ofAntecedent source antecedent
    · have hall : ∀ e ∈ playerPhrases, e.2.quantifier ≠ .previous := by decide
      obtain ⟨e, he, rfl⟩ := Text.exists_of_lookup? h
      exact .of_ne (hall e he)

theorem refers_ofPhrase (source : ObjectKind) (antecedent : Option Selector) (phrase : Text) :
    Refers antecedent (ofPhrase source antecedent phrase) := by
  rw [ofPhrase]
  split
  · next s hs => exact refers_of_fixed? hs
  · exact .of_ne (quantifier_ofWords _)

/-- Where nothing was picked before, no phrase refers back. -/
theorem quantifier_ofPhrase_none (source : ObjectKind) (phrase : Text) :
    (ofPhrase source none phrase).quantifier ≠ .previous :=
  (refers_ofPhrase source none phrase).quantifier_ne

end Selector

/-! ### Targets -/

namespace Scope

/-- The selector is what a phrase is read as in the scope: the selector of its words, what was picked
before, the source card, or players. Its owner and its zone may be set anew. -/
inductive Names (scope : Scope) : Selector → Prop
  | phrase (t : Text) : Names scope (scope.selector t)
  | antecedent : Names scope (.ofAntecedent scope.source scope.antecedent)
  | this : Names scope (.this scope.source)
  | you : Names scope .you
  | eachOpponent : Names scope .eachOpponent
  | withOwner {s : Selector} (h : Names scope s) (o : Owner) : Names scope { s with owner := o }
  | withZone {s : Selector} (h : Names scope s) (z : Option Zone) :
      Names scope { s with zone := z }

variable {scope : Scope}

/-- What is named refers to what an earlier clause picked, if it refers back at all. -/
theorem Names.refers {s : Selector} (h : scope.Names s) : s.Refers scope.antecedent := by
  induction h with
  | phrase t => exact Selector.refers_ofPhrase scope.source scope.antecedent t
  | antecedent => exact Selector.refers_ofAntecedent scope.source scope.antecedent
  | this => exact .of_ne (by simp [Selector.this])
  | you => exact .of_ne (by decide)
  | eachOpponent => exact .of_ne (by decide)
  | withOwner _ o ih => exact ih.withOwner o
  | withZone _ z ih => exact ih.withZone z

theorem names_targets (scope : Scope) (phrase : Option Text) {s : Selector}
    (h : s ∈ (scope.targets phrase).1 :: (scope.targets phrase).2) : scope.Names s := by
  rcases phrase with _ | phrase
  · rw [List.mem_singleton.1 h]
    exact .antecedent
  · rw [targets] at h
    split_ifs at h
    · rw [List.mem_singleton.1 h]
      exact .antecedent
    · split at h
      · rw [List.mem_singleton.1 h]
        exact .this
      · next first more hparts =>
        rw [← hparts] at h
        obtain ⟨part, -, rfl⟩ := List.mem_map.1 h
        exact .phrase part

theorem names_player (scope : Scope) (phrase : Option Text) :
    scope.Names (scope.player phrase) := by
  rcases phrase with _ | phrase
  · exact .you
  · rw [player]
    split_ifs
    · exact .you
    · exact .phrase phrase

end Scope

end CardText
