import Mathlib.Data.List.Nodup
import CardText.Proofs.Selector.Reference
import CardText.Proofs.Text.Spacing

/-!
# Well-formed selectors

No selector asks for a kind or a classification twice, players and "any card" are asked for alone,
and words that are kept are words.

* `Selector.IsWellFormed`: this, of a selector;
* `Walk.IsRegular`: what each word keeps of it while a phrase is read (`Walk.closed_isRegular`);
* `Selector.isSettled_ofPhrase`: every phrase is read as such a selector, unless it refers back;
* `Scope.Names.isSettled`: so is every target of a clause.
-/

namespace CardText

theorem Text.lowerPlain_ne_nil {t : Text} (h : t.lowerPlain ≠ []) : t ≠ [] := by
  rintro rfl
  exact h rfl

namespace Selector

/-- Each kind and each classification is asked for once, players and cards of any kind are asked for
alone, and a qualifier says something. -/
structure IsWellFormed (s : Selector) : Prop where
  kinds : s.kinds.Nodup
  traits : s.traits.Nodup
  player : .player ∈ s.kinds → s.kinds = [.player]
  card : .card ∈ s.kinds → s.kinds = [.card]
  qualifier : s.qualifier ≠ some []

/-- The selector is well-formed, if it does not refer to what was picked before. -/
def IsSettled (s : Selector) : Prop := s.quantifier ≠ .previous → s.IsWellFormed

namespace IsWellFormed

variable {s t : Selector}

/-- A selector that asks for the same is as well-formed. -/
theorem alike (h : s.IsWellFormed) (ha : s.Alike t) : t.IsWellFormed where
  kinds := ha.kinds ▸ h.kinds
  traits := ha.traits ▸ h.traits
  player := ha.kinds ▸ h.player
  card := ha.kinds ▸ h.card
  qualifier := ha.qualifier ▸ h.qualifier

theorem withQuantifier (h : s.IsWellFormed) (q : Quantifier) :
    IsWellFormed { s with quantifier := q } :=
  ⟨h.kinds, h.traits, h.player, h.card, h.qualifier⟩

/-- One kind, and nothing else asked for. -/
theorem of_kind {k : ObjectKind} (hk : s.kinds = [k]) (ht : s.traits = [])
    (hq : s.qualifier = none) : s.IsWellFormed where
  kinds := by simp [hk]
  traits := by simp [ht]
  player := by simp +contextual [hk]
  card := by simp +contextual [hk]
  qualifier := by simp [hq]

theorem this (k : ObjectKind) : (Selector.this k).IsWellFormed := of_kind rfl rfl rfl

theorem players (q : Quantifier) (o : Owner) : (Selector.players q o).IsWellFormed :=
  of_kind rfl rfl rfl

theorem isSettled (h : s.IsWellFormed) : s.IsSettled := fun _ => h

end IsWellFormed

theorem IsSettled.withOwner {s : Selector} (h : s.IsSettled) (o : Owner) :
    IsSettled { s with owner := o } := fun hq => (h hq).alike ((Alike.refl s).withOwner o)

theorem IsSettled.withZone {s : Selector} (h : s.IsSettled) (z : Option Zone) :
    IsSettled { s with zone := z } := fun hq => (h hq).alike ((Alike.refl s).withZone z)

/-! ### Kinds and classifications -/

@[simp] theorem traits_withKind (s : Selector) (k : ObjectKind) :
    (s.withKind k).traits = s.traits := by
  rw [withKind]
  split_ifs <;> rfl

@[simp] theorem kinds_withTrait (s : Selector) (name : Text) :
    (s.withTrait name).kinds = s.kinds := by
  simp only [withTrait]
  split_ifs <;> rfl

theorem nodup_kinds_withKind {s : Selector} (h : s.kinds.Nodup) (k : ObjectKind) :
    (s.withKind k).kinds.Nodup := by
  rw [withKind]
  split_ifs with hc
  · exact h
  · exact List.nodup_append_comm.1 (List.nodup_cons.2 ⟨by simpa using hc, h⟩)

theorem mem_kinds_withKind {s : Selector} {k k' : ObjectKind} (h : k' ∈ (s.withKind k).kinds) :
    k' ∈ s.kinds ∨ k' = k := by
  rw [withKind] at h
  split_ifs at h with hc
  · exact .inl h
  · simpa using h

theorem nodup_traits_withTrait {s : Selector} (h : s.traits.Nodup) (name : Text) :
    (s.withTrait name).traits.Nodup := by
  simp only [withTrait]
  split_ifs with hc
  · exact h
  · exact List.nodup_append_comm.1 (List.nodup_cons.2 ⟨by simpa using hc, h⟩)

/-! ### The walk -/

namespace Walk

/-- What has been read so far asks for each kind and each classification once and for no players,
and the words kept are words. Cards of any kind may still stand beside a kind. -/
structure IsRegular (w : Walk) : Prop where
  kinds : w.selector.kinds.Nodup
  player : .player ∉ w.selector.kinds
  traits : w.selector.traits.Nodup
  leftovers : ∀ word ∈ w.leftovers, word ≠ []

/-- Every word keeps this. -/
theorem closed_isRegular : Closed (· ≠ []) IsRegular where
  quantifier _ _ h := ⟨h.kinds, h.player, h.traits, h.leftovers⟩
  plural _ h := ⟨h.kinds, h.player, h.traits, h.leftovers⟩
  trait _ h := ⟨h.kinds, h.player, h.traits, h.leftovers⟩
  filter _ _ _ _ h := ⟨h.kinds, h.player, h.traits, h.leftovers⟩
  kind k hk h :=
    { kinds := nodup_kinds_withKind h.kinds k
      player := fun hp => (mem_kinds_withKind hp).elim h.player hk.symm
      traits := by simpa using h.traits
      leftovers := h.leftovers }
  classification name h :=
    { kinds := by simpa using h.kinds
      player := by simpa using h.player
      traits := nodup_traits_withTrait h.traits name
      leftovers := h.leftovers }
  keep {w word} hw h := by
    refine ⟨h.kinds, h.player, h.traits, fun v hv => ?_⟩
    rcases List.mem_append.1 hv with hv | hv
    · exact h.leftovers v hv
    · rwa [List.mem_singleton.1 hv]

/-- At the end cards of any kind give way to the kinds beside them. -/
theorem IsRegular.result {w : Walk} (h : w.IsRegular) : w.result.IsWellFormed where
  kinds := by
    simp only [Walk.result]
    split_ifs
    · exact h.kinds.filter _
    · exact h.kinds
  traits := h.traits
  player hp := by
    refine absurd ?_ h.player
    simp only [Walk.result] at hp
    split_ifs at hp
    · exact (List.mem_filter.1 hp).1
    · exact hp
  card hc := by
    simp only [Walk.result] at hc ⊢
    split_ifs at hc ⊢ with hl
    · simp at hc
    · have hpos := List.length_pos_of_mem hc
      obtain ⟨k, hk⟩ := List.length_eq_one_iff.1 (by omega : w.selector.kinds.length = 1)
      rw [hk] at hc ⊢
      rw [List.mem_singleton.1 hc]
  qualifier := by
    simp only [Walk.result]
    split_ifs with hn
    · simp
    · simpa using Text.unwords_ne_nil (by simpa using hn) h.leftovers

end Walk

/-! ### Words -/

theorem ne_nil_of_mem_bareWords {t word : Text} (h : word ∈ bareWords t) : word ≠ [] := by
  simpa using (List.mem_filter.1 h).2

theorem lowerPlain_of_breakOnWords? {part t : Text} {before : Option Char} {b : Text × Text × Text}
    (h : breakOnWords? part before t = some b) : b.2.1.lowerPlain = part := by
  induction t generalizing before b with
  | nil => cases h
  | cons c r ih =>
    simp only [breakOnWords?] at h
    split_ifs at h with hc
    · cases h
      exact hc.1
    · obtain ⟨b', hb, rfl⟩ := Option.map_eq_some_iff.1 h
      exact ih (b := b') hb

theorem ne_nil_of_mem_takeQualifiers {parts : List Text} (hp : ∀ part ∈ parts, part ≠ [])
    {t word : Text} (h : word ∈ (takeQualifiers parts t).1) : word ≠ [] := by
  induction parts generalizing t with
  | nil => cases h
  | cons part parts ih =>
    obtain ⟨hpart, hparts⟩ := List.forall_mem_cons.1 hp
    rw [takeQualifiers] at h
    split at h
    · next front found after hb =>
      have hf : found.lowerPlain = part := lowerPlain_of_breakOnWords? hb
      rcases List.mem_cons.1 h with rfl | h
      · exact Text.lowerPlain_ne_nil (hf ▸ hpart)
      · exact ih hparts h
    · exact ih hparts h

/-! ### Phrases -/

theorem isRegular_openWalk (phrase : Text) : (openWalk phrase).1.IsRegular where
  kinds := List.nodup_nil
  player := List.not_mem_nil
  traits := List.nodup_nil
  leftovers word h := by
    have hp : ∀ part ∈ qualifierPhrases, part ≠ [] := by decide
    rw [openWalk] at h
    exact ne_nil_of_mem_takeQualifiers hp h

/-- A phrase that is read word by word. -/
theorem isWellFormed_ofWords (phrase : Text) : (ofWords phrase).IsWellFormed := by
  have h : ((openWalk phrase).1.run (openWalk phrase).2).result.IsWellFormed :=
    (Walk.closed_isRegular.run (isRegular_openWalk phrase) fun _ => ne_nil_of_mem_bareWords).result
  rw [ofWords]
  simp only
  split_ifs
  · exact h.withQuantifier _
  · exact h

theorem isSettled_ofAntecedent (source : ObjectKind) (antecedent : Option Selector) :
    (ofAntecedent source antecedent).IsSettled := by
  cases antecedent with
  | none => exact (IsWellFormed.this source).isSettled
  | some a => exact fun h => absurd rfl h

/-- A phrase that is read as a whole. -/
theorem isSettled_of_fixed? {source : ObjectKind} {antecedent : Option Selector} {phrase : Text}
    {s : Selector} (h : fixed? source antecedent phrase = some s) : s.IsSettled := by
  rw [fixed?] at h
  split at h
  · cases h
    exact (IsWellFormed.this _).isSettled
  · split_ifs at h
    · cases h
      exact isSettled_ofAntecedent source antecedent
    · have hall : ∀ e ∈ playerPhrases,
          e.2.kinds = [.player] ∧ e.2.traits = [] ∧ e.2.qualifier = none := by decide
      obtain ⟨e, he, rfl⟩ := Text.exists_of_lookup? h
      obtain ⟨hk, ht, hq⟩ := hall e he
      exact (IsWellFormed.of_kind hk ht hq).isSettled

/-- What a phrase is read as is well-formed, unless it refers back. -/
theorem isSettled_ofPhrase (source : ObjectKind) (antecedent : Option Selector) (phrase : Text) :
    (ofPhrase source antecedent phrase).IsSettled := by
  rw [ofPhrase]
  split
  · next s hs => exact isSettled_of_fixed? hs
  · exact (isWellFormed_ofWords _).isSettled

theorem isWellFormed_ofPhrase_none (source : ObjectKind) (phrase : Text) :
    (ofPhrase source none phrase).IsWellFormed :=
  isSettled_ofPhrase source none phrase (quantifier_ofPhrase_none source phrase)

end Selector

/-- What the phrases of a clause name is well-formed, unless it refers back. -/
theorem Scope.Names.isSettled {scope : Scope} {s : Selector} (h : scope.Names s) :
    s.IsSettled := by
  induction h with
  | phrase t => exact Selector.isSettled_ofPhrase scope.source scope.antecedent t
  | antecedent => exact Selector.isSettled_ofAntecedent scope.source scope.antecedent
  | this => exact (Selector.IsWellFormed.this scope.source).isSettled
  | you => exact (Selector.IsWellFormed.players _ _).isSettled
  | eachOpponent => exact (Selector.IsWellFormed.players _ _).isSettled
  | withOwner _ o ih => exact ih.withOwner o
  | withZone _ z ih => exact ih.withZone z

end CardText
