import Mathlib.Tactic.SplitIfs
import CardText.Card.Reading

/-!
# What an assembly is made of

Every ability of a reading is a draft of one of its segments with steps, under the id of its
segment, and every report is about one of them.

* `Draft.ofKeyword_spec`, `Draft.effectSteps_eq`: the ability that a keyword stands for, and the
  steps of any other one;
* `Assembly.map_toDraft_abilitiesOf`, `Assembly.filter_noEffects_diagnose`: the drafts with steps are
  the abilities, the others are reported;
* `Assembly.mem_abilities_read`, `Assembly.exists_of_mem_diagnostics_read`: where abilities and
  reports come from;
* `Assembly.abilitiesOf_map`, `Assembly.diagnose_map`: abilities and reports of changed drafts;
* `Assembly.accounts_of_draft`: a segment with a draft has an ability or a report;
* `Segment.hint_eq_none`, `Segment.index_inj`: the hints and the places of numbered segments;
* `Card.read_eq_ok_iff`: when a card is read at all.
-/

namespace CardText

/-! ### Drafts -/

/-- The type of the ability that a keyword stands for. -/
def Keyword.abilityType : Keyword → AbilityType
  | .support => .triggered
  | _ => .static

/-- The ability of a keyword keeps the keyword and has its type, no name, and some step. -/
theorem Draft.ofKeyword_spec (source : ObjectKind) (e : Keyword.Entry) (raw : Text) :
    (ofKeyword source e raw).keyword = some e.keyword ∧
      (ofKeyword source e raw).abilityType = e.keyword.abilityType ∧
      (ofKeyword source e raw).name = none ∧ (ofKeyword source e raw).effects ≠ [] := by
  rw [ofKeyword]
  split
  · next h => simp [ofShift, h, Keyword.abilityType]
  · next h => simp [ofSupport, h, Keyword.abilityType]
  · simp [ofPlainKeyword, Keyword.abilityType]

/-- Where an effect has no steps, its text may be kept in one. -/
theorem Draft.effectSteps_eq (ctx : Context) (effect body : Text) :
    effectSteps ctx effect body = Step.ofEffect ctx effect ∨
      ctx.options.strict = false ∧ ∃ clause, effectSteps ctx effect body = [.ofOpaque clause] := by
  rw [effectSteps]
  generalize (if effect.isVoid then body else effect) = clause
  simp only
  split_ifs with hs hv
  · exact .inl rfl
  · have he : Step.ofEffect ctx effect = [] ∧ ctx.options.strict = false := by simpa using hs
    exact .inl he.1.symm
  · have he : Step.ofEffect ctx effect = [] ∧ ctx.options.strict = false := by simpa using hs
    exact .inr ⟨he.2, clause, rfl⟩

/-! ### Abilities and reports -/

/-- The ability without its id and its card. -/
def Ability.toDraft (a : Ability) : Draft :=
  { abilityType := a.abilityType
    name := a.name
    keyword := a.keyword
    rawText := a.rawText
    costs := a.costs
    trigger := a.trigger
    effects := a.effects }

@[simp] theorem Ability.toDraft_toAbility (d : Draft) (id cardId : Text) :
    (d.toAbility id cardId).toDraft = d := rfl

/-- The report of the kind `k` on a draft of the segment at `n`. -/
def Draft.report (cardId : Text) (n : Nat) (k : DiagnosticKind) (d : Draft) : Diagnostic :=
  ⟨cardId, n, d.rawText, k⟩

namespace Assembly

theorem mem_abilitiesOf {cardId : Text} {n : Nat} {ds : List Draft} {a : Ability} :
    a ∈ abilitiesOf cardId n ds ↔ ∃ d i, (d, i) ∈ ds.zipIdx ∧ d.effects ≠ [] ∧
      a = d.toAbility (Ability.makeId cardId n i ds.length) cardId := by
  simp only [abilitiesOf, List.mem_map, List.mem_filter, Bool.not_eq_true',
    List.isEmpty_eq_false_iff, Prod.exists]
  constructor
  · rintro ⟨d, i, ⟨hm, he⟩, rfl⟩; exact ⟨d, i, hm, he, rfl⟩
  · rintro ⟨d, i, hm, he, rfl⟩; exact ⟨d, i, ⟨hm, he⟩, rfl⟩

/-- Drafts with steps become abilities, in order. -/
theorem map_toDraft_abilitiesOf (cardId : Text) (n : Nat) (ds : List Draft) :
    (abilitiesOf cardId n ds).map Ability.toDraft = ds.filter fun d => !d.effects.isEmpty := by
  conv => rhs; rw [← List.zipIdx_map_fst 0 ds, List.filter_map]
  rw [abilitiesOf, List.map_map]
  rfl

/-- Where every draft has a step nothing is left out. -/
theorem map_abilitiesOf {ds : List Draft} (h : ∀ d ∈ ds, d.effects ≠ []) (cardId : Text) (n : Nat) :
    (abilitiesOf cardId n ds).map (fun a => (a.keyword, a.abilityType)) =
      ds.map fun d => (d.keyword, d.abilityType) := by
  have hall : (abilitiesOf cardId n ds).map Ability.toDraft = ds := by
    rw [map_toDraft_abilitiesOf]
    exact List.filter_eq_self.2 fun d hd => by simpa using h d hd
  conv => rhs; rw [← hall, List.map_map]
  rfl

/-- The abilities of a reading are the drafts of its segments that have steps. -/
theorem mem_abilities_read {cardId : Text} {ctx : Context} {segments : List Segment}
    {a : Ability} : a ∈ (Assembly.read cardId ctx segments).abilities ↔
      ∃ s ∈ segments, ∃ d i, (d, i) ∈ (Draft.ofSegment ctx s).zipIdx ∧ d.effects ≠ [] ∧
        a = d.toAbility (Ability.makeId cardId s.index i (Draft.ofSegment ctx s).length)
          cardId := by
  simp [Assembly.read, ofSegments, List.flatMap_map, mem_abilitiesOf]

section Map

variable {cardId : Text} {n n' : Nat} {f : Draft → Draft}

/-- Drafts that change in nothing but what their abilities show. -/
theorem abilitiesOf_map {g : Ability → Ability} (hf : ∀ d, (f d).effects = d.effects)
    (hg : ∀ d i count, g (d.toAbility (Ability.makeId cardId n i count) cardId) =
      (f d).toAbility (Ability.makeId cardId n' i count) cardId) (ds : List Draft) :
    abilitiesOf cardId n' (ds.map f) = (abilitiesOf cardId n ds).map g := by
  simp only [abilitiesOf, List.zipIdx_map, List.filter_map, List.map_map, List.length_map,
    Function.comp_def, Prod.map, id, hf, hg]

/-- Drafts that change in nothing but what the reports on them show. -/
theorem diagnose_map {g : Diagnostic → Diagnostic} (hf : ∀ d, (f d).effects = d.effects)
    (hg : ∀ d : Draft, ∀ k, g ⟨cardId, n, d.rawText, k⟩ = ⟨cardId, n', (f d).rawText, k⟩)
    (flagged : Bool) (ds : List Draft) :
    diagnose cardId n' flagged (ds.map f) = (diagnose cardId n flagged ds).map g := by
  have ho : ∀ d : Draft, (f d).hasOpaque = d.hasOpaque := fun d => by
    rw [Draft.hasOpaque, hf, Draft.hasOpaque]
  induction ds generalizing flagged with
  | nil => rfl
  | cons d ds ih =>
    rw [List.map_cons, diagnose, diagnose, hf, ho]
    split_ifs
    · rw [ih, List.map_cons, hg]
    · rw [ih, List.map_cons, hg]
    · exact ih flagged

end Map

/-- A report is about a draft without steps, or about one with a step that was not understood. -/
theorem exists_of_mem_diagnose {cardId : Text} {n : Nat} {flagged : Bool} {ds : List Draft}
    {x : Diagnostic} (h : x ∈ diagnose cardId n flagged ds) :
    ∃ d ∈ ds, (d.effects = [] ∧ x = ⟨cardId, n, d.rawText, .noEffects⟩) ∨
      (d.hasOpaque = true ∧ x = ⟨cardId, n, d.rawText, .opaqueFallback⟩) := by
  induction ds generalizing flagged with
  | nil => cases h
  | cons d ds ih =>
    have tail : ∀ {b : Bool}, x ∈ diagnose cardId n b ds → _ := fun hx =>
      (ih hx).imp fun _ => And.imp_left (List.mem_cons_of_mem d)
    rw [diagnose] at h
    split_ifs at h with he ho
    · rcases List.mem_cons.1 h with rfl | h
      · exact ⟨d, List.mem_cons_self, .inl ⟨List.isEmpty_iff.1 he, rfl⟩⟩
      · exact tail h
    · rcases List.mem_cons.1 h with rfl | h
      · rw [Bool.and_eq_true] at ho
        exact ⟨d, List.mem_cons_self, .inr ⟨ho.1, rfl⟩⟩
      · exact tail h
    · exact tail h

theorem segment_of_mem_diagnose {cardId : Text} {n : Nat} {flagged : Bool} {ds : List Draft}
    {x : Diagnostic} (h : x ∈ diagnose cardId n flagged ds) : x.cardId = cardId ∧ x.segment = n := by
  obtain ⟨_, _, ⟨-, rfl⟩ | ⟨-, rfl⟩⟩ := exists_of_mem_diagnose h
  · exact ⟨rfl, rfl⟩
  · exact ⟨rfl, rfl⟩

/-- Each draft without steps is reported. -/
theorem filter_noEffects_diagnose (cardId : Text) (n : Nat) (flagged : Bool) (ds : List Draft) :
    (diagnose cardId n flagged ds).filter (fun x => x.segment == n && x.kind == .noEffects) =
      (ds.filter fun d => d.effects.isEmpty).map (Draft.report cardId n .noEffects) := by
  induction ds generalizing flagged with
  | nil => rfl
  | cons d ds ih =>
    rw [diagnose]
    split_ifs with he ho
    · simp [he, ih, Draft.report]
    · simp [he, ih]
    · simp [he, ih]

/-- The reports of a reading are about drafts of its segments. -/
theorem exists_of_mem_diagnostics_read {cardId : Text} {ctx : Context} {segments : List Segment}
    {x : Diagnostic} (h : x ∈ (Assembly.read cardId ctx segments).diagnostics) :
    ∃ s ∈ segments, ∃ d ∈ Draft.ofSegment ctx s,
      (d.effects = [] ∧ x = ⟨cardId, s.index, d.rawText, .noEffects⟩) ∨
        (d.hasOpaque = true ∧ x = ⟨cardId, s.index, d.rawText, .opaqueFallback⟩) := by
  simp only [Assembly.read, ofSegments, List.flatMap_map, List.mem_flatMap] at h
  obtain ⟨s, hs, hx⟩ := h
  exact ⟨s, hs, exists_of_mem_diagnose hx⟩

/-- Every report is about a segment with a draft. -/
theorem mem_diagnostics_read {cardId : Text} {ctx : Context} {segments : List Segment}
    {x : Diagnostic} (h : x ∈ (Assembly.read cardId ctx segments).diagnostics) :
    ∃ s ∈ segments, x.segment = s.index ∧ Draft.ofSegment ctx s ≠ [] := by
  obtain ⟨s, hs, d, hd, ⟨-, rfl⟩ | ⟨-, rfl⟩⟩ := exists_of_mem_diagnostics_read h
  · exact ⟨s, hs, rfl, List.ne_nil_of_mem hd⟩
  · exact ⟨s, hs, rfl, List.ne_nil_of_mem hd⟩

theorem cardId_of_mem_diagnostics {cardId : Text} {ctx : Context} {segments : List Segment}
    {x : Diagnostic} (h : x ∈ (Assembly.read cardId ctx segments).diagnostics) :
    x.cardId = cardId := by
  obtain ⟨_, _, _, _, ⟨-, rfl⟩ | ⟨-, rfl⟩⟩ := exists_of_mem_diagnostics_read h
  · rfl
  · rfl

/-- The first draft of a segment is an ability or is reported. -/
theorem accounts_of_draft {cardId : Text} {ctx : Context} {segments : List Segment}
    {s : Segment} (hs : s ∈ segments) (hd : Draft.ofSegment ctx s ≠ []) :
    (∃ a ∈ (Assembly.read cardId ctx segments).abilities,
      a.id = Ability.makeId cardId s.index 0 (Draft.ofSegment ctx s).length) ∨
    ∃ x ∈ (Assembly.read cardId ctx segments).diagnostics, x.segment = s.index := by
  obtain ⟨d, ds, h⟩ := List.exists_cons_of_ne_nil hd
  by_cases he : d.effects = []
  · right
    refine ⟨⟨cardId, s.index, d.rawText, .noEffects⟩, ?_, rfl⟩
    simp only [Assembly.read, ofSegments, List.flatMap_map, List.mem_flatMap]
    exact ⟨s, hs, by simp [h, diagnose, he]⟩
  · left
    exact ⟨_, mem_abilities_read.2 ⟨s, hs, d, 0, by simp [h], he, rfl⟩, rfl⟩

end Assembly

/-! ### Segments and cards -/

namespace Segment

theorem mem_number {ts : List (Text × Option Hint)} {s : Segment} (h : s ∈ number ts) :
    (s.raw, s.hint) ∈ ts ∧ s.text = s.raw.normalize := by
  obtain ⟨e, he, rfl⟩ := List.mem_map.1 h
  exact ⟨(List.mem_zipIdx' he).2 ▸ List.getElem_mem _, rfl⟩

/-- Two segments of one numbering stand at different places. -/
theorem index_inj {ts : List (Text × Option Hint)} {s s' : Segment} (h : s ∈ number ts)
    (h' : s' ∈ number ts) (hi : s.index = s'.index) : s = s' := by
  obtain ⟨e, he, rfl⟩ := List.mem_map.1 h
  obtain ⟨e', he', rfl⟩ := List.mem_map.1 h'
  have h₁ := (List.mem_zipIdx' he).2
  have h₂ := (List.mem_zipIdx' he').2
  simp only at hi
  simp only [h₁, h₂, hi]

/-- Where no hints are in use no segment has one. -/
theorem hint_eq_none {options : Options} {c : Card}
    (h : options.useHints = false ∨ c.abilities = []) {s : Segment} (hs : s ∈ ofCard options c) :
    s.hint = none := by
  have hm := (List.mem_filter.1 (mem_number hs).1).1
  have hc : (options.useHints && !c.abilities.isEmpty) = false := by
    rcases h with h | h <;> simp [h]
  rw [sources, if_neg (by simp [hc])] at hm
  split_ifs at hm
  · obtain ⟨_, _, he⟩ := List.mem_map.1 hm; exact (Prod.mk.inj he).2.symm
  · obtain ⟨_, _, he⟩ := List.mem_map.1 hm; exact (Prod.mk.inj he).2.symm
  · split at hm
    · obtain ⟨_, _, he⟩ := List.mem_map.1 hm; exact (Prod.mk.inj he).2.symm
    · cases hm

end Segment

/-- A card is read if it has an id and a name. -/
theorem Card.read_eq_ok_iff {options : Options} {c : Card} {p : Assembly} :
    c.read options = .ok p ↔ c.problem? = none ∧
      p = .read c.id (c.context options) (Segment.ofCard options c) := by
  rw [Card.read]
  cases c.problem? <;> simp [eq_comm]

end CardText
