import CardText.Proofs.Ability.WellFormed

/-!
# Reports are exact

Of the drafts of a segment each one with steps becomes an ability, each one without is reported, and
one report more tells that some step of the segment was not understood.

* `Assembly.filter_opaqueFallback_diagnose`: the report of steps that were not understood;
* `Assembly.reportsOn`, `Assembly.reportsOn_ofSegments`: the reports on a segment are found by its
  number;
* `Assembly.reports_exact`: what an assembly and its reports say, and what neither says in strict
  reading.
-/

namespace CardText

namespace Assembly

variable {cardId : Text} {n : Nat} {ds : List Draft}

/-- The reports of the kind `k` on the segment at `n`. -/
def reportsOn (p : Assembly) (n : Nat) (k : DiagnosticKind) : List Diagnostic :=
  p.diagnostics.filter fun x => x.segment == n && x.kind == k

/-! ### One segment -/

/-- Of the drafts with a step that was not understood the first one is reported, unless there was
one before. -/
theorem filter_opaqueFallback_diagnose (flagged : Bool) :
    (diagnose cardId n flagged ds).filter (fun x => x.segment == n && x.kind == .opaqueFallback) =
      if flagged then []
      else (ds.find? Draft.hasOpaque).toList.map (Draft.report cardId n .opaqueFallback) := by
  induction ds generalizing flagged with
  | nil => cases flagged <;> rfl
  | cons d ds ih =>
    rw [diagnose, List.find?_cons]
    by_cases he : d.effects = []
    · -- a draft without steps has none that was not understood
      have ho : d.hasOpaque = false := by simp [Draft.hasOpaque, he]
      simp [he, ho, ih]
    · cases ho : d.hasOpaque <;> cases flagged <;> simp [he, ih, Draft.report]

/-- Only a draft with steps can have one that was not understood. -/
theorem find?_hasOpaque_filter (ds : List Draft) :
    (ds.filter fun d => !d.effects.isEmpty).find? Draft.hasOpaque = ds.find? Draft.hasOpaque := by
  rw [List.find?_filter]
  congr 1
  funext d
  rw [Draft.hasOpaque, Bool.decide_and, Bool.decide_eq_true, Bool.decide_eq_true]
  cases d.effects <;> rfl

/-! ### Segments -/

/-- Where the segments have different numbers, the reports with the number of one are those on it. -/
theorem reportsOn_ofSegments {segments : List (Nat × List Draft)}
    (hn : (segments.map (·.1)).Nodup) (hs : (n, ds) ∈ segments) (k : DiagnosticKind) :
    (ofSegments cardId segments).reportsOn n k =
      (diagnose cardId n false ds).filter fun x => x.segment == n && x.kind == k := by
  obtain ⟨front, back, rfl⟩ := List.append_of_mem hs
  rw [List.map_append, List.map_cons, List.nodup_middle, List.nodup_cons, ← List.map_append] at hn
  have hother : ∀ s ∈ front ++ back, (diagnose cardId s.1 false s.2).filter
      (fun x => x.segment == n && x.kind == k) = [] := by
    intro s hm
    have hne : s.1 ≠ n := fun he => hn.1 (List.mem_map.2 ⟨s, hm, he⟩)
    refine List.filter_eq_nil_iff.2 fun x hx => ?_
    simp [(segment_of_mem_diagnose hx).2, hne]
  have hfront := List.flatMap_eq_nil_iff.2 fun s hm => hother s (List.mem_append_left back hm)
  have hback := List.flatMap_eq_nil_iff.2 fun s hm => hother s (List.mem_append_right front hm)
  rw [reportsOn, ofSegments, List.filter_flatMap, List.flatMap_append, List.flatMap_cons, hfront,
    hback, List.nil_append, List.append_nil]

theorem mem_diagnostics_ofSegments {segments : List (Nat × List Draft)} {x : Diagnostic}
    (h : x ∈ (ofSegments cardId segments).diagnostics) :
    x.cardId = cardId ∧ x.segment ∈ segments.map (·.1) := by
  obtain ⟨s, hs, hx⟩ := List.mem_flatMap.1 h
  obtain ⟨hc, hi⟩ := segment_of_mem_diagnose hx
  exact ⟨hc, hi ▸ List.mem_map_of_mem hs⟩

end Assembly

/-! ### Strict reading -/

/-- In strict reading no draft has a step that was not understood. -/
theorem Draft.hasOpaque_eq_false {ctx : Context} (hs : ctx.options.strict = true) {s : Segment}
    {d : Draft} (h : d ∈ ofSegment ctx s) : d.hasOpaque = false := by
  rw [hasOpaque, List.any_eq_false]
  intro u hu
  rw [((isProper_of_mem_ofSegment h).steps u hu).isOpaque hs]
  simp

/-- **Reports are exact.**  An assembly of segments with different numbers has an ability for each
draft with steps, in order, and no other; on each segment one report for each draft without steps,
and one more for the first draft with a step that was not understood, if there is one; and no other
report. In strict reading no card has an ability or a report of the latter kind. -/
theorem Assembly.reports_exact :
    (∀ (cardId : Text) (segments : List (Nat × List Draft)), (segments.map (·.1)).Nodup →
      let p := ofSegments cardId segments
      p.abilities.map Ability.toDraft =
          segments.flatMap (fun s => s.2.filter fun d => !d.effects.isEmpty) ∧
        (∀ a ∈ p.abilities, a.cardId = cardId) ∧
        (∀ n ds, (n, ds) ∈ segments →
          p.reportsOn n .noEffects =
              (ds.filter fun d => d.effects.isEmpty).map (Draft.report cardId n .noEffects) ∧
            p.reportsOn n .opaqueFallback =
              ((ds.filter fun d => !d.effects.isEmpty).find? Draft.hasOpaque).toList.map
                (Draft.report cardId n .opaqueFallback)) ∧
        ∀ x ∈ p.diagnostics, x.cardId = cardId ∧ x.segment ∈ segments.map (·.1)) ∧
      ∀ (options : Options) (c : Card) (p : Assembly), options.strict = true →
        c.read options = .ok p →
          (∀ a ∈ p.abilities, a.hasOpaque = false) ∧
            ∀ x ∈ p.diagnostics, x.kind ≠ .opaqueFallback := by
  constructor
  · intro cardId segments hn p
    refine ⟨?_, fun a ha => ?_, fun n ds hs => ⟨?_, ?_⟩, fun x hx => mem_diagnostics_ofSegments hx⟩
    · simp only [p, ofSegments, List.map_flatMap, map_toDraft_abilitiesOf]
    · obtain ⟨s, -, hm⟩ := List.mem_flatMap.1 ha
      obtain ⟨d, i, -, -, rfl⟩ := mem_abilitiesOf.1 hm
      rfl
    · rw [reportsOn_ofSegments hn hs, filter_noEffects_diagnose]
    · rw [reportsOn_ofSegments hn hs, filter_opaqueFallback_diagnose, find?_hasOpaque_filter]
      rfl
  · intro options c p hs h
    obtain ⟨-, rfl⟩ := Card.read_eq_ok_iff.1 h
    have hs : (c.context options).options.strict = true := hs
    constructor
    · intro a ha
      obtain ⟨s, -, d, i, hm, -, rfl⟩ := mem_abilities_read.1 ha
      exact Draft.hasOpaque_eq_false hs (List.fst_mem_of_mem_zipIdx hm)
    · intro x hx
      obtain ⟨s, -, d, hd, ⟨-, rfl⟩ | ⟨ho, rfl⟩⟩ := exists_of_mem_diagnostics_read hx
      · simp
      · rw [Draft.hasOpaque_eq_false hs hd] at ho
        cases ho

/-- Of a segment whose first draft is left out and whose other two are not understood, and of a card
that strict reading leaves without abilities. -/
theorem Assembly.reports_exact_whistle :
    let empty : Draft := { abilityType := .static, rawText := "a".toList }
    let kept : Draft := { empty with effects := [.ofOpaque "Whistle.".toList] }
    let p := ofSegments "c".toList [(0, [empty, kept, kept]), (2, [kept])]
    let c : Card :=
      { id := "c".toList, name := "n".toList, fullTextSections := ["Whistle.".toList] }
    (p.abilities.map Ability.toDraft = [kept, kept, kept] ∧
      p.reportsOn 0 .noEffects = [empty.report "c".toList 0 .noEffects] ∧
      p.reportsOn 0 .opaqueFallback = [kept.report "c".toList 0 .opaqueFallback]) ∧
    ∃ q, c.read { strict := true } = .ok q ∧ q.diagnostics ≠ [] ∧
      ∀ x ∈ q.diagnostics, x.kind ≠ .opaqueFallback := by
  intro empty kept p c
  obtain ⟨hall, -, hreports, -⟩ := Assembly.reports_exact.1 "c".toList
    [(0, [empty, kept, kept]), (2, [kept])] (by decide)
  obtain ⟨hnone, hopaque⟩ := hreports 0 [empty, kept, kept] List.mem_cons_self
  refine ⟨⟨hall, hnone, hopaque⟩, ?_⟩
  let q := Assembly.read c.id (c.context { strict := true }) (Segment.ofCard { strict := true } c)
  have hr : c.read { strict := true } = .ok q := rfl
  have hne : q.diagnostics ≠ [] := by decide +kernel
  exact ⟨q, hr, hne, (Assembly.reports_exact.2 _ c q rfl hr).2⟩

end CardText
