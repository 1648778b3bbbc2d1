import CardText.Proofs.Text.Pieces
import CardText.Trigger.Basic

/-!
# The clauses of a trigger

A trigger has as many events as its clause has parts, and a clause that says anything has a part.

* `Triggered.rest_of_triggerWord`: what stands behind the trigger word;
* `Triggered.clauses_eq_nil_iff`: only a blank clause has no parts;
* `Triggered.lacksClause`: a comma directly behind the trigger word.  Without it a text in single
  spaces has a trigger (`Triggered.triggers_eq_nil_iff`), and where no space stands in front of a
  comma there is no such comma (`Triggered.lacksClause_eq_false`).
-/

namespace CardText

namespace Text

/-- Trimming a spaced text takes blanks off its front only. -/
theorem Spaced.trim_isSuffix {t : Text} (h : Spaced t) : t.trim <:+ t := by
  have hs := h.suffix (dropLeading_isSuffix isBlank t)
  rw [trim, dropAround, dropTrailing_eq_self fun c hc => hs.getLast hc]
  exact dropLeading_isSuffix isBlank t

end Text

namespace Triggered

open Template

/-! ### Behind the trigger word -/

/-- The trigger word has blanks behind it, all of which belong to its match. -/
theorem rest_of_triggerWord {t : Text} {m : Match Unit} (h : triggerWord.match? t = some m) :
    ∃ r, r <:+ t ∧ r.head?.any isGap = true ∧ m.rest = r.dropWhile isGap := by
  rw [match?, matchAfter?_eq, Option.map_eq_some_iff] at h
  obtain ⟨d, hd, rfl⟩ := h
  simp only [triggerWord, phrase, List.foldr_cons, List.foldr_nil, ends] at hd
  rw [List.head?_flatMap] at hd
  obtain ⟨e, he, hd⟩ := List.exists_of_findSome?_eq_some hd
  obtain ⟨f, hf, rfl⟩ := List.mem_map.1 he
  have hd : d ∈ (ends gap (Cursor.mark () ⟨none, t, []⟩ f)).head? := by
    simpa [List.flatMap_singleton'] using hd
  obtain ⟨h₁, h₂⟩ := head_ends_longest hd
  exact ⟨f.rest, rest_isSuffix_of_mem_ends hf, h₁, h₂⟩

/-- What stands behind the trigger word of a spaced text begins with no blank. -/
theorem exists_of_triggerWord {t : Text} (hs : t.Spaced) {m : Match Unit}
    (h : triggerWord.match? t = some m) :
    ∃ c r, m.rest = c :: r ∧ Text.isBlank c = false ∧ ' ' :: c :: r <:+ t := by
  obtain ⟨g, hg, hgap, hm⟩ := rest_of_triggerWord h
  have hgs := hs.suffix hg
  cases g with
  | nil => cases hgap
  | cons x g =>
    have hx : isGap x = true := by simpa using hgap
    have hb := Text.isBlank_of_isGap hx
    cases g with
    | nil => exact absurd hgs (by simp [Text.Spaced, hb])
    | cons c r =>
      obtain ⟨rfl, hc⟩ := hgs.1 hb
      have hcg : ¬ isGap c = true := fun hg => by
        rw [Text.isBlank_of_isGap hg] at hc
        cases hc
      rw [List.dropWhile_cons_of_pos hx, List.dropWhile_cons_of_neg hcg] at hm
      exact ⟨c, r, hm, hc, hg⟩

/-! ### Clauses -/

/-- A joint begins with a comma or with blanks. -/
theorem matchAfter?_joint_eq_none {c : Char} (hc : c ≠ ',') (hg : isGap c = false) (r : Text) :
    joint.matchAfter? none (c :: r) = none := by
  have hl : c.toLower ≠ ',' := fun h => hc (Text.eq_of_toLower_eq h rfl)
  simp [joint, phrase, opt, gap, matchAfter?, run, runs, Cursor.skip?, Template.skip?, hg, hl]

/-- The first part of a clause begins like the clause. -/
theorem split_joint_cons {c : Char} (hc : c ≠ ',') (hg : isGap c = false) (r : Text) :
    ∃ q ps, joint.split width_joint (c :: r) = (c :: q) :: ps := by
  rw [split, splitAfter]
  split
  · next front m h =>
    rw [searchAfter?, matchAfter?_joint_eq_none hc hg] at h
    simp only [Option.map_eq_some_iff] at h
    obtain ⟨e, -, he⟩ := h
    cases he
    exact ⟨_, _, rfl⟩
  · exact ⟨r, [], rfl⟩

theorem split_joint_nil : joint.split width_joint [] = [[]] := by
  rw [split, splitAfter]
  rfl

/-- A trimmed clause without commas has a part unless it is empty. -/
theorem clauses_eq_nil_iff {options : Options} {clause : Text}
    (hh : ∀ c ∈ clause.head?, Text.isBlank c = false) (hc : ',' ∉ clause) :
    clauses options clause = [] ↔ clause = [] := by
  cases clause with
  | nil => cases h : options.splitCompoundTriggers <;> simp [clauses, h, split_joint_nil, Text.trim,
      Text.dropAround, Text.dropLeading, Text.dropTrailing]
  | cons c r =>
    have hb := hh c rfl
    have hg : isGap c = false := by
      by_contra h
      rw [Text.isBlank_of_isGap (by simpa using h)] at hb
      cases hb
    obtain ⟨q, ps, hp⟩ := split_joint_cons (fun h => hc (by simp [h])) hg r
    have hq := Text.trim_ne_nil_of_mem (t := c :: q) (by simp) hb
    have hr := Text.trim_ne_nil_of_mem (t := c :: r) (by simp) hb
    cases h : options.splitCompoundTriggers <;> simp [clauses, h, hp, hq, hr]

theorem breakOn?_comma {t : Text} {b : Text × Text} (h : Text.breakOn? [','] t = some b) :
    ',' ∉ b.1 ∧ (b.1 = [] ↔ t.head? = some ',') := by
  obtain ⟨rfl, hm⟩ := Text.breakOn?_singleton_eq_some_iff.1 h
  refine ⟨hm, ?_⟩
  cases hb : b.1 with
  | nil => simp
  | cons c p =>
    have hc : c ≠ ',' := fun he => hm (by simp [hb, he])
    simp [hc]

/-- The trigger clause is empty only if a comma stands in front of it. -/
theorem takeClause_spec {c : Char} (hb : Text.isBlank c = false) (r : Text) :
    (∀ x ∈ (takeClause (c :: r)).1.head?, Text.isBlank x = false) ∧
      ',' ∉ (takeClause (c :: r)).1 ∧ ((takeClause (c :: r)).1 = [] ↔ c = ',') := by
  rw [takeClause]
  split
  · next clause effect h =>
    obtain ⟨hm, he⟩ := breakOn?_comma h
    refine ⟨fun x hx => Text.head_trim hx, fun h => hm (Text.mem_of_mem_trim h), ?_⟩
    rw [List.head?_cons, Option.some.injEq] at he
    rw [← he]
    constructor
    · intro ht
      by_contra hne
      obtain ⟨s, hs, -⟩ := Text.exists_of_breakAt? h
      obtain ⟨x, q, rfl⟩ := List.exists_cons_of_ne_nil hne
      rw [List.cons_append, List.cons.injEq] at hs
      exact Text.trim_ne_nil_of_mem (t := x :: q) (by simp) (hs.1 ▸ hb) ht
    · rintro rfl; rfl
  · next h =>
    have hm : ',' ∉ c :: r := by
      rwa [Text.breakOn?_eq_none_iff, List.singleton_infix_iff] at h
    refine ⟨fun x hx => Text.head_trim hx, fun h => hm (Text.mem_of_mem_trim h), ?_⟩
    constructor
    · intro ht
      exact absurd ht (Text.trim_ne_nil_of_mem (by simp) hb)
    · rintro rfl; simp at hm

/-! ### Texts without a clause -/

/-- The text begins like a triggered ability, with a comma directly behind the trigger word. -/
def lacksClause (t : Text) : Bool :=
  begins t && match triggerWord.match? (takeLimit t).2 with
    | some m => m.rest.head? == some ','
    | none => false

theorem takeLimit_isSuffix (t : Text) : (takeLimit t).2 <:+ t := by
  rw [takeLimit]
  split
  · next m h => exact rest_isSuffix_of_match? h
  · exact List.suffix_rfl

/-- **A triggered ability without a trigger lacks its clause.** -/
theorem triggers_eq_nil_iff {ctx : Context} {t : Text} (hs : t.Spaced)
    (hh : ∀ c ∈ t.head?, Text.isBlank c = false) {a : Triggered} (h : ofText? ctx t = some a) :
    a.triggers = [] ↔ lacksClause t = true := by
  have ht : t.trim = t := Text.trim_eq_self hh fun c hc => hs.getLast hc
  rw [ofText?, ht] at h
  rw [lacksClause]
  split at h
  · cases h
  · next hb =>
    have hb : begins t = true := by simpa using hb
    rw [hb, Bool.true_and]
    simp only at h
    split at h
    · cases h
    · next m hm =>
      rw [hm]
      obtain ⟨c, r, hr, hc, -⟩ := exists_of_triggerWord (hs.suffix (takeLimit_isSuffix t)) hm
      obtain ⟨h₁, h₂, h₃⟩ := takeClause_spec hc r
      cases h
      simp only [List.map_eq_nil_iff, hr]
      rw [clauses_eq_nil_iff h₁ h₂, h₃]
      simp

/-- A text that lacks its clause is read as triggered all the same. -/
theorem lacksClause_eq_false_of_ofText? {ctx : Context} {t : Text} (ht : t.trim = t)
    (h : ofText? ctx t = none) : lacksClause t = false := by
  rw [ofText?, ht] at h
  rw [lacksClause]
  split at h
  · next hb => simp_all
  · simp only at h
    split at h
    · next hm => simp [hm]
    · cases h

/-- A text with no space in front of a comma has a clause behind its trigger word. -/
theorem lacksClause_eq_false {t : Text} (hs : t.Spaced) (hn : t.NoGapBefore ',') :
    lacksClause t = false := by
  rw [lacksClause, Bool.and_eq_false_iff]
  right
  split
  · next m hm =>
    have hl := takeLimit_isSuffix t
    obtain ⟨c, r, hr, -, hi⟩ := exists_of_triggerWord (hs.suffix hl) hm
    rw [hr]
    by_contra hc
    have hc : c = ',' := by simpa using hc
    subst hc
    exact hn (List.IsInfix.trans ⟨[], r, rfl⟩ (hi.trans hl).isInfix)
  · rfl

end Triggered

end CardText
