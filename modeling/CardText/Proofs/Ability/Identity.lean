import Mathlib.Data.List.Forall2
import CardText.Proofs.Ability.Assembly
import CardText.Proofs.Text.Numeral

/-!
# Ids of abilities

The id of an ability is the id of its card with one or two numbers behind it, each after a hyphen:
the place of its segment and, if the segment has several abilities, its own number.

* `Text.hyphened_inj`: the number behind the last hyphen can be told from what stands in front;
* `Ability.makeId_eq_makeId_iff`: when two ids are the same, on one card or on two;
* `Assembly.emitted`: the drafts that become abilities, with their places, in strict order
  (`Assembly.pairwise_emitted`);
* `Card.isOrdered_of_read`: the abilities of a card, and those of loose text, have different ids and
  stand in the order of their places.
-/

namespace CardText

/-! ### Numbers behind a hyphen -/

namespace Text

/-- A text with a number behind it, after a hyphen. -/
def hyphened (t : Text) (n : Nat) : Text := t ++ '-' :: ofNat n

theorem hyphen_not_mem_ofNat (n : Nat) : '-' ∉ ofNat n := fun h => by
  have := isDigit_of_mem_ofNat h
  cases this

/-- The last of the separators stands where it stands. -/
theorem append_cons_inj_of_not_mem {x : Char} {s t u v : Text} (hu : x ∉ u) (hv : x ∉ v) :
    s ++ x :: u = t ++ x :: v ↔ s = t ∧ u = v := by
  refine ⟨fun h => ?_, fun ⟨hs, ht⟩ => by rw [hs, ht]⟩
  -- if one front were longer, the other separator would stand in what follows the first
  rcases List.append_eq_append_iff.1 h with ⟨w, rfl, hw⟩ | ⟨w, rfl, hw⟩
  · cases w with
    | nil => simpa using hw
    | cons y w =>
      rw [List.cons_append, List.cons.injEq] at hw
      exact absurd (hw.2 ▸ List.mem_append_right w List.mem_cons_self) hu
  · cases w with
    | nil => simpa [eq_comm] using hw
    | cons y w =>
      rw [List.cons_append, List.cons.injEq] at hw
      exact absurd (hw.2 ▸ List.mem_append_right w List.mem_cons_self) hv

/-- Text and number are told apart at the last hyphen. -/
@[simp] theorem hyphened_inj {s t : Text} {m n : Nat} :
    hyphened s m = hyphened t n ↔ s = t ∧ m = n := by
  rw [hyphened, hyphened,
    append_cons_inj_of_not_mem (hyphen_not_mem_ofNat m) (hyphen_not_mem_ofNat n), ofNat_inj]

@[simp] theorem hyphened_ne_self (t : Text) (n : Nat) : hyphened t n ≠ t := by
  simp [hyphened]

@[simp] theorem ne_hyphened_self (t : Text) (n : Nat) : t ≠ hyphened t n :=
  (hyphened_ne_self t n).symm

end Text

/-! ### Equal ids -/

namespace Ability

theorem makeId_eq (cardId : Text) (n i count : Nat) : makeId cardId n i count =
    if 1 < count then (cardId.hyphened n).hyphened (i + 1) else cardId.hyphened n := rfl

/-- Two ids are the same if they are made of the same numbers behind the same card id, or if the one
card id ends with the number of a segment of the other card. -/
theorem makeId_eq_makeId_iff {c c' : Text} {n n' i i' k k' : Nat} :
    makeId c n i k = makeId c' n' i' k' ↔
      (c = c' ∧ n = n' ∧ (1 < k ↔ 1 < k') ∧ (1 < k → i = i')) ∨
      (1 < k ∧ ¬ 1 < k' ∧ c' = c.hyphened n ∧ n' = i + 1) ∨
      (¬ 1 < k ∧ 1 < k' ∧ c = c'.hyphened n' ∧ n = i' + 1) := by
  rw [makeId_eq, makeId_eq]
  by_cases hk : 1 < k
  · by_cases hk' : 1 < k'
    · simp [hk, hk', and_assoc]
    · simp [hk, hk', eq_comm]
  · by_cases hk' : 1 < k'
    · simp [hk, hk']
    · simp [hk, hk']

/-- On one card equal ids have equal numbers. -/
theorem makeId_inj {c : Text} {n n' i i' k k' : Nat}
    (h : makeId c n i k = makeId c n' i' k') : n = n' ∧ (1 < k → i = i') := by
  rcases makeId_eq_makeId_iff.1 h with ⟨-, hn, -, hi⟩ | ⟨-, -, hc, -⟩ | ⟨-, -, hc, -⟩
  · exact ⟨hn, hi⟩
  -- a card id is not itself with a number behind it
  · exact absurd hc (Text.ne_hyphened_self c n)
  · exact absurd hc (Text.ne_hyphened_self c n')

end Ability

/-! ### Places -/

namespace Assembly

variable {ctx : Context} {segments : List Segment}

/-- The drafts that become abilities, each with its segment and with its number, counted from zero,
among the drafts of the segment. -/
def emitted (ctx : Context) (segments : List Segment) : List (Segment × Draft × Nat) :=
  segments.flatMap fun s =>
    ((Draft.ofSegment ctx s).zipIdx.filter fun e => !e.1.effects.isEmpty).map fun e => (s, e)

/-- The ability that a draft becomes at its place. -/
def emit (cardId : Text) (ctx : Context) (e : Segment × Draft × Nat) : Ability :=
  e.2.1.toAbility
    (Ability.makeId cardId e.1.index e.2.2 (Draft.ofSegment ctx e.1).length) cardId

theorem abilities_read (cardId : Text) (ctx : Context) (segments : List Segment) :
    (Assembly.read cardId ctx segments).abilities =
      (emitted ctx segments).map (emit cardId ctx) := by
  simp only [Assembly.read, ofSegments, emitted, List.flatMap_map, List.map_flatMap, List.map_map]
  rfl

theorem mem_emitted {s : Segment} {d : Draft} {i : Nat} : (s, d, i) ∈ emitted ctx segments ↔
    s ∈ segments ∧ (Draft.ofSegment ctx s)[i]? = some d ∧ d.effects ≠ [] := by
  simp only [emitted, List.mem_flatMap, List.mem_map, List.mem_filter, Bool.not_eq_true',
    List.isEmpty_eq_false_iff, Prod.exists, List.mk_mem_zipIdx_iff_getElem?]
  constructor
  · rintro ⟨s, hs, d, i, ⟨hd, he⟩, h⟩
    cases h
    exact ⟨hs, hd, he⟩
  · rintro ⟨hs, hd, he⟩
    exact ⟨s, hs, d, i, ⟨hd, he⟩, rfl⟩

/-- The places follow one another: by the segment, and on one segment by the number. -/
theorem pairwise_emitted (h : segments.Pairwise fun s s' => s.index < s'.index) :
    (emitted ctx segments).Pairwise fun e e' =>
      e.1.index < e'.1.index ∨ e.1 = e'.1 ∧ e.2.2 < e'.2.2 := by
  refine List.pairwise_flatMap.2 ⟨fun s _ => ?_, h.imp fun hlt e he e' he' => ?_⟩
  · have hz : (Draft.ofSegment ctx s).zipIdx.Pairwise fun e e' => e.2 < e'.2 := by
      rw [← List.pairwise_map (f := Prod.snd) (R := (· < ·)), List.zipIdx_map_snd]
      exact List.pairwise_lt_range'
    rw [List.pairwise_map]
    exact (hz.sublist List.filter_sublist).imp fun hlt => .inr ⟨rfl, hlt⟩
  · obtain ⟨_, -, rfl⟩ := List.mem_map.1 he
    obtain ⟨_, -, rfl⟩ := List.mem_map.1 he'
    exact .inl hlt

/-- A later draft has another id. -/
theorem nodup_ids_read (cardId : Text)
    (h : segments.Pairwise fun s s' => s.index < s'.index) :
    ((Assembly.read cardId ctx segments).abilities.map (·.id)).Nodup := by
  rw [abilities_read, List.map_map, List.Nodup, List.pairwise_map]
  refine (List.Pairwise.and_mem.1 (pairwise_emitted h)).imp ?_
  rintro ⟨s, d, i⟩ ⟨s', d', i'⟩ ⟨-, hm, hlt⟩ hid
  obtain ⟨hn, hi⟩ := Ability.makeId_inj hid
  rcases hlt with hlt | ⟨rfl, hlt⟩
  · exact absurd hn hlt.ne
  · -- two drafts on one segment have numbers in their ids
    obtain ⟨hlen, -⟩ := List.getElem?_eq_some_iff.1 (mem_emitted.1 hm).2.1
    have := hi (by simp only at hlt; omega)
    exact absurd this hlt.ne

end Assembly

/-- The ability is the draft at this place: its segment stands at the first number, and it has the
second number, counted from zero, among the drafts of the segment. -/
def Ability.StandsAt (cardId : Text) (ctx : Context) (segments : List Segment) (a : Ability)
    (place : Nat × Nat) : Prop :=
  ∃ s ∈ segments, s.index = place.1 ∧ ∃ d, (Draft.ofSegment ctx s)[place.2]? = some d ∧
    a = d.toAbility
      (makeId cardId place.1 place.2 (Draft.ofSegment ctx s).length) cardId

/-- The abilities have different ids, and they stand in the strict order of their places. -/
structure Assembly.IsOrdered (cardId : Text) (ctx : Context) (segments : List Segment)
    (p : Assembly) : Prop where
  nodup_ids : (p.abilities.map (·.id)).Nodup
  places : ∃ places : List (Nat × Nat), places.Pairwise (Prod.Lex (· < ·) (· < ·)) ∧
    List.Forall₂ (fun a place => a.StandsAt cardId ctx segments place) p.abilities places

theorem Assembly.isOrdered_read (cardId : Text) (ctx : Context) {segments : List Segment}
    (h : segments.Pairwise fun s s' => s.index < s'.index) :
    (Assembly.read cardId ctx segments).IsOrdered cardId ctx segments where
  nodup_ids := nodup_ids_read cardId h
  places := by
    refine ⟨(emitted ctx segments).map fun e => (e.1.index, e.2.2), ?_, ?_⟩
    · rw [List.pairwise_map]
      refine (pairwise_emitted h).imp fun hlt => ?_
      rw [Prod.lex_def]
      exact hlt.imp_right fun ⟨hs, hi⟩ => ⟨congrArg Segment.index hs, hi⟩
    · rw [abilities_read, List.forall₂_map_left_iff, List.forall₂_map_right_iff, List.forall₂_same]
      rintro ⟨s, d, i⟩ hm
      obtain ⟨hs, hd, -⟩ := mem_emitted.1 hm
      exact ⟨s, hs, rfl, d, hd, rfl⟩

theorem Segment.map_index_number (ts : List (Text × Option Hint)) :
    (number ts).map (·.index) = List.range' 0 ts.length := by
  simp [number, ← List.zipIdx_map_snd]

/-- Segments are numbered in their order. -/
theorem Segment.pairwise_number (ts : List (Text × Option Hint)) :
    (number ts).Pairwise fun s s' => s.index < s'.index := by
  rw [← List.pairwise_map (f := Segment.index) (R := (· < ·)), map_index_number]
  exact List.pairwise_lt_range'

/-- **Ids are unique within a card.**  The abilities of a card, and those of loose text under any
id, have different ids and stand in the order of their segments and of their numbers on these. -/
theorem Card.isOrdered_of_read :
    (∀ (options : Options) (c : Card) (p : Assembly), c.read options = .ok p →
      p.IsOrdered c.id (c.context options) (Segment.ofCard options c)) ∧
    ∀ (options : Options) (cardType : CardType) (cardId t : Text),
      (readLines options cardType cardId t).IsOrdered cardId ⟨cardType.objectKind, options⟩
        (Segment.ofLines t) := by
  constructor
  · intro options c p h
    obtain ⟨-, rfl⟩ := Card.read_eq_ok_iff.1 h
    exact Assembly.isOrdered_read _ _ (Segment.pairwise_number _)
  · intro options cardType cardId t
    exact Assembly.isOrdered_read _ _ (Segment.pairwise_number _)

/-- A card whose id ends in a number, with one ability on its first segment and two on the next. -/
theorem Card.isOrdered_of_wardEvasive :
    let c : Card :=
      { id := "c-1".toList, name := "n".toList
        fullTextSections := ["Rush".toList, "Evasive, Ward".toList] }
    ∃ p, c.read {} = .ok p ∧
      p.abilities.map (·.id) = ["c-1-0".toList, "c-1-1-1".toList, "c-1-1-2".toList] ∧
      p.IsOrdered c.id (c.context {}) (Segment.ofCard {} c) := by
  intro c
  have hr : c.read {} = .ok (.read c.id (c.context {}) (Segment.ofCard {} c)) := rfl
  exact ⟨_, hr, by decide +kernel, Card.isOrdered_of_read.1 {} c _ hr⟩

end CardText
