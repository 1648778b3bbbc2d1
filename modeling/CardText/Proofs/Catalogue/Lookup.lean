import Mathlib.Data.List.Nodup
import CardText.Proofs.Ability.Identity
import CardText.Proofs.Catalogue

/-!
# Abilities by their ids

Within a card an id tells the ability.  Two cards can have the same id for an ability only if the
id of the one card ends with the number of a segment of the other.

* `Catalogue.Resolves`: an ability is found by its id, whatever card is looked at first;
* `Catalogue.mem_abilitiesOf_run`: what a catalogue keeps of cards with different ids;
* `Catalogue.resolves_iff`: an ability is found exactly if no other card has its id;
* `Card.Overlaps`, `Card.shares_id_iff`: the cards that have an id in common;
* `Catalogue.resolves_run_iff`: which abilities of a catalogue are found by their ids.
-/

namespace CardText

/-! ### Unique keys -/

namespace Table

variable {α : Type}

theorem get?_eq_some_iff {t : Table α} (h : t.keys.Nodup) {key : Text} {v : α} :
    t.get? key = some v ↔ (key, v) ∈ t := by
  induction t with
  | nil => simp [get?]
  | cons e t ih =>
    obtain ⟨hk, ht⟩ := List.nodup_cons.1 h
    rw [get?, List.mem_cons]
    split
    · next he =>
      constructor
      · intro hv
        exact .inl (Prod.ext he.symm (Option.some.inj hv).symm)
      · rintro (rfl | hm)
        · rfl
        · have hmem : key ∈ keys t := List.mem_map_of_mem hm
          exact absurd (he ▸ hmem : e.1 ∈ keys t) hk
    · next he =>
      rw [ih ht]
      exact ⟨.inr, fun hm => hm.resolve_left fun hp => he (congrArg Prod.fst hp).symm⟩

end Table

/-- Among cards with different ids the last one under an id is the only one. -/
theorem lastReading?_eq_some_iff {options : Options} {cards : List Card}
    (h : (cards.map (·.id)).Nodup) {id : Text} {p : Assembly} :
    lastReading? options cards id = some p ↔
      ∃ c ∈ cards, c.id = id ∧ c.read options = .ok p := by
  have hsome : ∀ {q}, lastReading? options cards id = some q →
      ∃ c ∈ cards, c.id = id ∧ c.read options = .ok q := by
    intro q hq
    obtain ⟨c, hc, hr⟩ := List.exists_of_findSome?_eq_some hq
    split_ifs at hr with hid
    refine ⟨c, List.mem_reverse.1 hc, hid, ?_⟩
    cases hread : c.read options with
    | ok q' => rw [hread] at hr; exact congrArg _ (Option.some.inj hr)
    | error e => rw [hread] at hr; cases hr
  refine ⟨hsome, fun ⟨c, hc, hid, hr⟩ => ?_⟩
  obtain ⟨q, hq⟩ := Option.isSome_iff_exists.1
    (isSome_lastReading?_iff.2 ⟨c, hc, hid, p, hr⟩)
  obtain ⟨c', hc', hid', hr'⟩ := hsome hq
  obtain rfl := List.inj_on_of_nodup_map h hc hc' (hid.trans hid'.symm)
  rw [hq, Except.ok.inj (hr.symm.trans hr')]

namespace Catalogue

variable {c : Catalogue} {a b : Ability} {id : Text}

/-! ### What is kept -/

theorem mem_abilitiesOf (h : c.entries.keys.Nodup) :
    a ∈ c.abilitiesOf id ↔ ∃ as, (id, as) ∈ c.entries ∧ a ∈ as := by
  rw [abilitiesOf]
  cases hg : c.entries.get? id with
  | none =>
    have hn : ∀ as, (id, as) ∉ c.entries := fun as hm => by
      rw [(Table.get?_eq_some_iff h).2 hm] at hg
      cases hg
    simp [hn]
  | some as =>
    simp only [Option.getD_some, ← Table.get?_eq_some_iff h, hg, Option.some.injEq,
      exists_eq_left']

/-- The catalogue keeps the abilities of the cards that were not refused. -/
theorem mem_abilitiesOf_run {options : Options} {calls : List Call}
    (h : ((calls.flatMap Call.cards).map (·.id)).Nodup) :
    a ∈ (run options calls).abilitiesOf id ↔ ∃ card ∈ calls.flatMap Call.cards, card.id = id ∧
      ∃ p, card.read options = .ok p ∧ a ∈ p.abilities := by
  rw [abilitiesOf, (shows_run options calls).get?_entries]
  cases hr : lastReading? options (calls.flatMap Call.cards) id with
  | none =>
    have hn : ∀ card ∈ calls.flatMap Call.cards, card.id = id → ∀ p, card.read options ≠ .ok p := by
      intro card hc hid p hp
      rw [(lastReading?_eq_some_iff h).2 ⟨card, hc, hid, hp⟩] at hr
      cases hr
    simp only [Option.map_none, Option.getD_none, List.not_mem_nil, false_iff, not_exists, not_and]
    exact fun card hc hid p hp => absurd hp (hn card hc hid p)
  | some q =>
    constructor
    · intro ha
      obtain ⟨card, hc, hid, hq⟩ := (lastReading?_eq_some_iff h).1 hr
      exact ⟨card, hc, hid, q, hq, ha⟩
    · rintro ⟨card, hc, hid, p, hp, ha⟩
      rw [(lastReading?_eq_some_iff h).2 ⟨card, hc, hid, hp⟩] at hr
      rw [← Option.some.inj hr]
      exact ha

/-! ### Looking through the cards -/

/-- The ability is found by its id, in whatever order the cards are looked through. -/
def Resolves (c : Catalogue) (a : Ability) : Prop :=
  ∀ t : Table (List Ability), t.Perm c.entries → { c with entries := t }.ability? a.id = some a

/-- The only ability with its id is found. -/
theorem resolves_of_unique (hk : c.entries.keys.Nodup) (ha : a ∈ c.abilitiesOf id)
    (h : ∀ id', ∀ b ∈ c.abilitiesOf id', b.id = a.id → b = a) : c.Resolves a := by
  intro t ht
  have hmem : ∀ b, b ∈ t.flatMap (·.2) ↔ ∃ id', b ∈ c.abilitiesOf id' := by
    intro b
    simp only [List.mem_flatMap, mem_abilitiesOf hk, ht.mem_iff]
    exact ⟨fun ⟨e, he, hb⟩ => ⟨e.1, e.2, he, hb⟩, fun ⟨i, as, he, hb⟩ => ⟨(i, as), he, hb⟩⟩
  rw [ability?]
  cases hf : (t.flatMap (·.2)).find? fun b => b.id == a.id with
  | none =>
    have := List.find?_eq_none.1 hf a ((hmem a).2 ⟨id, ha⟩)
    simp at this
  | some b =>
    obtain ⟨id', hb⟩ := (hmem b).1 (List.mem_of_find?_eq_some hf)
    rw [h id' b hb (by simpa using List.find?_some hf)]

/-- A card that is looked at first gives its own ability with the id. -/
theorem mem_of_resolves (hk : c.entries.keys.Nodup) (h : c.Resolves a) (hb : b ∈ c.abilitiesOf id)
    (hid : b.id = a.id) : a ∈ c.abilitiesOf id := by
  obtain ⟨as, he, hb⟩ := (mem_abilitiesOf hk).1 hb
  -- the order in which the card of `b` comes first
  have hf := h _ (List.perm_cons_erase he).symm
  rw [ability?, List.flatMap_cons, List.find?_append] at hf
  have hs : (as.find? fun x => x.id == a.id).isSome = true :=
    List.find?_isSome.2 ⟨b, hb, by simpa using hid⟩
  obtain ⟨x, hx⟩ := Option.isSome_iff_exists.1 hs
  rw [hx, Option.some_or] at hf
  exact (mem_abilitiesOf hk).2 ⟨as, he, Option.some.inj hf ▸ List.mem_of_find?_eq_some hx⟩

/-- **Found by its id** is an ability exactly if no other card has one with that id. -/
theorem resolves_iff (hk : c.entries.keys.Nodup)
    (hcard : ∀ id', ∀ b ∈ c.abilitiesOf id', b.cardId = id')
    (hids : ∀ id', ((c.abilitiesOf id').map (·.id)).Nodup) (ha : a ∈ c.abilitiesOf id) :
    c.Resolves a ↔ ∀ id', id' ≠ id → ∀ b ∈ c.abilitiesOf id', b.id ≠ a.id := by
  constructor
  · intro h id' hne b hb hid
    have hm := mem_of_resolves hk h hb hid
    exact hne ((hcard id' a hm).symm.trans (hcard id a ha))
  · intro h
    refine resolves_of_unique hk ha fun id' b hb hid => ?_
    by_cases hne : id' = id
    · subst hne
      exact List.inj_on_of_nodup_map (hids id') hb ha hid
    · exact absurd hid (h id' hne b hb)

end Catalogue

/-! ### Cards with an id in common -/

/-- The id of the card `c'` is that of a segment of `c`, and one of several abilities there has the
number of a segment of `c'` that has a single one. -/
def Card.Overlaps (options : Options) (c c' : Card) : Prop :=
  ∃ s d i s' d', (s, d, i) ∈ Assembly.emitted (c.context options) (Segment.ofCard options c) ∧
    (s', d', 0) ∈ Assembly.emitted (c'.context options) (Segment.ofCard options c') ∧
    1 < (Draft.ofSegment (c.context options) s).length ∧
    (Draft.ofSegment (c'.context options) s').length = 1 ∧
    c'.id = c.id.hyphened s.index ∧ s'.index = i + 1

variable {options : Options} {c c' : Card}

/-- The abilities of a card, by their places. -/
theorem Card.mem_abilities_iff {p : Assembly} (h : c.read options = .ok p) {a : Ability} :
    a ∈ p.abilities ↔ ∃ s d i,
      (s, d, i) ∈ Assembly.emitted (c.context options) (Segment.ofCard options c) ∧
        a = Assembly.emit c.id (c.context options) (s, d, i) := by
  obtain ⟨-, rfl⟩ := Card.read_eq_ok_iff.1 h
  simp [Assembly.abilities_read, eq_comm]

/-- The draft of a segment with a single one is its first. -/
theorem Assembly.eq_zero_of_mem_emitted {ctx : Context} {segments : List Segment} {s : Segment}
    {d : Draft} {i : Nat} (h : (s, d, i) ∈ emitted ctx segments)
    (hk : ¬ 1 < (Draft.ofSegment ctx s).length) :
    i = 0 ∧ (Draft.ofSegment ctx s).length = 1 := by
  obtain ⟨hlt, -⟩ := List.getElem?_eq_some_iff.1 (mem_emitted.1 h).2.1
  omega

/-- Two cards have an id in common exactly if one of them overlaps the other. -/
theorem Card.shares_id_iff (hne : c.id ≠ c'.id) {p p' : Assembly} (h : c.read options = .ok p)
    (h' : c'.read options = .ok p') :
    (∃ a ∈ p.abilities, ∃ b ∈ p'.abilities, a.id = b.id) ↔
      c.Overlaps options c' ∨ c'.Overlaps options c := by
  constructor
  · rintro ⟨a, ha, b, hb, hid⟩
    obtain ⟨s, d, i, hm, rfl⟩ := (Card.mem_abilities_iff h).1 ha
    obtain ⟨s', d', i', hm', rfl⟩ := (Card.mem_abilities_iff h').1 hb
    -- the one id has a number more than the other, so its card id is the shorter one
    rcases Ability.makeId_eq_makeId_iff.1 hid with ⟨hc, -⟩ | ⟨hk, hk', hc, hn⟩ | ⟨hk, hk', hc, hn⟩
    · exact absurd hc hne
    · obtain ⟨rfl, hlen⟩ := Assembly.eq_zero_of_mem_emitted hm' hk'
      exact .inl ⟨s, d, i, s', d', hm, hm', hk, hlen, hc, hn⟩
    · obtain ⟨rfl, hlen⟩ := Assembly.eq_zero_of_mem_emitted hm hk
      exact .inr ⟨s', d', i', s, d, hm', hm, hk', hlen, hc, hn⟩
  · rintro (⟨s, d, i, s', d', hm, hm', hk, hlen, hc, hn⟩ |
      ⟨s', d', i', s, d, hm', hm, hk', hlen, hc, hn⟩)
    · refine ⟨_, (Card.mem_abilities_iff h).2 ⟨s, d, i, hm, rfl⟩,
        _, (Card.mem_abilities_iff h').2 ⟨s', d', 0, hm', rfl⟩, ?_⟩
      exact Ability.makeId_eq_makeId_iff.2 (.inr (.inl ⟨hk, by simp [hlen], hc, hn⟩))
    · refine ⟨_, (Card.mem_abilities_iff h).2 ⟨s, d, 0, hm, rfl⟩,
        _, (Card.mem_abilities_iff h').2 ⟨s', d', i', hm', rfl⟩, ?_⟩
      exact Ability.makeId_eq_makeId_iff.2 (.inr (.inr ⟨by simp [hlen], hk', hc, hn⟩))

namespace Catalogue

/-- **Which abilities are found by their ids.**  After any calls with cards of different ids, an
ability is found by its id, in whatever order the cards are looked through, exactly if no other card
has an ability with that id; and two cards have an id in common exactly if one of them overlaps the
other. -/
theorem resolves_run_iff (options : Options) (calls : List Call)
    (h : ((calls.flatMap Call.cards).map (·.id)).Nodup) :
    (∀ id, ∀ a ∈ (run options calls).abilitiesOf id, (run options calls).Resolves a ↔
      ∀ id', id' ≠ id → ∀ b ∈ (run options calls).abilitiesOf id', b.id ≠ a.id) ∧
    ∀ c ∈ calls.flatMap Call.cards, ∀ c' ∈ calls.flatMap Call.cards, c.problem? = none →
      c'.problem? = none → c.id ≠ c'.id →
        ((∃ a ∈ (run options calls).abilitiesOf c.id,
          ∃ b ∈ (run options calls).abilitiesOf c'.id, a.id = b.id) ↔
            c.Overlaps options c' ∨ c'.Overlaps options c) := by
  -- no other card replaces the abilities of a card that was read
  have hstored : ∀ {c : Card} {p : Assembly}, c ∈ calls.flatMap Call.cards →
      c.read options = .ok p → (run options calls).abilitiesOf c.id = p.abilities := by
    intro c p hc hr
    rw [abilitiesOf, (shows_run options calls).get?_entries,
      (lastReading?_eq_some_iff h).2 ⟨c, hc, rfl, hr⟩]
    rfl
  constructor
  · intro id a ha
    refine resolves_iff (shows_run options calls).nodup_keys (fun id' b hb => ?_) (fun id' => ?_) ha
    · obtain ⟨c, -, rfl, p, hr, hb⟩ := (mem_abilitiesOf_run h).1 hb
      obtain ⟨s, d, i, -, rfl⟩ := (Card.mem_abilities_iff hr).1 hb
      rfl
    · rcases hl : (run options calls).abilitiesOf id' with _ | ⟨b, bs⟩
      · exact List.nodup_nil
      · obtain ⟨c, hc, rfl, p, hr, -⟩ := (mem_abilitiesOf_run h).1 (hl ▸ List.mem_cons_self)
        rw [← hl, hstored hc hr]
        obtain ⟨-, rfl⟩ := Card.read_eq_ok_iff.1 hr
        exact Assembly.nodup_ids_read c.id (Segment.pairwise_number _)
  · intro c hc c' hc' hok hok' hne
    have hr : c.read options = .ok _ := Card.read_eq_ok_iff.2 ⟨hok, rfl⟩
    have hr' : c'.read options = .ok _ := Card.read_eq_ok_iff.2 ⟨hok', rfl⟩
    rw [hstored hc hr, hstored hc' hr']
    exact Card.shares_id_iff hne hr hr'

/-- The first ability of card "c" is found by its id, although the card overlaps card "c-1" with its
second segment. -/
theorem resolves_run_rush :
    let c₁ : Card :=
      { id := "c".toList, name := "n".toList
        fullTextSections := ["Rush".toList, "Evasive, Ward".toList] }
    let c₂ : Card :=
      { id := "c-1".toList, name := "m".toList
        fullTextSections := ["Rush".toList, "Alert".toList] }
    let c := run {} [.batch [c₁, c₂]]
    ([c₁, c₂].map (·.id)).Nodup ∧
      (∃ a ∈ c.abilitiesOf c₁.id, a.id = "c-0".toList ∧ c.Resolves a) ∧
        (c₁.Overlaps {} c₂ ∨ c₂.Overlaps {} c₁) := by
  intro c₁ c₂ c
  have hids : ([c₁, c₂].map (·.id)).Nodup := by decide
  obtain ⟨hfound, hshared⟩ := resolves_run_iff {} [.batch [c₁, c₂]] hids
  obtain ⟨a, ha, hid⟩ : ∃ a ∈ c.abilitiesOf c₁.id, a.id = "c-0".toList := by decide +kernel
  have hother : ∀ e ∈ c.entries, e.1 ≠ c₁.id → ∀ b ∈ e.2, b.id ≠ "c-0".toList := by decide +kernel
  refine ⟨hids, ⟨a, ha, hid, (hfound c₁.id a ha).2 fun id' hne b hb => ?_⟩, ?_⟩
  · obtain ⟨as, he, hb⟩ := (mem_abilitiesOf (shows_run _ _).nodup_keys).1 hb
    exact hid ▸ hother _ he hne b hb
  · refine (hshared c₁ (by simp [Call.cards]) c₂ (by simp [Call.cards]) rfl rfl (by decide)).1 ?_
    decide +kernel

/-- Card "c" has the id "c-1-1" for an ability of its second segment, and so has card "c-1": neither
of the two is found in every order. -/
theorem not_resolves_run_evasive :
    let c₁ : Card :=
      { id := "c".toList, name := "n".toList
        fullTextSections := ["Rush".toList, "Evasive, Ward".toList] }
    let c₂ : Card :=
      { id := "c-1".toList, name := "m".toList
        fullTextSections := ["Rush".toList, "Alert".toList] }
    let c := run {} [.batch [c₁, c₂]]
    ([c₁, c₂].map (·.id)).Nodup ∧ ∃ a ∈ c.abilitiesOf c₁.id, ∃ b ∈ c.abilitiesOf c₂.id,
      a.id = b.id ∧ ¬ c.Resolves a ∧ ¬ c.Resolves b := by
  intro c₁ c₂ c
  obtain ⟨a, ha, b, hb, hid, hfirst, hlast⟩ : ∃ a ∈ c.abilitiesOf c₁.id,
      ∃ b ∈ c.abilitiesOf c₂.id, a.id = b.id ∧ c.ability? b.id ≠ some b ∧
        { c with entries := c.entries.reverse }.ability? a.id ≠ some a := by decide +kernel
  exact ⟨by decide, a, ha, b, hb, hid, fun h => hlast (h _ (List.reverse_perm _)),
    fun h => hfirst (h _ (List.Perm.refl _))⟩

end Catalogue

end CardText
