import Mathlib.Data.List.Forall2
import CardText.Card.Record
import CardText.Proofs.Database
import CardText.Proofs.Json.Reader

/-!
# Collections of cards

A collection is an array of records, or an object that keeps one. Each record is read on its own,
and none of them is left out.

* `Json.Fits`, `Json.MemberText.Fits`: a text that may be an item of an array, and one that may be a
  member of an object;
* `Card.load_arrayText_eq_ok_iff`: an array gives one card for each of its records;
* `Card.collection_foldl_put`: of the members of an object only the last one named "cards" counts;
* `Card.load_elementwise`: an array is a collection just if each of its items is one on its own, and
  it gives the cards of these.
-/

namespace CardText

variable {α β : Type}

/-! ### Lists in step -/

theorem exists_forall₂_iff {R : α → β → Prop} {as : List α} :
    (∃ bs, List.Forall₂ R as bs) ↔ ∀ a ∈ as, ∃ b, R a b := by
  induction as with
  | nil => simp
  | cons a as ih =>
    rw [List.forall_mem_cons, ← ih]
    constructor
    · rintro ⟨_, _ | ⟨hb, hbs⟩⟩
      exact ⟨⟨_, hb⟩, ⟨_, hbs⟩⟩
    · rintro ⟨⟨b, hb⟩, ⟨bs, hbs⟩⟩
      exact ⟨b :: bs, .cons hb hbs⟩

theorem mapM_eq_some_iff_forall₂ {f : α → Option β} {as : List α} {bs : List β} :
    as.mapM f = some bs ↔ List.Forall₂ (fun a b => f a = some b) as bs := by
  induction as generalizing bs with
  | nil => simp [eq_comm]
  | cons a as ih =>
    rw [List.mapM_cons, List.forall₂_cons_left_iff]
    simp only [Option.bind_eq_bind, Option.bind_eq_some_iff, Option.pure_def, Option.some.injEq, ih]
    constructor
    · rintro ⟨b, hb, bs', hbs, rfl⟩
      exact ⟨b, bs', hb, hbs, rfl⟩
    · rintro ⟨b, bs', hb, hbs, rfl⟩
      exact ⟨b, hb, bs', hbs, rfl⟩

namespace Json

/-! ### Items and members -/

/-- The text is JSON, and may stand inside of `d` arrays and objects. -/
def Fits (d : Nat) (t : Text) : Prop := (read t).isOk = true ∧ nesting t + d ≤ State.maxDepth

instance (d : Nat) (t : Text) : Decidable (Fits d t) := inferInstanceAs (Decidable (_ ∧ _))

theorem Fits.exists_readsInside {d : Nat} {t : Text} (h : Fits d t) : ∃ v, ReadsInside d t v := by
  cases hr : read t with
  | error e =>
    rw [Fits, hr] at h
    cases h.1
  | ok v => exact ⟨v, readsInside_of_read hr h.2⟩

namespace MemberText

/-- The name of a member, as its text gives it. -/
def key? (m : MemberText) : Option Text :=
  match tokens m.name with
  | [.text k] => some k
  | _ => none

theorem key?_eq_some_iff {m : MemberText} {k : Text} :
    m.key? = some k ↔ tokens m.name = [.text k] := by
  rw [key?]
  split
  · next k' hk => simp [hk]
  · next hk => simpa using hk k

/-- The text is a member of an object, and may stand inside of `d` arrays and objects. -/
def Fits (d : Nat) (m : MemberText) : Prop := m.key?.isSome = true ∧ Json.Fits d m.value

instance (d : Nat) (m : MemberText) : Decidable (m.Fits d) := inferInstanceAs (Decidable (_ ∧ _))

theorem Fits.exists_readsInside {d : Nat} {m : MemberText} (h : m.Fits d) :
    ∃ e, m.ReadsInside d e := by
  obtain ⟨k, hk⟩ := Option.isSome_iff_exists.1 h.1
  obtain ⟨v, hv⟩ := h.2.exists_readsInside
  exact ⟨(k, v), key?_eq_some_iff.1 hk, hv⟩

/-- The names of members are those that their texts give. -/
theorem key?_of_forall₂ {d : Nat} {ms : List MemberText} {es : List (Text × Value)}
    (h : List.Forall₂ (MemberText.ReadsInside d) ms es) {e : Text × Value} (he : e ∈ es) :
    ∃ m ∈ ms, m.key? = some e.1 := by
  have hmap : ms.map key? = es.map fun e => some e.1 := by
    rw [← List.forall₂_eq_eq_eq, List.forall₂_map_left_iff, List.forall₂_map_right_iff]
    exact h.imp fun m e hm => key?_eq_some_iff.2 hm.name
  exact List.mem_map.1 (hmap ▸ List.mem_map_of_mem he)

end MemberText

end Json

open Json

namespace Card

variable {t : Text} {v : Value} {ts : List Text} {vs : List Value} {cards : List Card}

/-! ### Arrays -/

theorem load_of_readsInside {d : Nat} (h : ReadsInside d t v) : load t = loadValue v := by
  rw [load, h.read_eq]

theorem loadValue_array_eq_ok_iff : loadValue (.array vs) = .ok cards ↔
    List.Forall₂ (fun v c => ofRecord? v = some c) vs cards := by
  rw [← mapM_eq_some_iff_forall₂, loadValue, collection.eq_2 _ (by simp), Value.items?,
    Option.bind_some]
  cases vs.mapM ofRecord? <;> simp

/-- An array gives one card for each of its records. -/
theorem load_arrayText_eq_ok_iff (h : List.Forall₂ (ReadsInside 1) ts vs) :
    load (arrayText ts) = .ok cards ↔ List.Forall₂ (fun v c => ofRecord? v = some c) vs cards := by
  rw [load_of_readsInside (readsInside_arrayText (by decide) h), loadValue_array_eq_ok_iff]

/-- The cards of an array are those of its items, one for each. -/
theorem load_arrayText_eq_ok_iff_forall₂ (h : ∀ t ∈ ts, Fits 1 t) :
    load (arrayText ts) = .ok cards ↔
      List.Forall₂ (fun t c => load (arrayText [t]) = .ok [c]) ts cards := by
  obtain ⟨vs, hvs⟩ := exists_forall₂_iff.2 fun t ht => (h t ht).exists_readsInside
  rw [load_arrayText_eq_ok_iff hvs]
  clear h
  induction hvs generalizing cards with
  | nil => simp
  | @cons t v _ _ ht _ ih =>
    have hone : ∀ c, load (arrayText [t]) = .ok [c] ↔ ofRecord? v = some c := fun c => by
      rw [load_arrayText_eq_ok_iff (.cons ht .nil)]
      simp
    simp only [List.forall₂_cons_left_iff, hone, ih]

/-- What is on its own in an array gives one card. -/
theorem exists_eq_singleton_of_load {cards : List Card} (h : Fits 1 t)
    (hl : load (arrayText [t]) = .ok cards) : ∃ c, cards = [c] := by
  rw [load_arrayText_eq_ok_iff_forall₂ (by simpa using h), List.forall₂_cons_left_iff] at hl
  obtain ⟨c, _, -, hnil, rfl⟩ := hl
  exact ⟨c, by rw [List.forall₂_nil_left_iff.1 hnil]⟩

/-- All of an array can be loaded just if each of its items can. -/
theorem exists_load_arrayText_iff (h : ∀ t ∈ ts, Fits 1 t) :
    (∃ cards, load (arrayText ts) = .ok cards) ↔
      ∀ t ∈ ts, ∃ cards, load (arrayText [t]) = .ok cards := by
  simp only [load_arrayText_eq_ok_iff_forall₂ h, exists_forall₂_iff]
  refine forall₂_congr fun t ht => ⟨fun ⟨c, hc⟩ => ⟨_, hc⟩, fun ⟨cards, hc⟩ => ?_⟩
  obtain ⟨c, rfl⟩ := exists_eq_singleton_of_load (h t ht) hc
  exact ⟨c, hc⟩

/-! ### Objects -/

/-- The last member that is named "cards" holds the cards. -/
theorem collection_objectOf_append {front back : List (Text × Value)} (v : Value)
    (h : ∀ e ∈ back, e.1 ≠ "cards".toList) :
    collection (objectOf (front ++ ("cards".toList, v) :: back)) = v := by
  have hback : back.reverse.find? (fun e => e.1 == "cards".toList) = none := by
    simpa using h
  rw [objectOf, collection, Table.get?_foldl_put, List.reverse_append, List.reverse_cons,
    List.append_assoc, List.find?_append, hback]
  simp only [Option.none_or, List.singleton_append, List.find?_cons, beq_self_eq_true,
    Option.map_some, Option.some_or, Option.getD_some]

/-- There are no cards without a member that is named so. -/
theorem collection_objectOf_of_forall {es : List (Text × Value)}
    (h : ∀ e ∈ es, e.1 ≠ "cards".toList) : collection (objectOf es) = .array [] := by
  have hes : es.reverse.find? (fun e => e.1 == "cards".toList) = none := by
    simpa using h
  rw [objectOf, collection, Table.get?_foldl_put, hes]
  rfl

theorem loadValue_eq_of_collection {v w : Value} (h : collection v = collection w) :
    loadValue v = loadValue w := by
  rw [loadValue, loadValue, h]

theorem exists_forall₂_readsInside {ms : List MemberText} (h : ∀ m ∈ ms, m.Fits 1)
    (hn : ∀ m ∈ ms, m.key? ≠ some "cards".toList) :
    ∃ es, List.Forall₂ (MemberText.ReadsInside 1) ms es ∧ ∀ e ∈ es, e.1 ≠ "cards".toList := by
  obtain ⟨es, hes⟩ := exists_forall₂_iff.2 fun m hm => (h m hm).exists_readsInside
  refine ⟨es, hes, fun e he hc => ?_⟩
  obtain ⟨m, hm, hk⟩ := MemberText.key?_of_forall₂ hes he
  exact hn m hm (hk.trans (congrArg some hc))

/-- Whatever other members an object has, its cards are those of the array in its last member that
is named "cards". -/
theorem load_objectText_append {front back : List MemberText} {m : MemberText}
    (hm : m.key? = some "cards".toList) (hv : Json.read m.value = Json.read (arrayText ts))
    (ht : ∀ t ∈ ts, Fits 1 t) (h : ∀ x ∈ front ++ m :: back, x.Fits 1)
    (hn : ∀ x ∈ back, x.key? ≠ some "cards".toList) :
    load (objectText (front ++ m :: back)) = load (arrayText ts) := by
  simp only [List.forall_mem_append, List.forall_mem_cons] at h
  obtain ⟨vs, hvs⟩ := exists_forall₂_iff.2 fun t h => (ht t h).exists_readsInside
  obtain ⟨ef, hef⟩ := exists_forall₂_iff.2 fun m hm => (h.1 m hm).exists_readsInside
  obtain ⟨eb, heb, hcards⟩ := exists_forall₂_readsInside h.2.2 hn
  have harray : ReadsInside 0 (arrayText ts) (.array vs) := readsInside_arrayText (by decide) hvs
  have he : m.ReadsInside 1 ("cards".toList, .array vs) :=
    ⟨MemberText.key?_eq_some_iff.1 hm,
      readsInside_of_read (hv.trans harray.read_eq) h.2.1.2.2⟩
  have hobject := readsInside_objectText (d := 0) (by decide) (List.rel_append hef (.cons he heb))
  rw [load_of_readsInside hobject, load_of_readsInside harray]
  refine loadValue_eq_of_collection ?_
  rw [collection_objectOf_append _ hcards]
  rfl

/-- An object without a member that is named "cards" has no cards. -/
theorem load_objectText_of_forall {ms : List MemberText} (h : ∀ m ∈ ms, m.Fits 1)
    (hn : ∀ m ∈ ms, m.key? ≠ some "cards".toList) : load (objectText ms) = .ok [] := by
  obtain ⟨es, hes, hcards⟩ := exists_forall₂_readsInside h hn
  rw [load_of_readsInside (readsInside_objectText (d := 0) (by decide) hes), loadValue,
    collection_objectOf_of_forall hcards]
  rfl

/-! ### Collections -/

/-- **A collection is loaded item by item, and either as a whole or not at all.**  An array can be
loaded just if each of its items can be loaded on its own, and it gives their cards in order, one
for each.  An object gives the cards of the array in its last member that is named "cards", whatever
its other members are, and none without such a member. -/
theorem load_elementwise :
    (∀ ts : List Text, (∀ t ∈ ts, Fits 1 t) →
      ((∃ cards, load (arrayText ts) = .ok cards) ↔
        ∀ t ∈ ts, ∃ cards, load (arrayText [t]) = .ok cards) ∧
      ∀ cards, load (arrayText ts) = .ok cards ↔
        List.Forall₂ (fun t c => load (arrayText [t]) = .ok [c]) ts cards) ∧
    (∀ (front back : List MemberText) (m : MemberText) (ts : List Text),
      m.key? = some "cards".toList → Json.read m.value = Json.read (arrayText ts) →
      (∀ t ∈ ts, Fits 1 t) → (∀ x ∈ front ++ m :: back, x.Fits 1) →
      (∀ x ∈ back, x.key? ≠ some "cards".toList) →
      load (objectText (front ++ m :: back)) = load (arrayText ts)) ∧
    ∀ ms : List MemberText, (∀ m ∈ ms, m.Fits 1) → (∀ m ∈ ms, m.key? ≠ some "cards".toList) →
      load (objectText ms) = .ok [] := by
  refine ⟨fun ts h => ⟨exists_load_arrayText_iff h,
    fun cards => load_arrayText_eq_ok_iff_forall₂ h⟩, fun _ _ _ _ => load_objectText_append,
    fun _ => load_objectText_of_forall⟩

/-- Two records, one of them an array of fields, in an array and in an object with two members named
"cards", one of which spells the name with an escape; and a record without a proper name, which
spoils the array. -/
theorem load_elementwise_olaf :
    let elsa := "\x7b\"id\": 7, \"name\": \"Elsa\"\x7d".toList
    let olaf := " [\"a-1\", \"Olaf\"]".toList
    let nameless := "\x7b\"name\": 3\x7d".toList
    let old : MemberText := ⟨"\"cards\"".toList, "null".toList⟩
    let note : MemberText := ⟨" \"note\" ".toList, "[1, [true]]".toList⟩
    let cards : MemberText := ⟨"\"c\\u0061rds\"".toList, ' ' :: arrayText [elsa, olaf]⟩
    (∃ cs, load (arrayText [elsa, olaf]) = .ok cs) ∧
      (¬ ∃ cs, load (arrayText [elsa, nameless, olaf]) = .ok cs) ∧
      load (objectText [old, cards, note]) = load (arrayText [elsa, olaf]) ∧
      load (objectText [note]) = .ok [] := by
  intro elsa olaf nameless old note cards
  have hones : ∀ t ∈ [elsa, olaf], (load (arrayText [t])).isOk = true := by decide +kernel
  have hok : ∀ t ∈ [elsa, olaf], ∃ cs, load (arrayText [t]) = .ok cs := fun t ht => by
    have h := hones t ht
    cases hl : load (arrayText [t]) with
    | error e => rw [hl] at h; cases h
    | ok cs => exact ⟨cs, rfl⟩
  have hread : Json.read cards.value = Json.read (arrayText [elsa, olaf]) := by
    rw [Json.read, tokens_separator rfl, Json.read]
  have hbad : load (arrayText [nameless]) = .error .mismatch := by decide +kernel
  refine ⟨(load_elementwise.1 _ (by decide +kernel)).1.2 hok, fun hcs => ?_,
    load_elementwise.2.1 [old] [note] cards [elsa, olaf] (by decide +kernel) hread
      (by decide +kernel) (by decide +kernel) (by decide +kernel),
    load_elementwise.2.2 [note] (by decide +kernel) (by decide +kernel)⟩
  obtain ⟨cs, hcs⟩ := (load_elementwise.1 _ (by decide +kernel)).1.1 hcs nameless (by simp)
  rw [hbad] at hcs
  cases hcs

end Card

end CardText
