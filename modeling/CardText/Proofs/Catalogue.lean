import CardText.Catalogue
import CardText.Proofs.Ability.Assembly
import Mathlib.Data.Char
import Mathlib.Data.List.Lex

/-!
# Catalogues after any calls

What a catalogue tells depends only on the cards it was given, one after the other: for each id the
last card under it that was not refused counts, and nothing of the earlier ones is left.

* `Text.isAtMost_iff_le`: texts are compared character by character;
* `Catalogue.Call`, `Catalogue.run`: the calls that add cards, and a catalogue after them;
* `lastReading?`, `standing`, `refusals`: what a list of cards amounts to;
* `Catalogue.Shows`: a catalogue shows a list of cards.  One more card keeps this
  (`Catalogue.Shows.store`, `Catalogue.Shows.refuse`), and so does every call
  (`Catalogue.Shows.call`);
* `Catalogue.run_spec`: the ids, abilities, reports and errors after any calls.
-/

namespace CardText

/-! ### Order of texts -/

namespace Text

/-- Texts are compared by their first characters that differ, and characters by their numbers. -/
theorem isAtMost_iff_le {a b : Text} : a.isAtMost b = true ↔ a ≤ b := by
  induction a generalizing b with
  | nil => simp [isAtMost, ← not_lt]
  | cons x a ih =>
    cases b with
    | nil => simp [isAtMost, ← not_lt]
    | cons y b =>
      have hlt : x.toNat < y.toNat ↔ x < y := Iff.rfl
      rw [isAtMost, ← not_lt, List.cons_lt_cons_iff]
      simp only [Bool.or_eq_true, Bool.and_eq_true, decide_eq_true_eq, beq_iff_eq, ih, hlt]
      rcases lt_trichotomy x y with h | rfl | h
      · simp [h, h.not_gt, h.ne']
      · simp
      · simp [h, h.not_gt, h.ne']

theorem isAtMost_total (a b : Text) : (a.isAtMost b || b.isAtMost a) = true := by
  rw [Bool.or_eq_true, isAtMost_iff_le, isAtMost_iff_le]
  exact le_total a b

theorem isAtMost_trans (a b c : Text) (hab : a.isAtMost b = true) (hbc : b.isAtMost c = true) :
    a.isAtMost c = true := by
  rw [isAtMost_iff_le] at *
  exact hab.trans hbc

end Text

/-! ### Tables -/

namespace Table

variable {α : Type}

theorem mem_keys_iff {t : Table α} {key : Text} : key ∈ t.keys ↔ (t.get? key).isSome = true := by
  induction t with
  | nil => simp [keys, get?]
  | cons e t ih =>
    rw [get?]
    split
    · next he => simp [keys, he]
    · next he =>
      rw [← ih]
      simp [keys, Ne.symm he]

end Table

namespace Catalogue

/-! ### Calls -/

/-- A call that adds cards. -/
inductive Call where
  /-- One card; the caller gets the error if it is refused. -/
  | card (c : Card)
  /-- Cards one after the other; the catalogue keeps the errors of the refused ones. -/
  | batch (cs : List Card)

namespace Call

/-- The cards of a call. -/
def cards : Call → List Card
  | .card c => [c]
  | .batch cs => cs

/-- The cards whose errors the catalogue keeps. -/
def batched : Call → List Card
  | .card _ => []
  | .batch cs => cs

end Call

/-- The catalogue after a call. -/
def call (c : Catalogue) : Call → Catalogue
  | .card card =>
    match (addCard card).run c with
    | .ok _ c => c
    | .error _ c => c
  | .batch cards => c.registerAll cards

/-- A new catalogue after calls. -/
def run (options : Options) (calls : List Call) : Catalogue := calls.foldl call { options }

end Catalogue

/-! ### Lists of cards -/

/-- The reading of the last of the cards under an id that is not refused. -/
def lastReading? (options : Options) (cards : List Card) (id : Text) : Option Assembly :=
  cards.reverse.findSome? fun c => if c.id = id then (c.read options).toOption else none

/-- The readings of the cards that are not refused, in their order and by their ids, without those
that a later one under the same id replaces. -/
def standing (options : Options) : List Card → List (Text × Assembly)
  | [] => []
  | c :: cs =>
    match c.read options with
    | .error _ => standing options cs
    | .ok p =>
      if (lastReading? options cs c.id).isSome then standing options cs
      else (c.id, p) :: standing options cs

/-- The error of a card that is refused. -/
def refusal? (options : Options) (c : Card) : Option CardError :=
  match c.read options with
  | .error e => some e
  | .ok _ => none

variable {options : Options} {cards : List Card} {card : Card} {p : Assembly} {e : CardError}

theorem lastReading?_append_of_ok (h : card.read options = .ok p) (id : Text) :
    lastReading? options (cards ++ [card]) id =
      if card.id = id then some p else lastReading? options cards id := by
  simp only [lastReading?, List.reverse_append, List.reverse_singleton, List.singleton_append,
    List.findSome?_cons, h, Except.toOption]
  split_ifs <;> rfl

theorem lastReading?_append_of_error (h : card.read options = .error e) (id : Text) :
    lastReading? options (cards ++ [card]) id = lastReading? options cards id := by
  simp only [lastReading?, List.reverse_append, List.reverse_singleton, List.singleton_append,
    List.findSome?_cons, h, Except.toOption, ite_self]

theorem isSome_lastReading?_iff {id : Text} : (lastReading? options cards id).isSome = true ↔
    ∃ c ∈ cards, c.id = id ∧ ∃ p, c.read options = .ok p := by
  simp only [lastReading?, List.findSome?_isSome_iff, List.mem_reverse]
  refine exists_congr fun c => and_congr_right fun _ => ?_
  by_cases hid : c.id = id
  · cases hr : c.read options <;> simp [hid, Except.toOption]
  · simp [hid]

/-- A further reading takes the place of those under its id. -/
theorem standing_append_of_ok (h : card.read options = .ok p) :
    standing options (cards ++ [card]) =
      (standing options cards).filter (fun r => r.1 != card.id) ++ [(card.id, p)] := by
  induction cards with
  | nil => simp [standing, h, lastReading?]
  | cons c cards ih =>
    rw [List.cons_append, standing, standing]
    cases c.read options with
    | error _ => exact ih
    | ok q =>
      simp only [lastReading?_append_of_ok h, ih]
      -- a card under the same id no longer stands, any other one stands as before
      by_cases hid : card.id = c.id
      · split_ifs <;> simp_all
      · split_ifs <;> simp_all [Ne.symm hid]

theorem standing_append_of_error (h : card.read options = .error e) :
    standing options (cards ++ [card]) = standing options cards := by
  induction cards with
  | nil => simp [standing, h]
  | cons c cards ih =>
    rw [List.cons_append, standing, standing]
    simp only [lastReading?_append_of_error h, ih]

/-- What stands under an id reports on nothing else. -/
theorem cardId_of_mem_standing {r : Text × Assembly} (h : r ∈ standing options cards)
    {x : Diagnostic} (hx : x ∈ r.2.diagnostics) : x.cardId = r.1 := by
  induction cards with
  | nil => cases h
  | cons c cards ih =>
    rw [standing] at h
    split at h
    · exact ih h
    · next q hq =>
      split_ifs at h
      · exact ih h
      · rcases List.mem_cons.1 h with rfl | h
        · obtain ⟨-, rfl⟩ := Card.read_eq_ok_iff.1 hq
          exact Assembly.cardId_of_mem_diagnostics hx
        · exact ih h

/-- The reports on an id go together with the reading of its card. -/
theorem filter_flatMap_diagnostics {rs : List (Text × Assembly)} (id : Text)
    (h : ∀ r ∈ rs, ∀ x ∈ r.2.diagnostics, x.cardId = r.1) :
    (rs.flatMap (·.2.diagnostics)).filter (fun x => x.cardId != id) =
      (rs.filter fun r => r.1 != id).flatMap (·.2.diagnostics) := by
  induction rs with
  | nil => rfl
  | cons r rs ih =>
    have hr := h r List.mem_cons_self
    rw [List.flatMap_cons, List.filter_append, ih fun s hs => h s (List.mem_cons_of_mem r hs)]
    by_cases hid : r.1 = id
    · have : r.2.diagnostics.filter (fun x => x.cardId != id) = [] :=
        List.filter_eq_nil_iff.2 fun x hx => by simp [hr x hx, hid]
      simp [this, hid]
    · have : r.2.diagnostics.filter (fun x => x.cardId != id) = r.2.diagnostics :=
        List.filter_eq_self.2 fun x hx => by simp [hr x hx, hid]
      simp [this, hid]

namespace Catalogue

variable {c : Catalogue}

theorem addCard_of_ok (h : card.read c.options = .ok p) :
    (addCard card).run c = .ok p.abilities (c.store card.id p) := by
  rw [run_addCard, h]

theorem addCard_of_error (h : card.read c.options = .error e) :
    (addCard card).run c = .error e c := by
  rw [run_addCard, h]

theorem register_eq_error_iff : c.register card = .error e ↔ card.read c.options = .error e := by
  rw [register, run_addCard]
  cases card.read c.options <;> simp

/-- A card that is refused leaves the catalogue as it is. -/
theorem call_of_register_eq_error (h : c.register card = .error e) : c.call (.card card) = c := by
  rw [call, addCard_of_error (register_eq_error_iff.1 h)]

/-! ### What a catalogue shows -/

/-- The catalogue has the abilities and the reports that the cards, given one after the other,
amount to. -/
structure Shows (options : Options) (cards : List Card) (c : Catalogue) : Prop where
  options_eq : c.options = options
  nodup_keys : c.entries.keys.Nodup
  get?_entries : ∀ id, c.entries.get? id = (lastReading? options cards id).map (·.abilities)
  diagnostics_eq : c.diagnostics = (standing options cards).flatMap (·.2.diagnostics)

namespace Shows

theorem empty (options : Options) : Shows options [] { options } :=
  ⟨rfl, List.nodup_nil, fun _ => rfl, rfl⟩

theorem rejected (h : Shows options cards c) (es : List CardError) :
    Shows options cards { c with rejected := es } :=
  ⟨h.options_eq, h.nodup_keys, h.get?_entries, h.diagnostics_eq⟩

/-- A card that is read replaces what was there under its id. -/
theorem store (h : Shows options cards c) (hr : card.read options = .ok p) :
    Shows options (cards ++ [card]) (c.store card.id p) where
  options_eq := h.options_eq
  nodup_keys := Table.nodup_keys_put h.nodup_keys card.id p.abilities
  get?_entries id := by
    rw [lastReading?_append_of_ok hr, Catalogue.store]
    simp only [Table.get?_put, h.get?_entries id]
    split_ifs <;> rfl
  diagnostics_eq := by
    rw [standing_append_of_ok hr, Catalogue.store, List.flatMap_append, List.flatMap_singleton,
      ← filter_flatMap_diagnostics card.id fun _ hr _ hx => cardId_of_mem_standing hr hx,
      h.diagnostics_eq]

theorem refuse (h : Shows options cards c) (hr : card.read options = .error e) :
    Shows options (cards ++ [card]) c where
  options_eq := h.options_eq
  nodup_keys := h.nodup_keys
  get?_entries id := by rw [lastReading?_append_of_error hr, h.get?_entries]
  diagnostics_eq := by rw [standing_append_of_error hr, h.diagnostics_eq]

theorem registerOrReject (h : Shows options cards c) (card : Card) :
    Shows options (cards ++ [card]) (c.registerOrReject card) := by
  rw [Catalogue.registerOrReject]
  cases hr : card.read options with
  | ok p =>
    rw [addCard_of_ok (h.options_eq ▸ hr)]
    exact h.store hr
  | error e =>
    rw [addCard_of_error (h.options_eq ▸ hr)]
    exact (h.refuse hr).rejected _

theorem registerAll (h : Shows options cards c) (more : List Card) :
    Shows options (cards ++ more) (c.registerAll more) := by
  induction more generalizing cards c with
  | nil => simpa [Catalogue.registerAll] using h
  | cons card more ih =>
    have := ih (h.registerOrReject card)
    rwa [List.append_assoc] at this

theorem call (h : Shows options cards c) (k : Call) :
    Shows options (cards ++ k.cards) (c.call k) := by
  cases k with
  | batch more => exact h.registerAll more
  | card card =>
    rw [Catalogue.call]
    cases hr : card.read options with
    | ok p =>
      rw [addCard_of_ok (h.options_eq ▸ hr)]
      exact h.store hr
    | error e =>
      rw [addCard_of_error (h.options_eq ▸ hr)]
      exact h.refuse hr

theorem foldl (h : Shows options cards c) (calls : List Call) :
    Shows options (cards ++ calls.flatMap Call.cards) (calls.foldl Catalogue.call c) := by
  induction calls generalizing cards c with
  | nil => simpa using h
  | cons k calls ih =>
    have := ih (h.call k)
    rwa [List.append_assoc] at this

end Shows

/-- A new catalogue shows the cards of the calls made on it. -/
theorem shows_run (options : Options) (calls : List Call) :
    Shows options (calls.flatMap Call.cards) (run options calls) :=
  (Shows.empty options).foldl calls

/-! ### Errors -/

theorem rejected_registerOrReject (c : Catalogue) (card : Card) :
    (c.registerOrReject card).rejected = c.rejected ++ (refusal? c.options card).toList ∧
      (c.registerOrReject card).options = c.options := by
  rw [registerOrReject, refusal?]
  cases hr : card.read c.options with
  | ok p => rw [addCard_of_ok hr]; simp [store]
  | error e => rw [addCard_of_error hr]; simp

theorem rejected_registerAll (c : Catalogue) (cards : List Card) :
    (c.registerAll cards).rejected = c.rejected ++ cards.filterMap (refusal? c.options) ∧
      (c.registerAll cards).options = c.options := by
  induction cards generalizing c with
  | nil => simp [registerAll]
  | cons card cards ih =>
    obtain ⟨hr, ho⟩ := rejected_registerOrReject c card
    have := ih (c.registerOrReject card)
    rw [hr, ho] at this
    refine ⟨?_, this.2⟩
    rw [show c.registerAll (card :: cards) = (c.registerOrReject card).registerAll cards from rfl,
      this.1, List.append_assoc, List.filterMap_cons]
    cases refusal? c.options card <;> simp

theorem rejected_call (c : Catalogue) (k : Call) :
    (c.call k).rejected = c.rejected ++ k.batched.filterMap (refusal? c.options) ∧
      (c.call k).options = c.options := by
  cases k with
  | batch cards => exact rejected_registerAll c cards
  | card card =>
    rw [call]
    cases hr : card.read c.options with
    | ok p => rw [addCard_of_ok hr]; simp [store, Call.batched]
    | error e => rw [addCard_of_error hr]; simp [Call.batched]

theorem rejected_foldl (c : Catalogue) (calls : List Call) :
    (calls.foldl call c).rejected =
      c.rejected ++ (calls.flatMap Call.batched).filterMap (refusal? c.options) := by
  induction calls generalizing c with
  | nil => simp
  | cons k calls ih =>
    obtain ⟨hr, ho⟩ := rejected_call c k
    rw [List.foldl_cons, ih, hr, ho, List.flatMap_cons, List.filterMap_append, List.append_assoc]

/-! ### Ids -/

theorem mem_cardIds {id : Text} : id ∈ c.cardIds ↔ (c.entries.get? id).isSome = true := by
  rw [cardIds, List.mem_mergeSort, Table.mem_keys_iff]

theorem length_cardIds (c : Catalogue) : c.cardIds.length = c.size := by
  rw [cardIds, List.length_mergeSort, Table.keys, List.length_map, size]

/-- The ids are in strict order. -/
theorem pairwise_cardIds (h : c.entries.keys.Nodup) : c.cardIds.Pairwise (· < ·) := by
  have hsorted : c.cardIds.Pairwise fun a b => a.isAtMost b = true :=
    List.pairwise_mergeSort Text.isAtMost_trans Text.isAtMost_total _
  have hnodup : c.cardIds.Nodup := (List.mergeSort_perm c.entries.keys _).nodup_iff.2 h
  exact (hsorted.and hnodup).imp fun ⟨hle, hne⟩ => (Text.isAtMost_iff_le.1 hle).lt_of_ne hne

/-! ### After any calls -/

/-- **What a catalogue tells after any calls.**  Each id has the abilities of the last card under it
that was not refused; the ids are those of such cards, in the strict order of their characters; the
reports are those of the readings that count, in their order; and the errors are those of the cards
refused in batches.  A single card is answered by the abilities or the error of its reading; if it
is refused, it changes nothing. -/
theorem run_spec (options : Options) (calls : List Call) :
    let c := run options calls
    let cards := calls.flatMap Call.cards
    (∀ id, c.abilitiesOf id =
      ((lastReading? options cards id).map (·.abilities)).getD []) ∧
    c.cardIds.Pairwise (· < ·) ∧
    (∀ id, id ∈ c.cardIds ↔ ∃ card ∈ cards, card.id = id ∧ ∃ p, card.read options = .ok p) ∧
    c.size = c.cardIds.length ∧
    c.diagnostics = (standing options cards).flatMap (·.2.diagnostics) ∧
    c.rejected = (calls.flatMap Call.batched).filterMap (refusal? options) ∧
    (∀ card p, card.read options = .ok p →
      (addCard card).run c = .ok p.abilities (c.store card.id p)) ∧
    (∀ card e, card.read options = .error e → (addCard card).run c = .error e c) ∧
    ∀ card e, c.register card = .error e → c.call (.card card) = c := by
  intro c cards
  have h : Shows options cards c := shows_run options calls
  refine ⟨fun id => ?_, pairwise_cardIds h.nodup_keys, fun id => ?_, (length_cardIds c).symm,
    h.diagnostics_eq, ?_, fun card p hp => addCard_of_ok (h.options_eq ▸ hp),
    fun card e he => addCard_of_error (h.options_eq ▸ he), fun card e => call_of_register_eq_error⟩
  · rw [abilitiesOf, h.get?_entries]
  · rw [mem_cardIds, h.get?_entries, Option.isSome_map, isSome_lastReading?_iff]
  · exact (rejected_foldl { options } calls).trans (List.nil_append _)

/-- A card that comes again without its name is refused, and its first reading stays. A card whose
id is less comes first, however late it is added. -/
theorem run_spec_unnamed :
    let card : Card :=
      { id := "c".toList, name := "n".toList, fullTextSections := ["Draw a card.".toList] }
    let unnamed : Card := { card with name := [] }
    let less : Card := { card with id := "b".toList }
    let c := run {} [.card card, .batch [unnamed, less]]
    (addCard unnamed).run c = .error (.missingName card.id) c ∧ c.call (.card unnamed) = c ∧
      c.rejected = [.missingName card.id] ∧ (∃ a, c.abilitiesOf card.id = [a]) ∧
      c.cardIds = [less.id, card.id] ∧ c.cardIds.Pairwise (· < ·) := by
  intro card unnamed less c
  have he : unnamed.read {} = .error (.missingName card.id) := rfl
  obtain ⟨habilities, hordered, -, -, -, hrejected, -, hanswer, hcall⟩ :=
    run_spec {} [.card card, .batch [unnamed, less]]
  refine ⟨hanswer unnamed _ he, hcall unnamed (.missingName card.id) rfl, hrejected.trans rfl, ?_,
    ?_, hordered⟩
  · obtain ⟨a, ha⟩ : ∃ a, ((lastReading? {} [card, unnamed, less] card.id).map
        (·.abilities)).getD [] = [a] := List.length_eq_one_iff.1 (by decide +kernel)
    exact ⟨a, (habilities card.id).trans ha⟩
  · have hkeys : c.entries.keys = [card.id, less.id] := by decide +kernel
    have hperm : c.cardIds.Perm [less.id, card.id] :=
      (List.mergeSort_perm _ _).trans (hkeys ▸ List.Perm.swap less.id card.id [])
    have hlt : [less.id, card.id].Pairwise (· < ·) := by decide
    exact hperm.eq_of_pairwise (fun _ _ _ _ h h' => (lt_asymm h h').elim) hordered hlt

end Catalogue

end CardText
