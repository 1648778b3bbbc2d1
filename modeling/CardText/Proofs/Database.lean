import CardText.Card.Database
import CardText.Proofs.Catalogue

/-!
# Two ways to look up a card

A database and a catalogue of the same cards do not disagree: the last card of an id counts for
both, unless the catalogue has refused it.

* `Table.get?_foldl_put`: of many values put under a key the last one stays;
* `Database.places_foldl_addPlace`: all places added under a name stay, in order;
* `Database.get?_byId`, `Database.places_byName`: what the indexes say;
* `Database.lookup_spec`: what is found in a database, and the abilities that a catalogue has for it.
-/

namespace CardText

/-- Of many values put under a key the last one stays. -/
theorem Table.get?_foldl_put {α β : Type} (key : β → Text) (value : β → α) (l : List β)
    (t : Table α) (k : Text) : Table.get? (l.foldl (fun t b => t.put (key b) (value b)) t) k =
      ((l.reverse.find? fun b => key b == k).map value).or (t.get? k) := by
  induction l generalizing t with
  | nil => rfl
  | cons b l ih =>
    rw [List.foldl_cons, ih, List.reverse_cons, List.find?_append, get?_put]
    cases l.reverse.find? fun b => key b == k with
    | some c => rfl
    | none => by_cases hb : key b = k <;> simp [hb]

namespace Database

/-! ### Indexes -/

theorem places_addPlace (es : Table (List Nat)) (name other : Text) (i : Nat) :
    places (addPlace es name i) other =
      if name = other then places es other ++ [i] else places es other := by
  simp only [places, addPlace, Table.get?_put]
  split_ifs with h
  · rw [h]
    rfl
  · rfl

theorem places_foldl_addPlace {β : Type} (key : β → Text) (place : β → Nat) (l : List β)
    (es : Table (List Nat)) (name : Text) :
    places (l.foldl (fun es b => addPlace es (key b) (place b)) es) name =
      places es name ++ (l.filter fun b => key b == name).map place := by
  induction l generalizing es with
  | nil => simp
  | cons b l ih =>
    rw [List.foldl_cons, ih, places_addPlace]
    by_cases hb : key b = name <;> simp [hb]

variable (cards : List Card)

theorem get?_byId (id : Text) : (ofCards cards).byId.get? id =
    (cards.zipIdx.reverse.find? fun e => e.1.id == id).map (·.2) := by
  rw [ofCards, Table.get?_foldl_put]
  exact Option.or_none

theorem places_byName (name : Text) : places (ofCards cards).byName name =
    (cards.zipIdx.filter fun e => e.1.fullName == name).map (·.2) := by
  rw [ofCards, places_foldl_addPlace]
  rfl

/-- A numbered card stands at its place. -/
theorem getElem?_of_mem_zipIdx {e : Card × Nat} (h : e ∈ cards.zipIdx) : cards[e.2]? = some e.1 :=
  List.mem_zipIdx_iff_getElem?.1 h

/-- A card that is found among the numbered ones is the one at its number. -/
theorem bind_getElem? {o : Option (Card × Nat)} (h : ∀ e ∈ o, e ∈ cards.zipIdx) :
    (o.map (·.2)).bind (fun i => cards[i]?) = o.map (·.1) := by
  cases o with
  | none => rfl
  | some e => exact getElem?_of_mem_zipIdx cards (h e rfl)

theorem getById?_ofCards (id : Text) :
    (ofCards cards).getById? id = cards.reverse.find? fun c => c.id == id := by
  have hm : ∀ e ∈ cards.zipIdx.reverse.find? fun e => e.1.id == id, e ∈ cards.zipIdx :=
    fun e he => List.mem_reverse.1 (List.mem_of_find?_eq_some he)
  conv => rhs; rw [← List.zipIdx_map_fst 0 cards, ← List.map_reverse, List.find?_map]
  rw [getById?, get?_byId]
  exact bind_getElem? cards hm

theorem getByName?_ofCards (name : Text) :
    (ofCards cards).getByName? name = cards.find? fun c => c.fullName == name := by
  have hm : ∀ e ∈ cards.zipIdx.find? fun e => e.1.fullName == name, e ∈ cards.zipIdx :=
    fun e he => List.mem_of_find?_eq_some he
  conv => rhs; rw [← List.zipIdx_map_fst 0 cards, List.find?_map]
  rw [getByName?, places_byName, List.head?_map, List.head?_filter]
  exact bind_getElem? cards hm

/-- No index leads past the cards. -/
theorem lt_of_get?_byId {id : Text} {i : Nat} (h : (ofCards cards).byId.get? id = some i) :
    i < cards.length := by
  rw [get?_byId] at h
  obtain ⟨e, he, rfl⟩ := Option.map_eq_some_iff.1 h
  exact List.snd_lt_of_mem_zipIdx (List.mem_reverse.1 (List.mem_of_find?_eq_some he))

theorem lt_of_mem_places {name : Text} {i : Nat} (h : i ∈ places (ofCards cards).byName name) :
    i < cards.length := by
  rw [places_byName] at h
  obtain ⟨e, he, rfl⟩ := List.mem_map.1 h
  exact List.snd_lt_of_mem_zipIdx (List.mem_filter.1 he).1

end Database

/-! ### Catalogues -/

/-- If the last card under an id is read, its reading counts, whatever was there before. -/
theorem lastReading?_of_find? {options : Options} {cards : List Card} {id : Text} {c : Card}
    {p : Assembly} (earlier : List Card)
    (hc : cards.reverse.find? (fun c => c.id == id) = some c) (hr : c.read options = .ok p) :
    lastReading? options (earlier ++ cards) id = some p := by
  obtain ⟨hid, after, before, he, hafter⟩ := List.find?_eq_some_iff_append.1 hc
  have hnone : after.findSome? (fun c => if c.id = id then (c.read options).toOption else none) =
      none := by
    refine List.findSome?_eq_none_iff.2 fun b hb => if_neg ?_
    simpa using hafter b hb
  rw [lastReading?, List.reverse_append, he, List.append_assoc, List.findSome?_append, hnone,
    List.cons_append, List.findSome?_cons, if_pos (by simpa using hid), hr]
  rfl

/-- **A database and a catalogue of the same cards agree.**  By an id the last card is found and by
a full name the first one, each at a place where there is a card; and if the card found by an id is
read, a catalogue that was given the cards has its abilities under the id. -/
theorem Database.lookup_spec (cards : List Card) :
    let db := ofCards cards
    (∀ id, db.getById? id = cards.reverse.find? fun c => c.id == id) ∧
      (∀ name, db.getByName? name = cards.find? fun c => c.fullName == name) ∧
      (∀ id, ∀ i ∈ db.byId.get? id, i < db.cards.length) ∧
      (∀ name, ∀ i ∈ places db.byName name, i < db.cards.length) ∧
      ∀ (options : Options) (earlier calls : List Catalogue.Call),
        calls.flatMap Catalogue.Call.cards = cards →
          ∀ id c p, db.getById? id = some c → c.read options = .ok p →
            (Catalogue.run options (earlier ++ calls)).abilitiesOf id = p.abilities := by
  intro db
  refine ⟨getById?_ofCards cards, getByName?_ofCards cards, fun id i hi => lt_of_get?_byId cards hi,
    fun name i hi => lt_of_mem_places cards hi, fun options earlier calls hcalls id c p hc hr => ?_⟩
  have hlast := lastReading?_of_find? (earlier.flatMap Catalogue.Call.cards)
    ((getById?_ofCards cards id).symm.trans hc) hr
  rw [Catalogue.abilitiesOf, (Catalogue.shows_run options (earlier ++ calls)).get?_entries,
    List.flatMap_append, hcalls, hlast]
  rfl

/-- Of a card that is printed twice, with a card between that is refused. -/
theorem Database.lookup_spec_reprint :
    let first : Card := { id := "c".toList, name := "n".toList }
    let unnamed : Card := { id := "d".toList }
    let last : Card := { first with fullTextSections := ["Rush".toList] }
    let db := ofCards [first, unnamed, last]
    db.getById? "c".toList = some last ∧ db.getByName? "n".toList = some first ∧
      ∃ a, (Catalogue.run {} [.card first, .batch [unnamed, last]]).abilitiesOf "c".toList = [a] := by
  intro first unnamed last db
  obtain ⟨hid, hname, -, -, habilities⟩ := Database.lookup_spec [first, unnamed, last]
  have hlast : db.getById? "c".toList = some last := (hid _).trans rfl
  let p := Assembly.read last.id (last.context {}) (Segment.ofCard {} last)
  obtain ⟨a, ha⟩ : ∃ a, p.abilities = [a] := List.length_eq_one_iff.1 (by decide +kernel)
  have hrun := habilities {} [] [.card first, .batch [unnamed, last]] rfl _ last p hlast rfl
  exact ⟨hlast, (hname _).trans rfl, a, hrun.trans ha⟩

end CardText
