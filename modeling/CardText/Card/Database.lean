import CardText.Card.Basic
import CardText.Table

/-!
# Card database

Cards with two indexes: by their full name and by their id.

* `Database.ofCards`: the indexes of a list of cards;
* `Database.getByName?`: the first card of a name;
* `Database.getById?`: the last card of an id.
-/

namespace CardText

/-- Cards with their indexes. -/
structure Database where
  cards : List Card := []
  /-- The places of the cards by full name, in order. -/
  byName : Table (List Nat) := []
  /-- The place of the last card by id. -/
  byId : Table Nat := []
  deriving Repr

namespace Database

/-- The places under a name. -/
def places (es : Table (List Nat)) (name : Text) : List Nat := (es.get? name).getD []

/-- Adds a place to those under a name. -/
def addPlace (es : Table (List Nat)) (name : Text) (i : Nat) : Table (List Nat) :=
  es.put name (places es name ++ [i])

/-- The database of a list of cards. -/
def ofCards (cards : List Card) : Database :=
  { cards
    byName := cards.zipIdx.foldl (fun es e => addPlace es e.1.fullName e.2) []
    byId := cards.zipIdx.foldl (fun es e => es.put e.1.id e.2) [] }

/-- The last card with an id. -/
def getById? (db : Database) (id : Text) : Option Card :=
  (db.byId.get? id).bind fun i => db.cards[i]?

/-- The first card with a full name. -/
def getByName? (db : Database) (name : Text) : Option Card :=
  (places db.byName name).head?.bind fun i => db.cards[i]?

/-- The cards without rules text. -/
def vanilla (db : Database) : List Card := db.cards.filter Card.isVanilla

end Database

end CardText
