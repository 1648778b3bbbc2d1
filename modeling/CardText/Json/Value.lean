import CardText.Table

/-!
# JSON values

The data format of card collections. A number is whole and fits 64 bits, or else it is a
floating-point number. Of members with the same name the last one counts.
-/

namespace CardText

namespace Json

/-- A JSON value. -/
inductive Value where
  | null
  | bool (b : Bool)
  | integer (n : Int)
  | float (x : Float)
  | text (t : Text)
  | array (items : List Value)
  | object (members : List (Text × Value))
  deriving Repr

/-- The members of an object by name. -/
abbrev Members := Table Value

/-- The first fault of a JSON text. -/
inductive Fault where
  /-- The text is no JSON. -/
  | malformed
  /-- The text ends too early. -/
  | truncated
  deriving Repr, DecidableEq

end Json

end CardText
