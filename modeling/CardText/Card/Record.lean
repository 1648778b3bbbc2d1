import CardText.Card.Basic
import CardText.Json.Reader

/-!
# Card records

Collections of cards are JSON texts. A record is an object with named fields, or an array with the
fields in a fixed order; a field that is missing or null has no value, and unknown fields do not
matter. A field of the wrong type makes the whole collection unreadable.

* `Json.Members.ofRecord?`: a record as named fields;
* `Hint.ofRecord?`, `Card.ofRecord?`, `Options.ofRecord?`: the readings of records;
* `Card.loadValue`, `Card.load`, `Card.loadFile`: the cards of a value, a text and a file.
-/

namespace CardText

/-- What keeps a collection of cards from being read. -/
inductive LoadError where
  /-- The text is no JSON. -/
  | json (fault : Json.Fault)
  /-- A value does not fit where it stands. -/
  | mismatch
  /-- There is no file, or it holds no text. -/
  | unreadable
  deriving Repr, DecidableEq

namespace Json

/-! ### Fields -/

/-- The fields of a record, where an array gives them in the order of `names`. -/
def Members.ofRecord? (names : List String) : Value → Option Members
  | .object members => some members
  | .array items =>
    if items.length ≤ names.length then some ((names.map String.toList).zip items) else none
  | _ => none

/-- The value of a field that may be missing or null: `none` if it is of the wrong type. -/
def Members.field? {α : Type} (ms : Members) (name : String) (read : Value → Option α) :
    Option (Option α) :=
  match ms.get? name.toList with
  | none => some none
  | some .null => some none
  | some v => (read v).map some

namespace Value

/-- A text. -/
def text? : Value → Option Text
  | .text t => some t
  | _ => none

/-- A truth value. -/
def bool? : Value → Option Bool
  | .bool b => some b
  | _ => none

/-- A count of 32 bits. -/
def natural? : Value → Option Nat
  | .integer n => if 0 ≤ n ∧ n < Text.naturalBound then some n.toNat else none
  | _ => none

/-- A signed number of 32 bits. -/
def integer? : Value → Option Int
  | .integer n => if -Text.integerBound ≤ n ∧ n < Text.integerBound then some n else none
  | _ => none

/-- The items of an array. -/
def items? : Value → Option (List Value)
  | .array items => some items
  | _ => none

/-- An array of texts. -/
def texts? (v : Value) : Option (List Text) := v.items?.bind fun items => items.mapM text?

end Value

end Json

open Json

/-! ### Hints -/

/-- The fields of a hint, in their order. -/
def Hint.fieldNames : List String :=
  ["type", "name", "keyword", "keywordValue", "keywordValueNumber", "reminderText", "effect",
   "costs", "costsText", "fullText"]

/-- The hint of a record. A blank name counts as none. -/
def Hint.ofRecord? (v : Value) : Option Hint := do
  let ms ← Members.ofRecord? fieldNames v
  let hintType ← ms.field? "type" Value.text?
  let name ← ms.field? "name" Value.text?
  let keyword ← ms.field? "keyword" Value.text?
  let keywordValue ← ms.field? "keywordValue" Value.text?
  let keywordValueNumber ← ms.field? "keywordValueNumber" Value.integer?
  let reminderText ← ms.field? "reminderText" Value.text?
  let effect ← ms.field? "effect" Value.text?
  let costs ← ms.field? "costs" Value.texts?
  let costsText ← ms.field? "costsText" Value.text?
  let fullText ← ms.field? "fullText" Value.text?
  return {
    hintType := hintType.bind HintType.ofText?
    name := name.filter fun n => !n.isVoid
    keyword
    keywordValue
    keywordValueNumber
    reminderText
    effect
    costs := costs.getD []
    costsText
    fullText := fullText.getD [] }

/-! ### Cards -/

namespace Card

/-- The fields of a card, in their order. -/
def fieldNames : List String :=
  ["id", "name", "version", "type", "cost", "color", "inkwell", "strength", "willpower", "lore",
   "moveCost", "subtypes", "fullTextSections", "effects", "fullText", "abilities"]

/-- The id that a value stands for: a text that is not blank, or a number as it is written. -/
def idOf : Value → Text
  | .text t => t.trim
  | .integer n => Text.ofInt n
  | .float x => Json.floatText x
  | _ => []

/-- The effect text that a value stands for: a text, or an object that has one. -/
def effectOf? : Value → Option Text
  | .text t => some t
  | .object ms =>
    ((Table.get? ms "fullText".toList).or (Table.get? ms "effect".toList)).bind Value.text?
  | _ => none

/-- The card of a record. -/
def ofRecord? (v : Value) : Option Card := do
  let ms ← Members.ofRecord? fieldNames v
  let name ← ms.field? "name" Value.text?
  let version ← ms.field? "version" Value.text?
  let cardType ← ms.field? "type" Value.text?
  let cost ← ms.field? "cost" Value.natural?
  let color ← ms.field? "color" Value.text?
  let inkwell ← ms.field? "inkwell" Value.bool?
  let strength ← ms.field? "strength" Value.natural?
  let willpower ← ms.field? "willpower" Value.natural?
  let lore ← ms.field? "lore" Value.natural?
  let moveCost ← ms.field? "moveCost" Value.natural?
  let subtypes ← ms.field? "subtypes" Value.texts?
  let fullTextSections ← ms.field? "fullTextSections" Value.texts?
  let effects ← ms.field? "effects" Value.items?
  let fullText ← ms.field? "fullText" Value.text?
  let abilities ← ms.field? "abilities" fun v => v.items?.bind fun hs => hs.mapM Hint.ofRecord?
  return {
    id := ((ms.get? "id".toList).map idOf).getD []
    name := name.getD []
    version
    cardType := (cardType.map CardType.ofText).getD .character
    cost := cost.getD 0
    color := color.bind InkColor.ofText?
    inkwell := inkwell.getD false
    strength
    willpower
    lore
    moveCost
    subtypes := subtypes.getD []
    fullTextSections := fullTextSections.getD []
    effects := (effects.getD []).filterMap effectOf?
    fullText
    abilities := abilities.getD [] }

/-- The value that holds the cards: an object keeps them in its member "cards", and has none
without it. -/
def collection : Value → Value
  | .object ms => (Table.get? ms "cards".toList).getD (.array [])
  | v => v

/-- The cards of a value. -/
def loadValue (v : Value) : Except LoadError (List Card) :=
  match (collection v).items?.bind fun items => items.mapM ofRecord? with
  | some cards => .ok cards
  | none => .error .mismatch

/-- The cards of a JSON text. -/
def load (t : Text) : Except LoadError (List Card) :=
  match Json.read t with
  | .ok v => loadValue v
  | .error e => .error (.json e)

/-- The cards of a file with these bytes; `none` stands for no file. -/
def loadFile (bytes : Option ByteArray) : Except LoadError (List Card) :=
  match bytes.bind String.fromUTF8? with
  | some s => load s.toList
  | none => .error .unreadable

end Card

/-! ### Options -/

namespace Options

/-- The fields of options, in their order. -/
def fieldNames : List String := ["use_hints", "strict", "split_compound_triggers"]

/-- A field of options: the usual value if it is missing, and `none` if it is no truth value. -/
def flag? (ms : Members) (name : String) (usual : Bool) : Option Bool :=
  match ms.get? name.toList with
  | none => some usual
  | some v => v.bool?

/-- The options of a record. -/
def ofRecord? (v : Value) : Option Options := do
  let ms ← Members.ofRecord? fieldNames v
  let usual : Options := {}
  let useHints ← flag? ms "use_hints" usual.useHints
  let strict ← flag? ms "strict" usual.strict
  let splitCompoundTriggers ← flag? ms "split_compound_triggers" usual.splitCompoundTriggers
  return { useHints, strict, splitCompoundTriggers }

end Options

end CardText
