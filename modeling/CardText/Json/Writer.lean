import CardText.Json.Number

/-!
# Writing JSON

`Json.write` writes a value as JSON without blanks. Quotes, backslashes and control characters are
escaped, and all other characters stand for themselves.
-/

namespace CardText

namespace Json

/-- The hexadecimal digit of a number below 16. -/
def hexDigit (n : Nat) : Char := Nat.digitChar n

/-- A character inside quotes. -/
def escaped (c : Char) : Text :=
  if c = '"' then ['\\', '"']
  else if c = '\\' then ['\\', '\\']
  else if c.toNat < 0x20 then
    ['\\', 'u', '0', '0', hexDigit (c.toNat / 16), hexDigit (c.toNat % 16)]
  else [c]

/-- A quoted text. -/
def quote (t : Text) : Text := '"' :: (t.flatMap escaped ++ ['"'])

mutual

/-- A value in front of `rest`. -/
def writeValue : Value → Text → Text
  | .null, rest => "null".toList ++ rest
  | .bool b, rest => (if b then "true" else "false").toList ++ rest
  | .integer n, rest => Text.ofInt n ++ rest
  | .float x, rest => floatText x ++ rest
  | .text t, rest => quote t ++ rest
  | .array items, rest => '[' :: writeItems items (']' :: rest)
  | .object members, rest => '\x7b' :: writeMembers members ('\x7d' :: rest)

/-- Items with commas between them in front of `rest`. -/
def writeItems : List Value → Text → Text
  | [], rest => rest
  | [v], rest => writeValue v rest
  | v :: w :: vs, rest => writeValue v (',' :: writeItems (w :: vs) rest)

/-- Members with commas between them in front of `rest`. -/
def writeMembers : List (Text × Value) → Text → Text
  | [], rest => rest
  | [(name, v)], rest => quote name ++ ':' :: writeValue v rest
  | (name, v) :: m :: ms, rest =>
    quote name ++ ':' :: writeValue v (',' :: writeMembers (m :: ms) rest)

end

/-- A value as JSON. -/
def write (v : Value) : Text := writeValue v []

end Json

end CardText
