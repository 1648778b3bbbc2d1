import CardText.Text.Letter

/-!
# Ability names

The name of an ability is printed in capitals in front of its text: "MAGIC MIRROR Draw a card."

* `Text.isLabelWord`: a word in capitals;
* `Text.stripLabel`: the leading words in capitals and the rest, where both are there.
-/

namespace CardText

namespace Text

/-- A word printed in capitals: it has letters, all of them upper case, no digit, and is no
symbol in braces. -/
def isLabelWord (w : Text) : Bool :=
  let letters := w.filter isLetter
  w.head? != some '\x7b' && !w.any Char.isDigit && !letters.isEmpty && letters.all isUpper

/-- A single capital that more likely opens the sentence ("A character …", "I …"). -/
def isLoneCapital (w : Text) : Bool := w == ['A'] || w == ['I']

/-- A word of at least two letters. -/
def isLongWord (w : Text) : Bool := 2 ≤ (w.filter isLetter).length

/-- The words of a name: of the leading words in capitals all but the last ones that are a lone
capital, where the first word always stays. -/
def labelWords (ws : List Text) : List Text :=
  match ws.takeWhile isLabelWord with
  | [] => []
  | w :: more => w :: (more.reverse.dropWhile isLoneCapital).reverse

/-- The name in front of a text and the text behind it. There is no name without a long word, and
none where nothing would be left behind it. -/
def stripLabel (t : Text) : Option Text × Text :=
  let ws := t.words
  let label := labelWords ws
  let rest := ws.drop label.length
  if label.any isLongWord && !rest.isEmpty then (some (unwords label), unwords rest)
  else (none, t.trim)

end Text

end CardText
