import CardText.Text.Basic

/-!
# Typography

Printed text has glyphs for game symbols, curly quotes and several dashes. `Text.normalize` writes
all of them in one plain form.

* `Text.plainForm`: the plain form of one character;
* `Text.capitalizeSymbols`: letters inside braces in upper case, so that a symbol has one
  spelling;
* `Text.normalize`: plain forms, single spaces, capital symbols.
-/

namespace CardText

namespace Text

/-- The dash between a cost and its effect. -/
def dash : Char := '—'

/-- The symbol of an exerted card. -/
def exertSymbol : Text := "\x7bE\x7d".toList

/-- The symbol of ink. -/
def inkSymbol : Text := "\x7bI\x7d".toList

/-- The symbol of strength. -/
def strengthSymbol : Text := "\x7bS\x7d".toList

/-- The symbol of willpower. -/
def willpowerSymbol : Text := "\x7bW\x7d".toList

/-- The symbol of lore. -/
def loreSymbol : Text := "\x7bL\x7d".toList

/-- The plain form of a character: symbols in braces for glyphs, straight quotes, one dash and
one hyphen. -/
def plainForm (c : Char) : Text :=
  match c with
  | '⟳' => exertSymbol
  | '⬡' => inkSymbol
  | '¤' => strengthSymbol
  | '⛉' => willpowerSymbol
  | '◊' => loreSymbol
  | '’' => ['\'']
  | '‘' => ['\'']
  | '“' => ['"']
  | '”' => ['"']
  | '−' => ['-']
  | '–' => [dash]
  | c => [c]

/-- The letters a to z in upper case from an opening brace to the next closing one; `inside` tells
whether a brace is open already. -/
def capitalizeFrom (inside : Bool) : Text → Text
  | [] => []
  | c :: r =>
    if c = '\x7b' then c :: capitalizeFrom true r
    else if c = '\x7d' then c :: capitalizeFrom false r
    else (if inside then c.toUpper else c) :: capitalizeFrom inside r

/-- Symbols in capitals. -/
def capitalizeSymbols (t : Text) : Text := capitalizeFrom false t

/-- The one form in which rules text is read. -/
def normalize (t : Text) : Text := capitalizeSymbols (squeeze (t.flatMap plainForm))

end Text

end CardText
