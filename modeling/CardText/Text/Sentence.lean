import CardText.Text.Basic

/-!
# Sentences

A sentence ends at a period or an exclamation mark that stands outside quotes and in front of a
blank, a quote or the end of the text. `Text.sentences` gives the sentences without their marks.
-/

namespace CardText

namespace Text

/-- A mark that stands in front of `r` can end a sentence. -/
def endsBefore : Text → Bool
  | [] => true
  | c :: _ => isBlank c || c == '"'

/-- The pieces of a text between the marks that end sentences; `quoted` tells whether a quote is
open. -/
def sentencePieces (quoted : Bool) : Text → List Text
  | [] => [[]]
  | c :: r =>
    if c = '"' then (sentencePieces (!quoted) r).modifyHead (c :: ·)
    else if (c = '.' ∨ c = '!') ∧ !quoted ∧ endsBefore r then [] :: sentencePieces quoted r
    else (sentencePieces quoted r).modifyHead (c :: ·)

/-- The sentences of a text, trimmed, blank ones left out. -/
def sentences (t : Text) : List Text :=
  ((sentencePieces false t).map trim).filter fun s => !s.isEmpty

end Text

end CardText
