import CardText.Text.Letter
import CardText.Text.Typography

/-!
# Paragraphs

Flat rules text is wrapped into lines. `Text.paragraphs` joins the lines that belong together.
-/

namespace CardText

namespace Text

/-- A text that ends in a comma, a dash or a hyphen goes on in the next line. -/
def isOpenEnded (t : Text) : Bool :=
  match t.getLast? with
  | some c => c == ',' || c == dash || c == '-'
  | none => false

/-- `line` goes on with the paragraph `before`: the paragraph is not at its end, or the line begins
in lower case. -/
def continues (before line : Text) : Bool :=
  isOpenEnded before || (match line.head? with
    | some c => isLower c
    | none => false)

/-- The paragraphs of the lines that follow an unfinished one. -/
def joinLines (current : Text) : List Text → List Text
  | [] => [current]
  | line :: rest =>
    if continues current line then joinLines (current ++ ' ' :: line) rest
    else current :: joinLines line rest

/-- The paragraphs of a flat text, each in one line. -/
def paragraphs (t : Text) : List Text :=
  match t.lines with
  | [] => []
  | line :: rest => joinLines line rest

end Text

end CardText
