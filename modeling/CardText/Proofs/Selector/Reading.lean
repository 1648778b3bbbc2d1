import CardText.Proofs.Selector.Printed

/-!
# How core phrases are read

Core phrases are printed phrases with a quantity and without a classification.

* `Core.isSentence_text`, `Core.not_isInfix_text`: what kind of text a core phrase is;
* `Core.ofPhrase_text`: every core phrase is read as what it selects.
-/

namespace CardText

namespace Core

open Selector

/-- The phrase among all printed phrases. -/
def Phrase.printed (p : Phrase) : Printed :=
  { quantity := some p.quantity
    owner := p.owner
    other := p.other
    damaged := p.damaged
    exerted := p.exerted
    noun := p.noun
    plural := p.plural
    limit := p.limit }

theorem text_printed (p : Phrase) : p.printed.text = p.text := rfl

theorem allFrom_vocabulary (p : Phrase) : Text.AllFrom vocabulary p.words := p.printed.allFrom_words

theorem frontWords_ne_nil (p : Phrase) : p.frontWords ≠ [] := p.printed.frontWords_ne_nil

/-- A core phrase is a sentence of its own words. -/
theorem isSentence_text (p : Phrase) : p.text.IsSentence := p.printed.isSentence_text

theorem fold_text (p : Phrase) : p.text.fold = p.text.lowerPlain :=
  p.printed.fold_text.trans (Text.lowerPlain_unwords _).symm

/-- What has no place in the words of core phrases stands in none of them. -/
theorem not_isInfix_text {t : Text} (ht : Text.fits vocabulary t = false) (p : Phrase) :
    ¬ t.lowerPlain <:+: p.text.fold := by
  intro hi
  rw [fold_text] at hi
  have h := allFrom_vocabulary p
  rw [Text.fits_of_isInfix h (h.not_mem_space (by rfl)) hi] at ht
  cases ht

/-- **Core phrases are read as they are printed.**  The selector of a core phrase is the one that
its parts stand for, on whatever card and after whatever was picked before. -/
theorem ofPhrase_text (source : ObjectKind) (antecedent : Option Selector) (p : Phrase) :
    Selector.ofPhrase source antecedent p.text = p.selector := by
  rw [← text_printed, p.printed.ofPhrase_eq_ofWords, p.printed.ofWords_text]
  rfl

end Core

end CardText
