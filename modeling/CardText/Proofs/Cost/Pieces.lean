import CardText.Cost
import CardText.Proofs.Text.Pieces
import Mathlib.Data.List.Forall2

/-!
# Lists of costs

A text of costs has one cost for each piece of it that is not blank, and the costs of two texts with
a comma between them are those of the one and then those of the other.

* `Cost.IsListing`: the pieces of a text of costs, in the rows that its commas make; nothing but
  separators stands between them (`Cost.IsListing.text_eq`);
* `Cost.isListing_iff`: they are the tokens that are read;
* `Cost.listOfText_spec`: the costs of two texts, and the costs of a text one by one.
-/

namespace CardText

namespace Cost

variable {source : ObjectKind} {t : Text} {rows : List (List Text)}

/-- The text is cut at its commas, and the part in each row at every "and" between spaces. -/
def IsListing (t : Text) (rows : List (List Text)) : Prop :=
  ∃ parts, Text.IsCut [','] t parts ∧ List.Forall₂ (Text.IsCut " and ".toList) parts rows

/-- The pieces in a row that are not blank, without the blanks around them. -/
def printedPieces (rows : List (List Text)) : List Text :=
  (rows.flatten.filter fun p => !p.isVoid).map Text.trim

/-- Between the pieces stand commas and "and"s, and nothing else is left out. -/
theorem IsListing.text_eq (h : IsListing t rows) :
    List.intercalate [','] (rows.map (List.intercalate " and ".toList)) = t := by
  obtain ⟨parts, hparts, hrows⟩ := h
  have hjoined : rows.map (List.intercalate " and ".toList) = parts := by
    clear hparts
    induction hrows with
    | nil => rfl
    | cons hp _ ih => rw [List.map_cons, ih, hp.intercalate_eq]
  rw [hjoined, hparts.intercalate_eq]

/-- Every text has just one list of pieces. -/
theorem isListing_iff : IsListing t rows ↔
    rows = (Text.cut (· == ',') t).map (Text.cutOn " and ".toList (by decide)) := by
  have hrow : Text.IsCut " and ".toList =
      fun p ps => Text.cutOn " and ".toList (by decide) p = ps := by
    funext p ps
    exact propext ((Text.isCut_iff (by decide)).trans eq_comm)
  simp only [IsListing, Text.isCut_singleton_iff, exists_eq_left, hrow]
  rw [← List.forall₂_map_left_iff (R := Eq), List.forall₂_eq_eq_eq, eq_comm]

/-- The costs of a text are those of its pieces. -/
theorem listOfText_eq (source : ObjectKind) (h : IsListing t rows) :
    listOfText source t = (printedPieces rows).map (ofToken source) := by
  have hvoid : ((fun u : Text => !u.isEmpty) ∘ Text.trim) = fun p => !p.isVoid := rfl
  rw [isListing_iff.1 h, listOfText, listOfTokens, tokens, printedPieces, List.filter_map, hvoid,
    List.flatMap_def]

theorem listOfText_append_comma (source : ObjectKind) (s t : Text) :
    listOfText source (s ++ ',' :: t) = listOfText source s ++ listOfText source t := by
  have hcut := Text.cut_append_cons (p := (· == ',')) (c := ',') rfl s t
  simp only [listOfText, listOfTokens, tokens, hcut, List.flatMap_append, List.map_append,
    List.filter_append]

/-- **Lists of costs lose nothing.**  With a comma between two texts their costs stand in a row.
Every text has just one list of pieces, between its commas and "and"s, and nothing else stands in
it.  It has a cost for each of the pieces that is not blank: the cost that this piece, trimmed, is
read as, in the same place. -/
theorem listOfText_spec (source : ObjectKind) :
    (∀ s t, listOfText source (s ++ ',' :: t) = listOfText source s ++ listOfText source t) ∧
      ∀ t, ∃ rows : List (List Text), (∀ rows', IsListing t rows' ↔ rows' = rows) ∧
        List.intercalate [','] (rows.map (List.intercalate " and ".toList)) = t ∧
        (listOfText source t).length = (printedPieces rows).length ∧
        ∀ i : ℕ, (listOfText source t)[i]? = ((printedPieces rows)[i]?).map (ofToken source) := by
  refine ⟨listOfText_append_comma source, fun t => ?_⟩
  obtain ⟨rows, hrows⟩ : ∃ rows, IsListing t rows := ⟨_, isListing_iff.2 rfl⟩
  have hlist := listOfText_eq source hrows
  refine ⟨rows, fun rows' => ?_, hrows.text_eq, ?_, fun i => ?_⟩
  · rw [isListing_iff, isListing_iff.1 hrows]
  · rw [hlist, List.length_map]
  · rw [hlist, List.getElem?_map]

end Cost

end CardText
