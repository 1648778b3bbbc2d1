import CardText.Proofs.Card.Lines
import CardText.Proofs.Text.Reminder

/-!
# Reminders in a line

A reminder has no part in the reading of a line of loose text.

* `Assembly.withRaw`: a reading as if taken from another text;
* `Classified.ofBody`: the shape of a segment without a hint, by its body alone;
* `Assembly.read_of_body_eq`: two segments with the same body have the same abilities and reports;
* `readLines_reminder`: the reading of a line that has a reminder in it.
-/

namespace CardText

/-! ### The text behind a reading -/

/-- The ability as if read from another text. -/
def Draft.withRaw (raw : Text) (d : Draft) : Draft := { d with rawText := raw }

/-- The ability as if read from another text. -/
def Ability.withRaw (raw : Text) (a : Ability) : Ability := { a with rawText := raw }

/-- The report as if it were on another text. -/
def Diagnostic.withRaw (raw : Text) (x : Diagnostic) : Diagnostic := { x with rawText := raw }

namespace Assembly

/-- The reading as if taken from another text. -/
def withRaw (raw : Text) (p : Assembly) : Assembly :=
  ⟨p.abilities.map (Ability.withRaw raw), p.diagnostics.map (Diagnostic.withRaw raw)⟩

theorem abilitiesOf_withRaw (cardId : Text) (n : Nat) (raw : Text) (ds : List Draft) :
    abilitiesOf cardId n (ds.map (Draft.withRaw raw)) =
      (abilitiesOf cardId n ds).map (Ability.withRaw raw) :=
  abilitiesOf_map (f := Draft.withRaw raw) (fun _ => rfl) (fun _ _ _ => rfl) ds

theorem diagnose_withRaw (cardId : Text) (n : Nat) (raw : Text) (flagged : Bool)
    (ds : List Draft) : diagnose cardId n flagged (ds.map (Draft.withRaw raw)) =
      (diagnose cardId n flagged ds).map (Diagnostic.withRaw raw) :=
  diagnose_map (f := Draft.withRaw raw) (fun _ => rfl) (fun _ _ => rfl) flagged ds

end Assembly

namespace Draft

theorem ofKeyword_withRaw (source : ObjectKind) (e : Keyword.Entry) (raw raw' : Text) :
    (ofKeyword source e raw).withRaw raw' = ofKeyword source e raw' := by
  rw [ofKeyword, ofKeyword]
  split <;> rfl

/-- The text that a segment came as is only kept. -/
theorem ofClassified_withRaw (ctx : Context) (raw raw' : Text) (c : Classified) :
    (ofClassified ctx raw c).map (withRaw raw') = ofClassified ctx raw' c := by
  rw [ofClassified, ofClassified]
  split
  · rw [List.map_map]
    refine List.map_congr_left fun e _ => ?_
    exact congrArg (fun d : Draft => { d with name := c.name }) (ofKeyword_withRaw ..)
  · rfl
  · rw [List.map_map]
    rfl
  · rfl
  · rfl

end Draft

/-! ### Segments with the same body -/

namespace Keyword

/-- The entries of a keyword line by its body alone, without its reminder. -/
def entriesOfBody? (body : Text) : Option (List Entry) :=
  if (body.trimEnd (· == '.')).isEmpty then none
  else ((Text.cut (· == ',') (body.trimEnd (· == '.'))).map Text.trim).mapM entry?

theorem entries?_eq (t : Text) :
    entries? t = (entriesOfBody? t.body).map (remindLast t.stripReminders.reminders.head?) := by
  rw [entries?, entriesOfBody?, Text.body]
  split_ifs <;> rfl

/-- A reminder has no part in the ability of a keyword. -/
theorem map_ofKeyword_remindLast (source : ObjectKind) (raw : Text) (reminder : Option Text)
    (es : List Entry) : (remindLast reminder es).map (Draft.ofKeyword source · raw) =
      es.map (Draft.ofKeyword source · raw) := by
  fun_induction remindLast reminder es with
  | case1 => rfl
  | case2 e =>
    obtain ⟨keyword, _, _, _⟩ := e
    cases keyword <;> rfl
  | case3 e es _ ih => rw [List.map_cons, ih, List.map_cons]

end Keyword

/-- The shape of a segment without a hint, by its body alone. -/
def Classified.ofBody (ctx : Context) (body : Text) : Classified :=
  match Keyword.entriesOfBody? body with
  | some entries => ⟨none, body, .keyword entries⟩
  | none => ⟨body.stripLabel.1, body.stripLabel.2, Shape.ofBody ctx body.stripLabel.2⟩

/-- Of the text of a segment without a hint only the body counts. -/
theorem Draft.ofSegment_eq_ofBody (ctx : Context) {s : Segment} (h : s.hint = none) :
    ofSegment ctx s = ofClassified ctx s.raw (Classified.ofBody ctx s.text.body) := by
  simp only [ofSegment, Classified.ofSegment, h, Classified.ofText, Classified.ofBody,
    Keyword.entries?_eq]
  cases Keyword.entriesOfBody? s.text.body with
  | none => rfl
  | some entries =>
    -- the reminder next to the last entry is all that the body does not tell
    have hk := congrArg (List.map fun d : Draft => { d with name := none })
      (Keyword.map_ofKeyword_remindLast ctx.source s.raw s.text.stripReminders.reminders.head?
        entries)
    rw [List.map_map, List.map_map] at hk
    exact hk

/-- Two segments at one place with the same body have the same abilities and reports, but for the
text that they keep. -/
theorem Assembly.read_of_body_eq (cardId : Text) (ctx : Context) {s s' : Segment}
    (hs : s.hint = none) (hs' : s'.hint = none) (hi : s.index = s'.index)
    (hb : s.text.body = s'.text.body) :
    read cardId ctx [s] = (read cardId ctx [s']).withRaw s.raw := by
  have hd : Draft.ofSegment ctx s = (Draft.ofSegment ctx s').map (Draft.withRaw s.raw) := by
    rw [Draft.ofSegment_eq_ofBody ctx hs, Draft.ofSegment_eq_ofBody ctx hs', hb,
      Draft.ofClassified_withRaw]
  simp only [read, ofSegments, List.map_cons, List.map_nil, List.flatMap_singleton, withRaw, hi, hd,
    abilitiesOf_withRaw, diagnose_withRaw]

/-! ### Lines with a reminder -/

theorem Segment.ofLines_eq_singleton {t : Text} (h : '\n' ∉ t) (hv : t.isVoid = false) :
    ofLines t = [⟨0, t.trim, t.trim.normalize, none⟩] := by
  rw [ofLines, Text.lines_eq_singleton h hv]
  rfl

/-- **Reminders have no part in a reading.**  A line with a matched text in parentheses is read as
the line without it, and only keeps its own text, where all parentheses and braces in front are
closed. -/
theorem readLines_reminder {s r u : Text} (hp : s.IsClosed '(' ')') (hb : s.IsClosed '\x7b' '\x7d')
    (hr : r.IsMatched '(' ')') (hrb : r.IsMatched '\x7b' '\x7d') (hs : '\n' ∉ s) (hrn : '\n' ∉ r)
    (hu : '\n' ∉ u) (hv : Text.isVoid (s ++ ' ' :: u) = false) (options : Options)
    (cardType : CardType) (cardId : Text) :
    readLines options cardType cardId (s ++ ' ' :: '(' :: (r ++ ')' :: ' ' :: u)) =
      (readLines options cardType cardId (s ++ ' ' :: u)).withRaw
        (Text.trim (s ++ ' ' :: '(' :: (r ++ ')' :: ' ' :: u))) := by
  have hn : '\n' ∉ s ++ ' ' :: '(' :: (r ++ ')' :: ' ' :: u) := by simp [hs, hrn, hu]
  have hn' : '\n' ∉ s ++ ' ' :: u := by simp [hs, hu]
  have hvl : Text.isVoid (s ++ ' ' :: '(' :: (r ++ ')' :: ' ' :: u)) = false :=
    Text.isVoid_eq_false (c := '(') (by simp) (by decide)
  rw [readLines, readLines, Segment.ofLines_eq_singleton hn hvl,
    Segment.ofLines_eq_singleton hn' hv]
  refine Assembly.read_of_body_eq _ _ rfl rfl rfl ?_
  rw [Text.normalize_trim, Text.normalize_trim]
  exact Text.body_normalize_reminder hp hb hr hrb u

/-- A reminder with parentheses, a symbol and quotes in it, behind a cost and its effect. -/
theorem readLines_reminder_exert :
    let s : Text := "\x7bE\x7d, 1 \x7bI\x7d — Draw a card.".toList
    let r : Text := "Ready it (then \"pay \x7be\x7d\"), when you may".toList
    let u : Text := "Banish chosen item.".toList
    readLines {} .item "c".toList (s ++ ' ' :: '(' :: (r ++ ')' :: ' ' :: u)) =
      (readLines {} .item "c".toList (s ++ ' ' :: u)).withRaw
        (Text.trim (s ++ ' ' :: '(' :: (r ++ ')' :: ' ' :: u))) ∧
      (readLines {} .item "c".toList (s ++ ' ' :: u)).abilities.length = 1 := by
  intro s r u
  exact ⟨readLines_reminder (by decide) (by decide) (by decide) (by decide) (by decide) (by decide)
    (by decide) (by decide) {} .item "c".toList, by decide +kernel⟩

end CardText
