import CardText.Proofs.Ability.Accounting
import CardText.Proofs.Ability.Identity

/-!
# Loose text line by line

Each line of loose text is read on its own, and as if it were printed on a card.

* `Text.lines_append_cons`, `Text.lines_unlines`: the lines of texts, one below the other;
* `Ability.advance`, `Assembly.advance`: an ability, or a reading, that stands some segments further
  on; only its number in ids and reports changes;
* `Assembly.read_append`, `Assembly.read_advance`: no segment has a part in the reading of another;
* `readLines_append`: the reading of two texts, one below the other;
* `length_lines_le_of_readLines_eq`: a reading tells how many lines there were;
* `Card.read_printed`: the reading of a card with printed lines.
-/

namespace CardText

/-! ### Lines -/

namespace Text

/-- The lines of two texts, one below the other. -/
theorem lines_append_cons (t u : Text) : lines (t ++ '\n' :: u) = t.lines ++ u.lines := by
  rw [lines, cut_append_cons (by decide), List.map_append, List.filter_append]
  rfl

theorem lines_eq_singleton {t : Text} (h : '\n' ∉ t) (hv : t.isVoid = false) :
    t.lines = [t.trim] := by
  have hc : cut (· == '\n') t = [t] := cut_eq_singleton fun c hc =>
    beq_eq_false_iff_ne.2 fun he => h (he ▸ hc)
  have hne : t.trim ≠ [] := by simpa [isVoid] using hv
  simp [lines, hc, hne]

/-- A line of text: not empty, with no line end in it and no blank at either end. -/
structure IsLine (l : Text) : Prop where
  ne_nil : l ≠ []
  noEnd : '\n' ∉ l
  trim_eq : l.trim = l

theorem IsLine.isVoid_eq {l : Text} (h : IsLine l) : l.isVoid = false := by
  rw [isVoid, h.trim_eq]
  simpa using h.ne_nil

theorem IsLine.lines_eq {l : Text} (h : IsLine l) : l.lines = [l] := by
  rw [lines_eq_singleton h.noEnd h.isVoid_eq, h.trim_eq]

/-- Lines, one below the other. -/
def unlines (ls : List Text) : Text := List.intercalate ['\n'] ls

/-- Lines are found again. -/
theorem lines_unlines {ls : List Text} (h : ∀ l ∈ ls, IsLine l) : (unlines ls).lines = ls := by
  induction ls with
  | nil => rfl
  | cons l ls ih =>
    have hl := (h l (by simp)).lines_eq
    cases ls with
    | nil => simpa [unlines] using hl
    | cons l' ls =>
      have hu : unlines (l :: l' :: ls) = l ++ '\n' :: unlines (l' :: ls) := by simp [unlines]
      rw [hu, lines_append_cons, hl, ih fun x hx => h x (List.mem_cons_of_mem _ hx)]
      rfl

end Text

/-! ### Further places -/

theorem Text.drop_append_cons (s : Text) (c : Char) (t : Text) :
    (s ++ c :: t).drop (s.length + 1) = t := by simp

/-- The ability with its segment `k` places further on: the number behind the id of its card goes up
by `k`. -/
def Ability.advance (k : Nat) (a : Ability) : Ability :=
  { a with id := a.cardId ++ '-' :: Text.addToNumber k (a.id.drop (a.cardId.length + 1)) }

/-- The report with its segment `k` places further on. -/
def Diagnostic.advance (k : Nat) (x : Diagnostic) : Diagnostic :=
  { x with segment := x.segment + k }

/-- The segment `k` places further on. -/
def Segment.advance (k : Nat) (s : Segment) : Segment := { s with index := s.index + k }

namespace Ability

/-- Only the number of the segment goes up in an id. -/
theorem advance_toAbility (k : Nat) (d : Draft) (cardId : Text) (n i count : Nat) :
    (d.toAbility (makeId cardId n i count) cardId).advance k =
      d.toAbility (makeId cardId (n + k) i count) cardId := by
  have hid : ∀ m, makeId cardId m i count = cardId ++ '-' :: (Text.ofNat m ++
      if 1 < count then '-' :: Text.ofNat (i + 1) else []) := by
    intro m
    rw [makeId]
    split_ifs <;> simp
  -- behind the number of the segment stands nothing, or a hyphen and a further number
  have hend : (if 1 < count then '-' :: Text.ofNat (i + 1) else []).head?.any Char.isDigit =
      false := by split_ifs <;> rfl
  change d.toAbility (cardId ++
    '-' :: Text.addToNumber k ((makeId cardId n i count).drop (cardId.length + 1))) cardId = _
  rw [hid, Text.drop_append_cons, Text.addToNumber_ofNat_append hend, ← hid]

theorem advance_advance (j k : Nat) (a : Ability) :
    (a.advance j).advance k = a.advance (j + k) := by
  simp only [advance, Text.drop_append_cons, Text.addToNumber_addToNumber]

end Ability

theorem Diagnostic.advance_advance (j k : Nat) (x : Diagnostic) :
    (x.advance j).advance k = x.advance (j + k) := by
  simp only [advance, Nat.add_assoc]

/-! ### Readings -/

namespace Assembly

/-- One reading behind the other. -/
def append (p q : Assembly) : Assembly :=
  ⟨p.abilities ++ q.abilities, p.diagnostics ++ q.diagnostics⟩

/-- The reading with its segments `k` places further on. -/
def advance (k : Nat) (p : Assembly) : Assembly :=
  ⟨p.abilities.map (Ability.advance k), p.diagnostics.map (Diagnostic.advance k)⟩

theorem advance_append (k : Nat) (p q : Assembly) :
    (p.append q).advance k = (p.advance k).append (q.advance k) := by
  simp only [advance, append, List.map_append]

theorem advance_advance (j k : Nat) (p : Assembly) :
    (p.advance j).advance k = p.advance (j + k) := by
  simp only [advance, List.map_map, Function.comp_def, Ability.advance_advance,
    Diagnostic.advance_advance]

theorem abilitiesOf_advance (cardId : Text) (n k : Nat) (ds : List Draft) :
    abilitiesOf cardId (n + k) ds = (abilitiesOf cardId n ds).map (Ability.advance k) := by
  have h : abilitiesOf cardId (n + k) (ds.map id) =
      (abilitiesOf cardId n ds).map (Ability.advance k) :=
    abilitiesOf_map (fun _ => rfl)
      (fun d i count => Ability.advance_toAbility k d cardId n i count) ds
  rwa [List.map_id] at h

theorem diagnose_advance (cardId : Text) (n k : Nat) (flagged : Bool) (ds : List Draft) :
    diagnose cardId (n + k) flagged ds =
      (diagnose cardId n flagged ds).map (Diagnostic.advance k) := by
  have h : diagnose cardId (n + k) flagged (ds.map id) =
      (diagnose cardId n flagged ds).map (Diagnostic.advance k) :=
    diagnose_map (fun _ => rfl) (fun _ _ => rfl) flagged ds
  rwa [List.map_id] at h

/-- Segments are read one by one. -/
theorem read_append (cardId : Text) (ctx : Context) (ss ss' : List Segment) :
    read cardId ctx (ss ++ ss') = (read cardId ctx ss).append (read cardId ctx ss') := by
  simp only [read, ofSegments, append, List.map_append, List.flatMap_append]

/-- The place of a segment has no part in its abilities, but for their ids. -/
theorem read_advance (cardId : Text) (ctx : Context) (k : Nat) (ss : List Segment) :
    read cardId ctx (ss.map (Segment.advance k)) = (read cardId ctx ss).advance k := by
  have ha : ∀ s : Segment, abilitiesOf cardId (s.advance k).index
      (Draft.ofSegment ctx (s.advance k)) =
        (abilitiesOf cardId s.index (Draft.ofSegment ctx s)).map (Ability.advance k) :=
    fun s => abilitiesOf_advance cardId s.index k _
  have hd : ∀ s : Segment, diagnose cardId (s.advance k).index false
      (Draft.ofSegment ctx (s.advance k)) =
        (diagnose cardId s.index false (Draft.ofSegment ctx s)).map (Diagnostic.advance k) :=
    fun s => diagnose_advance cardId s.index k false _
  simp only [read, ofSegments, advance, List.flatMap_map, List.map_flatMap, ha, hd]

end Assembly

namespace Segment

theorem number_append (ts us : List (Text × Option Hint)) :
    number (ts ++ us) = number ts ++ (number us).map (advance ts.length) := by
  have hz : us.zipIdx (0 + ts.length) = us.zipIdx.map (Prod.map id (· + ts.length)) := by
    rw [List.map_snd_add_zipIdx_eq_zipIdx, Nat.add_comm]
  simp only [number, List.zipIdx_append, List.map_append, hz, List.map_map]
  rfl

theorem ofLines_append (t u : Text) :
    ofLines (t ++ '\n' :: u) = ofLines t ++ (ofLines u).map (advance t.lines.length) := by
  rw [ofLines, Text.lines_append_cons, List.map_append, number_append, List.length_map]
  rfl

end Segment

/-- **Lines are read independently.**  The reading of two texts, one below the other, is the one
behind the other, with the second as many places further on as the first text has lines.  So
whatever stands in a line between two texts, it has no part in their readings but for the places. -/
theorem readLines_append (options : Options) (cardType : CardType) (cardId : Text) :
    (∀ t u : Text, readLines options cardType cardId (t ++ '\n' :: u) =
      (readLines options cardType cardId t).append
        ((readLines options cardType cardId u).advance t.lines.length)) ∧
    ∀ t l u : Text, readLines options cardType cardId (t ++ '\n' :: (l ++ '\n' :: u)) =
      (readLines options cardType cardId t).append
        (((readLines options cardType cardId l).advance t.lines.length).append
          ((readLines options cardType cardId u).advance (t.lines.length + l.lines.length))) := by
  have h : ∀ t u : Text, readLines options cardType cardId (t ++ '\n' :: u) =
      (readLines options cardType cardId t).append
        ((readLines options cardType cardId u).advance t.lines.length) := by
    intro t u
    rw [readLines, Segment.ofLines_append, Assembly.read_append, Assembly.read_advance]
    rfl
  refine ⟨h, fun t l u => ?_⟩
  rw [h, h, Assembly.advance_append, Assembly.advance_advance, Nat.add_comm l.lines.length]

/-! ### Printed lines -/

namespace Segment

theorem exists_mem_number_iff {ts : List (Text × Option Hint)} {i : Nat} :
    (∃ s ∈ number ts, s.index = i) ↔ i < ts.length := by
  rw [← List.mem_map, map_index_number, List.mem_range'_1]
  simp

theorem hint_eq_none_of_mem_ofLines {t : Text} {s : Segment} (h : s ∈ ofLines t) :
    s.hint = none := by
  obtain ⟨_, -, he⟩ := List.mem_map.1 (mem_number h).1
  exact (Prod.mk.inj he).2.symm

end Segment

/-- A reading tells how many lines there were: each of them has an ability or a report. -/
theorem length_lines_le_of_readLines_eq {options : Options} {cardType : CardType}
    {cardId t u : Text}
    (h : readLines options cardType cardId t = readLines options cardType cardId u) :
    t.lines.length ≤ u.lines.length := by
  have key : ∀ {n : Nat}, (∃ s ∈ Segment.ofLines u, s.index = n) → n < u.lines.length := by
    intro n hn
    simpa using Segment.exists_mem_number_iff.1 hn
  by_contra hlt
  -- the place behind the last line of `u` is that of a line of `t`
  obtain ⟨s, hs, hi⟩ : ∃ s ∈ Segment.ofLines t, s.index = u.lines.length :=
    Segment.exists_mem_number_iff.2 (by simpa using hlt)
  have hd : Draft.ofSegment ⟨cardType.objectKind, options⟩ s ≠ [] := by
    rw [ne_eq, Draft.ofSegment_eq_nil_iff]
    rintro ⟨_, hh, -⟩
    rw [Segment.hint_eq_none_of_mem_ofLines hs] at hh
    cases hh
  rw [readLines, readLines] at h
  rcases @Assembly.accounts_of_draft cardId _ _ _ hs hd with ⟨a, ha, hid⟩ | ⟨x, hx, hid⟩
  · rw [h] at ha
    obtain ⟨s', hs', d, i, -, -, rfl⟩ := Assembly.mem_abilities_read.1 ha
    have hn := (Ability.makeId_inj hid).1
    exact absurd (key ⟨s', hs', hn.trans hi⟩) (Nat.lt_irrefl _)
  · rw [h] at hx
    obtain ⟨s', hs', hn, -⟩ := Assembly.mem_diagnostics_read hx
    exact absurd (key ⟨s', hs', (hn.symm.trans hid).trans hi⟩) (Nat.lt_irrefl _)

/-- A card with an id and a name whose rules text is printed in lines and given in no other form. -/
structure Card.IsPrinted (c : Card) (ls : List Text) : Prop where
  id : c.id.isVoid = false
  name : c.name.isVoid = false
  sections : c.fullTextSections = ls
  effects : c.effects = []
  fullText : c.fullText = none
  abilities : c.abilities = []
  line : ∀ l ∈ ls, l.IsLine

namespace Card.IsPrinted

variable {c : Card} {ls : List Text}

theorem problem?_eq (h : c.IsPrinted ls) : c.problem? = none := by
  simp [Card.problem?, h.id, h.name]

theorem sources_eq (h : c.IsPrinted ls) (options : Options) :
    Segment.sources options c = ls.map fun l => (l, none) := by
  cases ls with
  | nil => simp [Segment.sources, h.sections, h.effects, h.fullText, h.abilities]
  | cons l ls => simp [Segment.sources, h.sections, h.abilities, (h.line l (by simp)).isVoid_eq]

/-- The segments of a card are those of its lines that have a body. -/
theorem ofCard_eq (h : c.IsPrinted ls) (options : Options) : Segment.ofCard options c =
    Segment.ofLines (Text.unlines (ls.filter fun l => Segment.hasBody l.normalize)) := by
  have hl : ∀ l ∈ ls.filter fun l => Segment.hasBody l.normalize, l.IsLine :=
    fun l hl => h.line l (List.mem_of_mem_filter hl)
  simp only [Segment.ofCard, h.sources_eq, List.filter_map, Function.comp_def, Option.isSome_none,
    Bool.false_or, Segment.ofLines, Text.lines_unlines hl]

end Card.IsPrinted

/-- **Printed lines and loose text.**  A card with printed lines and no other text is read as loose
text of those of its lines that are not reminders alone.  It is read as the loose text of all its
lines just if none of them is a reminder alone. -/
theorem Card.read_printed {c : Card} {ls : List Text} (h : c.IsPrinted ls) (options : Options) :
    c.read options = .ok (readLines options c.cardType c.id
      (Text.unlines (ls.filter fun l => Segment.hasBody l.normalize))) ∧
    (c.read options = .ok (readLines options c.cardType c.id (Text.unlines ls)) ↔
      ∀ l ∈ ls, Segment.hasBody l.normalize = true) := by
  have hr : c.read options = .ok (readLines options c.cardType c.id
      (Text.unlines (ls.filter fun l => Segment.hasBody l.normalize))) :=
    Card.read_eq_ok_iff.2 ⟨h.problem?_eq, by rw [h.ofCard_eq]; rfl⟩
  refine ⟨hr, ⟨fun he => ?_, fun hall => ?_⟩⟩
  · rw [hr, Except.ok.injEq] at he
    -- a line that is left out is missing in the number of lines
    have hlen := length_lines_le_of_readLines_eq he.symm
    rw [Text.lines_unlines h.line, Text.lines_unlines fun l hl =>
      h.line l (List.mem_of_mem_filter hl)] at hlen
    exact List.filter_eq_self.1 (List.filter_sublist.eq_of_length_le hlen)
  · rw [hr, List.filter_eq_self.2 hall]

/-- A card with two lines, the second of them a reminder, is read as its first line. -/
theorem Card.read_printed_evasive :
    let c : Card :=
      { id := "c".toList, name := "n".toList
        fullTextSections := ["Evasive".toList, "(Only the brave can challenge.)".toList] }
    c.IsPrinted ["Evasive".toList, "(Only the brave can challenge.)".toList] ∧
      c.read {} = .ok (readLines {} .character "c".toList "Evasive".toList) := by
  intro c
  have hc : c.IsPrinted ["Evasive".toList, "(Only the brave can challenge.)".toList] :=
    ⟨rfl, rfl, rfl, rfl, rfl, rfl, fun l hl => by
      simp only [List.mem_cons, List.not_mem_nil, or_false] at hl
      rcases hl with rfl | rfl <;> exact ⟨by decide, by decide, by decide +kernel⟩⟩
  refine ⟨hc, (Card.read_printed hc {}).1.trans ?_⟩
  decide +kernel

/-- A line that is a reminder alone is reported in loose text, and a card passes over it. -/
theorem Card.read_ne_readLines_reminder :
    let c : Card :=
      { id := "c".toList, name := "n".toList, fullTextSections := ["(Reminder.)".toList] }
    c.IsPrinted ["(Reminder.)".toList] ∧
      c.read {} ≠ .ok (readLines {} c.cardType c.id (Text.unlines ["(Reminder.)".toList])) := by
  intro c
  refine ⟨⟨rfl, rfl, rfl, rfl, rfl, rfl, fun l hl => ?_⟩, by decide +kernel⟩
  obtain rfl := List.mem_singleton.1 hl
  exact ⟨by decide, by decide, by decide +kernel⟩

end CardText
