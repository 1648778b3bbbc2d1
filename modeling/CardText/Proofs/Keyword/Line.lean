import CardText.Proofs.Ability.Assembly
import CardText.Proofs.Template
import CardText.Proofs.Text.Listing
import CardText.Proofs.Text.Numeral

/-!
# Printed keyword lines

A line of keywords is read back as the keywords that it was printed from.

* `Text.Signed`: digits after at most one sign, and the number that they stand for
  (`Text.signed?_text`);
* `Keyword.Printed`: a keyword in any letter case with the value next to it;
  `Keyword.Printed.entry?_text` reads it back;
* `Keyword.Line`: a printed line; `Keyword.Line.entries?_text` reads its entries back, and
  `Keyword.Line.read_text` the abilities of a segment with that text.
-/

namespace CardText

open Template

/-! ### Signed numbers -/

namespace Text

/-- The sign of a printed number. -/
inductive Sign where
  | plus
  | minus
  deriving Repr, DecidableEq

/-- The printed sign. -/
def Sign.char : Sign → Char
  | plus => '+'
  | minus => '-'

/-- A printed number: digits after at most one sign. -/
structure Signed where
  sign : Option Sign
  digits : Text
  digits_ne_nil : digits ≠ []
  all_isDigit : digits.all Char.isDigit = true

namespace Signed

/-- The number as printed. -/
def text (n : Signed) : Text := (n.sign.map Sign.char).toList ++ n.digits

/-- The number that is meant. -/
def value (n : Signed) : Int :=
  match n.sign with
  | some .minus => -(digitsValue n.digits : Int)
  | _ => digitsValue n.digits

/-- The number that is meant, if it fits 32 bits. -/
def value? (n : Signed) : Option Int :=
  if -integerBound ≤ n.value ∧ n.value < integerBound then some n.value else none

variable (n : Signed)

theorem isDigit {c : Char} (hc : c ∈ n.digits) : c.isDigit = true :=
  List.all_eq_true.1 n.all_isDigit c hc

theorem isSentence_text : IsSentence n.text := by
  refine .of_isPlain (by simp [text, n.digits_ne_nil]) (List.all_eq_true.2 fun c hc => ?_)
  rw [text, List.mem_append, Option.mem_toList, Option.map_eq_some_iff] at hc
  rcases hc with ⟨s, -, rfl⟩ | hc
  · cases s <;> decide
  · exact of_isDigit (p := isPlain) (by decide) (n.isDigit hc)

/-- A printed number is read back, unless it is too large. -/
theorem signed?_text : signed? n.text = n.value? := by
  have hb : (0 : Int) < integerBound := by decide
  have hv : (0 : Int) ≤ digitsValue n.digits := Int.natCast_nonneg _
  have hint := integer?_of_all n.digits_ne_nil n.all_isDigit
  rw [signed?, n.isSentence_text.trim_eq, value?, value, text]
  rcases n.sign with _ | _ | _
  · have hlow : -integerBound ≤ (digitsValue n.digits : Int) := by omega
    simp only [Option.map_none, Option.toList_none, List.nil_append, hlow, true_and]
    split
    · next h => exact absurd rfl (head_ne_of_all n.all_isDigit h).1
    · exact hint
  · -- the sign is taken off before the digits are read
    have hlow : -integerBound ≤ (digitsValue n.digits : Int) := by omega
    simp only [hlow, true_and]
    exact hint
  · have hup : -(digitsValue n.digits : Int) < integerBound := by omega
    simp only [hup, and_true]
    change ((digits? n.digits).map fun k => -(k : Int)).filter (-integerBound ≤ ·) = _
    rw [digits?_of_all n.digits_ne_nil n.all_isDigit]
    simp [Option.filter]

end Signed

end Text

namespace Keyword

/-! ### Printed keywords -/

/-- A keyword as it is printed on a line. -/
structure Printed where
  keyword : Keyword
  /-- The name in some letter case. -/
  name : Text
  value : Option Text.Signed
  /-- The ink symbol stands behind the value, if there is one. -/
  hasInk : Bool
  lowerPlain_name : name.lowerPlain = Text.lowerPlain keyword.name.toList
  takesValue : value.isSome = true → keyword.takesValue = true

/-- The words that a keyword line chooses from. -/
def lineNames : List String :=
  ["alert", "bodyguard", "boost", "challenger", "evasive", "reckless", "resist", "rush", "shift",
    "singer", "sing together", "support", "vanish", "ward"]

/-- No name begins like another. -/
theorem not_isPrefix_lineNames : ∀ w ∈ lineNames, ∀ u ∈ lineNames, u ≠ w →
    ¬ Text.lowerPlain u.toList <+: Text.lowerPlain w.toList ∧
      ¬ Text.lowerPlain w.toList <+: Text.lowerPlain u.toList := by
  decide +kernel

theorem exists_lineNames (k : Keyword) :
    ∃ w ∈ lineNames, Text.lowerPlain w.toList = Text.lowerPlain k.name.toList := by
  cases k <;> decide

theorem isSentence_name (k : Keyword) : Text.IsSentence (Text.lowerPlain k.name.toList) := by
  have hhead : (Text.lowerPlain k.name.toList).head?.all (!Text.isBlank ·) = true := by
    cases k <;> decide
  have hplain : (Text.lowerPlain k.name.toList).all (fun c => c == ' ' || Text.isPlain c) = true :=
    by cases k <;> decide
  refine ⟨by cases k <;> decide, by cases k <;> decide, ?_, ?_⟩
  · intro c hc
    rw [Option.mem_def.1 hc] at hhead
    simpa using hhead
  · intro c hc
    simpa using List.all_eq_true.1 hplain c hc

/-- A name in any letter case, with any blanks around it, is the name of its keyword alone. -/
theorem ofName?_eq_some_iff {t : Text} {k : Keyword} :
    ofName? t = some k ↔ Text.samePlain k.name.toList t.trim = true := by
  constructor
  · intro h
    simpa using List.find?_some h
  · intro h
    have hlower : ∀ k' : Keyword, Text.samePlain k'.name.toList t.trim =
        (Text.lowerPlain k'.name.toList == Text.lowerPlain k.name.toList) := fun k' => by
      rw [Text.samePlain, ← eq_of_beq h]
    simp only [ofName?, hlower]
    cases k <;> decide

namespace Printed

variable (p : Printed)

/-- The ink symbol behind a value, or nothing. -/
def ink (b : Bool) : Text := if b then " \x7bI\x7d".toList else []

/-- What is printed behind the name. -/
def tail : Text :=
  match p.value with
  | some n => ' ' :: (n.text ++ ink p.hasInk)
  | none => []

/-- The printed keyword. -/
def text : Text := p.name ++ p.tail

/-- The entry that is meant. -/
def entry : Entry :=
  { keyword := p.keyword
    value := p.value.bind Text.Signed.value?
    valueText := p.value.map Text.Signed.text }

theorem entry_of_value {s : Text.Signed} (h : p.value = some s) :
    p.entry = ⟨p.keyword, s.value?, some s.text, none⟩ := by
  rw [entry, h, Option.bind_some, Option.map_some]

theorem isSentence_name : p.name.IsSentence := by
  refine .of_lowerPlain ?_
  rw [p.lowerPlain_name]
  exact Keyword.isSentence_name p.keyword

theorem isSentence_text : p.text.IsSentence := by
  rw [text, tail]
  rcases p.value with _ | n
  · rw [List.append_nil]
    exact p.isSentence_name
  · refine p.isSentence_name.append_space ?_
    cases p.hasInk with
    | false =>
      rw [ink, if_neg (by simp), List.append_nil]
      exact n.isSentence_text
    | true =>
      have hi : Text.IsSentence "\x7bI\x7d".toList := .of_isPlain (by simp) (by decide)
      exact n.isSentence_text.append_space hi

section Leads

variable (x : Option Char) (ms : List (Slot × Text × Text))

/-- The name is read in any letter case. -/
theorem leads_name (r : Text) :
    Leads (Template.oneOf lineNames) ⟨x, p.name ++ r, ms⟩ ⟨p.name.getLast?.or x, r, ms⟩ := by
  obtain ⟨w, hw, hk⟩ := exists_lineNames p.keyword
  exact .oneOf hw (not_isPrefix_lineNames w hw) (p.lowerPlain_name.trans hk.symm)

/-- The value is read in front of the ink symbol or the end. -/
theorem leads_value (n : Text.Signed) (b : Bool) :
    Leads (phrase [.opt [.one fun c => c == '+' || c == '-'], .digits])
      ⟨x, n.text ++ ink b, ms⟩ ⟨n.digits.getLast?, ink b, ms⟩ := by
  have hr : (ink b).head?.any Char.isDigit = false := by cases b <;> rfl
  have hdig : ∀ {x : Option Char}, Leads (phrase [Template.digits])
      ⟨x, n.digits ++ ink b, ms⟩ ⟨n.digits.getLast?, ink b, ms⟩ :=
    .cons (.longest (fun _ => n.isDigit) hr n.digits_ne_nil) .nil
  rw [Text.Signed.text]
  obtain ⟨c, r, h⟩ := List.exists_cons_of_ne_nil n.digits_ne_nil
  rcases n.sign with _ | s
  · -- a digit is no sign, so the option is passed over
    refine .cons (.skip (ends_phrase_eq_nil ?_)) hdig
    have hc := Text.head_ne_of_all n.all_isDigit h
    simp [h, ends, runs, hc]
  · refine .cons (.left (.cons (.one ?_) .nil)) hdig
    cases s <;> decide

/-- The ink symbol is read with the space in front of it. -/
theorem leads_ink (b : Bool) :
    ∃ y, Leads (phrase [.opt [.optGap, .lit "\x7bi\x7d".toList], .stop])
      ⟨x, ink b, ms⟩ ⟨y, [], ms⟩ := by
  cases b with
  | false => exact ⟨x, .cons (.skip rfl) (.cons .stop .nil)⟩
  | true => exact ⟨some '}', rfl⟩

end Leads

/-- The match of the printed keyword. -/
def reading : Match Slot :=
  ⟨p.text, [], match p.value with
    | some n => [(.value, n.text ++ ink p.hasInk, ink p.hasInk), (.keyword, p.text, p.tail)]
    | none => [(.keyword, p.text, p.tail)]⟩

theorem match?_text : plainEntry.match? p.text = some p.reading := by
  have hname : Leads (slot Slot.keyword (oneOf lineNames)) ⟨none, p.text, []⟩
      ⟨p.name.getLast?.or none, p.tail, [(.keyword, p.text, p.tail)]⟩ :=
    (p.leads_name none [] p.tail).slot Slot.keyword
  suffices ∃ y, Leads plainEntry ⟨none, p.text, []⟩ ⟨y, [], p.reading.marks⟩ by
    obtain ⟨y, hy⟩ := this
    exact hy.matchAfter?
  rw [reading]
  rcases hv : p.value with _ | n
  · -- nothing is left behind the name
    have ht : p.tail = [] := by rw [tail, hv]
    rw [ht] at hname ⊢
    exact ⟨_, hname.cons (.cons (.skip rfl) (.cons (.skip rfl) (.cons .stop .nil)))⟩
  · have ht : p.tail = [' '] ++ (n.text ++ ink p.hasInk) := by
      rw [tail, hv]
      rfl
    have hgap : ∀ {x : Option Char} {ms : List (Slot × Text × Text)},
        Leads gap ⟨x, p.tail, ms⟩ ⟨some ' ', n.text ++ ink p.hasInk, ms⟩ := by
      intro x ms
      rw [ht]
      refine .longest (by simp [isGap]) ?_ (by simp)
      have hh := n.isSentence_text.head_isGap
      obtain ⟨c, r, hn⟩ := List.exists_cons_of_ne_nil n.isSentence_text.ne_nil
      rw [hn] at hh ⊢
      exact hh
    have hvalue :=
      (leads_value (some ' ') [(.keyword, p.text, p.tail)] n p.hasInk).slot Slot.value
    obtain ⟨y, hink⟩ := leads_ink n.digits.getLast?
      [(.value, n.text ++ ink p.hasInk, ink p.hasInk), (.keyword, p.text, p.tail)] p.hasInk
    exact ⟨y, hname.cons (.cons (.left (hgap.cons (hvalue.cons .nil))) hink)⟩

theorem slot?_keyword : p.reading.slot? .keyword = some p.name := by
  rw [reading]
  split
  · rw [slot?_cons_ne (by decide), slot?_cons_self, text, between_append]
  · rw [slot?_cons_self, text, between_append]

theorem slot?_value : p.reading.slot? .value = p.value.map Text.Signed.text := by
  rw [reading]
  split
  · next n hn => rw [slot?_cons_self, between_append, hn, Option.map_some]
  · next hn =>
    rw [slot?_cons_ne (by decide), hn]
    rfl

/-- **A printed keyword is read back.** -/
theorem entry?_text : entry? p.text = some p.entry := by
  have hname : Text.samePlain p.keyword.name.toList p.name.trim = true := by
    rw [p.isSentence_name.trim_eq, Text.samePlain, p.lowerPlain_name, beq_self_eq_true]
  have hk : ofName? (p.reading.slot .keyword) = some p.keyword := by
    rw [Match.slot, slot?_keyword]
    exact ofName?_eq_some_iff.2 hname
  have hv : ((p.value.map Text.Signed.text).isSome && !p.keyword.takesValue) = false := by
    rcases h : p.value with _ | n
    · rfl
    · simp [p.takesValue (by simp [h])]
  have hb : (p.value.map Text.Signed.text).bind Text.signed? = p.value.bind Text.Signed.value? := by
    rcases p.value with _ | n
    · rfl
    · exact n.signed?_text
  unfold entry?
  simp only [match?_text, hk, slot?_value, hv, hb, entry]
  rfl

end Printed

/-! ### Printed lines -/

/-- A line of keywords as it is printed. -/
structure Line where
  parts : List Printed
  parts_ne_nil : parts ≠ []
  /-- A period stands behind the last keyword. -/
  hasPeriod : Bool
  remark : Option Text.Remark
  /-- A period stands at the end of the line. -/
  endsInPeriod : Bool

/-- The last entry takes the reminder. -/
theorem remindLast_eq_mapIdx (r : Option Text) (es : List Entry) :
    remindLast r es =
      es.mapIdx fun i e => if i + 1 = es.length then { e with reminder := r } else e := by
  induction es with
  | nil => rfl
  | cons e es ih =>
    cases es with
    | nil => rfl
    | cons e' es =>
      rw [remindLast, ih, List.mapIdx_cons (l := e' :: es) (a := e), if_neg (by simp)]
      · simp
      · simp

namespace Line

variable (l : Line)

/-- The printed line. -/
def text : Text :=
  Text.listed (l.parts.map Printed.text) ++ Text.period l.hasPeriod ++
    l.remark.elim [] Text.Remark.text ++ Text.period l.endsInPeriod

/-- The entries that are meant; the remark belongs to the last of them. -/
def entries : List Entry :=
  l.parts.mapIdx fun i p => { p.entry with
    reminder := if i + 1 = l.parts.length then l.remark.map fun r => r.content.trim else none }

theorem mapM_text (ps : List Printed) :
    (ps.map Printed.text).mapM entry? = some (ps.map Printed.entry) := by
  induction ps with
  | nil => rfl
  | cons p ps ih =>
    rw [List.map_cons, List.mapM_cons, p.entry?_text, ih]
    rfl

/-- **A printed line is read back.** -/
theorem entries?_text : entries? l.text = some l.entries := by
  have hne : l.parts.map Printed.text ≠ [] := by simpa using l.parts_ne_nil
  have hs : ∀ s ∈ l.parts.map Printed.text, Text.IsSentence s := by
    intro s h
    obtain ⟨p, -, rfl⟩ := List.mem_map.1 h
    exact p.isSentence_text
  have hempty : (Text.listed (l.parts.map Printed.text)).isEmpty = false := by
    rw [List.isEmpty_eq_false_iff]
    exact Text.joined_ne_nil hne hs
  rw [entries?, text, Text.stripReminders_listed hne hs]
  simp only [Text.trimEnd_listed hne hs, hempty, Text.trim_cut_listed hne hs, mapM_text]
  -- the same entries on both sides; what is left is which of them has the reminder
  rw [if_neg (by simp), Option.head?_toList, Option.map_some, remindLast_eq_mapIdx, entries]
  refine congrArg some (List.ext_getElem (by simp) fun i hi hi' => ?_)
  simp only [List.getElem_mapIdx, List.getElem_map, List.length_map]
  by_cases h : i + 1 = l.parts.length
  · rw [if_pos h, if_pos h]
  · rw [if_neg h, if_neg h]
    rfl

/-- The line of a single keyword. -/
def only (p : Printed) : Line := ⟨[p], by simp, false, none, false⟩

theorem text_only (p : Printed) : (only p).text = p.text := by
  simp [text, only, Text.listed, Text.joined_singleton, Text.period]

theorem entries_only (p : Printed) : (only p).entries = [p.entry] := by
  simp [entries, only, Printed.entry]

end Line

end Keyword

/-! ### Segments with a keyword line -/

/-- A keyword line without a hint gives one ability for each entry. -/
theorem Draft.ofSegment_of_entries? (ctx : Context) {s : Segment} {es : List Keyword.Entry}
    (hs : s.hint = none) (h : Keyword.entries? s.text = some es) :
    ofSegment ctx s = es.map fun e => ofKeyword ctx.source e s.raw := by
  rw [ofSegment, Classified.ofSegment, hs]
  simp only [Classified.ofText, h, ofClassified]
  refine List.map_congr_left fun e _ => ?_
  rw [← (ofKeyword_spec ctx.source e s.raw).2.2.1]

namespace Keyword

theorem Line.map_keyword_entries (l : Line) :
    l.entries.map (·.keyword) = l.parts.map (·.keyword) := by
  refine List.ext_getElem (by simp [entries]) fun i hi hi' => ?_
  simp [entries, Printed.entry]

/-- **Keyword lines round-trip.**  A printed line of keywords is read back, entry by entry, and a
segment with that text and no hint has one ability for each of them, in their order, under its
keyword and with the type of that keyword. -/
theorem Line.read_text (l : Line) : entries? l.text = some l.entries ∧
    ∀ (ctx : Context) (cardId : Text) (s : Segment), s.text = l.text → s.hint = none →
      Draft.ofSegment ctx s = l.entries.map (fun e => Draft.ofKeyword ctx.source e s.raw) ∧
      (Assembly.abilitiesOf cardId s.index (Draft.ofSegment ctx s)).map
          (fun a => (a.keyword, a.abilityType)) =
        l.parts.map fun p => (some p.keyword, p.keyword.abilityType) := by
  refine ⟨l.entries?_text, fun ctx cardId s ht hh => ?_⟩
  have hd := Draft.ofSegment_of_entries? ctx hh (ht ▸ l.entries?_text)
  refine ⟨hd, ?_⟩
  have heffects : ∀ d ∈ l.entries.map (fun e => Draft.ofKeyword ctx.source e s.raw),
      d.effects ≠ [] := by
    intro d hd
    obtain ⟨e, -, rfl⟩ := List.mem_map.1 hd
    exact (Draft.ofKeyword_spec ctx.source e s.raw).2.2.2
  calc
    _ = (l.entries.map fun e => Draft.ofKeyword ctx.source e s.raw).map
          fun d => (d.keyword, d.abilityType) := by rw [hd, Assembly.map_abilitiesOf heffects]
    _ = l.entries.map fun e => (some e.keyword, e.keyword.abilityType) := by
      rw [List.map_map]
      refine List.map_congr_left fun e _ => ?_
      obtain ⟨hk, ht, -, -⟩ := Draft.ofKeyword_spec ctx.source e s.raw
      rw [Function.comp_apply, hk, ht]
    _ = (l.entries.map (·.keyword)).map fun k => (some k, k.abilityType) := by
      rw [List.map_map]
      rfl
    _ = l.parts.map fun p => (some p.keyword, p.keyword.abilityType) := by
      rw [l.map_keyword_entries, List.map_map]
      rfl

/-- Four keywords in mixed letter case, one with a sign and ink, in front of a reminder. -/
theorem Line.read_text_evasive :
    let l : Line :=
      { parts :=
          [⟨.evasive, "EVASIVE".toList, none, false, by decide, by decide⟩,
            ⟨.singTogether, "sing Together".toList, some ⟨none, "7".toList, by decide, by decide⟩,
              false, by decide, by decide⟩,
            ⟨.support, "Support".toList, none, false, by decide, by decide⟩,
            ⟨.resist, "Resist".toList, some ⟨some .plus, "02".toList, by decide, by decide⟩,
              true, by decide, by decide⟩]
        parts_ne_nil := by decide
        hasPeriod := true
        remark := some
          ⟨" ".toList, " Less damage. ".toList, by decide, by decide, by decide, by decide⟩
        endsInPeriod := false }
    let s : Segment := ⟨0, l.text, l.text, none⟩
    l.text = "EVASIVE, sing Together 7, Support, Resist +02 \x7bI\x7d. ( Less damage. )".toList ∧
      entries? l.text = some
        [⟨.evasive, none, none, none⟩, ⟨.singTogether, some 7, some "7".toList, none⟩,
          ⟨.support, none, none, none⟩,
          ⟨.resist, some 2, some "+02".toList, some "Less damage.".toList⟩] ∧
      (Assembly.abilitiesOf "c".toList 0 (Draft.ofSegment ⟨.character, {}⟩ s)).map
          (fun a => (a.keyword, a.abilityType)) =
        [(some .evasive, .static), (some .singTogether, .static), (some .support, .triggered),
          (some .resist, .static)] := by
  intro l s
  obtain ⟨hl, hs⟩ := Line.read_text l
  have h : l.entries =
      [⟨.evasive, none, none, none⟩, ⟨.singTogether, some 7, some "7".toList, none⟩,
        ⟨.support, none, none, none⟩,
        ⟨.resist, some 2, some "+02".toList, some "Less damage.".toList⟩] := by decide
  exact ⟨by decide, h ▸ hl, (hs ⟨.character, {}⟩ "c".toList s rfl rfl).2⟩

end Keyword

end CardText
