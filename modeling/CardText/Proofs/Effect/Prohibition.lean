import CardText.Proofs.Effect.Bare
import CardText.Proofs.Effect.Table

/-!
# Prohibitions

"Opposing characters can't quest." restricts its subject. Two wordings say so, one for the actions
that restrictions know by name and one for any other, but most wordings of actions take any text for
their subject, "Opponents can't" as well: what is forbidden may say more than "can't" does, and then
it is done.

* `Prohibition.IsPhrase`: the subjects and the actions, `Prohibition.text`: the prohibition;
* `Prohibition.ends_subject_mode`: the wordings of restrictions go on behind "can't" and nowhere
  else;
* `Prohibition.IsClear`: no wording of an action says as much as the restriction;
* `Prohibition.forbids_iff`: the prohibition is read as a restriction exactly if it is clear.
-/

namespace CardText

open Template

/-- Something is restricted. -/
def Effect.isRestriction : Effect → Bool
  | restriction _ _ => true
  | _ => false

theorem Effect.isRestriction_of_isAct {e : Effect} (h : e.isAct = true) :
    e.isRestriction = false := by
  cases e with
  | restriction _ _ => cases h
  | _ => rfl

namespace Prohibition

/-! ### Subjects and actions -/

/-- The words of a restriction. -/
def modals : List Text := Text.lexicon ["can't", "cannot", "must", "can"]

/-- A subject or an action: plain words with spaces between and around them, none of which
restricts, joins clauses or belongs to a modifier. -/
structure IsPhrase (t : Text) : Prop where
  ne_nil : t.words ≠ []
  plain : (t.all fun c => c == ' ' || Text.isPlain c) = true
  unmarked : ∀ w ∈ t.words, w.fold ∉ modals ++ Clause.markers

/-- The prohibition as it is printed. -/
def text (s a : Text) : Text := s ++ " can't ".toList ++ a ++ ['.']

/-- Its words. -/
def words (s a : Text) : List Text := s.words ++ "can't".toList :: a.words

/-- Its sentence. -/
def clause (s a : Text) : Text := Text.unwords (words s a)

variable {s a : Text}

theorem IsPhrase.eq_or_isPlain {t : Text} (h : IsPhrase t) {c : Char} (hc : c ∈ t) :
    c = ' ' ∨ Text.isPlain c = true := by
  simpa using List.all_eq_true.1 h.plain c hc

theorem IsPhrase.plain_word {t : Text} (h : IsPhrase t) {w : Text} (hw : w ∈ t.words) :
    w ≠ [] ∧ ∀ c ∈ w, Text.isPlain c = true := by
  obtain ⟨hne, hb⟩ := Text.not_isBlank_of_mem_words hw
  refine ⟨hne, fun c hc => (h.eq_or_isPlain (Text.mem_of_mem_words hw hc)).resolve_left ?_⟩
  exact Text.ne_space (hb c hc)

theorem IsPhrase.isBare {t : Text} (h : IsPhrase t) : Clause.IsBare t.words :=
  ⟨h.ne_nil, fun _ => h.plain_word,
    fun w hw hm => h.unmarked w hw (List.mem_append_right modals hm)⟩

theorem isBare_words (hs : IsPhrase s) (ha : IsPhrase a) : Clause.IsBare (words s a) := by
  have hc : "can't".toList ≠ [] ∧ ∀ c ∈ "can't".toList, Text.isPlain c = true :=
    ⟨by simp, List.all_eq_true.1 (by rfl)⟩
  have hm : Text.fold "can't".toList ∉ Clause.markers := by decide
  refine ⟨by simp [words], fun w hw => ?_, fun w hw => ?_⟩
  · rcases List.mem_append.1 hw with hw | hw
    · exact hs.plain_word hw
    · rcases List.mem_cons.1 hw with rfl | hw
      · exact hc
      · exact ha.plain_word hw
  · rcases List.mem_append.1 hw with hw | hw
    · exact hs.isBare.unmarked w hw
    · rcases List.mem_cons.1 hw with rfl | hw
      · exact hm
      · exact ha.isBare.unmarked w hw

theorem clause_eq (hs : IsPhrase s) (ha : IsPhrase a) :
    clause s a = s.squeeze ++ ' ' :: ("can't".toList ++ ' ' :: a.squeeze) := by
  rw [clause, words, Text.unwords_append hs.ne_nil (by simp), Text.unwords_cons ha.ne_nil]
  rfl

/-- The prohibition is a single sentence, whatever spaces stand between its words. -/
theorem ofEffect_eq (hs : IsPhrase s) (ha : IsPhrase a) (ctx : Context) :
    Step.ofEffect ctx (text s a) = (Step.ofSentence ctx none (clause s a)).1 := by
  have ht : text s a = (s ++ ' ' :: ("can't".toList ++ ' ' :: a)) ++ ['.'] := by
    simp [text]
  have hw : Text.words (s ++ ' ' :: ("can't".toList ++ ' ' :: a)) = words s a := by
    have hc : Text.words "can't".toList = ["can't".toList] := by decide
    rw [Text.words_append_cons (by decide), Text.words_append_cons (by decide), hc, words]
    rfl
  have hp : ∀ c ∈ s ++ ' ' :: ("can't".toList ++ ' ' :: a), c = ' ' ∨ Text.isPlain c = true := by
    have hc : "can't".toList.all Text.isPlain = true := by rfl
    simp only [List.mem_append, List.mem_cons]
    rintro c (h | h | h | h | h)
    · exact hs.eq_or_isPlain h
    · exact .inl h
    · exact .inr (List.all_eq_true.1 hc c h)
    · exact .inl h
    · exact ha.eq_or_isPlain h
  have hb : (text s a).body = Text.paragraph [clause s a] := by
    rw [ht, Text.body_period hp (by rw [hw]; simp [words]), Text.squeeze, hw]
    rfl
  have hsent : ∀ t ∈ [clause s a], t.IsSentence := by
    rw [List.forall_mem_singleton]
    exact (isBare_words hs ha).isSentence
  rw [Step.ofEffect, hb, Text.sentences_paragraph hsent]
  exact List.append_nil _

/-! ### The wordings of restrictions -/

/-- The word of a restriction, and the space behind it. -/
def mode (ms : List String) : List (Template Slot) := [slot .mode (oneOf ms), " "]

/-- The actions that restrictions know by name. -/
def knownAction : List (Template Slot) :=
  [slot .knownAction (oneOf ["challenge ready characters", "be challenged", "sing songs", "quest",
    "challenge", "ready", "move to locations", "move"]), edge]

/-- Any action. -/
def anyAction : List (Template Slot) := [slot .action toLineEnd, stop]

theorem template_restrictKnown : Wording.restrictKnown.template =
    phrase (Wording.subject :: (mode ["can't", "cannot", "must", "can"] ++ knownAction)) := rfl

theorem template_restrictOther : Wording.restrictOther.template =
    phrase (Wording.subject :: (mode ["can't", "cannot", "must"] ++ anyAction)) := rfl

/-- The words of a restriction in the two wordings. -/
def choices : List (List String) :=
  [["can't", "cannot", "must", "can"], ["can't", "cannot", "must"]]

/-- What stands in the words of a prohibition from one of the others on is a dead end. -/
theorem ends_mode_eq_nil (hs : IsPhrase s) (ha : IsPhrase a) {ms : List String}
    (hms : ms ∈ choices) (ts : List (Template Slot)) {u : Text} {us : List Text}
    (hu : u ∈ s.words ∨ u ∈ a.words) (hus : u :: us <:+ words s a) {c : Cursor Slot}
    (hc : c.rest = Text.unwords (u :: us)) : ends (phrase (mode ms ++ ts)) c = [] := by
  have hm : u.fold ∉ modals := fun hm => hu.elim
    (fun h => hs.unmarked u h (List.mem_append_left _ hm))
    fun h => ha.unmarked u h (List.mem_append_left _ hm)
  have hsp : ∀ v ∈ u :: us, ' ' ∉ v := fun v hv =>
    (isBare_words hs ha).spaceless v (hus.subset hv)
  have hall : choices.all (fun ms => !ms.isEmpty && ms.all fun m =>
      modals.contains m.toList && m.toList == Text.lowerPlain m.toList &&
        m.toList.all fun x => decide (x.toNat < 128 ∧ x ≠ ' ')) = true := by rfl
  have hms := List.all_eq_true.1 hall ms hms
  simp only [Bool.and_eq_true, Bool.not_eq_true', List.isEmpty_eq_false_iff, List.all_eq_true,
    List.contains_eq_mem, decide_eq_true_eq, beq_iff_eq] at hms
  refine ends_phrase_cons_eq_nil fun d hd => ?_
  obtain ⟨e, he, rfl⟩ := List.mem_map.1 hd
  obtain ⟨m, hmem, v, hv, hr⟩ := exists_of_mem_ends_oneOf hms.1 he
  obtain ⟨⟨hmod, hlow⟩, hplain⟩ := hms.2 m hmem
  rw [← hlow] at hv
  -- a word of the list with a space behind it would be the word that stands there
  refine ends_phrase_eq_nil (List.eq_nil_iff_forall_not_mem.2 fun f hf => ?_)
  obtain ⟨x, hx, her, -⟩ := exists_of_mem_ends_lit hf
  obtain ⟨y, r, rfl, hy, -⟩ := List.map_eq_cons_iff.1 hx
  obtain rfl : y = ' ' := Text.eq_of_toLower_eq hy rfl
  change e.rest = ' ' :: (r ++ f.rest) at her
  rw [her, hc] at hr
  have hv' : ' ' ∉ v := Text.not_mem_of_lowerPlain rfl hv fun hx => (hplain ' ' hx).2 rfl
  obtain rfl := Text.eq_of_unwords_cons hsp hr hv'
  exact hm (by rwa [Text.fold_of_lowerPlain hv fun x hx => (hplain x hx).1])

/-- "Can't" is the word that stands there. -/
theorem ends_mode_cant {ms : List String} (hms : ms ∈ choices) (ts : List (Template Slot))
    (x : Option Char) (r : Text) (l : List (Slot × Text × Text)) :
    ends (phrase (mode ms ++ ts)) ⟨x, "can't".toList ++ ' ' :: r, l⟩ =
      ends (phrase ts) ⟨some ' ', r, (.mode, "can't".toList ++ ' ' :: r, ' ' :: r) :: l⟩ := by
  have hm : ends (phrase (mode ms)) ⟨x, "can't".toList ++ ' ' :: r, l⟩ =
      [⟨some ' ', r, (.mode, "can't".toList ++ ' ' :: r, ' ' :: r) :: l⟩] := by
    simp only [choices, List.mem_cons, List.not_mem_nil, or_false] at hms
    rcases hms with rfl | rfl
    · rfl
    · rfl
  rw [ends_phrase_append, hm]
  exact List.append_nil _

/-- The slots that are filled up to the action. -/
def marks (s a : Text) : List (Slot × Text × Text) :=
  [(.mode, "can't".toList ++ ' ' :: a.squeeze, ' ' :: a.squeeze),
    (.target, clause s a, ' ' :: ("can't".toList ++ ' ' :: a.squeeze))]

/-- **The wordings of restrictions go on behind "can't" only**, and the subject is all in front of
it. -/
theorem ends_subject_mode (hs : IsPhrase s) (ha : IsPhrase a) {ms : List String}
    (hms : ms ∈ choices) (ts : List (Template Slot)) :
    ends (phrase (Wording.subject :: (mode ms ++ ts))) ⟨none, clause s a, []⟩ =
      ends (phrase ts) ⟨some ' ', a.squeeze, marks s a⟩ := by
  let tail := "can't".toList :: a.words
  have htail : Text.unwords tail = "can't".toList ++ ' ' :: a.squeeze :=
    Text.unwords_cons ha.ne_nil _
  let k : List Text → List (Cursor Slot) := fun vs => ends (phrase (mode ms ++ ts))
    ⟨some ' ', Text.unwords vs, [(.target, clause s a, ' ' :: Text.unwords vs)]⟩
  -- the subject can end in front of each of the words; only in front of "can't" it goes on
  have hbefore : ((Wording.behind s.words).map (· ++ tail)).flatMap k = [] := by
    rw [List.flatMap_eq_nil_iff]
    intro vs hvs
    obtain ⟨us, hus, rfl⟩ := List.mem_map.1 hvs
    obtain ⟨⟨p, hp⟩, u, hu, us, rfl⟩ := Wording.exists_of_mem_behind hus
    refine ends_mode_eq_nil hs ha hms ts (.inl (List.mem_of_mem_tail hu)) ⟨p, ?_⟩ rfl
    rw [words, ← hp, List.append_assoc]
    rfl
  have hcant : k tail = ends (phrase ts) ⟨some ' ', a.squeeze, marks s a⟩ := by
    change ends (phrase (mode ms ++ ts))
      ⟨_, Text.unwords tail, [(_, _, ' ' :: Text.unwords tail)]⟩ = _
    rw [htail, ends_mode_cant hms]
    rfl
  have hafter : (Wording.behind tail).flatMap k = [] := by
    rw [List.flatMap_eq_nil_iff]
    intro vs hvs
    obtain ⟨hsuf, u, hu, us, rfl⟩ := Wording.exists_of_mem_behind hvs
    exact ends_mode_eq_nil hs ha hms ts (.inr hu) (hsuf.trans (List.suffix_append _ _)) rfl
  have hstart : ends (phrase (mode ms ++ ts)) ⟨none, clause s a, []⟩ = [] := by
    obtain ⟨w, ws, hsw⟩ := List.exists_cons_of_ne_nil hs.ne_nil
    have hw : words s a = w :: (ws ++ tail) := by rw [words, hsw]; rfl
    exact ends_mode_eq_nil hs ha hms ts (.inl (by simp [hsw])) (hw ▸ List.suffix_rfl)
      (congrArg Text.unwords hw)
  have hsubject : ends (phrase (Wording.subject :: (mode ms ++ ts))) ⟨none, clause s a, []⟩ =
      (Wording.behind (s.words ++ tail)).flatMap k ++
        ends (phrase (mode ms ++ ts)) ⟨none, clause s a, []⟩ :=
    Wording.ends_subject (isBare_words hs ha).inline (mode ms ++ ts) none []
  rw [hsubject, hstart, List.append_nil, Wording.behind_append hs.ne_nil (List.cons_ne_nil _ _),
    List.flatMap_append, List.flatMap_cons, hbefore, hcant, hafter, List.nil_append,
    List.append_nil]

/-! ### Their matches -/

/-- The match of the wording for any action. -/
def reading (s a : Text) : Match Slot := ⟨clause s a, [], (.action, a.squeeze, []) :: marks s a⟩

theorem match?_other (hs : IsPhrase s) (ha : IsPhrase a) :
    Wording.restrictOther.template.match? (clause s a) = some (reading s a) := by
  have hsent : a.squeeze.IsSentence := ha.isBare.isSentence
  have hl : Leads (phrase anyAction) ⟨some ' ', a.squeeze, marks s a⟩
      ⟨a.squeeze.getLast?, [], (.action, a.squeeze, []) :: marks s a⟩ :=
    .cons (.slot _ (.longest_all (fun _ => hsent.inline) hsent.ne_nil)) (.cons .stop .nil)
  have hm : (["can't", "cannot", "must"] : List String) ∈ choices := by simp [choices]
  have ho : Leads Wording.restrictOther.template ⟨none, clause s a, []⟩
      ⟨a.squeeze.getLast?, [], (.action, a.squeeze, []) :: marks s a⟩ := by
    rw [Leads, template_restrictOther, ends_subject_mode hs ha hm]
    exact hl
  exact ho.matchAfter?

/-- A match of the wording for the known actions fills the same slots in front of the action. -/
theorem exists_of_match?_known (hs : IsPhrase s) (ha : IsPhrase a) {m : Match Slot}
    (h : Wording.restrictKnown.template.match? (clause s a) = some m) :
    ∃ r u v, m = ⟨clause s a, r, (.knownAction, u, v) :: marks s a⟩ := by
  have hm : (["can't", "cannot", "must", "can"] : List String) ∈ choices := by simp [choices]
  rw [match?, matchAfter?_eq, Option.map_eq_some_iff] at h
  obtain ⟨c, hc, rfl⟩ := h
  rw [template_restrictKnown, ends_subject_mode hs ha hm] at hc
  obtain ⟨d, hd, hc⟩ := mem_ends_phrase_cons.1 (List.mem_of_mem_head? hc)
  obtain ⟨f, hf, rfl⟩ := List.mem_map.1 hd
  have hcm := marks_of_isPlain (by rfl) hc
  have hfm := marks_of_isPlain (by rfl) hf
  refine ⟨c.rest, a.squeeze, f.rest, ?_⟩
  rw [hcm, Cursor.mark, hfm]

/-- What is restricted stands in front of "can't". -/
theorem filling?_mode {r : Text} {e : Slot × Text × Text} (he : e.1 ≠ .mode) :
    Match.filling? ⟨clause s a, r, e :: marks s a⟩ .mode = some "can't".toList := by
  refine Wording.filling?_eq ?_ (by rfl) (by simp)
  rw [slot?_cons_ne he, marks, slot?_cons_self, between_append]

/-- Such a match is read as a single step, which forbids. -/
theorem restrict_eq {m : Match Slot} (hm : m.filling? .mode = some "can't".toList) (scope : Scope) :
    ∃ act, Wording.restrict m scope =
      [scope.step (.restriction act .cannot) (m.filling? .target)] := by
  have hc : (some "can't".toList).bind
      (fun t : Text => Text.lookup? Wording.permissions t.fold) = none := by rfl
  simp only [Wording.restrict, hm, hc, Option.getD_none]
  exact ⟨_, rfl⟩

/-- "Can't" and the spaces around it are all that the wording for any action says. -/
theorem fit_reading (hs : IsPhrase s) (ha : IsPhrase a) :
    Wording.fit (reading s a) = (7, Text.byteCount (clause s a)) := by
  have hw : (reading s a).whole = clause s a := between_nil _
  have htarget : (reading s a).slot? .target = some s.squeeze := by
    rw [reading, slot?_cons_ne (by simp), marks, slot?_cons_ne (by simp), slot?_cons_self,
      clause_eq hs ha, between_append]
  have haction : (reading s a).slot? .action = some a.squeeze := by
    rw [reading, slot?_cons_self, between_nil]
  have hf : Slot.free.flatMap (reading s a).slot = s.squeeze ++ a.squeeze := by
    simp only [Slot.free, List.flatMap_cons, List.flatMap_nil, Match.slot, htarget, haction]
    simp [reading, marks, Match.slot?]
  have hb : Text.byteCount (clause s a) =
      Text.byteCount s.squeeze + (7 + Text.byteCount a.squeeze) := by
    have hc : Text.byteCount (' ' :: ("can't".toList ++ [' '])) = 7 := by rfl
    rw [clause_eq hs ha, ← hc, ← Text.byteCount_append, ← Text.byteCount_append]
    simp
  rw [Wording.fit, hw, hf, Text.byteCount_append, hb]
  simp only [Prod.mk.injEq, and_true]
  omega

/-- The wording for the known actions says more. -/
theorem le_fit_known {m : Match Slot}
    (h : Wording.restrictKnown.template.match? (clause s a) = some m) : 8 ≤ (Wording.fit m).1 := by
  have hsp : Wording.restrictKnown.template.spoken = 8 := by rfl
  rw [← hsp]
  exact Wording.spoken_le_fit (by rfl) h

/-! ### The contest -/

/-- How much a restriction says in the sentence: the name of its action counts if it is known. -/
def said (s a : Text) : Nat × Nat :=
  match Wording.restrictKnown.template.match? (clause s a) with
  | some m => Wording.fit m
  | none => (7, Text.byteCount (clause s a))

/-- The wordings of restrictions. -/
def restrictions : List Wording := [.restrictKnown, .restrictOther]

/-- The match of a restriction that says most. -/
theorem exists_pick? (hs : IsPhrase s) (ha : IsPhrase a) : ∃ w m,
    Wording.pick? (Wording.matching restrictions (clause s a)) = some (w, m) ∧
      Wording.fit m = said s a ∧ ∀ scope, ∃ act, w.read m scope =
        [scope.step (.restriction act .cannot) (m.filling? .target)] := by
  have ho := match?_other hs ha
  cases hk : Wording.restrictKnown.template.match? (clause s a) with
  | none =>
    refine ⟨.restrictOther, reading s a, ?_, ?_, restrict_eq (filling?_mode (by simp))⟩
    · simp [restrictions, Wording.matching, hk, ho, Wording.pick?]
    · rw [said, hk, fit_reading hs ha]
  | some m =>
    have hw : ¬ Wording.worse (Wording.fit m) (Wording.fit (reading s a)) = true := by
      have := le_fit_known hk
      rw [Wording.worse_iff, fit_reading hs ha]
      omega
    refine ⟨.restrictKnown, m, ?_, ?_, ?_⟩
    · simp [restrictions, Wording.matching, hk, ho, Wording.pick?, hw]
    · rw [said, hk]
    · obtain ⟨r, u, v, rfl⟩ := exists_of_match?_known hs ha hk
      exact restrict_eq (filling?_mode (by simp))

/-- **No wording of an action says as much as the restriction**, and none behind it in the table
says more. -/
def IsClear (s a : Text) : Prop :=
  (∀ w ∈ Wording.restrictKnown.earlier, ∀ m ∈ w.template.match? (clause s a),
    Wording.worse (Wording.fit m) (said s a) = true) ∧
  ∀ w ∈ Wording.restrictOther.later, ∀ m ∈ w.template.match? (clause s a),
    ¬ Wording.worse (said s a) (Wording.fit m) = true

instance (s a : Text) : Decidable (IsClear s a) :=
  inferInstanceAs (Decidable
    ((∀ w ∈ Wording.restrictKnown.earlier, ∀ m ∈ w.template.match? (clause s a),
      Wording.worse (Wording.fit m) (said s a) = true) ∧
    ∀ w ∈ Wording.restrictOther.later, ∀ m ∈ w.template.match? (clause s a),
      ¬ Wording.worse (said s a) (Wording.fit m) = true))

/-- The two wordings of restrictions stand side by side. -/
theorem all_eq : Wording.all =
    Wording.restrictKnown.earlier ++ (restrictions ++ Wording.restrictOther.later) := by rfl

/-- Words of which the other wordings that have a subject have one. -/
def verbs : List Text :=
  Text.lexicon ["get", "has", "have", "gain", "lose", "draw", "discard", "deal", "reveal", "choose",
    "pay", "cost"]

/-- Words that the other wordings without a subject open with. -/
def openings : List Text :=
  Text.lexicon ["put ", "remove ", "move ", "return ", "shuffle ", "play ", "look at ", "search ",
    "banish ", "exert ", "ready "]

/-- A prohibition is clear if it has none of the words of other wordings. -/
theorem isClear_of_has_eq_false (hv : ∀ v ∈ verbs, Text.has v (clause s a).lowerPlain = false)
    (ho : ∀ o ∈ openings, ¬ o <+: (clause s a).lowerPlain) : IsClear s a := by
  -- an opening counts at the start of the sentence only, a verb wherever it stands
  let later : Text → Bool := fun l => !verbs.any fun v => Text.has v l.lowerPlain
  let first : Text → Bool := fun l => later l && !openings.any fun o => o.isPrefixOf l.lowerPlain
  have hadmits : ((Wording.restrictKnown.earlier ++ Wording.restrictOther.later).all fun w =>
      !admits first later w.template) = true := by decide +kernel
  have hlater : ∀ l : Text, l.lowerPlain <:+: (clause s a).lowerPlain → later l = true := by
    intro l hl
    simp only [later, Bool.not_eq_true', List.any_eq_false]
    intro v hm hh
    have ht := Text.has_iff.2 ((Text.has_iff.1 hh).trans hl)
    rw [hv v hm] at ht
    cases ht
  have hfirst : ∀ l : Text, l.lowerPlain <+: (clause s a).lowerPlain → first l = true := by
    intro l hl
    simp only [first, hlater l hl.isInfix, Bool.true_and, Bool.not_eq_true', List.any_eq_false]
    exact fun o hm hp => ho o hm ((List.isPrefixOf_iff_prefix.1 hp).trans hl)
  have hnone : ∀ w ∈ Wording.restrictKnown.earlier ++ Wording.restrictOther.later,
      w.template.match? (clause s a) = none := fun w hw =>
    matchAfter?_eq_none (by simpa using List.all_eq_true.1 hadmits w hw) hfirst
      fun l _ hs _ hl => hlater l (isInfix_lowerPlain hl hs)
  refine ⟨fun w hw m hm => ?_, fun w hw m hm => ?_⟩
  · rw [hnone w (List.mem_append_left _ hw)] at hm
    cases hm
  · rw [hnone w (List.mem_append_right _ hw)] at hm
    cases hm

/-- A restriction is the best wording exactly if it is the better of the two and the prohibition is
clear. -/
theorem best?_eq_some_iff_isClear (hs : IsPhrase s) (ha : IsPhrase a) {w : Wording}
    {m : Match Slot} (hw : w ∈ restrictions) : Wording.best? (clause s a) = some (w, m) ↔
      Wording.pick? (Wording.matching restrictions (clause s a)) = some (w, m) ∧ IsClear s a := by
  have hearlier : ∀ w ∈ restrictions, w ∉ Wording.restrictKnown.earlier := by decide
  have hlater : ∀ w ∈ restrictions, w ∉ Wording.restrictOther.later := by decide
  rw [Wording.best?_eq_some_iff_of_part all_eq (hearlier w hw) (hlater w hw)]
  refine and_congr_right fun hk => ?_
  obtain ⟨v, n, hv, hfit, -⟩ := exists_pick? hs ha
  obtain ⟨rfl, rfl⟩ := Prod.mk.inj (Option.some.inj (hv.symm.trans hk))
  rw [hfit, IsClear]

/-- A clear prohibition leaves a restriction the best wording. -/
theorem exists_best?_of_isClear (hs : IsPhrase s) (ha : IsPhrase a) (hc : IsClear s a) : ∃ w m,
    Wording.best? (clause s a) = some (w, m) ∧ ∀ scope, ∃ act, w.read m scope =
      [scope.step (.restriction act .cannot) (m.filling? .target)] := by
  obtain ⟨w, m, hk, -, hread⟩ := exists_pick? hs ha
  obtain ⟨hw, -⟩ := Wording.mem_matching_iff.1 (Wording.mem_of_pick? hk)
  exact ⟨w, m, (best?_eq_some_iff_isClear hs ha hw).2 ⟨hk, hc⟩, hread⟩

/-- Only the wordings of restrictions restrict. -/
theorem isRestriction_read {w : Wording} (hw : w ∉ restrictions) (m : Match Slot)
    (scope : Scope) : ∀ u ∈ w.read m scope, u.effect.isRestriction = false := by
  intro u hu
  cases ha : w.isActing with
  | true => exact Effect.isRestriction_of_isAct (Wording.isAct_read ha m scope u hu).effect
  | false =>
    rcases Wording.eq_of_isActing_eq_false ha with rfl | rfl | rfl
    · rw [List.mem_singleton.1 hu]
      rfl
    all_goals exact absurd (by decide) hw

/-- Any other prohibition leaves it to another wording. -/
theorem exists_best?_of_not_isClear (hs : IsPhrase s) (ha : IsPhrase a) (hc : ¬ IsClear s a) :
    ∃ w m, Wording.best? (clause s a) = some (w, m) ∧ w ∉ restrictions := by
  obtain ⟨w, m, hb, -⟩ := Wording.exists_best? (match?_other hs ha)
  exact ⟨w, m, hb, fun hw => hc ((best?_eq_some_iff_isClear hs ha hw).1 hb).2⟩

/-! ### The reading -/

/-- The steps are a single one, and it forbids. -/
def Forbids (steps : List Step) : Prop :=
  ∃ act step, steps = [step] ∧ step.effect = .restriction act .cannot

/-- A clear prohibition forbids. -/
theorem forbids_of_isClear (hs : IsPhrase s) (ha : IsPhrase a) (hc : IsClear s a) (ctx : Context) :
    Forbids (Step.ofEffect ctx (text s a)) := by
  obtain ⟨w, m, hb, hread⟩ := exists_best?_of_isClear hs ha hc
  obtain ⟨act, hr⟩ := hread ⟨ctx.source, none, none⟩
  obtain ⟨u, hsteps, haim⟩ := Step.exists_ofAction?_of_best? hb hr
  have hbare := isBare_words hs ha
  refine ⟨act, u.modify false {}, ?_, haim.effect⟩
  rw [ofEffect_eq hs ha]
  exact Step.ofSentence_of_clause hbare.frame_unwords hbare.ofSentence_unwords
    hbare.ofClause_unwords hbare.isSentence.ne_nil hsteps

/-- If it is not clear, nothing is restricted. -/
theorem isRestriction_of_not_isClear (hs : IsPhrase s) (ha : IsPhrase a) (hc : ¬ IsClear s a)
    (ctx : Context) : ∀ u ∈ Step.ofEffect ctx (text s a), u.effect.isRestriction = false := by
  obtain ⟨w, m, hb, hw⟩ := exists_best?_of_not_isClear hs ha hc
  have hbare := isBare_words hs ha
  intro u hu
  rw [ofEffect_eq hs ha] at hu
  rcases Step.effect_mem_of_best? hbare.frame_unwords hbare.ofSentence_unwords
    hbare.ofClause_unwords hb hu with he | ⟨v, hv, he⟩
  · rw [he]
    rfl
  · rw [he]
    exact isRestriction_read hw m _ v hv

/-- **A prohibition forbids exactly if it is clear**, on whatever card it stands and whether the
reading is strict or not. -/
theorem forbids_iff (hs : IsPhrase s) (ha : IsPhrase a) (ctx : Context) :
    Forbids (Step.ofEffect ctx (text s a)) ↔ IsClear s a := by
  refine ⟨fun ⟨act, step, h, heff⟩ => ?_, fun hc => forbids_of_isClear hs ha hc ctx⟩
  by_contra hc
  have hmem : step ∈ Step.ofEffect ctx (text s a) := by
    rw [h]
    exact List.mem_singleton_self _
  have hr := isRestriction_of_not_isClear hs ha hc ctx step hmem
  rw [heff] at hr
  cases hr

/-- A subject of several words, whose action is none of the known ones. -/
theorem forbids_sing : IsPhrase "Chosen opposing character".toList ∧
    IsPhrase "sing a sea shanty ".toList ∧
      Forbids (Step.ofEffect ⟨.action, {}⟩
        (text "Chosen opposing character".toList "sing a sea shanty ".toList)) := by
  have hs : IsPhrase "Chosen opposing character".toList := ⟨by decide, by decide, by decide⟩
  have ha : IsPhrase "sing a sea shanty ".toList := ⟨by decide, by decide, by decide⟩
  have hc : IsClear "Chosen opposing character".toList "sing a sea shanty ".toList :=
    isClear_of_has_eq_false (by decide +kernel) (by decide +kernel)
  exact ⟨hs, ha, (forbids_iff hs ha ⟨.action, {}⟩).2 hc⟩

/-- What opponents are forbidden to draw is drawn: the number of cards says more than "can't". -/
theorem not_forbids_draw : IsPhrase "Opponents".toList ∧ IsPhrase "draw 2 cards".toList ∧
    text "Opponents".toList "draw 2 cards".toList = "Opponents can't draw 2 cards.".toList ∧
    (Step.ofEffect ⟨.character, {}⟩ "Opponents can't draw 2 cards.".toList).map (·.effect) =
      [.drawCards] ∧
    ¬ Forbids (Step.ofEffect ⟨.character, {}⟩ "Opponents can't draw 2 cards.".toList) := by
  have he : (Step.ofEffect ⟨.character, {}⟩ "Opponents can't draw 2 cards.".toList).map (·.effect) =
      [.drawCards] := by decide +kernel
  refine ⟨⟨by decide, by decide, by decide⟩, ⟨by decide, by decide, by decide⟩, by decide, he, ?_⟩
  rintro ⟨act, step, h, heff⟩
  rw [h, List.map_singleton, heff] at he
  cases he

end Prohibition

end CardText
