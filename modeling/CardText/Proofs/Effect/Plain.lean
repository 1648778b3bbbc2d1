import CardText.Proofs.Effect.Clause
import CardText.Proofs.Text.Sentence

/-!
# Plain sentences

A sentence of words none of which joins clauses is one clause, and a clause without the words of
modifiers is an action.

* `Clause.ofSentence_unwords`: a sentence without conjunctions and quotes is its only clause;
* `Frame.ofSentence_eq_self`, `Modifiers.ofClause_eq_self`: nothing is taken off;
* `Step.ofSentence_of_clause`, `Step.ofSentences_eq_map`: the steps of such sentences;
* `Clause.IsFrameless`, `Clause.IsSingle`, `Clause.IsUnmodified`: vocabularies without the words of
  fronts, of conjunctions and of modifiers; `Clause.IsQuiet`: without any of them, so that sentences
  are their actions (`Step.ofEffect_unwords`).
-/

namespace CardText

open Template

/-! ### Clauses -/

namespace Clause

/-- The word neither joins clauses nor turns a quote. -/
def isInert (w : Text) : Bool := !turnsQuote w && !isConjunction w

theorem isInert_ofNat (n : Nat) : isInert (Text.ofNat n) = true := by
  have hd : ∀ c ∈ Text.ofNat n, c.isDigit = true := fun _ => Text.isDigit_of_mem_ofNat
  have hq : (Text.ofNat n).count '"' = 0 :=
    List.count_eq_zero.2 fun hm => by cases hd _ hm
  simp only [isInert, turnsQuote, hq, isConjunction, Text.fold_ofNat, Bool.and_eq_true,
    Bool.not_eq_true', decide_eq_false_iff_not, not_or]
  exact ⟨by decide, Text.ofNat_ne (by decide), Text.ofNat_ne (by decide)⟩

/-- Inert words belong to the open clause. -/
theorem cutWords_of_isInert {ws : List Text} (h : ∀ w ∈ ws, isInert w = true)
    (left rest : List Text) :
    cutWords left false (ws ++ rest) = cutWords (ws.reverse ++ left) false rest := by
  induction ws generalizing left with
  | nil => rfl
  | cons w ws ih =>
    have hw := h w (by simp)
    rw [isInert, Bool.and_eq_true, Bool.not_eq_true', Bool.not_eq_true'] at hw
    have hstep : cutWords left false (w :: (ws ++ rest)) =
        cutWords (w :: left) false (ws ++ rest) := by
      conv => lhs; unfold cutWords
      simp [hw.1, hw.2]
    rw [List.cons_append, hstep, ih fun v hv => h v (List.mem_cons_of_mem _ hv)]
    simp

/-- Quoted words belong to the open clause. -/
theorem cutWords_cons_of_quoted {quoted : Bool} {w : Text} (h : (quoted || turnsQuote w) = true)
    (left rest : List Text) :
    cutWords left quoted (w :: rest) = cutWords (w :: left) (quoted != turnsQuote w) rest := by
  conv => lhs; unfold cutWords
  rw [if_pos h]

/-- Without conjunctions and quotes a sentence is a single clause. -/
theorem ofSentence_unwords {ws : List Text} (hs : (Text.unwords ws).IsSentence)
    (hb : ∀ w ∈ ws, w ≠ [] ∧ ∀ c ∈ w, Text.isBlank c = false) (h : ∀ w ∈ ws, isInert w = true) :
    ofSentence (Text.unwords ws) = [Text.unwords ws] := by
  have hne : ws ≠ [] := by rintro rfl; exact hs.ne_nil rfl
  have hj : join ws = Text.unwords ws :=
    hs.trimEnd_eq fun c hc => by simp [Text.isPause, beq_iff_eq.1 hc]
  have hc := cutWords_of_isInert h [] []
  rw [List.append_nil] at hc
  rw [ofSentence, Text.words_unwords hb, hc, cutWords]
  simp [hne, hj, hs.ne_nil]

end Clause

/-! ### Modifiers -/

/-- Nothing is taken off a sentence that opens with none of the phrases. -/
theorem Frame.ofSentence_eq_self {t : Text} (ht : t.trim = t)
    (h : ∀ f ∈ fronts, f.1.match? t = none) : Frame.ofSentence t = ({}, t) := by
  have hf : front? t = none := List.findSome?_eq_none_iff.2 fun f hf => by rw [h f hf]; rfl
  rw [Frame.ofSentence, ht, Frame.take]
  split
  · rfl
  · next he => rw [hf] at he; cases he

namespace Modifiers

theorem takeDuration_eq_self {t : Text} (h : ∀ e ∈ endings, e.1.search? t = none) :
    takeDuration t = (none, t) := by
  have he : endings.findSome? (fun e =>
      (e.1.search? t).map fun b => (e.2 (b.2.slot .tail), b.1)) = none :=
    List.findSome?_eq_none_iff.2 fun e he => by rw [h e he]; rfl
  rw [takeDuration, he]

/-- Behind "You may" stands the action; the player is the controller. -/
theorem takeMay_you {t : Text} (ht : t.IsSentence) :
    takeMay ("You may ".toList ++ t) = (true, t) := by
  have hy : Leads (opt [slot Side.head words, gap]) ⟨none, "You may ".toList ++ t, []⟩
      ⟨some ' ', "may ".toList ++ t, [(.head, "You may ".toList ++ t, " may ".toList ++ t)]⟩ := by
    rfl
  have hl : Leads mayClause ⟨none, "You may ".toList ++ t, []⟩ ⟨t.getLast?, [],
      [(.tail, t, []), (.head, "You may ".toList ++ t, " may ".toList ++ t)]⟩ :=
    hy.cons (.cons (.lit (v := "may".toList) (r := ' ' :: t) rfl)
      (.cons (.longest (w := [' ']) (by simp [isGap]) ht.head_isGap (by simp))
        (.cons (.slot _ (.longest_all (fun _ => ht.inline) ht.ne_nil)) (.cons .stop .nil))))
  have hs : ∀ r : Text, Match.slot? ⟨"You may ".toList ++ t, r, [(Side.tail, t, []),
      (.head, "You may ".toList ++ t, " may ".toList ++ t)]⟩ .head = some "You".toList := by
    simp [Match.slot?, between]
  rw [takeMay, match?, hl.matchAfter?]
  simp only [hs, Option.map_some]
  rw [if_pos (by rfl)]
  simp [Match.slot, Match.slot?, between]

/-- A clause without quotes is its action and perhaps a "may", if no other modifier is there. -/
theorem ofClause_eq {t action : Text} {b : Bool} (ht : t.tidy = t) (hq : '"' ∉ t)
    (hm : takeMay t = (b, action)) (ha : action.trim = action)
    (he : ∀ e ∈ endings, e.1.search? action = none) (hi : ifClause.match? action = none)
    (hf : forEachClause.match? action = none) : ofClause t = ({ optional := b }, action) := by
  have hc : t.contains '"' = false := by simpa using hq
  simp only [ofClause, ht, hc, hm, takeDuration_eq_self he, takeIf, hi, takeForEach, hf, ha]
  rfl

end Modifiers

namespace Wording

/-! ### Filled places -/

theorem filling?_eq {m : Match Slot} {s : Slot} {t : Text} (h : m.slot? s = some t)
    (ht : t.trim = t) (hne : t ≠ []) : m.filling? s = some t := by
  simp [Match.filling?, h, ht, hne]

/-! ### Subjects -/

/-- A run of characters is broken off only in front of a space: behind the words of the text. -/
theorem flatMap_runs_word {ms : List (Slot × Text × Text)} {k : Cursor Slot → List (Cursor Slot)}
    (hk : ∀ d, d.rest.head? ≠ some ' ' → k d = []) {u : Text} (hne : u ≠ [])
    (hu : u.all (fun c => c != ' ' && isInline c) = true) {r : Text} (hr : r.head? ≠ some ' ') :
    (runs isInline ms (u ++ ' ' :: r)).flatMap k =
      k ⟨u.getLast?, ' ' :: r, ms⟩ ++ (runs isInline ms r).flatMap k := by
  induction u with
  | nil => exact absurd rfl hne
  | cons c u ih =>
    rw [List.all_cons, Bool.and_eq_true, Bool.and_eq_true] at hu
    rw [List.cons_append, runs, if_pos hu.1.2, List.flatMap_cons]
    rcases u with _ | ⟨x, u⟩
    · rw [List.nil_append, runs, if_pos (by rfl), List.flatMap_cons, hk ⟨some ' ', r, ms⟩ hr]
      rfl
    · have hx : x ≠ ' ' := by
        have := hu.2
        simp only [List.all_cons, Bool.and_eq_true, bne_iff_ne] at this
        exact this.1.1
      rw [hk ⟨some c, x :: u ++ ' ' :: r, ms⟩ (by simpa using hx), List.nil_append,
        ih (by simp) hu.2, List.getLast?_cons_cons]

/-- The places behind a subject, and the place in front of one that is missing. -/
theorem ends_subject_eq (c : Cursor Slot) :
    ends subject c = (runs isInline c.marks c.rest).flatMap
      (fun e => ends (phrase [" "]) (Cursor.mark .target c e)) ++ [c] :=
  congrArg (· ++ [c]) (List.flatMap_map _ _ _)

theorem ends_space_eq_nil {c : Cursor Slot} (h : c.rest.head? ≠ some ' ') :
    ends (phrase [" "]) c = [] := by
  obtain ⟨b, _ | ⟨y, s⟩, l⟩ := c
  · rfl
  · exact ends_phrase_eq_nil
      (ends_lit_ne fun hy => h (congrArg some (Text.eq_of_toLower_eq hy rfl)))

/-- The words of a text from each of them on but the first. -/
def behind : List Text → List (List Text)
  | [] => []
  | [_] => []
  | _ :: w :: ws => (w :: ws) :: behind (w :: ws)

theorem behind_append {us vs : List Text} (hu : us ≠ []) (hv : vs ≠ []) :
    behind (us ++ vs) = (behind us).map (· ++ vs) ++ vs :: behind vs := by
  induction us with
  | nil => exact absurd rfl hu
  | cons u us ih =>
    cases us with
    | nil =>
      obtain ⟨v, vs, rfl⟩ := List.exists_cons_of_ne_nil hv
      rfl
    | cons u' us => simpa [behind] using ih (by simp)

theorem exists_of_mem_behind {ws vs : List Text} (h : vs ∈ behind ws) :
    vs <:+ ws ∧ ∃ w ∈ ws.tail, ∃ us, vs = w :: us := by
  induction ws with
  | nil => cases h
  | cons w ws ih =>
    cases ws with
    | nil => cases h
    | cons w' ws =>
      rcases List.mem_cons.1 h with rfl | h
      · exact ⟨List.suffix_cons w _, w', by simp, ws, rfl⟩
      · obtain ⟨hs, u, hu, us, rfl⟩ := ih h
        exact ⟨hs.trans (List.suffix_cons w _), u, List.mem_cons_of_mem _ hu, us, rfl⟩

/-- A run of characters that goes on behind a space only is broken off behind each of the words. -/
theorem flatMap_runs_unwords {ms : List (Slot × Text × Text)} {k : Cursor Slot → List (Cursor Slot)}
    {g : Text → List (Cursor Slot)} (hk : ∀ d, d.rest.head? ≠ some ' ' → k d = [])
    (hg : ∀ b s, k ⟨b, ' ' :: s, ms⟩ = g s) {ws : List Text}
    (hw : ∀ w ∈ ws, w ≠ [] ∧ w.all (fun c => c != ' ' && isInline c) = true) :
    (runs isInline ms (Text.unwords ws)).flatMap k =
      (behind ws).flatMap fun vs => g (Text.unwords vs) := by
  induction ws with
  | nil => rfl
  | cons w ws ih =>
    obtain ⟨hne, hall⟩ := hw w (by simp)
    have hws := fun v hv => hw v (List.mem_cons_of_mem w hv)
    cases ws with
    | nil =>
      -- no space is left in the last word, so the run goes on nowhere
      rw [Text.unwords_singleton, behind, List.flatMap_nil, List.flatMap_eq_nil_iff]
      intro d hd
      refine hk d fun hs => ?_
      obtain ⟨v, -, -, hr, -⟩ := mem_runs_iff.1 hd
      have hm : ' ' ∈ w := hr ▸ List.mem_append_right v (List.mem_of_mem_head? hs)
      have := List.all_eq_true.1 hall ' ' hm
      cases this
    | cons v ws =>
      have hv : (Text.unwords (v :: ws)).head? ≠ some ' ' := by
        obtain ⟨hvn, hva⟩ := hws v (by simp)
        rw [Text.head_unwords hvn]
        intro hs
        have := List.all_eq_true.1 hva ' ' (List.mem_of_mem_head? hs)
        cases this
      rw [Text.unwords_cons_cons, flatMap_runs_word hk hne hall hv, hg, ih hws, behind,
        List.flatMap_cons]

/-- Where a phrase with a subject can end: behind a subject of any number of words, or without
one. -/
theorem ends_subject {ws : List Text}
    (hw : ∀ w ∈ ws, w ≠ [] ∧ w.all (fun c => c != ' ' && isInline c) = true)
    (ts : List (Template Slot)) (x : Option Char) (ms : List (Slot × Text × Text)) :
    ends (phrase (subject :: ts)) ⟨x, Text.unwords ws, ms⟩ =
      ((behind ws).flatMap fun vs => ends (phrase ts)
        ⟨some ' ', Text.unwords vs, (.target, Text.unwords ws, ' ' :: Text.unwords vs) :: ms⟩) ++
        ends (phrase ts) ⟨x, Text.unwords ws, ms⟩ := by
  change (ends subject ⟨x, Text.unwords ws, ms⟩).flatMap (ends (phrase ts)) = _
  rw [ends_subject_eq, List.flatMap_append, List.flatMap_assoc, List.flatMap_cons, List.flatMap_nil,
    List.append_nil]
  congr 1
  let g : Text → List (Cursor Slot) := fun s =>
    ends (phrase ts) ⟨some ' ', s, (.target, Text.unwords ws, ' ' :: s) :: ms⟩
  refine flatMap_runs_unwords (g := g) (fun d hd => ?_) (fun b s => ?_) hw
  · have hm : ends (phrase [" "]) (Cursor.mark .target ⟨x, Text.unwords ws, ms⟩ d) = [] :=
      ends_space_eq_nil hd
    rw [hm, List.flatMap_nil]
  · exact List.append_nil _

theorem between_subject (u v r : Text) :
    between (u ++ ' ' :: (v ++ ' ' :: r)) (' ' :: r) = u ++ ' ' :: v := by
  rw [show u ++ ' ' :: (v ++ ' ' :: r) = (u ++ ' ' :: v) ++ ' ' :: r by simp, between_append]

/-- A subject of two words, where the verb does not stand behind the first of them. -/
theorem leads_subject {u v r : Text} (hu : u ≠ []) (hv : v ≠ [])
    (hw : (u ++ v).all (fun c => c != ' ' && isInline c) = true) (hr : r.head? ≠ some ' ')
    {ts : List (Template Slot)} {d : Cursor Slot} (x : Option Char) (ms : List (Slot × Text × Text))
    (h₁ : ∀ c : Cursor Slot, c.rest = v ++ ' ' :: r → ends (phrase ts) c = [])
    (h₂ : Leads (phrase ts)
      ⟨some ' ', r, (.target, u ++ ' ' :: (v ++ ' ' :: r), ' ' :: r) :: ms⟩ d) :
    Leads (phrase (subject :: ts)) ⟨x, u ++ ' ' :: (v ++ ' ' :: r), ms⟩ d := by
  rw [List.all_append, Bool.and_eq_true] at hw
  have hvr : (v ++ ' ' :: r).head? ≠ some ' ' := by
    obtain ⟨y, v, rfl⟩ := List.exists_cons_of_ne_nil hv
    simp only [List.all_cons, Bool.and_eq_true, bne_iff_ne] at hw
    simpa using hw.2.1.1
  let c : Cursor Slot := ⟨x, u ++ ' ' :: (v ++ ' ' :: r), ms⟩
  let k : Cursor Slot → List (Cursor Slot) := fun e => ends (phrase [" "]) (Cursor.mark .target c e)
  have hk : ∀ e, e.rest.head? ≠ some ' ' → k e = [] := fun _ he => ends_space_eq_nil he
  have hs : ∀ b s, k ⟨b, ' ' :: s, ms⟩ =
      [⟨some ' ', s, (.target, c.rest, ' ' :: s) :: ms⟩] := fun _ _ => rfl
  have he : ends subject c = (runs isInline ms c.rest).flatMap k ++ [c] := ends_subject_eq c
  rw [flatMap_runs_word hk hu hw.1 hvr, flatMap_runs_word hk hv hw.2 hr, hs, hs,
    List.append_assoc, List.append_assoc] at he
  exact .cons_of_ends he (by simpa using h₁ _ rfl) h₂

end Wording

/-! ### Single phrases -/

/-- A phrase without a joint is the only one. -/
theorem Selector.parts_eq {t : Text} (h : breakCompound? t = none) : parts t = [t.trim] := by
  rw [parts]
  split
  · rfl
  · next he => rw [h] at he; cases he

/-- The target of a single phrase. -/
theorem Scope.targets_eq {scope : Scope} {t : Text} (hc : Selector.breakCompound? t = none)
    (ht : t.trim = t) (hne : t ≠ []) : scope.targets (some t) = (scope.selector t, []) := by
  have hv : t.isVoid = false := by simp [Text.isVoid, ht, hne]
  simp [Scope.targets, hv, Selector.parts_eq hc, ht]

/-- Whether a phrase is read as a whole depends on its text alone. -/
theorem Selector.fixed?_eq_none {t : Text} (h : fixed? .card none t = none) (source : ObjectKind)
    (antecedent : Option Selector) : fixed? source antecedent t = none := by
  unfold fixed? at h ⊢
  split at h
  · cases h
  · next hs =>
    split_ifs at h
    simp_all

/-- The target of a single phrase that is read word by word. -/
theorem Scope.targets_of_ofWords {scope : Scope} {t : Text} {s : Selector}
    (hc : Selector.breakCompound? t = none) (ht : t.trim = t) (hne : t ≠ [])
    (hf : Selector.fixed? .card none t.tidy.fold = none) (hs : Selector.ofWords t.tidy = s) :
    scope.targets (some t) = (s, []) := by
  rw [targets_eq hc ht hne, selector, Selector.ofPhrase, Selector.fixed?_eq_none hf, hs]

theorem Scope.targets_chosenCharacter (scope : Scope) :
    scope.targets (some "Chosen character".toList) = (.chosen .character, []) :=
  targets_of_ofWords (by rfl) (by rfl) (by simp) (by rfl) (by decide +kernel)

/-! ### Steps -/

namespace Step

/-- The step of an action that its best wording matches as a whole. -/
theorem ofAction?_of_best? {scope : Scope} {t : Text} {w : Wording} {m : Match Slot} {s : Step}
    (hb : Wording.best? t = some (w, m)) (hm : m.rest = []) (hr : w.read m scope = [s]) :
    ofAction? scope t = some [s] := by
  have hn : remainder m = [] := by rw [remainder, hm]; rfl
  simp [ofAction?, hb, hr, hn, noteLast]

/-- The step of an action whose best wording may leave something over. -/
theorem exists_ofAction?_of_best? {scope : Scope} {t : Text} {w : Wording} {m : Match Slot}
    {s : Step} (hb : Wording.best? t = some (w, m)) (hr : w.read m scope = [s]) :
    ∃ u, ofAction? scope t = some [u] ∧ SameAim s u := by
  have ha : ofAction? scope t = some (noteLast (remainder m) [s]) := by simp [ofAction?, hb, hr]
  rw [ha, noteLast]
  split_ifs
  · exact ⟨s, rfl, rfl, rfl, rfl, rfl⟩
  · exact ⟨s.addNote (remainder m), rfl, keepsAim_addNote _ s⟩

theorem shareDuration_singleton (s : Step) : shareDuration [s] = [s] := by
  rw [shareDuration]
  split
  · rfl
  · next d hd =>
    have : s.duration ≠ .permanent := by
      rintro h
      simp [lastDuration?, h] at hd
    simp [this]

theorem inFrame_empty (s : Step) : s.inFrame {} = s := by
  cases s
  simp [inFrame]

/-- The step of a sentence that is a single action. -/
theorem ofSentence_of_clause {ctx : Context} {a : Option Selector} {t action : Text}
    {mods : Modifiers} {s : Step} (hf : Frame.ofSentence t = ({}, t))
    (hc : Clause.ofSentence t = [t]) (hm : Modifiers.ofClause t = (mods, action))
    (ha : action ≠ []) (hs : ofAction? ⟨ctx.source, a, mods.counted⟩ action = some [s]) :
    (ofSentence ctx a t).1 = [s.modify mods.optional mods] := by
  have hr : (Reading.ofClause ctx { antecedent := a } t).1 =
      ⟨t, mods, [s.modify mods.optional mods]⟩ := by
    simp [Reading.ofClause, hm, Reading.completeAction, ha, hs]
  simp [ofSentence, hf, hc, Reading.ofClauses, hr, shareDuration_singleton, inFrame_empty]

/-- The effects of a sentence that is a single action are those of its best wording, if it is
understood. -/
theorem effect_mem_of_best? {ctx : Context} {a : Option Selector} {t action : Text}
    {mods : Modifiers} {w : Wording} {m : Match Slot} (hf : Frame.ofSentence t = ({}, t))
    (hc : Clause.ofSentence t = [t]) (hm : Modifiers.ofClause t = (mods, action))
    (hb : Wording.best? action = some (w, m)) {s : Step} (hs : s ∈ (ofSentence ctx a t).1) :
    s.effect = (ofOpaque t).effect ∨
      ∃ u ∈ w.read m ⟨ctx.source, a, mods.counted⟩, s.effect = u.effect := by
  simp only [ofSentence, hf, hc, Reading.ofClauses, List.flatMap_cons, List.flatMap_nil,
    List.append_nil, shareDuration_eq, List.map_map] at hs
  obtain ⟨r, hr, rfl⟩ := List.mem_map.1 hs
  rw [Function.comp_apply, (keepsAim_inFrame {} _).effect, (keepsAim_share _ r).effect]
  obtain ⟨v, rfl, ⟨steps, hu, hv⟩ | ⟨-, -, rfl⟩⟩ := Reading.exists_of_mem_ofClause hr
  · have ha := Reading.ofAction?_of_understood? hu
    rw [hm] at ha
    obtain ⟨w', m', hb', -, rfl⟩ := exists_of_ofAction? ha
    obtain ⟨rfl, rfl⟩ := Prod.mk.inj (Option.some.inj (hb.symm.trans hb'))
    obtain ⟨u, hmem, haim⟩ := exists_of_mem_noteLast hv
    exact .inr ⟨u, hmem, haim.effect⟩
  · exact .inl rfl

/-- Sentences of one step each, whatever was picked before. -/
theorem ofSentences_eq_map {α : Type} {ctx : Context} {text : α → Text} {step : α → Step}
    (h : ∀ x a, (ofSentence ctx a (text x)).1 = [step x]) (xs : List α) (a : Option Selector) :
    ofSentences ctx a (xs.map text) = xs.map step := by
  induction xs generalizing a with
  | nil => rfl
  | cons x xs ih =>
    have hx := h x a
    simp only [List.map_cons, ofSentences, ih, hx]
    rfl

end Step

/-! ### Sentences over a vocabulary -/

namespace Text

namespace AllFrom

variable {vs ws : List Text} (h : AllFrom vs ws)
  (hv : (vs.all fun v => !v.isEmpty && v.all isPlain) = true)

include h hv

theorem plain_of_mem : ∀ w ∈ ws, w ≠ [] ∧ ∀ c ∈ w, isPlain c = true := fun w hw => by
  have := h.forall_mem hv (fun n => ?_) w hw
  · simpa using this
  · have hd : ∀ c ∈ ofNat n, isPlain c = true := fun c hc =>
      of_isDigit (by rfl) (isDigit_of_mem_ofNat hc)
    simpa using hd

theorem spaceless : ∀ w ∈ ws, ' ' ∉ w := fun w hw hm =>
  absurd ((h.plain_of_mem hv w hw).2 ' ' hm) (by decide)

theorem isSentence_unwords (hne : ws ≠ []) : (unwords ws).IsSentence :=
  .of_words hne (h.plain_of_mem hv)

end AllFrom

end Text

namespace Clause

/-- Nothing is said in front of a sentence in words of the vocabulary. -/
structure IsFrameless (vs : List Text) : Prop where
  plain : (vs.all fun v => !v.isEmpty && v.all Text.isPlain) = true
  fronts : (Frame.fronts.map (·.1)).all
    (fun t => !admits (Text.fits vs) (Text.fits vs) t) = true

/-- A sentence in words of the vocabulary is a single clause as well: none of them joins clauses. -/
structure IsSingle (vs : List Text) : Prop extends IsFrameless vs where
  inert : vs.all isInert = true

/-- Nothing is said around an action in words of the vocabulary. -/
structure IsUnmodified (vs : List Text) : Prop where
  plain : (vs.all fun v => !v.isEmpty && v.all Text.isPlain) = true
  clauses : [Modifiers.mayClause, Modifiers.ifClause, Modifiers.forEachClause].all
    (fun t => !admits (Text.fits vs) (Text.fits vs) t) = true
  endings : (Modifiers.endings.all fun e => !admits (Text.fits vs) (Text.fits vs) e.1) = true

/-- A sentence in words of the vocabulary is its action. -/
structure IsQuiet (vs : List Text) : Prop extends IsSingle vs, IsUnmodified vs

section Quiet

variable {vs ws : List Text}

theorem IsFrameless.frame_unwords (hv : IsFrameless vs) (h : Text.AllFrom vs ws) (hne : ws ≠ []) :
    Frame.ofSentence (Text.unwords ws) = ({}, Text.unwords ws) :=
  Frame.ofSentence_eq_self (h.isSentence_unwords hv.plain hne).trim_eq fun _ hf =>
    match?_unwords_eq_none _ hv.fronts h (h.spaceless hv.plain) (List.mem_map_of_mem hf)

theorem IsSingle.ofSentence_unwords (hv : IsSingle vs) (h : Text.AllFrom vs ws) (hne : ws ≠ []) :
    ofSentence (Text.unwords ws) = [Text.unwords ws] := by
  refine Clause.ofSentence_unwords (h.isSentence_unwords hv.plain hne) (fun w hw => ?_)
    (h.forall_mem hv.inert isInert_ofNat)
  obtain ⟨hw, hp⟩ := h.plain_of_mem hv.plain w hw
  exact ⟨hw, fun c hc => Text.isBlank_of_isPlain (hp c hc)⟩

namespace IsUnmodified

variable (hv : IsUnmodified vs) (h : Text.AllFrom vs ws)

include hv h

theorem takeMay_unwords : Modifiers.takeMay (Text.unwords ws) = (false, Text.unwords ws) := by
  rw [Modifiers.takeMay, match?_unwords_eq_none _ hv.clauses h (h.spaceless hv.plain) (by simp)]

/-- The action behind a "may", or without one. -/
theorem ofClause_of_takeMay (hne : ws ≠ []) {t : Text} {b : Bool} (ht : t.IsSentence)
    (hm : Modifiers.takeMay t = (b, Text.unwords ws)) :
    Modifiers.ofClause t = ({ optional := b }, Text.unwords ws) := by
  have hf : ∀ e ∈ [Modifiers.mayClause, Modifiers.ifClause, Modifiers.forEachClause],
      e.match? (Text.unwords ws) = none := fun e =>
    match?_unwords_eq_none _ hv.clauses h (h.spaceless hv.plain)
  refine Modifiers.ofClause_eq (ht.trimEnd_eq fun _ h => h) (fun hq => (ht.ne_marks hq).2.1 rfl) hm
    (h.isSentence_unwords hv.plain hne).trim_eq (fun e hm => ?_) (hf _ (by simp)) (hf _ (by simp))
  exact search?_unwords_eq_none (by simpa using List.all_eq_true.1 hv.endings e hm) h
    (h.spaceless hv.plain)

theorem ofClause_unwords (hne : ws ≠ []) :
    Modifiers.ofClause (Text.unwords ws) = ({}, Text.unwords ws) :=
  hv.ofClause_of_takeMay h hne (h.isSentence_unwords hv.plain hne) (hv.takeMay_unwords h)

end IsUnmodified

end Quiet

end Clause

/-- Where nothing is said around its action, a step stays as it is. -/
theorem Step.modify_false {s : Step} (h : s.optional = false) : s.modify false {} = s := by
  cases s
  simp_all [modify]

/-- **A quiet sentence is read as its action**, whatever was picked before. -/
theorem Step.ofEffect_unwords {vs ws : List Text} (hv : Clause.IsQuiet vs) (h : Text.AllFrom vs ws)
    (hne : ws ≠ []) {s : Step}
    (hs : ∀ scope, scope.counted = none → ofAction? scope (Text.unwords ws) = some [s])
    (ho : s.optional = false) (ctx : Context) :
    ofEffect ctx (Text.unwords ws ++ ['.']) = [s] := by
  have ht := h.isSentence_unwords hv.plain hne
  have hts : ∀ t ∈ [Text.unwords ws], t.IsSentence := by simpa using ht
  have hone : (ofSentence ctx none (Text.unwords ws)).1 = [s.modify false {}] :=
    ofSentence_of_clause (hv.frame_unwords h hne) (hv.ofSentence_unwords h hne)
      (hv.ofClause_unwords h hne) ht.ne_nil (hs _ rfl)
  rw [← Text.paragraph_singleton, ofEffect, Text.body_paragraph hts, Text.sentences_paragraph hts]
  simp [ofSentences, hone, modify_false ho]

end CardText
