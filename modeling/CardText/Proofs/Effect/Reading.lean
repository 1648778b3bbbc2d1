import CardText.Proofs.Effect.Core

/-!
# How core sentences are read

* `Core.best?_text`: the wording of its verb is the best one for a core action;
* `Core.ofAction?_text`: the action is read as its step;
* `Core.ofEffect_paragraph`: an effect of core sentences is read sentence by sentence.
-/

namespace CardText

namespace Core

open Template

/-! ### The wording of a verb -/

/-- The wording that a verb belongs to. -/
def Verb.wording : Verb → Wording
  | banish => .banish
  | exert => .exert
  | ready => .ready
  | deal => .dealDamage
  | remove => .removeDamage
  | draw => .draw
  | gain => .loreChange

/-- The wording can match a text that opens with the word `o` and goes on with words of the
vocabulary. -/
def isRival (vs : List Text) (o : Text) (w : Wording) : Bool :=
  match o with
  | [] => true
  | c :: v => admits (fun l => Text.opensLike (c :: v) l && Text.fits ((c :: v) :: vs) l)
      (Text.fits (v :: vs)) w.template

theorem isRival_capitalize (vs : List Text) (b : Bool) (v : Verb) :
    isRival vs (capitalize b v.word) = isRival vs v.word := by
  cases b with
  | false => cases v <;> rfl
  | true =>
    have key : ∀ {c d : Char} {r : Text}, c.toLower = d.toLower →
        isRival vs (c :: r) = isRival vs (d :: r) := by
      intro c d r h
      funext w
      simp [isRival, Text.opensLike, Text.fits, Text.lowerPlain_cons, h]
    cases v <;> exact key (by rfl)

theorem match?_eq_none {vs ws : List Text} {o : Text} {w : Wording}
    (hw : isRival vs o w = false) (h : Text.AllFrom vs ws) (hs : ∀ u ∈ o :: ws, ' ' ∉ u) :
    w.template.match? (Text.unwords (o :: ws)) = none := by
  cases o with
  | nil => cases hw
  | cons c v =>
    exact matchAfter?_unwords_eq_none hw h (fun u hu => hs u (List.mem_cons_of_mem _ hu))
      (hs _ (by simp)) none

/-- No wording but `w` can match such a text. -/
def isUnrivalled (vs : List Text) (o : Text) (w : Wording) : Bool :=
  Wording.all.all fun u => u == w || !isRival vs o u

/-- A wording without rivals is the best one if it matches. -/
theorem best?_of_isUnrivalled {vs ws : List Text} {o : Text} {w : Wording} {m : Match Slot}
    (hr : isUnrivalled vs o w = true) (h : Text.AllFrom vs ws) (hs : ∀ u ∈ o :: ws, ' ' ∉ u)
    (hm : w.template.match? (Text.unwords (o :: ws)) = some m) :
    Wording.best? (Text.unwords (o :: ws)) = some (w, m) := by
  refine Wording.best?_of_forall_ne hm fun u hu => match?_eq_none ?_ h hs
  have := List.all_eq_true.1 hr u u.mem_all
  simpa [hu] using this

/-- No other wording than its own can match an action. -/
theorem isUnrivalled_wording (v : Verb) : isUnrivalled v.vocabulary v.word v.wording = true := by
  cases v <;> decide +kernel

/-- The wording of its verb is the best one for words of the verb's vocabulary behind it. -/
theorem best?_unwords {v : Verb} {ws : List Text} (h : Text.AllFrom v.vocabulary ws) {b : Bool}
    {m : Match Slot}
    (hm : v.wording.template.match? (Text.unwords (capitalize b v.word :: ws)) = some m) :
    Wording.best? (Text.unwords (capitalize b v.word :: ws)) = some (v.wording, m) := by
  refine best?_of_isUnrivalled ?_ h (fun u hu => ?_) hm
  · rw [isUnrivalled, isRival_capitalize]
    exact isUnrivalled_wording v
  · rcases List.mem_cons.1 hu with rfl | hu
    · cases b <;> cases v <;> decide
    · exact h.not_mem_space (by cases v <;> rfl) u hu

theorem best?_text {a : Action} {b : Bool} {m : Match Slot}
    (hm : a.verb.wording.template.match? (a.text b) = some m) :
    Wording.best? (a.text b) = some (a.verb.wording, m) :=
  best?_unwords (allFrom_following a) hm

/-! ### Phrases and numbers in their places -/

/-- A core phrase names one selector. -/
theorem breakCompound?_text (p : Phrase) : Selector.breakCompound? p.text = none := by
  have hb : Text.breakAt? Selector.afterJoint? p.text = none := by
    by_contra hn
    obtain ⟨b, hb⟩ := Option.ne_none_iff_exists'.1 hn
    obtain ⟨s, ht, hj⟩ := Text.exists_of_breakAt? hb
    rw [Selector.afterJoint?] at hj
    split at hj
    · next he =>
      refine not_isInfix_text (t := Selector.joint) (by rfl) p ?_
      rw [fold_text, ht, Text.lowerPlain_append]
      have hp : Selector.joint.lowerPlain <+: s.lowerPlain := by
        rw [show Selector.joint.lowerPlain = Selector.joint by rfl, ← he]
        exact (List.take_prefix _ _).map _
      exact hp.isInfix.trans (List.suffix_append _ _).isInfix
    · cases hj
  rw [Selector.breakCompound?, hb]

theorem targets_text (scope : Scope) (p : Phrase) :
    scope.targets (some p.text) = (p.selector, []) := by
  have hs := isSentence_text p
  rw [Scope.targets_eq (breakCompound?_text p) hs.trim_eq hs.ne_nil, Scope.selector,
    ofPhrase_text]

/-! ### Amounts -/

/-- A written number is a count of an amount unless it is out of range. -/
theorem integerOfCount?_ofNat_eq (n : Nat) : Amount.integerOfCount? (Text.ofNat n) =
    if (n : Int) < Text.integerBound then some (n : Int) else none := by
  rw [Amount.integerOfCount?, Text.count?_ofNat_eq, Text.natural?_ofNat_eq]
  split_ifs with h₁ h₂ h₂
  · simp [h₂]
  · simpa using h₂
  · simp only [Text.integerBound, Text.naturalBound] at h₁ h₂
    omega
  · rfl

/-- A written number is an amount unless it is out of range. -/
theorem ofText?_ofNat_eq (n : Nat) : Amount.ofText? (Text.ofNat n) =
    if (n : Int) < Text.integerBound then some (.exact n) else none := by
  have hu : "up to ".toList.isPrefixOf? (Text.ofNat n) = none := by
    obtain ⟨c, r, hr, hc⟩ := Text.exists_ofNat_eq_cons n
    rw [hr]
    refine Text.isPrefixOf?_cons_of_ne ?_ _ r
    rintro rfl
    cases hc
  rw [Amount.ofText?, Text.trim_ofNat, Text.fold_ofNat]
  simp only [hu]
  rw [if_neg (Text.ofNat_ne (by rfl)), if_neg (Text.ofNat_ne (by rfl)), Text.signed?_ofNat_eq,
    integerOfCount?_ofNat_eq]
  split_ifs <;> rfl

/-- A number that counts as zero if it is out of range. -/
def orZero (n : Nat) : Int := if (n : Int) < Text.integerBound then n else 0

theorem orZero_value (k : Count) : orZero k.value = k.value := if_pos k.value_lt

/-- A number behind "up to". -/
def upTo (n : Nat) : Text := "up to ".toList ++ Text.ofNat n

theorem upTo_eq (n : Nat) : upTo n = "up to ".toList ++ Text.ofNat n := rfl

theorem upTo_ne_nil (n : Nat) : upTo n ≠ [] := by simp [upTo_eq]

theorem trim_upTo (n : Nat) : (upTo n).trim = upTo n := by
  refine Text.trim_eq_self (by rintro c ⟨⟩; rfl) fun c hc => ?_
  rw [upTo_eq, List.getLast?_append, List.getLast?_eq_some_getLast (Text.ofNat_ne_nil n)] at hc
  obtain rfl := Option.some.inj hc
  exact Text.isBlank_of_isDigit (Text.isDigit_of_mem_ofNat (List.getLast_mem _))

/-- A number behind "up to" is a limit unless it is out of range. -/
theorem ofText?_upTo_eq (n : Nat) : Amount.ofText? (upTo n) =
    if (n : Int) < Text.integerBound then some (.upTo n) else none := by
  have hf : (upTo n).fold = upTo n := by
    rw [upTo_eq, Text.fold_append, Text.fold_ofNat]
    rfl
  rw [Amount.ofText?, trim_upTo, hf, upTo_eq]
  simp only [Text.isPrefixOf?_append, Text.trim_ofNat, integerOfCount?_ofNat_eq]
  split_ifs <;> rfl

theorem ofText?_upTo (k : Count) : Amount.ofText? (upTo k.value) = some (.upTo k.value) := by
  rw [ofText?_upTo_eq, if_pos k.value_lt]

section Places

variable {t r u : Text} {ms : List (Slot × Text × Text)} {k : Count}

theorem amount?_ofNat_eq {n : Nat} :
    Wording.amount? ⟨t, r, (.number, Text.ofNat n ++ u, u) :: ms⟩ =
      if (n : Int) < Text.integerBound then some (.exact n) else none := by
  have hs : Match.slot? ⟨t, r, (.number, Text.ofNat n ++ u, u) :: ms⟩ Slot.number =
      some (Text.ofNat n) := by rw [slot?_cons_self, between_append]
  rw [Wording.amount?, Wording.filling?_eq hs (Text.trim_ofNat _) (Text.ofNat_ne_nil _)]
  exact ofText?_ofNat_eq n

theorem amount?_ofNat :
    Wording.amount? ⟨t, r, (.number, Text.ofNat k.value ++ u, u) :: ms⟩ =
      some (.exact k.value) := by
  rw [amount?_ofNat_eq, if_pos k.value_lt]

theorem amount?_upTo :
    Wording.amount? ⟨t, r, (.number, upTo k.value ++ u, u) :: ms⟩ = some (.upTo k.value) := by
  have hs : Match.slot? ⟨t, r, (.number, upTo k.value ++ u, u) :: ms⟩ Slot.number =
      some (upTo k.value) := by rw [slot?_cons_self, between_append]
  rw [Wording.amount?, Wording.filling?_eq hs (trim_upTo _) (upTo_ne_nil _)]
  exact ofText?_upTo k

end Places

/-! ### The words of a verb -/

theorem following_ne_nil (a : Action) : a.following ≠ [] := by
  have hp : ∀ p : Phrase, p.words ≠ [] := fun p =>
    List.append_ne_nil_of_left_ne_nil (frontWords_ne_nil p) _
  cases a with
  | banish p | exert p | ready p => exact hp p
  | _ => simp [Action.following, Text.lexicon]

/-- An action is its verb, a space and what follows. -/
theorem text_eq (b : Bool) (a : Action) :
    a.text b = capitalize b a.verb.word ++ ' ' :: Text.unwords a.following :=
  Text.unwords_cons (following_ne_nil a) _

theorem lowerPlain_capitalize (b : Bool) (v : Verb) :
    (capitalize b v.word).lowerPlain = v.word.lowerPlain := by
  cases b <;> cases v <;> rfl

/-- A verb in front of other words, with the space behind it. -/
theorem leads_verb {σ : Type} (b : Bool) (v : Verb) {ws : List Text} (hne : ws ≠ [])
    (x : Option Char) (ms : List (σ × Text × Text)) :
    Leads (lit (v.word ++ [' '])) ⟨x, Text.unwords (capitalize b v.word :: ws), ms⟩
      ⟨some ' ', Text.unwords ws, ms⟩ := by
  have hl : (capitalize b v.word ++ [' ']).lowerPlain = Text.lowerPlain (v.word ++ [' ']) := by
    rw [Text.lowerPlain_append, Text.lowerPlain_append, lowerPlain_capitalize]
  have hr : Leads (lit (v.word ++ [' ']))
      ⟨x, (capitalize b v.word ++ [' ']) ++ Text.unwords ws, ms⟩ ⟨_, Text.unwords ws, ms⟩ := .lit hl
  rwa [List.append_assoc, List.singleton_append, ← Text.unwords_cons hne, List.getLast?_concat,
    Option.some_or] at hr

/-! ### Actions on objects -/

section Objects

variable {t r u : Text} {ms : List (Slot × Text × Text)} {p : Phrase} {e : Effect} {scope : Scope}

/-- A phrase at the end of an action fills the target, and nothing is left. -/
theorem leads_object (hu : u.IsSentence) {x : Option Char} :
    Leads (phrase [Wording.objectToEnd, stop]) ⟨x, u, ms⟩
      ⟨u.getLast?, [], (.target, u, []) :: ms⟩ :=
  .cons (.slot _ (.longest_all (fun _ => hu.inline) hu.ne_nil)) (.cons .stop .nil)

theorem filling?_target (hu : u.IsSentence) :
    Match.filling? ⟨t, r, (.target, u, []) :: ms⟩ .target = some u := by
  have hs : Match.slot? ⟨t, r, (.target, u, []) :: ms⟩ Slot.target = some u := by
    rw [slot?_cons_self, between_nil]
  exact Wording.filling?_eq hs hu.trim_eq hu.ne_nil

/-- The step of an action on a phrase by an amount. -/
theorem onTargetBy_eq (hu : u.IsSentence) (hc : Selector.breakCompound? u = none)
    {x : Option Amount}
    (hx : Wording.amount? ⟨t, r, ms⟩ = x) :
    Wording.onTargetBy e ⟨t, r, (.target, u, []) :: ms⟩ scope =
      [{ effect := e, target := scope.selector u, amount := x }] := by
  have hn : Wording.amount? ⟨t, r, (.target, u, []) :: ms⟩ = x := by
    rw [← hx, Wording.amount?, Wording.amount?, Match.filling?, Match.filling?,
      slot?_cons_ne (by simp)]
  simp only [Wording.onTargetBy, hn, Scope.step, filling?_target hu,
    Scope.targets_eq hc hu.trim_eq hu.ne_nil]

/-- The step of an action on a core phrase by an amount. -/
theorem onTargetBy_text {x : Option Amount} (hx : Wording.amount? ⟨t, r, ms⟩ = x) :
    Wording.onTargetBy e ⟨t, r, (.target, p.text, []) :: ms⟩ scope =
      [{ effect := e, target := p.selector, amount := x }] := by
  rw [onTargetBy_eq (isSentence_text p) (breakCompound?_text p) hx, Scope.selector, ofPhrase_text]

/-- The step of an action that is its verb and a core phrase. -/
theorem ofAction?_onTarget {a : Action} (b : Bool) (ha : a.following = p.words)
    (ht : a.verb.wording.template =
      phrase [lit (a.verb.word ++ [' ']), Wording.objectToEnd, stop])
    (hr : a.verb.wording.read = Wording.onTarget e) :
    Step.ofAction? scope (a.text b) = some [{ effect := e, target := p.selector }] := by
  have hl : Leads a.verb.wording.template ⟨none, a.text b, []⟩
      ⟨p.text.getLast?, [], [(.target, p.text, [])]⟩ := by
    rw [ht]
    exact (leads_verb b a.verb (following_ne_nil a) none []).cons
      (by rw [ha]; exact leads_object (isSentence_text p))
  refine Step.ofAction?_of_best? (best?_text hl.matchAfter?) rfl ?_
  simp [hr, Wording.onTarget, Scope.step, filling?_target (isSentence_text p), targets_text]

end Objects

/-! ### Actions by an amount -/

/-- Words that begin with letters are dead ends in front of a number. -/
theorem ends_oneOf_ofNat {σ : Type} {x : Option Char} {ms : List (σ × Text × Text)} (n : Nat)
    (r : Text) {ws : List String} (hne : ws ≠ [])
    (hw : (ws.all fun w => w.toList.head?.any fun c => !c.toLower.isDigit) = true) :
    ends (oneOf ws) ⟨x, Text.ofNat n ++ r, ms⟩ = [] := by
  have hl : ∀ w : String, (w.toList.head?.any fun c => !c.toLower.isDigit) = true →
      ends (lit w.toList) ⟨x, Text.ofNat n ++ r, ms⟩ = [] := by
    intro w hw
    rcases hc : w.toList with _ | ⟨c, v⟩
    · rw [hc] at hw; cases hw
    · rw [hc] at hw
      exact ends_lit_ofNat (by simpa using hw) n r
  induction ws with
  | nil => exact absurd rfl hne
  | cons w ws ih =>
    rw [List.all_cons, Bool.and_eq_true] at hw
    rcases ws with _ | ⟨v, ws⟩
    · exact hl w hw.1
    · exact ends_alt_eq_nil (hl w hw.1) (ih (by simp) hw.2)

/-- A number without "up to" in its place. -/
theorem leads_number (x : Option Char) (ms : List (Slot × Text × Text)) {n : Nat} {r : Text}
    {t : Template Slot} (ht : Leads t ⟨x, Text.ofNat n ++ r, ms⟩ ⟨(Text.ofNat n).getLast?, r, ms⟩) :
    Leads (slot .number (alt Wording.upToDigits t)) ⟨x, Text.ofNat n ++ r, ms⟩
      ⟨(Text.ofNat n).getLast?, r, (.number, Text.ofNat n ++ r, r) :: ms⟩ :=
  .slot _ (.right (ends_phrase_eq_nil (ends_lit_ofNat (by decide) _ _)) ht)

/-- A number behind "up to" in its place. -/
theorem leads_upTo (x : Option Char) (ms : List (Slot × Text × Text)) (n : Nat) {r : Text}
    (hr : r.head?.any Char.isDigit = false) {t : Template Slot} :
    Leads (slot .number (alt Wording.upToDigits t)) ⟨x, upTo n ++ r, ms⟩
      ⟨(Text.ofNat n).getLast?, r, (.number, upTo n ++ r, r) :: ms⟩ := by
  refine .slot (d := ⟨(Text.ofNat n).getLast?, r, ms⟩) _ (.left ?_)
  rw [upTo_eq, List.append_assoc]
  exact .cons (.lit rfl) (.cons (leads_digits n hr) .nil)

theorem unwords_cons_words (w : Text) (p : Phrase) :
    Text.unwords (w :: p.words) = w ++ ' ' :: p.text :=
  Text.unwords_cons (following_ne_nil (.banish p)) w

/-- An amount of damage in front of a phrase, behind the verb. -/
theorem leads_damage {u : Text} (hu : u.IsSentence) (n : Nat) :
    Leads (phrase [slot .number (alt Wording.upToDigits (alt digits
        (oneOf ["a", "an", "one", "two", "three", "four", "five"]))), " damage to ",
        Wording.objectToEnd, stop])
      ⟨some ' ', Text.ofNat n ++ (" damage to ".toList ++ u), []⟩
      ⟨u.getLast?, [], [(.target, u, []),
        (.number, Text.ofNat n ++ (" damage to ".toList ++ u), " damage to ".toList ++ u)]⟩ :=
  (leads_number (some ' ') [] (.left (leads_digits n rfl))).cons
    ((Leads.lit (w := " damage to ".toList) rfl).cons (leads_object hu))

/-- Damage that is dealt; a number out of range is no amount. -/
theorem ofAction?_dealWords (scope : Scope) (b : Bool) (n : Nat) (p : Phrase) :
    Step.ofAction? scope (Text.unwords (capitalize b "deal".toList :: dealtWords n p)) =
      some [{ effect := .damage
              target := p.selector
              amount := if (n : Int) < Text.integerBound then some (.exact n) else none }] := by
  have hf : Text.unwords (dealtWords n p) =
      Text.ofNat n ++ (" damage to ".toList ++ p.text) := by
    change Text.unwords (Text.ofNat n :: "damage".toList :: "to".toList :: p.words) = _
    rw [Text.unwords_cons_cons, Text.unwords_cons_cons, unwords_cons_words]
    rfl
  have hne : dealtWords n p ≠ [] := by simp [dealtWords]
  have hv := leads_verb b .deal hne none ([] : List (Slot × Text × Text))
  rw [hf] at hv
  have hl := hv.cons (leads_damage (isSentence_text p) n)
  refine Step.ofAction?_of_best? (best?_unwords (allFrom_dealtWords n p) hl.matchAfter?) rfl ?_
  exact onTargetBy_text amount?_ofNat_eq

theorem ofAction?_deal (scope : Scope) (b : Bool) (k : Count) (p : Phrase) :
    Step.ofAction? scope (Action.text b (.deal k p)) = some [(Action.deal k p).step] := by
  have h := ofAction?_dealWords scope b k.value p
  rw [if_pos k.value_lt] at h
  exact h

theorem ofAction?_remove (scope : Scope) (b : Bool) (k : Count) (p : Phrase) :
    Step.ofAction? scope (Action.text b (.remove k p)) = some [(Action.remove k p).step] := by
  have hf : Text.unwords (Action.remove k p).following =
      upTo k.value ++ (" damage ".toList ++ ("from ".toList ++ p.text)) := by
    change Text.unwords ("up".toList :: "to".toList :: Text.ofNat k.value :: "damage".toList ::
      "from".toList :: p.words) = _
    simp only [Text.unwords_cons_cons, unwords_cons_words]
    rfl
  have hv := leads_verb b .remove (following_ne_nil (.remove k p)) none
    ([] : List (Slot × Text × Text))
  have hn := leads_upTo (some ' ') [] k.value (r := " damage ".toList ++ ("from ".toList ++ p.text))
    (t := alt digits "all") rfl
  rw [hf] at hv
  have ho : ∀ {x : Option Char} {ms : List (Slot × Text × Text)},
      Leads (phrase [opt [oneOf ["counters ", "counter "]], "from ", Wording.objectToEnd, stop])
        ⟨x, "from ".toList ++ p.text, ms⟩ ⟨p.text.getLast?, [], (.target, p.text, []) :: ms⟩ :=
    .cons (.skip (by rfl)) ((Leads.lit (w := "from ".toList) rfl).cons
      (leads_object (isSentence_text p)))
  have hl := hv.cons (hn.cons ((Leads.lit (w := " damage ".toList) rfl).cons ho))
  refine Step.ofAction?_of_best? (best?_text hl.matchAfter?) rfl ?_
  exact onTargetBy_text amount?_upTo

/-! ### Actions of players -/

theorem ends_opt {σ : Type} (ts : List (Template σ)) (c : Cursor σ) :
    ends (opt ts) c = ends (phrase ts) c ++ [c] := rfl

theorem exists_capitalize (b : Bool) (v : Verb) :
    ∃ c d r, v.word = d :: r ∧ capitalize b v.word = c :: r := by
  cases v <;> cases b <;> exact ⟨_, _, _, rfl, rfl⟩

/-- Where the verb of an action stands nowhere behind its start, the action has no subject. -/
theorem leads_noSubject {a : Action} {b : Bool} {ts : List (Template Slot)} {d : Cursor Slot}
    (ht : admits (Text.fits (a.verb.word.tail :: a.verb.vocabulary))
      (Text.fits (a.verb.word.tail :: a.verb.vocabulary)) (phrase ts) = false)
    (hd : Leads (phrase ts) ⟨none, a.text b, []⟩ d) :
    Leads (phrase (Wording.subject :: ts)) ⟨none, a.text b, []⟩ d := by
  refine .cons_of_ends (ends_opt _ _) (fun x hx => ?_) hd
  obtain ⟨c, e, r, hv, hc⟩ := exists_capitalize b a.verb
  have hs := spaceless ((allFrom_actionWords b a).of_append_right _)
  have hw := length_of_mem_ends hx
  have hx := rest_isSuffix_of_mem_ends hx
  simp only [phrase, List.foldr, width, words] at hw
  rw [hv, List.tail_cons] at ht
  rw [Action.words, hc] at hs
  rw [Action.text, Action.words, hc] at hx hw
  refine ends_unwords_eq_nil ht (allFrom_following a) (fun w hw => hs w (by simp [hw])) ?_ hx
    (by omega)
  exact fun hm => hs (c :: r) (by simp) (List.mem_cons_of_mem c hm)

/-- Without a subject the player is the controller. -/
theorem player_eq_you {scope : Scope} {t r : Text} {ms : List (Slot × Text × Text)}
    (h : ∀ e ∈ ms, e.1 ≠ .target) :
    scope.player (Match.filling? ⟨t, r, ms⟩ .target) = .you := by
  have hs : Match.slot? ⟨t, r, ms⟩ Slot.target = none := by
    simpa [Match.slot?] using fun a b c h' => h _ h'
  rw [Match.filling?, hs]
  rfl

theorem ofAction?_draw {scope : Scope} (hs : scope.counted = none) (b : Bool) (k : Count) :
    Step.ofAction? scope (Action.text b (.draw k)) = some [(Action.draw k).step] := by
  have hf : Action.text b (.draw k) = capitalize b "draw".toList ++
      (" ".toList ++ (Text.ofNat k.value ++ (" card".toList ++ "s".toList))) := by
    rw [text_eq]
    change _ ++ ' ' :: Text.unwords [Text.ofNat k.value, "cards".toList] = _
    rw [Text.unwords_cons_cons, Text.unwords_singleton]
    rfl
  have hv : Leads (oneOf ["draws", "draw"] : Template Slot) ⟨none, Action.text b (.draw k), []⟩
      ⟨some 'w', " ".toList ++ (Text.ofNat k.value ++ (" card".toList ++ "s".toList)), []⟩ := by
    rw [hf]
    cases b <;> rfl
  have hn := leads_number (some ' ') []
    (t := alt (oneOf ["a", "an", "one", "two", "three", "four", "five"]) digits)
    (.right (ends_oneOf_ofNat k.value _ (by simp) (by rfl))
      (leads_digits k.value (r := " card".toList ++ "s".toList) rfl))
  have he : ∀ {x : Option Char} {ms : List (Slot × Text × Text)},
      Leads (phrase [" card", opt ["s"]]) ⟨x, " card".toList ++ "s".toList, ms⟩
        ⟨some 's', [], ms⟩ :=
    .cons (.lit rfl) (.cons (.left (.cons (.lit (v := "s".toList) (r := []) rfl) .nil)) .nil)
  have hl := leads_noSubject (a := .draw k) (by rfl)
    (hv.cons ((Leads.lit (w := " ".toList) rfl).cons (hn.cons he)))
  refine Step.ofAction?_of_best? (best?_text hl.matchAfter?) rfl ?_
  change Wording.byPlayer .drawCards _ scope _ = _
  rw [amount?_ofNat, Wording.byPlayer, player_eq_you (by simp)]
  simp [Scope.scaled, hs, Action.step]

/-! ### Lore -/

/-- The verbs of lore changes. -/
def loreVerb : Template Slot := oneOf ["gains", "gain", "loses", "lose"]

/-- The number behind the verb of a lore change. -/
theorem leads_lore (n : Nat) {x : Option Char} {ms : List (Slot × Text × Text)} :
    Leads (phrase [" ", slot .number (alt Wording.upToDigits digits), " lore"])
      ⟨x, " ".toList ++ (Text.ofNat n ++ " lore".toList), ms⟩
      ⟨some 'e', [], (.number, Text.ofNat n ++ " lore".toList, " lore".toList) :: ms⟩ :=
  .cons (.lit rfl) (.cons (leads_number _ _ (leads_digits n rfl))
    (.cons (.lit (v := " lore".toList) (r := []) rfl) .nil))

theorem lore_eq {scope : Scope} {m : Match Slot} {x : Option Amount} {v : Text}
    (hs : scope.counted = none) (hn : Wording.amount? m = x)
    (hv : m.filling? .verb = some v) :
    Wording.lore m scope =
      [{ effect := .loreChange
         target := scope.player (m.filling? .target)
         amount := some (if "lose".toList.isPrefixOf v.fold then (x.getD (.exact 0)).negate
          else x.getD (.exact 0)) }] := by
  simp only [Wording.lore, hn, hv, Option.getD_some, Wording.byPlayer]
  split_ifs <;> simp [Scope.scaled, hs]

theorem filling?_verb {t r u v : Text} {e : Slot × Text × Text} {ms : List (Slot × Text × Text)}
    (he : e.1 ≠ .verb) (hv : v.trim = v) (hne : v ≠ []) :
    Match.filling? ⟨t, r, e :: (.verb, v ++ u, u) :: ms⟩ .verb = some v := by
  refine Wording.filling?_eq ?_ hv hne
  rw [slot?_cons_ne he, slot?_cons_self, between_append]

theorem ofAction?_gain {scope : Scope} (hs : scope.counted = none) (b : Bool) (k : Count) :
    Step.ofAction? scope (Action.text b (.gain k)) = some [(Action.gain k).step] := by
  have hf : Action.text b (.gain k) = capitalize b "gain".toList ++
      (" ".toList ++ (Text.ofNat k.value ++ " lore".toList)) := by
    rw [text_eq]
    change _ ++ ' ' :: Text.unwords [Text.ofNat k.value, "lore".toList] = _
    rw [Text.unwords_cons_cons, Text.unwords_singleton]
    rfl
  have hv : Leads loreVerb ⟨none, Action.text b (.gain k), []⟩
      ⟨some 'n', " ".toList ++ (Text.ofNat k.value ++ " lore".toList), []⟩ := by
    rw [hf]
    cases b <;> rfl
  have hl := leads_noSubject (a := .gain k) (by rfl) ((hv.slot .verb).cons (leads_lore k.value))
  have hfill : ∀ {t r : Text} {e : Slot × Text × Text}, e.1 ≠ .verb → Match.filling? ⟨t, r,
      [e, (.verb, Action.text b (.gain k), " ".toList ++ (Text.ofNat k.value ++ " lore".toList))]⟩
      .verb = some (capitalize b "gain".toList) := fun he =>
    hf ▸ filling?_verb he (by cases b <;> rfl) (by cases b <;> simp [capitalize])
  refine Step.ofAction?_of_best? (best?_text hl.matchAfter?) rfl ?_
  refine (lore_eq hs amount?_ofNat (hfill (by simp))).trans ?_
  rw [player_eq_you (by simp)]
  cases b <;> rfl

theorem isUnrivalled_loreChange :
    isUnrivalled (Text.lexicon ["opponent", "loses", "lore"]) "Each".toList .loreChange = true := by
  decide +kernel

/-- A subject of two words fills the target. -/
theorem filling?_subject {t r u v w : Text} {e e' : Slot × Text × Text} (he : e.1 ≠ .target)
    (he' : e'.1 ≠ .target) (ht : (u ++ ' ' :: v).trim = u ++ ' ' :: v) :
    Match.filling? ⟨t, r, [e, e', (.target, u ++ ' ' :: (v ++ ' ' :: w), ' ' :: w)]⟩ .target =
      some (u ++ ' ' :: v) := by
  refine Wording.filling?_eq ?_ ht (by simp)
  rw [slot?_cons_ne he, slot?_cons_ne he', slot?_cons_self, Wording.between_subject]

/-- A loss of lore; a number out of range is none at all. -/
theorem ofAction?_loseWords {scope : Scope} (hs : scope.counted = none) (n : Nat) :
    Step.ofAction? scope (Text.unwords (loseWords n)) =
      some [{ effect := .loreChange
              target := .eachOpponent
              amount := some (.exact (-orZero n)) }] := by
  have hf : Text.unwords (loseWords n) = "Each".toList ++ ' ' :: ("opponent".toList ++
      ' ' :: ("loses".toList ++ (" ".toList ++ (Text.ofNat n ++ " lore".toList)))) := by
    change Text.unwords ["Each".toList, "opponent".toList, "loses".toList, Text.ofNat n,
      "lore".toList] = _
    simp only [Text.unwords_cons_cons, Text.unwords_singleton]
    rfl
  have hv : ∀ (r : Text) (ms : List (Slot × Text × Text)),
      Leads loreVerb ⟨some ' ', "loses".toList ++ r, ms⟩ ⟨some 's', r, ms⟩ := by
    intro r ms
    rfl
  have hverb := fun ms => ((hv _ ms).slot .verb).cons (leads_lore n)
  have hd : ∀ {ts : List (Template Slot)} {r : Text} (c : Cursor Slot),
      c.rest = "opponent".toList ++ r → ends (phrase (slot .verb loreVerb :: ts)) c = [] := by
    rintro ts r ⟨x, _, ms⟩ rfl
    exact ends_phrase_eq_nil (ends_slot_eq_nil (by rfl))
  have hl := Wording.leads_subject (u := "Each".toList) (v := "opponent".toList) (by simp)
    (by simp) (by rfl) (by simp) none [] hd (hverb _)
  rw [← hf] at hl
  have h : Text.AllFrom (Text.lexicon ["opponent", "loses", "lore"])
      (Text.lexicon ["opponent", "loses"] ++ Text.ofNat n :: Text.lexicon ["lore"]) :=
    .append (.of_contains (by rfl)) (.append (.number _ n) (.of_contains (by rfl)))
  refine Step.ofAction?_of_best? (best?_of_isUnrivalled isUnrivalled_loreChange h
    (spaceless ((allFrom_loseWords n).of_append_right _)) hl.matchAfter?) rfl ?_
  refine (lore_eq hs amount?_ofNat_eq
    (filling?_verb (by simp) (by rfl) (by simp))).trans ?_
  rw [hf, filling?_subject (by simp) (by simp) (by rfl), if_pos (by rfl), orZero]
  split_ifs <;> rfl

theorem ofAction?_lose {scope : Scope} (hs : scope.counted = none) (k : Count) :
    Step.ofAction? scope (Sentence.eachOpponentLoses k).text =
      some [(Sentence.eachOpponentLoses k).step] := by
  have h := ofAction?_loseWords hs k.value
  rw [orZero_value] at h
  exact h

/-! ### Sentences -/

/-- **A core action is read as its step**, whatever was picked before. -/
theorem ofAction?_text {scope : Scope} (hs : scope.counted = none) (b : Bool) (a : Action) :
    Step.ofAction? scope (a.text b) = some [a.step] := by
  cases a with
  | banish p | exert p | ready p => exact ofAction?_onTarget b rfl rfl rfl
  | deal k p => exact ofAction?_deal scope b k p
  | remove k p => exact ofAction?_remove scope b k p
  | draw k => exact ofAction?_draw hs b k
  | gain k => exact ofAction?_gain hs b k

/-- A core sentence is read as its step, whatever was picked before. -/
theorem ofSentence_text (ctx : Context) (antecedent : Option Selector) (s : Sentence) :
    (Step.ofSentence ctx antecedent s.text).1 = [s.step] := by
  have hne : s.words ≠ [] := by cases s <;> simp [Sentence.words, Action.words, Text.lexicon]
  have hs := isSentence_unwords (allFrom_sentenceWords s) hne
  have key : ∀ {action : Text} {o : Bool} {st : Step}, action ≠ [] →
      Modifiers.ofClause s.text = ({ optional := o }, action) →
      (∀ scope : Scope, scope.counted = none → Step.ofAction? scope action = some [st]) →
      (Step.ofSentence ctx antecedent s.text).1 = [st.modify o { optional := o }] := fun ha hm h =>
    Step.ofSentence_of_clause
      (isSingle_sentenceVocabulary.frame_unwords (allFrom_sentenceWords s) hne)
      (isSingle_sentenceVocabulary.ofSentence_unwords (allFrom_sentenceWords s) hne) hm ha (h _ rfl)
  cases s with
  | plain a =>
    have hm := isQuiet_plainVocabulary.ofClause_unwords (allFrom_actionWords true a)
      (by simp [Action.words])
    rw [key hs.ne_nil hm fun scope h => ofAction?_text h true a]
    cases a <;> rfl
  | may b a =>
    have ht : (Sentence.may b a).text = "You may ".toList ++ a.text b := by
      change Text.unwords ("You".toList :: "may".toList :: _ :: _) = _
      simp only [Text.unwords_cons_cons]
      rfl
    have ha := isSentence_unwords ((allFrom_actionWords b a).of_append_right _)
      (by simp [Action.words])
    have hm := isQuiet_plainVocabulary.ofClause_of_takeMay (allFrom_actionWords b a)
      (by simp [Action.words]) hs (ht ▸ Modifiers.takeMay_you ha)
    rw [key ha.ne_nil hm fun scope h => ofAction?_text h b a]
    cases a <;> rfl
  | eachOpponentLoses k =>
    have hm := isQuiet_plainVocabulary.ofClause_unwords (allFrom_loseWords k.value)
      (by simp [loseWords, Text.lexicon])
    rw [key hs.ne_nil hm fun scope h => ofAction?_lose h k]
    rfl

/-- **An effect of core sentences is read as it is printed**: one step for each sentence, in their
order, whatever card it stands on and whether the reading is strict or not. -/
theorem ofEffect_paragraph (ctx : Context) (ss : List Sentence) :
    Step.ofEffect ctx (Text.paragraph (ss.map Sentence.text)) = ss.map Sentence.step := by
  have hs : ∀ t ∈ ss.map Sentence.text, t.IsSentence := by
    intro t ht
    obtain ⟨s, -, rfl⟩ := List.mem_map.1 ht
    exact isSentence_unwords (allFrom_sentenceWords s)
      (by cases s <;> simp [Sentence.words, Action.words, Text.lexicon])
  rw [Step.ofEffect, Text.body_paragraph hs, Text.sentences_paragraph hs]
  exact Step.ofSentences_eq_map (fun s a => ofSentence_text ctx a s) ss none

example :
    Text.paragraph ([Sentence.may false (.remove ⟨3, by decide⟩
      { quantity := .upTo 2 (by decide), owner := .you, damaged := some true, noun := .character,
        plural := true, limit := some ⟨.strength, .atMost, 4, by decide⟩ }),
      .eachOpponentLoses ⟨1, by decide⟩].map Sentence.text) =
    ("You may remove up to 3 damage from up to 2 chosen of your damaged characters " ++
      "with 4 \x7bS\x7d or less. Each opponent loses 1 lore.").toList := by
  decide +kernel

end Core

end CardText
