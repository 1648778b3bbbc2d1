import CardText.Proofs.Selector.Limit
import CardText.Proofs.Text.Listing
import CardText.Proofs.Text.Word

/-!
# Printed selector phrases

The phrases "up to 2 chosen Hero characters with cost 3 or less", "your other exerted Pirate
characters", "opposing item" and their like: core phrases that may lack a quantity and may ask for a
classification, which is any capitalised word from outside the vocabulary.

* `Selector.Printed`, `Selector.Printed.text`, `Selector.Printed.selector`: the phrases, how they
  are printed and what they select;
* `Selector.Printed.not_mem_lower`: no other word of the vocabulary stands in such a phrase, and
  none of the filters of several words but the limit reads one (`Selector.Printed.openWalk_text`);
* `Selector.Printed.run_frontWords`: the walk over the words in front of the limit.
-/

namespace CardText

namespace Selector

open Template

/-- A word that names a classification. -/
structure Trait where
  text : Text
  all_isAlpha : text.all Char.isAlpha = true
  head_isUpper : text.head?.any Char.isUpper = true
  foreign : vocabulary.contains text.lowerPlain = false

/-- A printed selector phrase. -/
structure Printed where
  quantity : Option Core.Quantity := none
  owner : Owner := .any
  /-- The phrase has the word "other". -/
  other : Bool := false
  damaged : Option Bool := none
  exerted : Option Bool := none
  trait : Option Trait := none
  noun : Core.Noun
  plural : Bool := false
  limit : Option Core.Limit := none

namespace Printed

variable (p : Printed)

/-! ### Printing -/

/-- The words that tell whose objects are meant: "each of your items", but "your items". -/
def ownerWords : List Text :=
  match p.quantity, p.owner with
  | none, .you => Text.lexicon ["your"]
  | _, o => Core.ownerWords o

/-- The word for the classification. -/
def traitWords : List Text := (p.trait.map Trait.text).toList

/-- The words in front of the limit. -/
def frontWords : List Text :=
  (p.quantity.map Core.Quantity.words).getD [] ++ (p.ownerWords ++ (Core.otherWords p.other ++
    (Core.damagedWords p.damaged ++ (Core.exertedWords p.exerted ++ (p.traitWords ++
      p.noun.words p.plural)))))

/-- The words of the limit. -/
def limitWords : List Text := (p.limit.map Core.Limit.words).getD []

/-- The words of the phrase. -/
def words : List Text := p.frontWords ++ p.limitWords

/-- The phrase as it is printed. -/
def text : Text := Text.unwords p.words

/-! ### Meaning -/

/-- How many objects are meant. Without a word for the quantity, all objects are meant if the noun
is in the plural or an owner is named, and one chosen object otherwise. -/
def quantifier : Quantifier :=
  match p.quantity with
  | some q => q.quantifier
  | none => if p.plural || p.owner != .any then .all else .chosen 1

/-- What the phrase selects. -/
def selector : Selector :=
  { quantifier := p.quantifier
    owner := p.owner
    kinds := [p.noun.kind]
    traits := p.traitWords
    excludeSelf := p.other
    bound := p.limit.map Core.Limit.bound
    damaged := p.damaged
    exerted := p.exerted }

end Printed

/-! ### Classifications -/

namespace Trait

variable (t : Trait)

theorem isAlpha {c : Char} (hc : c ∈ t.text) : c.isAlpha = true :=
  List.all_eq_true.1 t.all_isAlpha c hc

theorem isAlphanum {c : Char} (hc : c ∈ t.text) : c.isAlphanum = true := by
  simp [Char.isAlphanum, t.isAlpha hc]

theorem fold_text : t.text.fold = t.text.lowerPlain := by
  refine Text.fold_eq_lowerPlain fun c hc => ?_
  constructor <;> rintro rfl <;> exact absurd (t.isAlpha hc) (by decide)

theorem ne_nil : t.text ≠ [] := fun h => absurd t.head_isUpper (by simp [h])

theorem isTraitWord_text : isTraitWord t.text = true := by
  have hu : isCapitalized t.text = true := by
    obtain ⟨c, r, hr⟩ := List.exists_cons_of_ne_nil t.ne_nil
    have hc : c.isUpper = true := by simpa [hr] using t.head_isUpper
    have := Text.of_isAlphanum (p := fun c => !c.isUpper || Text.isUpper c) (by decide)
      (t.isAlphanum (c := c) (by simp [hr]))
    simpa [isCapitalized, hr, hc] using this
  rw [isTraitWord, t.fold_text, t.foreign, hu]
  rfl

/-- A classification in plain letters has no possessive ending to drop. -/
theorem dropSuffixes_text : t.text.dropSuffixes "'s".toList = t.text := by
  obtain ⟨n, hn⟩ := Text.exists_dropSuffixes t.text "'s".toList
  cases n with
  | zero => simpa using hn.symm
  | succ n =>
    have hm : '\'' ∈ t.text := by
      rw [hn, List.replicate_succ]
      simp
    exact absurd (t.isAlpha hm) (by decide)

end Trait

/-! ### The filters of several words -/

section Filters

open Text

variable {part t : Text} {b : Option Char} {e : Text × Text × Text} {ws : List Text}

/-- What is found stands in the text, between characters that are no letters or numerals. -/
theorem breakOnWords?_spec (h : breakOnWords? part b t = some e) :
    t = e.1 ++ (e.2.1 ++ e.2.2) ∧ e.2.1.lowerPlain = part ∧
      (e.1.getLast?.or b).any isAlnum = false ∧ e.2.2.head?.any isAlnum = false := by
  induction t generalizing b e with
  | nil => cases h
  | cons c r ih =>
    rw [breakOnWords?] at h
    split at h
    · next hc =>
      cases h
      simpa using hc
    · obtain ⟨e, he, rfl⟩ := Option.map_eq_some_iff.1 h
      obtain ⟨hr, hp, hb, ha⟩ := ih he
      exact ⟨congrArg (c :: ·) hr, hp, by rwa [Template.getLast?_cons_or], ha⟩

/-- In a row of words in letters and numerals, the words of what is found are among them. -/
theorem mem_of_breakOnWords? (hw : ∀ w ∈ ws, ∀ c ∈ w, isAlnum c = true) (hne : ws ≠ [])
    (h : breakOnWords? part none (unwords ws) = some e) :
    ∀ q ∈ cut (· == ' ') part, q ∈ ws.map lowerPlain := by
  obtain ⟨ht, rfl, hb, ha⟩ := breakOnWords?_spec h
  have hspace : ∀ c ∈ unwords ws, isAlnum c = false → c = ' ' := fun c hc hn => by
    rcases mem_unwords hc with rfl | ⟨w, hm, hcw⟩
    · rfl
    · rw [hw w hm c hcw] at hn
      cases hn
  refine mem_of_part (a := lowerPlain e.1) (b := lowerPlain e.2.2) ?_ (by simpa using hne) ?_ ?_ ?_
  · intro w hw' hs
    obtain ⟨v, hv, rfl⟩ := List.mem_map.1 hw'
    exact not_mem_lowerPlain (fun hc => absurd (hw v hv ' ' hc) (by decide)) hs
  · rw [← lowerPlain_unwords, ht, lowerPlain_append, lowerPlain_append]
  · rcases List.eq_nil_or_concat e.1 with h₁ | ⟨a, c, h₁⟩
    · exact .inl (by rw [h₁]; rfl)
    · have := hspace c (by rw [ht, h₁]; simp) (by simpa [h₁] using hb)
      exact .inr ⟨lowerPlain a, by simp [h₁, this]⟩
  · rcases h₂ : e.2.2 with _ | ⟨c, r⟩
    · exact .inl rfl
    · have := hspace c (by rw [ht, h₂]; simp) (by simpa [h₂] using ha)
      exact .inr ⟨lowerPlain r, by simp [this]⟩

end Filters

namespace Printed

/-! ### The walk -/

section Walk

variable {w : Walk} {rest : List Text}

theorem run_quantityWords (q : Option Core.Quantity) (hw : w.trait = [])
    (hq : w.quantifier = none) :
    Walk.run ((q.map Core.Quantity.words).getD [] ++ rest) w =
      Walk.run rest { w with quantifier := q.map Core.Quantity.quantifier } := by
  cases q with
  | none => exact congrArg (Walk.run rest) (by simp [← hq])
  | some q => exact Core.run_quantity q hw hq

theorem run_ownerWords (p : Printed) (hw : w.trait = []) (ho : w.selector.owner = .any) :
    Walk.run (p.ownerWords ++ rest) w = Walk.run rest { w with selector.owner := p.owner } := by
  rw [ownerWords]
  split
  · next h =>
    rw [h]
    exact Core.run_cons (r := .owned .you) (by rfl) (by rfl) (by decide) (by decide) hw
  · exact Core.run_owner p.owner hw ho

/-- The classification is read up to the noun. -/
theorem run_traitWords (p : Printed) (hw : w.trait = []) (ht : w.selector.traits = []) :
    Walk.run (p.traitWords ++ p.noun.words p.plural) w =
      { w with selector.traits := p.traitWords }.noun p.noun.kind p.plural := by
  rw [traitWords]
  cases p.trait with
  | none => exact (Core.run_noun p.noun p.plural hw).trans (by simp [← ht])
  | some t =>
    have hs : w.selector.withTrait t.text = { w.selector with traits := [t.text] } := by
      simp only [withTrait, t.dropSuffixes_text, ht]
      rfl
    have hflush : Walk.flush { w with trait := [t.text] } =
        { w with selector.traits := [t.text], trait := [] } := by
      rw [← hs]
      simp [Walk.flush]
    have hnoun : Walk.run (p.noun.words p.plural) { w with trait := [t.text] } =
        Walk.run (p.noun.words p.plural) { w with selector.traits := [t.text], trait := [] } := by
      rw [← hflush]
      cases p.noun <;> cases p.plural <;> exact Walk.run_flush (by rfl)
    change Walk.run (t.text :: p.noun.words p.plural) w = _
    rw [Walk.run, if_pos t.isTraitWord_text, hw, List.nil_append, hnoun, Core.run_noun _ _ rfl]
    simp

end Walk

/-- **The walk over a printed phrase** reads what it selects, but for its limit. -/
theorem run_frontWords (p : Printed) (b : Option Bound) :
    (Walk.run p.frontWords { selector := { quantifier := .chosen 1, bound := b } }).result =
      { p.selector with bound := b } := by
  rw [frontWords, run_quantityWords _ rfl rfl, run_ownerWords _ rfl rfl, Core.run_other _ rfl rfl,
    Core.run_damaged _ rfl rfl, Core.run_exerted _ rfl rfl, run_traitWords _ rfl rfl]
  rw [selector, quantifier]
  cases p.quantity <;> simp [Walk.result, Walk.noun, withKind]

/-! ### The words of a phrase -/

section Words

open Text

variable (p : Printed)

theorem allFrom_traitWords (vs : List Text) : AllFrom (p.traitWords ++ vs) p.traitWords :=
  fun _ hw => .inl (List.mem_append_left _ hw)

theorem allFrom_ownerWords : AllFrom Core.frontVocabulary p.ownerWords := by
  rw [ownerWords]
  split
  · exact .of_contains (by rfl)
  · exact Core.allFrom_ownerWords p.owner

theorem allFrom_frontWords : AllFrom (p.traitWords ++ Core.frontVocabulary) p.frontWords := by
  have hq : AllFrom Core.frontVocabulary ((p.quantity.map Core.Quantity.words).getD []) := by
    cases p.quantity with
    | none => exact .of_contains (by rfl)
    | some q => exact q.allFrom_words
  have lift : ∀ {ws}, AllFrom Core.frontVocabulary ws →
      AllFrom (p.traitWords ++ Core.frontVocabulary) ws := .of_append_right _
  exact (lift hq).append ((lift p.allFrom_ownerWords).append
    ((lift (Core.allFrom_otherWords p.other)).append
      ((lift (Core.allFrom_damagedWords p.damaged)).append
        ((lift (Core.allFrom_exertedWords p.exerted)).append
          ((p.allFrom_traitWords _).append (lift (p.noun.allFrom_words p.plural)))))))

theorem allFrom_limitWords : AllFrom Core.vocabulary p.limitWords := by
  rw [limitWords]
  cases p.limit with
  | none => exact .of_contains (by rfl)
  | some l =>
    refine (Core.allFrom_limitWords l).mono ?_
    cases l.measure <;> rfl

theorem allFrom_words : AllFrom (p.traitWords ++ Core.vocabulary) p.words := by
  refine .append (fun w hw => (p.allFrom_frontWords w hw).imp_left fun h => ?_)
    (.of_append_right _ p.allFrom_limitWords)
  exact (List.mem_append.1 h).elim (List.mem_append_left _) fun hv =>
    List.mem_append_right _ (List.mem_append_left _ hv)

variable {p}

/-- In words that are from the phrase's classification and from a list, each word in lower case is
the classification, a word of the list or a number. -/
theorem mem_lower_cases {vs ws : List Text} (h : AllFrom (p.traitWords ++ vs) ws) {k : Text}
    (hm : k ∈ ws.map lowerPlain) : (∃ t, p.trait = some t ∧ t.text.lowerPlain = k) ∨
      k ∈ vs.map lowerPlain ∨ k.all Char.isDigit = true := by
  obtain ⟨w, hw, rfl⟩ := List.mem_map.1 hm
  rcases h w hw with h | ⟨n, rfl⟩
  · rcases List.mem_append.1 h with h | h
    · rw [traitWords, Option.mem_toList, Option.map_eq_some_iff] at h
      obtain ⟨t, ht, rfl⟩ := h
      exact .inl ⟨t, ht, rfl⟩
    · exact .inr (.inl (List.mem_map_of_mem h))
  · exact .inr (.inr (by rw [lowerPlain_ofNat, all_isDigit_ofNat]))

/-- **No other word of the vocabulary** stands in such words. -/
theorem not_mem_lower {vs ws : List Text} (h : AllFrom (p.traitWords ++ vs) ws) {k : Text}
    (hk : vocabulary.contains k = true) (hvs : (vs.map lowerPlain).contains k = false) :
    k ∉ ws.map lowerPlain := by
  intro hm
  rcases mem_lower_cases h hm with ⟨t, -, rfl⟩ | hv | hd
  · rw [t.foreign] at hk
    cases hk
  · rw [List.contains_iff_mem.2 hv] at hvs
    cases hvs
  · have hall : vocabulary.all (fun v => !v.all Char.isDigit) = true := by rfl
    have := List.all_eq_true.1 hall k (List.contains_iff_mem.1 hk)
    rw [hd] at this
    cases this

theorem isAlphanum_of_mem {w : Text} (hw : w ∈ p.frontWords) :
    w ≠ [] ∧ ∀ c ∈ w, c.isAlphanum = true := by
  have hn : ∀ n, (!(ofNat n).isEmpty && (ofNat n).all Char.isAlphanum) = true := fun n => by
    have := ofNat_ne_nil n
    simpa [this] using fun c hc => of_isDigit (p := Char.isAlphanum) (by rfl)
      (isDigit_of_mem_ofNat hc)
  have ht : (p.traitWords ++ Core.frontVocabulary).all
      (fun w => !w.isEmpty && w.all Char.isAlphanum) = true := by
    have hf : Core.frontVocabulary.all (fun w => !w.isEmpty && w.all Char.isAlphanum) = true := by
      rfl
    rw [List.all_append, hf, Bool.and_true, traitWords]
    cases p.trait with
    | none => rfl
    | some t => simpa [t.ne_nil] using fun c => t.isAlphanum
  simpa using p.allFrom_frontWords.forall_mem ht hn w hw

end Words

/-! ### The limit -/

section Reading

open Text

variable {p : Printed}

theorem frontWords_ne_nil (p : Printed) : p.frontWords ≠ [] := by
  rw [frontWords]
  cases p.noun <;> simp [Core.Noun.words, Text.lexicon]

/-- The words that are left of a phrase without its limit; a space is left behind them. -/
def leftWords (p : Printed) : List Text := p.frontWords ++ (p.limit.map fun _ => []).toList

theorem unwords_leftWords {l : Core.Limit} (hl : p.limit = some l) :
    unwords p.leftWords = unwords p.frontWords ++ [' '] ∧
      p.text = unwords p.frontWords ++ ' ' :: l.text := by
  constructor
  · rw [leftWords, hl]
    exact unwords_append p.frontWords_ne_nil (by simp)
  · have hw : l.words ≠ [] := by
      rw [Core.Limit.words]
      cases l.measure <;> simp [Text.lexicon]
    rw [text, words, limitWords, hl, ← Core.unwords_words l]
    exact unwords_append p.frontWords_ne_nil hw

theorem allFrom_leftWords (p : Printed) :
    AllFrom (p.traitWords ++ ([] :: Core.frontVocabulary)) p.leftWords := by
  refine .append (fun w hw => (p.allFrom_frontWords w hw).imp_left fun h => ?_) ?_
  · exact (List.mem_append.1 h).elim (List.mem_append_left _) fun hv =>
      List.mem_append_right _ (List.mem_cons_of_mem _ hv)
  · cases p.limit with
    | none => intro w hw; cases hw
    | some l => exact .of_append_right _ (.of_contains (by rfl))

theorem isAlphanum_of_mem_leftWords {w : Text} (hw : w ∈ p.leftWords) :
    ∀ c ∈ w, c.isAlphanum = true := by
  rcases List.mem_append.1 hw with hw | hw
  · exact (isAlphanum_of_mem hw).2
  · cases hl : p.limit with
    | none => rw [hl] at hw; cases hw
    | some l =>
      rw [hl] at hw
      obtain rfl := List.mem_singleton.1 hw
      exact fun c hc => absurd hc (List.not_mem_nil)

theorem isWordChar_of_isAlphanum {c : Char} (h : c.isAlphanum = true) :
    Template.isWordChar c = true := by simp [Template.isWordChar, h]

/-- The filters that compare numbers begin with the word "with". -/
theorem opens_with {ts : List (Template Slot)} :
    Template.Opens ["with".toList] (phrase ("with " :: ts)) := opens_lit "with".toList

theorem isWordChar_of_mem {w : Text} (hw : w ∈ p.frontWords) : ∀ c ∈ w, isWordChar c = true :=
  fun _ hc => isWordChar_of_isAlphanum ((isAlphanum_of_mem hw).2 _ hc)

theorem with_not_mem (p : Printed) : ∀ k ∈ ["with".toList], k ∉ p.frontWords.map lowerPlain := by
  intro k hk
  obtain rfl := List.mem_singleton.1 hk
  exact not_mem_lower p.allFrom_frontWords (by rfl) (by rfl)

/-- A filter that compares numbers is found where the limit begins. -/
theorem search?_append (p : Printed) {ts : List (Template Slot)} {r : Text} {m : Match Slot}
    (hm : matchAfter? (phrase (edge :: "with " :: ts)) (some ' ') r = some m) :
    search? (phrase (edge :: "with " :: ts)) (unwords p.frontWords ++ ' ' :: r) =
      some (unwords p.frontWords ++ [' '], m) :=
  search?_append_of_opens opens_with (by rfl) (fun _ => isWordChar_of_mem) p.with_not_mem hm

/-- **The limit of a printed phrase** is read, and what stands in front of it is left. -/
theorem takeBound_text (p : Printed) :
    takeBound p.text = (p.limit.map Core.Limit.bound, unwords p.leftWords) := by
  rcases hl : p.limit with _ | l
  · have ht : p.text = unwords p.frontWords ∧ p.leftWords = p.frontWords := by
      simp [text, words, limitWords, leftWords, hl]
    have key : ∀ {ts : List (Template Slot)},
        search? (phrase (edge :: "with " :: ts)) (unwords p.frontWords) = none :=
      search?_eq_none_of_opens opens_with (by rfl) (fun _ => isWordChar_of_mem) p.with_not_mem
    rw [ht.1, ht.2, takeBound, costFilter, key, statFilter, key, damageFilter, key]
    rfl
  · obtain ⟨hn, ht⟩ := unwords_leftWords hl
    by_cases hm : l.measure = .cost
    · obtain ⟨m, hmatch, hr, hcmp, hv⟩ := Core.costFilter_text hm
      have hs : costFilter.search? p.text = some (unwords p.frontWords ++ [' '], m) := by
        rw [ht]
        exact p.search?_append hmatch
      rw [takeBound, hs]
      simp [hr, hcmp, hv, Core.Limit.bound, hm, Core.Measure.compared, hn]
    · obtain ⟨m, hmatch, hr, ha, hcmp, hv⟩ := Core.statFilter_text hm
      have hcost : costFilter.search? p.text = none := by
        rw [ht]
        refine search?_append_eq_none_of_opens opens_with (by rfl) (fun _ => isWordChar_of_mem)
          p.with_not_mem fun b s hs => ?_
        have hf : AllFrom (Core.limitVocabulary .strength) l.words := by
          have := Core.allFrom_limitWords l
          cases h : l.measure <;> rw [h] at this <;> first | exact absurd h hm | exact this
        rw [← Core.unwords_words] at hs
        exact matchAfter?_eq_none_of_fits (by rfl) hf (hf.not_mem_space (by rfl)) hs b
      have hs : statFilter.search? p.text = some (unwords p.frontWords ++ [' '], m) := by
        rw [ht]
        exact p.search?_append hmatch
      rw [takeBound, hcost, hs]
      simp [hr, ha, hcmp, hv, Core.Limit.bound, hn]

/-! ### The other filters -/

/-- A classification can read like the word in front of a zone, but no zone follows it. -/
theorem search?_zoneFilter (p : Printed) : zoneFilter.search? (unwords p.leftWords) = none := by
  let ks := ["from", "in", "into"].map fun w => lowerPlain w.toList
  have hc : ∀ w ∈ p.leftWords, ∀ c ∈ w, c.isAlphanum = true := fun w => isAlphanum_of_mem_leftWords
  by_cases hk : ∃ k ∈ ks, k ∈ p.leftWords.map lowerPlain
  · obtain ⟨k, hk, hm⟩ := hk
    have hks : ks.all (fun k => !k.all Char.isDigit &&
        !(([] :: Core.frontVocabulary).map lowerPlain).contains k) = true := by rfl
    have hkv := List.all_eq_true.1 hks k hk
    obtain ⟨t, ht, rfl⟩ : ∃ t, p.trait = some t ∧ t.text.lowerPlain = k := by
      rcases mem_lower_cases p.allFrom_leftWords hm with ht | hv | hd
      · exact ht
      · rw [List.contains_iff_mem.2 hv, Bool.not_true, Bool.and_false] at hkv
        cases hkv
      · rw [hd] at hkv
        cases hkv
    have hv : p.traitWords ++ ([] :: Core.frontVocabulary) =
        t.text :: [] :: Core.frontVocabulary := by rw [traitWords, ht]; rfl
    have hfits : ∀ k ∈ ks, admits (fits (k :: [] :: Core.frontVocabulary))
        (fits (k :: [] :: Core.frontVocabulary)) zoneFilter = false := by
      simp only [ks, List.map_cons, List.map_nil, List.forall_mem_cons]
      exact ⟨by rfl, by rfl, by rfl, fun _ h => absurd h List.not_mem_nil⟩
    have hcase : fits (t.text :: [] :: Core.frontVocabulary) =
        fits (t.text.lowerPlain :: [] :: Core.frontVocabulary) := fits_congr (by simp)
    exact search?_unwords_eq_none (hcase ▸ hfits _ hk) (hv ▸ p.allFrom_leftWords)
      fun w hw hs => absurd (hc w hw _ hs) (by decide)
  · exact search?_eq_none_of_opens (opens_oneOf (by simp)) (by rfl)
      (fun w hw c hcw => isWordChar_of_isAlphanum (hc w hw c hcw))
      fun k hks hm => hk ⟨k, hks, hm⟩

theorem search?_nameFilter (p : Printed) : nameFilter.search? (unwords p.leftWords) = none := by
  refine search?_eq_none_of_opens (opens_lit "named".toList) (by rfl)
    (fun w hw c hc => isWordChar_of_isAlphanum (isAlphanum_of_mem_leftWords hw c hc)) fun k hk => ?_
  obtain rfl := List.mem_singleton.1 hk
  exact not_mem_lower p.allFrom_leftWords (by rfl) (by rfl)

theorem takeQualifiers_text (p : Printed) :
    takeQualifiers qualifierPhrases (unwords p.leftWords) = ([], unwords p.leftWords) := by
  refine takeQualifiers_eq_self fun part hpart => ?_
  by_contra hn
  obtain ⟨e, he⟩ := Option.ne_none_iff_exists'.1 hn
  -- each of these phrases has a word of the vocabulary that no printed phrase has
  have hq : (qualifierPhrases.all fun q => (cut (· == ' ') q).any fun k =>
      vocabulary.contains k &&
        !(([] :: Core.frontVocabulary).map lowerPlain).contains k) = true := by rfl
  obtain ⟨k, hk, hkv⟩ := List.any_eq_true.1 (List.all_eq_true.1 hq part hpart)
  rw [Bool.and_eq_true, Bool.not_eq_true'] at hkv
  refine not_mem_lower p.allFrom_leftWords hkv.1 hkv.2 (mem_of_breakOnWords? ?_ ?_ he k hk)
  · exact fun w hw c hc => of_isAlphanum (p := isAlnum) (by decide)
      (isAlphanum_of_mem_leftWords hw c hc)
  · rw [leftWords]
    exact List.append_ne_nil_of_left_ne_nil p.frontWords_ne_nil _

theorem bareWords_leftWords (p : Printed) : bareWords (unwords p.leftWords) = p.frontWords := by
  have hw : ∀ w ∈ p.frontWords, w ≠ [] ∧ ∀ c ∈ w, isBlank c = false := fun w hm =>
    ⟨(isAlphanum_of_mem hm).1, fun c hc => by
      simpa using of_isAlphanum (p := fun c => !isBlank c) (by decide)
        ((isAlphanum_of_mem hm).2 c hc)⟩
  have hp : ∀ w ∈ p.frontWords, dropAround isPunctuation w = w := by
    intro w hm
    have hc : ∀ c ∈ w, isPunctuation c = false := fun c hc => by
      simpa using of_isAlphanum (p := fun c => !isPunctuation c) (by decide)
        ((isAlphanum_of_mem hm).2 c hc)
    rw [dropAround, dropLeading_eq_self fun c hm => hc c (List.mem_of_mem_head? hm),
      dropTrailing_eq_self fun c hm => hc c (List.mem_of_mem_getLast? hm)]
  have hwords : Text.words (unwords p.leftWords) = p.frontWords := by
    cases hl : p.limit with
    | none =>
      rw [leftWords, hl]
      simpa using words_unwords hw
    | some l =>
      rw [(unwords_leftWords hl).1, words_append_cons (by decide), words_unwords hw]
      simp [words_nil]
  rw [bareWords, hwords, List.map_congr_left hp, List.map_id', List.filter_eq_self]
  exact fun w hm => by simpa using (hw w hm).1

/-- A printed phrase is opened with its limit and the words in front of it. -/
theorem openWalk_text (p : Printed) : openWalk p.text =
    ({ selector := { quantifier := .chosen 1, bound := p.limit.map Core.Limit.bound } },
      p.frontWords) := by
  rw [openWalk, takeBound_text]
  simp only [takeZone, search?_zoneFilter, takeName, search?_nameFilter, takeQualifiers_text,
    bareWords_leftWords]
  rfl

/-! ### Reading -/

theorem words_ne_nil (p : Printed) : p.words ≠ [] :=
  List.append_ne_nil_of_left_ne_nil p.frontWords_ne_nil _

theorem isPlain_of_mem {w : Text} (hw : w ∈ p.words) : w ≠ [] ∧ ∀ c ∈ w, isPlain c = true := by
  rcases List.mem_append.1 hw with hw | hw
  · exact ⟨(isAlphanum_of_mem hw).1, fun c hc =>
      of_isAlphanum (p := isPlain) (by decide) ((isAlphanum_of_mem hw).2 c hc)⟩
  · refine ⟨?_, p.allFrom_limitWords.forall_char (by rfl) (by decide) w hw⟩
    simpa using p.allFrom_limitWords.forall_mem (p := fun w => !w.isEmpty) (by rfl) (by simp) w hw

theorem isSentence_text (p : Printed) : p.text.IsSentence :=
  .of_words p.words_ne_nil fun _ => isPlain_of_mem

theorem fold_text (p : Printed) : p.text.fold = unwords (p.words.map lowerPlain) := by
  rw [← lowerPlain_unwords]
  refine fold_eq_lowerPlain fun c hc => ?_
  let q : Char → Bool := fun c => c != '\u212A' && c != '\u0130'
  have hq : q c = true := by
    rcases mem_unwords hc with rfl | ⟨w, hw, hcw⟩
    · decide
    · rcases List.mem_append.1 hw with hw | hw
      · exact of_isAlphanum (by decide) ((isAlphanum_of_mem hw).2 c hcw)
      · exact p.allFrom_limitWords.forall_char (by rfl) (by decide) w hw c hcw
  simpa [q] using hq

/-- The nouns of the phrases. -/
def nouns : List Text :=
  Text.lexicon ["character", "characters", "item", "items", "location", "locations"]

/-- The text lacks a noun, or has a word of the vocabulary that no printed phrase has. -/
def isForeign (t : Text) : Bool :=
  t.words.all (fun w => !nouns.contains w) ||
    t.words.any fun w => vocabulary.contains w && !(Core.vocabulary.map lowerPlain).contains w

theorem fold_text_ne {t : Text} (ht : isForeign t = true) (p : Printed) : p.text.fold ≠ t := by
  rintro rfl
  have hwords : p.text.fold.words = p.words.map lowerPlain := by
    rw [p.fold_text]
    refine words_unwords fun w hw => ?_
    obtain ⟨v, hv, rfl⟩ := List.mem_map.1 hw
    obtain ⟨hne, hp⟩ := isPlain_of_mem hv
    refine ⟨by simpa [lowerPlain] using hne, fun c hc => ?_⟩
    obtain ⟨d, hd, rfl⟩ := List.mem_map.1 hc
    exact (isBlank_toLower d).trans (isBlank_of_isPlain (hp d hd))
  rw [isForeign, hwords, Bool.or_eq_true] at ht
  rcases ht with hn | hv
  · obtain ⟨n, hn', hw, hl⟩ : ∃ n ∈ nouns, p.noun.words p.plural = [n] ∧ n.lowerPlain = n := by
      cases p.noun <;> cases p.plural <;> exact ⟨_, by decide, rfl, by rfl⟩
    have hm : n ∈ p.words.map lowerPlain := List.mem_map.2 ⟨n, by simp [words, frontWords, hw], hl⟩
    have := List.all_eq_true.1 hn n hm
    rw [List.contains_iff_mem.2 hn'] at this
    cases this
  · obtain ⟨k, hm, hk⟩ := List.any_eq_true.1 hv
    rw [Bool.and_eq_true, Bool.not_eq_true'] at hk
    exact not_mem_lower p.allFrom_words hk.1 hk.2 hm

theorem lookup?_text {β : Type} {table : List (String × β)}
    (h : table.all (fun e => isForeign e.1.toList) = true) (p : Printed) :
    Text.lookup? table p.text.fold = none := by
  rw [Text.lookup?, Option.map_eq_none_iff, List.find?_eq_none]
  intro e he heq
  have heq : e.1.toList = p.text.fold := by simpa using heq
  exact fold_text_ne (List.all_eq_true.1 h e he) p heq.symm

/-- No printed phrase is read as a whole. -/
theorem fixed?_text (source : ObjectKind) (antecedent : Option Selector) (p : Printed) :
    fixed? source antecedent p.text.fold = none := by
  have hp : pronouns.contains p.text.fold = false := by
    by_contra hc
    have hm : p.text.fold ∈ pronouns := by simpa using hc
    have hf : pronouns.all isForeign = true := by rfl
    exact fold_text_ne (List.all_eq_true.1 hf _ hm) p rfl
  rw [fixed?, lookup?_text (by rfl), hp, lookup?_text (by rfl)]
  rfl

/-- No printed phrase picks one of several objects. -/
theorem not_isPrefix_fold (p : Printed) : "one of".toList.isPrefixOf p.text.fold = false := by
  by_contra hc
  obtain ⟨r, hr⟩ : "one of".toList <+: p.text.fold :=
    List.isPrefixOf_iff_prefix.1 (by simpa using hc)
  have hm : "one".toList ∈ p.words.map lowerPlain := by
    refine mem_of_opensWord (s := "of".toList ++ r) ?_ (.inl ?_) (by decide)
    · intro w hw
      obtain ⟨v, hv, rfl⟩ := List.mem_map.1 hw
      exact not_mem_lowerPlain fun hs => absurd ((isPlain_of_mem hv).2 _ hs) (by decide)
    · rw [← fold_text, ← hr]
      rfl
  exact not_mem_lower p.allFrom_words (by rfl) (by rfl) hm

/-- A printed phrase is read word by word. -/
theorem ofPhrase_eq_ofWords (source : ObjectKind) (antecedent : Option Selector) (p : Printed) :
    ofPhrase source antecedent p.text = ofWords p.text := by
  have ht : p.text.tidy = p.text := p.isSentence_text.trimEnd_eq fun _ h => h
  rw [ofPhrase, ht]
  simp only [fixed?_text]

theorem ofWords_text (p : Printed) : ofWords p.text = p.selector := by
  rw [ofWords, openWalk_text]
  simp only
  rw [run_frontWords, not_isPrefix_fold]
  rfl

/-- **Printed phrases are read back.**  On a card of whatever kind and after whatever was picked
before, the selector of a printed phrase is the one that its parts stand for: it has the quantity,
the owner, the kind, the classification and the limit that are printed, and nothing else. -/
theorem ofPhrase_printed (source : ObjectKind) (antecedent : Option Selector) (p : Printed) :
    ofPhrase source antecedent p.text = p.selector :=
  (p.ofPhrase_eq_ofWords source antecedent).trans p.ofWords_text

example : let p : Printed :=
      { owner := .you, other := true, noun := .character, plural := true
        trait := some ⟨"Hero".toList, by decide, by decide, by decide⟩
        limit := some ⟨.cost, .atMost, 3, by decide⟩ }
    p.text = "your other Hero characters with cost 3 or less".toList ∧
      p.selector = { quantifier := .all, owner := .you, kinds := [.character],
                     traits := ["Hero".toList], excludeSelf := true,
                     bound := some ⟨.cost, .atMost, 3⟩ } := by
  decide

end Reading

end Printed

end Selector

end CardText
