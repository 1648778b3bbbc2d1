import CardText.Proofs.Selector.WellFormed
import CardText.Proofs.Text.Vocabulary

/-!
# Words that restrict a selector

A phrase that is read word by word loses no word that restricts its objects: the word ends up in a
classification or in the qualifier.

* `Selector.bareWords_tidy`: the words of a phrase are those that are read;
* `Selector.IsRestricting`: the words that have no meaning of their own to the walk;
* `Walk.exists_stem`: what becomes of the words of a classification;
* `Walk.mentions_run`: the walk keeps every word that restricts;
* `Selector.mentions_ofPhrase`: so does the selector of the phrase.
-/

namespace CardText

namespace Text

/-- A text without digits is no count. -/
theorem natural?_fold_eq_none {t : Text} (h : t.any Char.isDigit = false) :
    t.fold.natural? = none := by
  by_contra hn
  obtain ⟨n, hn⟩ := Option.ne_none_iff_exists'.1 hn
  obtain ⟨c, hc, hd⟩ := exists_isDigit_of_natural? hn
  have hm : c ∈ t := mem_of_mem_fold hc (isLower_of_isDigit hd) fun he => by
    rw [he] at hd
    cases hd
  exact List.any_eq_false.1 h c hm hd

/-- `word` is `stem` with any number of possessive endings. -/
def IsPossessive (stem word : Text) : Prop :=
  ∃ n, word = stem ++ (List.replicate n "'s".toList).flatten

theorem IsPossessive.refl (word : Text) : IsPossessive word word := ⟨0, by simp⟩

/-- No capital stands in possessive endings. -/
theorem not_mem_possessive {c : Char} (hc : isUpper c = true) (n : Nat) :
    c ∉ (List.replicate n "'s".toList).flatten := by
  intro hm
  obtain ⟨v, hv, hcv⟩ := List.mem_flatten.1 hm
  obtain rfl := List.eq_of_mem_replicate hv
  have : c = '\'' ∨ c = 's' := by simpa using hcv
  rcases this with rfl | rfl <;> exact absurd hc (by decide)

/-- The possessive endings of a text stand behind each capital of it. -/
theorem exists_dropSuffixes_append {c : Char} (hc : isUpper c = true) (front r : Text) :
    ∃ stem : Text, stem ≠ [] ∧ (front ++ c :: r).dropSuffixes "'s".toList = front ++ stem ∧
      stem.IsPossessive (c :: r) := by
  obtain ⟨n, hn⟩ := exists_dropSuffixes (front ++ c :: r) "'s".toList
  have hmem := not_mem_possessive hc n
  rcases List.append_eq_append_iff.1 hn with ⟨stem, hs, hcr⟩ | ⟨a, -, ha⟩
  · refine ⟨stem, ?_, hs, n, hcr⟩
    rintro rfl
    exact hmem (by rw [← List.nil_append (List.flatten _), ← hcr]; simp)
  · exact absurd (ha ▸ List.mem_append_right _ List.mem_cons_self) hmem

end Text

namespace Selector

open Text

/-! ### Bare words -/

theorem bareWords_eq (t : Text) : bareWords t =
    ((cut isBlank t).map (dropAround isPunctuation)).filter fun w => !w.isEmpty := by
  rw [bareWords, words]
  induction cut isBlank t with
  | nil => rfl
  | cons w ws ih =>
    cases w with
    | nil => exact ih
    | cons c w =>
      rw [List.filter_cons_of_pos (by rfl), List.map_cons, List.map_cons, List.filter_cons,
        List.filter_cons, ih]

theorem isPunctuation_of_isPause {c : Char} (h : isPause c = true) : isPunctuation c = true := by
  rw [isPause, Bool.or_eq_true] at h
  rcases h with h | h <;> simp [isPunctuation, h]

/-- Pauses at the end of a text belong to no word. -/
theorem bareWords_append (t : Text) {s : Text} (h : ∀ c ∈ s, isPause c = true) :
    bareWords (t ++ s) = bareWords t := by
  obtain ⟨us, u, v, vs, ht, hs, hts⟩ := exists_cut_append isBlank t s
  have hb : ∀ c ∈ s, isBlank c = false := fun c hc => by
    have := h c hc
    simp only [isPause, Bool.or_eq_true, beq_iff_eq] at this
    rcases this with rfl | rfl <;> rfl
  rw [cut_eq_singleton hb] at hs
  obtain ⟨rfl, rfl⟩ := List.cons.inj hs
  rw [bareWords_eq, bareWords_eq, ht, hts, List.map_append, List.map_append, List.map_singleton,
    List.map_singleton, dropAround_append_of_all _ fun c hc => isPunctuation_of_isPause (h c hc)]

theorem bareWords_trim (t : Text) : bareWords t.trim = bareWords t := by
  rw [bareWords, words_trim, bareWords]

/-- No word is lost with the pauses at the end of a phrase. -/
theorem bareWords_tidy (t : Text) : bareWords t.tidy = bareWords t := by
  obtain ⟨s, hs, hp⟩ := exists_dropTrailing isPause t.trim
  rw [tidy, trimEnd, bareWords_trim, ← bareWords_append _ hp, ← hs, bareWords_trim]

theorem isBlank_of_mem_bareWords {t word : Text} (h : word ∈ bareWords t) :
    ∀ c ∈ word, isBlank c = false := by
  obtain ⟨w, hw, rfl⟩ := List.mem_map.1 (List.mem_filter.1 h).1
  intro c hc
  obtain ⟨a, b, hab, -⟩ := exists_dropAround isPunctuation w
  exact (not_isBlank_of_mem_words hw).2 c (by rw [hab]; simp [hc])

/-! ### Words that restrict -/

/-- The word has no digit and is, in no letter case, in the vocabulary or one that adds nothing. The
possessive "opponents'" is not in the vocabulary but says whose objects are meant; with a capital it
is read as part of a classification. -/
structure IsRestricting (word : Text) : Prop where
  vocabulary : word.fold ∉ vocabulary
  fillers : word.fold ∉ fillers
  possessive : word.fold = "opponents'".toList → isCapitalized word = true
  digits : word.any Char.isDigit = false

/-- The words end in "up to". -/
def EndsInUpTo (front : List Text) : Prop := lexicon ["up", "to"] <:+ front.map fold

instance (front : List Text) : Decidable (EndsInUpTo front) :=
  inferInstanceAs (Decidable (_ <:+ _))

theorem EndsInUpTo.append {front : List Text} (h : EndsInUpTo front) (before : List Text) :
    EndsInUpTo (before ++ front) := by
  rw [EndsInUpTo, List.map_append]
  exact h.trans (List.suffix_append _ _)

/-- The word stands in a classification, but for possessive endings, or in the qualifier. -/
def Mentions (s : Selector) (word : Text) : Prop :=
  (∃ name ∈ s.traits, ∃ stem ∈ name.words, stem.IsPossessive word) ∨
    ∃ q ∈ s.qualifier, word ∈ q.words

namespace Walk

/-- The word stands in a classification read so far, but for possessive endings, or is kept. -/
def Mentions (word : Text) (w : Walk) : Prop :=
  (∃ name ∈ w.selector.traits, ∃ stem ∈ name.words, stem.IsPossessive word) ∨ word ∈ w.leftovers

/-- What is mentioned once stays so. -/
theorem closed_mentions (word : Text) : Closed (fun _ => True) (Mentions word) where
  quantifier _ _ h := h
  plural _ h := h
  trait _ h := h
  filter _ _ _ _ h := h
  kind k _ h := by rwa [Mentions, traits_withKind]
  classification name h := h.imp_left fun ⟨n, hn, hs⟩ => by
    refine ⟨n, ?_, hs⟩
    simp only [withTrait]
    split_ifs
    · exact hn
    · exact List.mem_append_left _ hn
  keep _ h := h.imp_right fun hm => List.mem_append_left _ hm

/-- The words that are kept are words. -/
theorem closed_leftovers : Closed (fun v => v ≠ [] ∧ ∀ c ∈ v, isBlank c = false)
    fun w => ∀ v ∈ w.leftovers, v ≠ [] ∧ ∀ c ∈ v, isBlank c = false where
  quantifier _ _ h := h
  plural _ h := h
  trait _ h := h
  filter _ _ _ _ h := h
  kind _ _ h := h
  classification _ h := h
  keep hv h := List.forall_mem_append.2 ⟨h, List.forall_mem_singleton.2 hv⟩

/-- The words of a classification have no blanks and begin in upper case. -/
def IsTrait (words : List Text) : Prop :=
  ∀ v ∈ words, (∀ c ∈ v, isBlank c = false) ∧ isCapitalized v = true

theorem IsTrait.isWord {words : List Text} (h : IsTrait words) :
    ∀ v ∈ words, v ≠ [] ∧ ∀ c ∈ v, isBlank c = false := by
  refine fun v hv => ⟨?_, (h v hv).1⟩
  rintro rfl
  exact absurd (h [] hv).2 (by decide)

/-- Only the last word of a classification loses its possessive endings. -/
theorem exists_stem {words : List Text} (h : IsTrait words) {word : Text} (hw : word ∈ words) :
    ∃ stem ∈ ((unwords words).dropSuffixes "'s".toList).words, stem.IsPossessive word := by
  obtain ⟨us, u, rfl⟩ : ∃ us u, words = us ++ [u] := by
    simpa using (List.eq_nil_or_concat' words).resolve_left (List.ne_nil_of_mem hw)
  obtain ⟨hus, hu⟩ := List.forall_mem_append.1 h.isWord
  obtain ⟨hne, hb⟩ := hu u (by simp)
  obtain ⟨front, hfront⟩ := exists_unwords_concat us
  obtain ⟨c, r, rfl⟩ := List.exists_cons_of_ne_nil hne
  obtain ⟨stem, hstem, hs, hp⟩ :=
    exists_dropSuffixes_append (h (c :: r) (by simp)).2 front r
  have hword : stem ≠ [] ∧ ∀ d ∈ stem, isBlank d = false := by
    obtain ⟨n, hn⟩ := hp
    exact ⟨hstem, fun d hd => hb d (hn ▸ List.mem_append_left _ hd)⟩
  rw [hfront, hs, ← hfront,
    words_unwords (List.forall_mem_append.2 ⟨hus, List.forall_mem_singleton.2 hword⟩)]
  rcases List.mem_append.1 hw with hw | hw
  · exact ⟨word, List.mem_append_left _ hw, .refl word⟩
  · obtain rfl := List.mem_singleton.1 hw
    exact ⟨stem, by simp, hp⟩

theorem mentions_flush {w : Walk} {word : Text} (h : IsTrait w.trait) (hw : word ∈ w.trait) :
    w.flush.Mentions word := by
  obtain ⟨stem, hs, hp⟩ := exists_stem h hw
  refine .inl ⟨(unwords w.trait).dropSuffixes "'s".toList, ?_, stem, hs, hp⟩
  rw [Walk.flush, if_neg (by simpa using List.ne_nil_of_mem hw)]
  simp only [withTrait]
  split_ifs with hc
  · simpa using hc
  · simp

/-- A word of the classification that is being read stands in it once it has ended. -/
theorem mentions_run_of_mem_trait {w : Walk} {words : List Text} {word : Text} (h : IsTrait w.trait)
    (hw : word ∈ w.trait) (hb : ∀ v ∈ words, ∀ c ∈ v, isBlank c = false) :
    (w.run words).Mentions word := by
  induction words generalizing w with
  | nil =>
    rw [Walk.run]
    exact mentions_flush h hw
  | cons v rest ih =>
    obtain ⟨hv, hrest⟩ := List.forall_mem_cons.1 hb
    by_cases ht : isTraitWord v = true
    · have hcap : isCapitalized v = true := (Bool.and_eq_true_iff.1 ht).2
      rw [Walk.run, if_pos ht]
      exact ih (List.forall_mem_append.2 ⟨h, List.forall_mem_singleton.2 ⟨hv, hcap⟩⟩)
        (List.mem_append_left _ hw) hrest
    · rw [Walk.run_flush (by simpa using ht)]
      exact (closed_mentions word).run (mentions_flush h hw) fun _ _ => trivial

/-! ### The run -/

theorem trait_choose (w : Walk) : w.choose.trait = w.trait := by
  rw [Walk.choose]
  split <;> rfl

theorem trait_other (word : Text) (w : Walk) : (w.other word).trait = w.trait := by
  rw [Walk.other]
  split
  · rfl
  · split_ifs <;> rfl

theorem trait_take (word : Text) (next : Option Text) (w : Walk) (r : Role) :
    (w.take word next r).trait = w.trait := by
  cases r with
  | chosen => exact trait_choose w
  | card =>
    rw [Walk.take]
    simp only
    split_ifs <;> rfl
  | of => exact trait_other word w
  | _ => rfl

theorem IsTrait.other {w : Walk} (h : IsTrait w.trait) (word : Text) :
    IsTrait (w.other word).trait := by rwa [trait_other]

theorem IsTrait.take {w : Walk} (h : IsTrait w.trait) (word : Text) (next : Option Text)
    (r : Role) : IsTrait (w.take word next r).trait := by rwa [trait_take]

theorem IsTrait.nil : IsTrait [] := fun _ hv => nomatch hv

theorem isTrait_flush (w : Walk) : IsTrait w.flush.trait := by
  rw [Walk.trait_flush]
  exact .nil

section Run

variable {v word : Text} {words front rest more : List Text} {r : Role} {w : Walk}

/-- The words of a role are in the vocabulary, but for the possessive of more than one opponent. -/
theorem mem_vocabulary_of_role (h : lookup? roles word = some r) :
    word ∈ vocabulary ∨ word = "opponents'".toList := by
  have hall : ∀ e ∈ roles, e.1.toList ∈ vocabulary ∨ e.1.toList = "opponents'".toList := by decide
  obtain ⟨e, he, rfl, -⟩ := exists_key_of_lookup? h
  exact hall e he

theorem eq_up_of_role (h : lookup? roles word = some .up) : word = "up".toList := by
  have hall : ∀ e ∈ roles, e.2 = .up → e.1.toList = "up".toList := by decide
  obtain ⟨e, he, rfl, hup⟩ := exists_key_of_lookup? h
  exact hall e he hup

/-- A word that restricts has no role. -/
theorem lookup?_roles_of_isRestricting (h : IsRestricting word) (ht : isTraitWord word = false) :
    lookup? roles word.fold = none := by
  by_contra hn
  obtain ⟨r, hr⟩ := Option.ne_none_iff_exists'.1 hn
  have hp := (mem_vocabulary_of_role hr).resolve_left h.vocabulary
  simp [isTraitWord, h.vocabulary, h.possessive hp] at ht

/-- So it stands behind a word that has one. -/
theorem exists_front (hr : IsRestricting word) (hv : ¬ isTraitWord v = true)
    (hrole : lookup? roles v.fold = some r) (hw : v :: more = front ++ word :: rest) :
    ∃ before, front = v :: before ∧ more = before ++ word :: rest := by
  cases front with
  | nil =>
    obtain ⟨rfl, -⟩ := List.cons.inj hw
    rw [lookup?_roles_of_isRestricting hr (by simpa using hv)] at hrole
    cases hrole
  | cons u before =>
    obtain ⟨rfl, hmore⟩ := List.cons.inj hw
    exact ⟨before, rfl, hmore⟩

/-- A word that restricts and is no part of a classification is kept. -/
theorem mentions_other (hr : IsRestricting word) (w : Walk) : (w.other word).Mentions word := by
  have hn : (if w.quantifier.isNone then word.fold.natural? else none) = none := by
    rw [natural?_fold_eq_none hr.digits, ite_self]
  rw [Walk.other, hn]
  simp only
  rw [if_neg (by simpa using hr.fillers)]
  exact .inr (by simp [Walk.keep])

/-- The word behind "up" that a count follows is "to", and the word that restricts is neither of
the two. -/
theorem exists_front_of_upTo {link number : Text} {n : Nat} (hr : IsRestricting word)
    (hrole : lookup? roles v.fold = some .up)
    (hn : (if link.fold = "to".toList then number.count? else none) = some n)
    (hw : link :: number :: more = front ++ word :: rest)
    (hc : EndsInUpTo (v :: front) → word.count? = none) :
    ∃ before, front = link :: number :: before ∧ more = before ++ word :: rest := by
  split_ifs at hn with hlink
  rcases front with - | ⟨u, - | ⟨u', before⟩⟩
  · obtain ⟨rfl, -⟩ := List.cons.inj hw
    exact absurd (hlink ▸ by decide) hr.vocabulary
  · obtain ⟨rfl, hnumber⟩ := List.cons.inj hw
    obtain ⟨rfl, -⟩ := List.cons.inj hnumber
    have hup : EndsInUpTo [v, link] := by
      rw [EndsInUpTo, List.map_cons, List.map_singleton, eq_up_of_role hrole, hlink]
      exact List.suffix_refl _
    rw [hc hup] at hn
    cases hn
  · obtain ⟨rfl, hnumber⟩ := List.cons.inj hw
    obtain ⟨rfl, hmore⟩ := List.cons.inj hnumber
    exact ⟨before, rfl, hmore⟩

/-- The walk over the words: one case for each way to go on from a word. The word that restricts
stands behind the words that are read at once, or it is the one that is read. -/
theorem mentions_run (hr : IsRestricting word) (ht : IsTrait w.trait)
    (hb : ∀ v ∈ words, ∀ c ∈ v, isBlank c = false) :
    ∀ {front rest}, words = front ++ word :: rest →
      (EndsInUpTo front → word.count? = none) → (w.run words).Mentions word := by
  have hmono : ∀ {front v}, (EndsInUpTo (v :: front) → word.count? = none) →
      EndsInUpTo front → word.count? = none := fun hc hf => hc (hf.append [_])
  fun_induction Walk.run words w with
  | case1 w =>
    intro front rest hw
    simp at hw
  | case2 v more w hv ih =>
    intro front rest hw hc
    obtain ⟨hbv, hbm⟩ := List.forall_mem_cons.1 hb
    have hcap : isCapitalized v = true := (Bool.and_eq_true_iff.1 hv).2
    have ht' : IsTrait (w.trait ++ [v]) :=
      List.forall_mem_append.2 ⟨ht, List.forall_mem_singleton.2 ⟨hbv, hcap⟩⟩
    cases front with
    | nil =>
      obtain ⟨rfl, -⟩ := List.cons.inj hw
      exact mentions_run_of_mem_trait ht' (by simp) hbm
    | cons u front =>
      obtain ⟨rfl, hmore⟩ := List.cons.inj hw
      exact ih ht' hbm hmore (hmono hc)
  | case3 v more w hv _ hrole ih =>
    intro front rest hw hc
    cases front with
    | nil =>
      obtain ⟨rfl, -⟩ := List.cons.inj hw
      exact (closed_mentions v).run (mentions_other hr _) fun _ _ => trivial
    | cons u front =>
      obtain ⟨rfl, hmore⟩ := List.cons.inj hw
      exact ih ((isTrait_flush w).other v) (List.forall_mem_cons.1 hb).2 hmore (hmono hc)
  | case4 v w hv _ hrole link number more n hn ih =>
    intro front rest hw hc
    obtain ⟨front, rfl, hmore⟩ := exists_front hr hv hrole hw
    obtain ⟨front, rfl, hbehind⟩ := exists_front_of_upTo hr hrole hn hmore hc
    simp only [List.forall_mem_cons] at hb
    exact ih (isTrait_flush w) hb.2.2.2 hbehind (hmono (hmono (hmono hc)))
  | case7 v w hv _ hrole next more hn ih =>
    intro front rest hw hc
    obtain ⟨front, rfl, hmore⟩ := exists_front hr hv hrole hw
    simp only [List.forall_mem_cons] at hb
    cases front with
    | nil =>
      obtain ⟨rfl, -⟩ := List.cons.inj hmore
      have hall : ∀ u ∈ lexicon ["yours", "your"], u ∈ vocabulary := by decide
      exact absurd (hall _ (by simpa using hn)) hr.vocabulary
    | cons u front =>
      obtain ⟨rfl, hbehind⟩ := List.cons.inj hmore
      exact ih (isTrait_flush w) hb.2.2 hbehind (hmono (hmono hc))
  | case8 v w hv _ hrole next more hn ih =>
    intro front rest hw hc
    obtain ⟨front, rfl, hmore⟩ := exists_front hr hv hrole hw
    exact ih ((isTrait_flush w).other v) (List.forall_mem_cons.1 hb).2 hmore (hmono hc)
  | case9 v w hv _ hrole ih =>
    intro front rest hw hc
    obtain ⟨front, rfl, hmore⟩ := exists_front hr hv hrole hw
    simp at hmore
  | case10 v more w hv _ r hu ho hrole ih =>
    intro front rest hw hc
    obtain ⟨front, rfl, hmore⟩ := exists_front hr hv hrole hw
    exact ih ((isTrait_flush w).take v _ r) (List.forall_mem_cons.1 hb).2 hmore (hmono hc)
  | case5 v w hv _ hrole link number more hn ih | case6 v w hv _ hrole more hn ih =>
    -- "up" without a count is passed over
    intro front rest hw hc
    obtain ⟨front, rfl, hmore⟩ := exists_front hr hv hrole hw
    exact ih (isTrait_flush w) (List.forall_mem_cons.1 hb).2 hmore (hmono hc)

end Run

/-- What the words say is in the selector at the end. -/
theorem mentions_result {w : Walk} {word : Text}
    (hl : ∀ v ∈ w.leftovers, v ≠ [] ∧ ∀ c ∈ v, isBlank c = false) (h : w.Mentions word) :
    w.result.Mentions word := by
  refine h.imp_right fun hw => ?_
  have hq : w.result.qualifier = some (unwords w.leftovers) :=
    if_neg (by simpa using List.ne_nil_of_mem hw)
  exact ⟨unwords w.leftovers, hq, by rwa [words_unwords hl]⟩

end Walk

/-! ### Phrases -/

/-- The filters of several words. -/
def filters : List (Template Slot) :=
  [costFilter, statFilter, damageFilter, zoneFilter, nameFilter]

/-- All of the phrase is read word by word. As it is read, without the blanks around it and the
pauses at its end, it is no fixed phrase, and neither a filter of several words nor one of the
phrases that are kept as printed stands in it. -/
structure IsWordByWord (source : ObjectKind) (antecedent : Option Selector) (phrase : Text) :
    Prop where
  fixed : fixed? source antecedent phrase.tidy.fold = none
  filter : ∀ f ∈ filters, f.search? phrase.tidy = none
  kept : ∀ part ∈ qualifierPhrases, breakOnWords? part none phrase.tidy = none

variable {source : ObjectKind} {antecedent : Option Selector} {phrase : Text}

theorem IsWordByWord.openWalk (h : IsWordByWord source antecedent phrase) :
    openWalk phrase.tidy = ({ selector := { quantifier := .chosen 1 } }, bareWords phrase) := by
  have hf := h.filter
  simp only [filters, List.forall_mem_cons, List.not_mem_nil, false_imp_iff, implies_true,
    and_true] at hf
  obtain ⟨hcost, hstat, hdamage, hzone, hname⟩ := hf
  have hb : takeBound phrase.tidy = (none, phrase.tidy) := by
    rw [takeBound, hcost, hstat, hdamage]
  have hz : takeZone phrase.tidy = (none, phrase.tidy) := by rw [takeZone, hzone]
  have hn : takeName phrase.tidy = (none, phrase.tidy) := by rw [takeName, hname]
  rw [Selector.openWalk, hb]
  simp only [hz, hn, takeQualifiers_eq_self h.kept, bareWords_tidy]
  rfl

/-- **No word that restricts is lost.** In a phrase that is read word by word each such word, unless
it is the count behind "up to", ends up in a classification or in the qualifier. -/
theorem mentions_ofPhrase (h : IsWordByWord source antecedent phrase) {front rest : List Text}
    {word : Text} (hw : bareWords phrase = front ++ word :: rest) (hr : IsRestricting word)
    (hc : EndsInUpTo front → word.count? = none) :
    (ofPhrase source antecedent phrase).Mentions word := by
  have hb : ∀ v ∈ bareWords phrase, v ≠ [] ∧ ∀ c ∈ v, isBlank c = false := fun v hv =>
    ⟨ne_nil_of_mem_bareWords hv, isBlank_of_mem_bareWords hv⟩
  have hs : (Walk.run (bareWords phrase)
      { selector := { quantifier := .chosen 1 } }).result.Mentions word :=
    Walk.mentions_result (Walk.closed_leftovers.run (by simp) hb)
      (Walk.mentions_run hr .nil (fun v hv => (hb v hv).2) hw hc)
  rw [ofPhrase, h.fixed]
  simp only
  rw [ofWords, h.openWalk]
  simp only
  split_ifs
  · exact hs
  · exact hs

/-- A word of a classification in the possessive. -/
theorem mentions_ofPhrase_hero :
    (ofPhrase .character none "up to 2 Floodborn Hero's characters nearby".toList).Mentions
      "Hero's".toList :=
  have hw : bareWords "up to 2 Floodborn Hero's characters nearby".toList =
      lexicon ["up", "to", "2", "Floodborn"] ++ "Hero's".toList ::
        lexicon ["characters", "nearby"] := by decide
  mentions_ofPhrase ⟨by decide, by decide, by decide⟩ hw
    ⟨by decide, by decide, by decide, by decide⟩ (by decide)

end Selector

end CardText
