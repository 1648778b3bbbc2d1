import CardText.Proofs.Cost
import CardText.Proofs.Template
import CardText.Proofs.Text.Label
import CardText.Proofs.Text.Listing
import CardText.Proofs.Text.Pieces

/-!
# Printed costs

Cost tokens that are joined by commas in front of a dash are found again.

* `Cost.of_isKnown_cons`: a known cost begins with a letter, a digit or a symbol;
* `Cost.IsToken`: a text that is a cost token on its own;
* `Cost.sides`, `Cost.row`: the tokens in front of a dash and an effect, and what the body keeps of
  the spaces between them (`Cost.body_sides`);
* `Cost.listOfText_row`: the costs of the tokens in a row;
* `splitActivated?_row`: the two sides of the dash.
-/

namespace CardText

namespace Cost

/-! ### Known costs -/

section Known

open Template

variable {source : ObjectKind} {c : Char}

theorem ink?_cons_eq_none (hp : c.toLower ≠ 'p') (hd : c.isDigit = false) (r : Text) :
    ink? (c :: r) = none := by
  have : inkToken.match? (c :: r) = none := by
    simp [inkToken, phrase, opt, digits, match?, matchAfter?, run, runs, Cursor.skip?,
      Template.skip?, hp, hd]
  simp [ink?, this]

theorem discardToken_cons_eq_none (hd : c.toLower ≠ 'd') (hc : c.toLower ≠ 'c') (r : Text) :
    discardToken.match? (c :: r) = none := by
  simp [discardToken, phrase, opt, match?, matchAfter?, run, Cursor.skip?, Template.skip?, hd, hc]

theorem banishSelfToken_cons_eq_none (hb : c.toLower ≠ 'b') (r : Text) :
    banishSelfToken.match? (c :: r) = none :=
  match?_cons_eq_none (by simp [banishSelfToken, phrase, admits, Text.lowerPlain, hb.symm]) r

theorem banishToken_cons_eq_none (hb : c.toLower ≠ 'b') (r : Text) :
    banishToken.match? (c :: r) = none :=
  match?_cons_eq_none (by simp [banishToken, phrase, admits, Text.lowerPlain, hb.symm]) r

theorem exertToken_cons_eq_none (he : c.toLower ≠ 'e') (r : Text) :
    exertToken.match? (c :: r) = none :=
  match?_cons_eq_none (by simp [exertToken, phrase, admits, Text.lowerPlain, he.symm]) r

/-- A known cost begins with a letter, a digit or a symbol. -/
theorem of_isKnown_cons {t r : Text} (ht : t = c :: r) (hb : Text.isBlank c = false)
    (h : (ofToken source t).isKnown = true) :
    Text.isLetter c = true ∨ c.isDigit = true ∨ c = '\x7b' := by
  by_contra hn
  simp only [not_or, Bool.not_eq_true] at hn
  obtain ⟨hl, hd, hbrace⟩ := hn
  have hne : ∀ x : Char, x.isLower = true → c.toLower ≠ x := fun x hx he => by
    rw [Text.isLetter_of_toLower (by rw [he]; exact hx)] at hl
    cases hl
  -- without its blanks and periods the token is empty or begins like the text
  have htoken : Text.dropTrailing (· == '.') t.trim <+: c :: r := by
    have htrim : t.trim = Text.dropTrailing Text.isBlank (c :: r) := by
      rw [ht, Text.trim, Text.dropAround, Text.dropLeading_eq_self (by simpa using hb)]
    rw [htrim]
    exact (Text.dropTrailing_isPrefix _ _).trans (Text.dropTrailing_isPrefix _ _)
  rw [ofToken] at h
  generalize Text.dropTrailing (· == '.') t.trim = token at h htoken
  rcases token with _ | ⟨x, q⟩
  · exact Bool.false_ne_true ((isKnown_ofToken_nil source).symm.trans h)
  · obtain ⟨rfl, -⟩ := List.cons_prefix_cons.1 htoken
    have hexert : Text.samePlain (x :: q) Text.exertSymbol = false := by
      have hx : x.toLower ≠ '\x7b' := fun he => hbrace (Text.eq_of_toLower_eq he rfl)
      simp [Text.samePlain, Text.exertSymbol, Text.lowerPlain, hx]
    simp only [hexert, ink?_cons_eq_none (hne 'p' rfl) hd, Template.isMatch,
      banishSelfToken_cons_eq_none (hne 'b' rfl),
      discardToken_cons_eq_none (hne 'd' rfl) (hne 'c' rfl), exertToken_cons_eq_none (hne 'e' rfl),
      banishToken_cons_eq_none (hne 'b' rfl), isKnown] at h
    cases h

end Known

/-! ### Tokens in a row -/

/-- A cost token on its own: a settled text without commas, dashes and "and"s, in which every symbol
is closed. -/
structure IsToken (t : Text) : Prop where
  ne_nil : t ≠ []
  settled : t.IsSettled
  closed : t.IsClosed '\x7b' '\x7d'
  noComma : ',' ∉ t
  noDash : Text.dash ∉ t
  noAnd : ¬ " and ".toList <:+: ' ' :: (t ++ [' '])

/-- The costs in front of a dash and an effect. -/
def sides (cs : List Text) (effect : Text) : Text := Text.listed cs ++ " — ".toList ++ effect

/-- The tokens in a row as the body keeps them, without the spaces in front of those that begin
with a period. -/
def row : List Text → Text
  | [] => []
  | [c] => c
  | c :: c' :: cs => c ++ ',' :: (Text.gapBefore c' ++ row (c' :: cs))

variable {c : Text} {cs : List Text} {effect : Text}

theorem sides_singleton (c effect : Text) :
    sides [c] effect = c ++ ' ' :: ([Text.dash] ++ ' ' :: effect) := by
  rw [sides, Text.listed, Text.joined_singleton, List.append_assoc]
  rfl

theorem sides_cons_cons (c c' : Text) (cs : List Text) (effect : Text) :
    sides (c :: c' :: cs) effect = (c ++ [',']) ++ ' ' :: sides (c' :: cs) effect := by
  simp [sides, Text.listed, Text.joined_cons_cons]

theorem exists_row_cons (c : Text) (cs : List Text) : ∃ r, row (c :: cs) = c ++ r := by
  cases cs with
  | nil => exact ⟨[], (List.append_nil c).symm⟩
  | cons c' cs => exact ⟨_, rfl⟩

/-- A token with a comma behind it is settled as the token is. -/
theorem IsToken.settled_comma (h : IsToken c) : Text.IsSettled (c ++ [',']) := by
  obtain ⟨hg, hs, hh, hc⟩ := Text.normalize_eq_self_iff.1 h.settled.normalize
  obtain ⟨hp, -, -, hdot, hcomma⟩ := Text.body_eq_self_iff.1 h.settled.body
  have hs' : Text.Spaced (c ++ [',']) := hs.append (show Text.isBlank ',' = false by decide)
  have hh' : ∀ x ∈ (c ++ [',']).head?, Text.isBlank x = false := by
    rwa [Text.head_append h.ne_nil]
  have hl : ∀ x ∈ c.getLast?, x ≠ ' ' := fun x hx => Text.ne_space (hs.getLast hx)
  constructor
  · refine Text.normalize_eq_self_iff.2 ⟨fun x hx => ?_, hs', hh', ?_⟩
    · rcases List.mem_append.1 hx with hx | hx
      · exact hg x hx
      · rw [List.mem_singleton.1 hx]
        decide
    · have hend : ∀ b, Text.capitalizeFrom b [','] = [','] := by decide
      rw [Text.capitalizeSymbols, Text.capitalizeFrom_append, hend]
      exact congrArg (· ++ [',']) hc
  · exact Text.body_eq_self_iff.2 ⟨by simpa using hp, hs', hh',
      hdot.append (Text.noGapBefore_singleton '.' ',') hl,
      hcomma.append (Text.noGapBefore_singleton ',' ',') hl⟩

theorem sides_ne_nil : sides cs effect ≠ [] := by simp [sides]

theorem normalize_sides (hne : cs ≠ []) (h : ∀ c ∈ cs, IsToken c) (he : effect ≠ [])
    (hs : effect.IsSettled) : (sides cs effect).normalize = sides cs effect := by
  induction cs with
  | nil => exact absurd rfl hne
  | cons c cs ih =>
    have hc := h c (by simp)
    rcases cs with _ | ⟨c', cs⟩
    · have hdash : Text.normalize ([Text.dash] ++ ' ' :: effect) = [Text.dash] ++ ' ' :: effect :=
        Text.normalize_append_space (by decide) (by decide) (by decide) hs.normalize he
      rw [sides_singleton]
      exact Text.normalize_append_space hc.settled.normalize hc.ne_nil hc.closed hdash (by simp)
    · have hclosed : Text.IsClosed '\x7b' '\x7d' (c ++ [',']) := by
        have hd : Text.depth '\x7b' '\x7d' 0 c = 0 := hc.closed
        rw [Text.IsClosed, Text.depth_append, hd]
        rfl
      rw [sides_cons_cons]
      exact Text.normalize_append_space hc.settled_comma.normalize (by simp) hclosed
        (ih (by simp) fun x hx => h x (List.mem_cons_of_mem _ hx)) sides_ne_nil

/-- What the body of costs and effect keeps of the spaces between them. -/
theorem body_sides (hne : cs ≠ []) (h : ∀ c ∈ cs, IsToken c) (he : effect ≠ [])
    (hs : effect.IsSettled) : (sides cs effect).body =
      row cs ++ ' ' :: Text.dash :: (Text.gapBefore effect ++ effect) := by
  induction cs with
  | nil => exact absurd rfl hne
  | cons c cs ih =>
    have hc := h c (by simp)
    rcases cs with _ | ⟨c', cs⟩
    · have hdash : Text.body ([Text.dash] ++ ' ' :: effect) =
          Text.dash :: (Text.gapBefore effect ++ effect) := by
        have hd : Text.body [Text.dash] = [Text.dash] := by decide
        rw [Text.body_append_space (by decide) (by simp [hd]), hs.body, if_neg he, hd]
        rfl
      have hgap : Text.gapBefore (Text.dash :: (Text.gapBefore effect ++ effect)) = [' '] := rfl
      rw [sides_singleton, Text.body_append_space (.of_not_mem hc.settled.not_mem)
        (by rw [hc.settled.body]; exact hc.ne_nil), hdash, if_neg (by simp), hgap, hc.settled.body]
      simp [row]
    · have hrest := ih (by simp) fun x hx => h x (List.mem_cons_of_mem _ hx)
      have hgap : Text.gapBefore (row (c' :: cs) ++ ' ' :: Text.dash ::
          (Text.gapBefore effect ++ effect)) = Text.gapBefore c' := by
        obtain ⟨r, hr⟩ := exists_row_cons c' cs
        rw [Text.gapBefore, hr, List.append_assoc, Text.head_append (h c' (by simp)).ne_nil]
        rfl
      rw [sides_cons_cons, Text.body_append_space (.of_not_mem hc.settled_comma.not_mem)
        (by rw [hc.settled_comma.body]; simp), hrest, if_neg (by simp), hgap,
        hc.settled_comma.body]
      simp [row]

/-! ### Costs of a row -/

theorem mem_row {x : Char} (h : x ∈ row cs) : x = ',' ∨ x = ' ' ∨ ∃ c ∈ cs, x ∈ c := by
  induction cs with
  | nil => cases h
  | cons c cs ih =>
    rcases cs with _ | ⟨c', cs⟩
    · exact .inr (.inr ⟨c, by simp, h⟩)
    · rw [row, List.mem_append, List.mem_cons, List.mem_append] at h
      rcases h with h | h | h | h
      · exact .inr (.inr ⟨c, by simp, h⟩)
      · exact .inl h
      · exact .inr (.inl (Text.eq_space_of_mem_gapBefore h))
      · exact (ih h).imp_right (Or.imp_right fun ⟨u, hu, hx⟩ => ⟨u, List.mem_cons_of_mem _ hu, hx⟩)

/-- A row ends in no blank. -/
theorem getLast_row (h : ∀ c ∈ cs, IsToken c) {x : Char} (hx : x ∈ (row cs).getLast?) :
    Text.isBlank x = false := by
  induction cs with
  | nil => cases hx
  | cons c cs ih =>
    rcases cs with _ | ⟨c', cs⟩
    · exact (h c (by simp)).settled.spaced.getLast hx
    · have hne : row (c' :: cs) ≠ [] := by
        obtain ⟨r, hr⟩ := exists_row_cons c' cs
        simp [hr, (h c' (by simp)).ne_nil]
      refine ih (fun y hy => h y (List.mem_cons_of_mem _ hy)) ?_
      rw [row, ← List.cons_append, ← List.append_assoc, List.getLast?_append, Option.mem_def,
        Option.or_eq_some_iff] at hx
      exact hx.elim id fun hn => absurd (List.getLast?_eq_none_iff.1 hn.1) hne

/-- Between the commas of a row stand its tokens, with or without a space in front. -/
theorem cut_append_row (h : ∀ c ∈ cs, IsToken c) (hc : IsToken c) {gap : Text} (hg : ',' ∉ gap) :
    Text.cut (· == ',') (gap ++ row (c :: cs)) =
      (gap ++ c) :: cs.map fun c => Text.gapBefore c ++ c := by
  have hsingle : ∀ {g t : Text}, ',' ∉ g → IsToken t → Text.cut (· == ',') (g ++ t) = [g ++ t] :=
    fun hg ht => Text.cut_eq_singleton fun x hx => by
      rw [beq_eq_false_iff_ne]
      rintro rfl
      exact (List.mem_append.1 hx).elim hg ht.noComma
  induction cs generalizing c gap with
  | nil => exact hsingle hg hc
  | cons c' cs ih =>
    have hg' : ',' ∉ Text.gapBefore c' := fun hm => by
      cases Text.eq_space_of_mem_gapBefore hm
    rw [row, ← List.append_assoc, Text.cut_append_cons (by decide), hsingle hg hc,
      ih (fun y hy => h y (List.mem_cons_of_mem _ hy)) (h c' (by simp)) hg']
    rfl

theorem cut_row (h : ∀ c ∈ cs, IsToken c) (hc : IsToken c) :
    Text.cut (· == ',') (row (c :: cs)) = c :: cs.map fun c => Text.gapBefore c ++ c :=
  cut_append_row h hc List.not_mem_nil

/-- A token is cut nowhere, and the space in front of it is trimmed off. -/
theorem IsToken.of_gap (h : IsToken c) {gap : Text} (hg : gap = [] ∨ gap = [' ']) :
    Text.cutOn " and ".toList (by decide) (gap ++ c) = [gap ++ c] ∧ (gap ++ c).trim = c := by
  have hi : gap ++ c <:+: ' ' :: (c ++ [' ']) := by
    rcases hg with rfl | rfl
    · exact ⟨[' '], [' '], rfl⟩
    · exact ⟨[], [' '], rfl⟩
  refine ⟨Text.cutOn_eq_singleton _ fun ha => h.noAnd (ha.trans hi), ?_⟩
  rcases hg with rfl | rfl
  · exact h.settled.trim_eq
  · exact (Text.trim_cons_space c).trans h.settled.trim_eq

/-- **The costs of a row** are those of its tokens. -/
theorem listOfText_row (source : ObjectKind) (hne : cs ≠ []) (h : ∀ c ∈ cs, IsToken c) :
    listOfText source (row cs) = cs.map (ofToken source) := by
  obtain ⟨c, cs, rfl⟩ := List.exists_cons_of_ne_nil hne
  have hc := h c (by simp)
  have hcs : ∀ x ∈ cs, IsToken x := fun x hx => h x (List.mem_cons_of_mem _ hx)
  have htokens : (tokens (row (c :: cs))).map Text.trim = c :: cs := by
    rw [tokens, cut_row hcs hc, List.flatMap_cons, List.flatMap_map, List.map_append,
      List.map_flatMap, show Text.cutOn " and ".toList _ c = [c] from (hc.of_gap (.inl rfl)).1]
    have hmap : ∀ x ∈ cs, (Text.cutOn " and ".toList (by decide) (Text.gapBefore x ++ x)).map
        Text.trim = [x] := fun x hx => by
      obtain ⟨h₁, h₂⟩ := (hcs x hx).of_gap (Text.gapBefore_eq_or x)
      rw [h₁, List.map_singleton, h₂]
    rw [List.flatMap_def, List.map_congr_left hmap, ← List.flatMap_def, List.flatMap_singleton',
      List.map_singleton, hc.settled.trim_eq]
    rfl
  rw [listOfText, listOfTokens, htokens, List.filter_eq_self.2 fun x hx => by
    simpa using (h x hx).ne_nil]

/-- The costs of the tokens one by one are the same. -/
theorem listOfTokens_normalize (source : ObjectKind) (h : ∀ c ∈ cs, IsToken c) :
    listOfTokens source (cs.map Text.normalize) = cs.map (ofToken source) := by
  have hself : ∀ {f : Text → Text}, (∀ c ∈ cs, f c = c) → cs.map f = cs := fun hf =>
    (List.map_congr_left hf).trans (List.map_id cs)
  rw [hself fun c hc => (h c hc).settled.normalize, listOfTokens,
    hself fun c hc => (h c hc).settled.trim_eq, List.filter_eq_self.2 fun c hc => by
      simpa using (h c hc).ne_nil]

end Cost

/-- A row of tokens, the first of them known, is split from an effect at the dash between them. -/
theorem splitActivated?_row {source : ObjectKind} {c : Text} {cs : List Text} {effect : Text}
    (h : ∀ x ∈ c :: cs, Cost.IsToken x) (hk : (Cost.ofToken source c).isKnown = true)
    (he : effect ≠ []) (hs : effect.IsSettled) :
    splitActivated? source
        (Cost.row (c :: cs) ++ ' ' :: Text.dash :: (Text.gapBefore effect ++ effect)) =
      some ⟨Cost.row (c :: cs), effect⟩ := by
  have hc := h c (by simp)
  obtain ⟨r, hr⟩ := Cost.exists_row_cons c cs
  have hdash : Text.dash ∉ Cost.row (c :: cs) ++ [' '] := by
    intro hm
    rcases List.mem_append.1 hm with hm | hm
    · rcases Cost.mem_row hm with hm | hm | ⟨x, hx, hm⟩
      · cases hm
      · cases hm
      · exact (h x hx).noDash hm
    · cases List.mem_singleton.1 hm
  have hrow : Cost.row (c :: cs) ≠ [] := by simp [hr, hc.ne_nil]
  have hhead : ∀ x ∈ (Cost.row (c :: cs)).head?, Text.isBlank x = false := by
    rw [hr, Text.head_append hc.ne_nil]
    exact hc.settled.head
  have hleft : Text.trim (Cost.row (c :: cs) ++ [' ']) = Cost.row (c :: cs) :=
    Text.trim_append (a := []) (by simp) (List.forall_mem_singleton.2 rfl) hrow hhead
      fun x hx => Cost.getLast_row h hx
  have hright : Text.trim (Text.gapBefore effect ++ effect) = effect := by
    rcases Text.gapBefore_eq_or effect with hg | hg <;> rw [hg]
    · exact hs.trim_eq
    · exact (Text.trim_cons_space effect).trans hs.trim_eq
  have hfirst : (Text.cut (· == ',') (Cost.row (c :: cs))).head?.getD [] = c := by
    rw [Cost.cut_row (fun x hx => h x (List.mem_cons_of_mem _ hx)) hc]
    rfl
  have hbreak : Text.breakOn? [Text.dash]
      (Cost.row (c :: cs) ++ ' ' :: Text.dash :: (Text.gapBefore effect ++ effect)) =
        some (Cost.row (c :: cs) ++ [' '], Text.gapBefore effect ++ effect) :=
    Text.breakOn?_singleton_eq_some_iff.2 ⟨by simp, hdash⟩
  rw [splitActivated?, hbreak, Option.bind_some, activated?, hleft, hright, hfirst,
    hc.settled.trim_eq, hk, if_neg (by simp [hrow, he])]
  rfl

end CardText
