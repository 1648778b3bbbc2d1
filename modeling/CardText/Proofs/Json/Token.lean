import Mathlib.Tactic.SplitIfs
import CardText.Json.Token

/-!
# Tokens of texts in a row

Whether something follows a text does not change its tokens, unless a number could go on in what
follows.

* `Json.Stops`: no number goes on in a text;
* `Json.Taken.Ignores`: a reader takes no notice of what follows the text that it reads from; it is
  kept by reading one thing after another (`Json.Taken.Ignores.andThen`) and holds of all readers up
  to `Json.ignores_token`;
* `Json.IsSound`: a text that can be cut into tokens as a whole;
* `Json.tokens_append`: its tokens stand in front of those of what follows;
* `Json.stops_of_mem_marks`, `Json.tokens_mark`: a mark ends a number and is a token.
-/

namespace CardText

namespace Json

/-- No number goes on in the text: it begins with no digit, no point and no exponent. -/
def Stops (b : Text) : Prop := ∀ c ∈ b.head?, c.isDigit = false ∧ c ≠ '.' ∧ c ≠ 'e' ∧ c ≠ 'E'

/-! ### Reading in front of a text -/

namespace Taken

variable {α β : Type} {b : Text}

theorem map_eq_ok {x : Taken α} {f : α → β} {c : β} {r : Text} :
    x.map f = .ok (c, r) ↔ ∃ a, x = .ok (a, r) ∧ f a = c := by
  rcases x with e | ⟨a, s⟩
  · simp [map]
  · simp only [map, Except.ok.injEq, Prod.mk.injEq]
    exact ⟨fun ⟨h, hr⟩ => ⟨a, ⟨rfl, hr⟩, h⟩, fun ⟨_, ⟨ha, hr⟩, h⟩ => ⟨ha ▸ h, hr⟩⟩

theorem andThen_eq_ok {x : Taken α} {k : α → Text → Taken β} {c : β} {r : Text} :
    x.andThen k = .ok (c, r) ↔ ∃ a s, x = .ok (a, s) ∧ k a s = .ok (c, r) := by
  rcases x with e | ⟨a, s⟩
  · simp [andThen]
  · simp only [andThen, Except.ok.injEq, Prod.mk.injEq]
    refine ⟨fun h => ⟨a, s, ⟨rfl, rfl⟩, h⟩, ?_⟩
    rintro ⟨_, _, ⟨rfl, rfl⟩, h⟩
    exact h

/-- The reader takes no notice of `b` behind a text that it can read from. -/
def Ignores (b : Text) (f : Text → Taken α) : Prop :=
  ∀ t a r, f t = .ok (a, r) → f (t ++ b) = .ok (a, r ++ b)

theorem Ignores.map {f : Text → Taken α} (h : Ignores b f) (g : α → β) :
    Ignores b fun t => (f t).map g := by
  intro t c r hc
  obtain ⟨a, ha, rfl⟩ := map_eq_ok.1 hc
  exact map_eq_ok.2 ⟨a, h t a r ha, rfl⟩

theorem Ignores.andThen {f : Text → Taken α} {k : α → Text → Taken β} (h : Ignores b f)
    (hk : ∀ a, Ignores b (k a)) : Ignores b fun t => (f t).andThen k := by
  intro t c r hc
  obtain ⟨a, s, ha, hs⟩ := andThen_eq_ok.1 hc
  exact andThen_eq_ok.2 ⟨a, s ++ b, h t a s ha, hk a s c r hs⟩

theorem ignores_ok (a : α) : Ignores b fun t => (.ok (a, t) : Taken α) := by
  intro t c r h
  obtain ⟨rfl, rfl⟩ := Prod.mk.inj (Except.ok.inj h)
  rfl

theorem ignores_error (e : Fault) : Ignores b fun _ => (.error e : Taken α) := by
  intro t a r h
  cases h

end Taken

open Taken

variable {b : Text}

/-! ### Quoted texts -/

theorem ignores_hexUnit (b : Text) : Ignores b hexUnit := by
  intro t n r h
  rw [hexUnit.eq_def] at h
  split at h
  · next w x y z s =>
    rw [List.cons_append, List.cons_append, List.cons_append, List.cons_append, hexUnit]
    split at h
    · obtain ⟨rfl, rfl⟩ := Prod.mk.inj (Except.ok.inj h)
      rfl
    · cases h
  · cases h

theorem ignores_lowSurrogate (high : Nat) (b : Text) : Ignores b (lowSurrogate high) := by
  intro t c r h
  rw [lowSurrogate.eq_def] at h
  split at h
  · cases h
  · cases h
  · next s =>
    refine (ignores_hexUnit b).andThen (fun low => ?_) s c r h
    intro u d r h
    split at h
    · next hlow =>
      obtain ⟨rfl, rfl⟩ := Prod.mk.inj (Except.ok.inj h)
      exact if_pos hlow
    · cases h
  · cases h

theorem ignores_numberedEscape (b : Text) : Ignores b numberedEscape := by
  refine (ignores_hexUnit b).andThen fun n => ?_
  split_ifs
  · exact ignores_lowSurrogate n b
  · exact ignores_error _
  · exact ignores_ok _

theorem ignores_escape (b : Text) : Ignores b escape := by
  intro t d r h
  rw [escape.eq_def] at h
  split at h
  · cases h
  · next c s =>
    rw [List.cons_append, escape]
    split at h
    · next hc =>
      rw [if_pos hc]
      exact ignores_numberedEscape b s d r h
    · next hc =>
      rw [if_neg hc]
      split at h
      · exact ignores_ok _ s d r h
      · cases h

theorem quoted_cons_of_escape {r rest : Text} {d : Char} (h : escape r = .ok (d, rest)) :
    quoted ('\\' :: r) = (quoted rest).map (d :: ·) := by
  rw [quoted, if_neg (by decide), if_pos rfl]
  split
  · next e he => rw [h] at he; cases he
  · next d' rest' he =>
    rw [h] at he
    obtain ⟨rfl, rfl⟩ := Prod.mk.inj (Except.ok.inj he)
    rfl

theorem ignores_quoted (b : Text) : Ignores b quoted := by
  intro t
  fun_induction quoted t with
  | case1 => intro a r h; cases h
  | case2 r =>
    intro a s h
    obtain ⟨rfl, rfl⟩ := Prod.mk.inj (Except.ok.inj h)
    rw [List.cons_append, quoted, if_pos rfl]
  | case3 => intro a r h; cases h
  | case4 r d rest he _ _ ih =>
    intro a s h
    obtain ⟨t, ht, rfl⟩ := map_eq_ok.1 h
    rw [List.cons_append, quoted_cons_of_escape (ignores_escape b r d rest he)]
    exact map_eq_ok.2 ⟨t, ih t s ht, rfl⟩
  | case5 => intro a r h; cases h
  | case6 c r hq hb hc ih =>
    intro a s h
    obtain ⟨t, ht, rfl⟩ := map_eq_ok.1 h
    rw [List.cons_append, quoted, if_neg hq, if_neg hb, if_neg hc]
    exact map_eq_ok.2 ⟨t, ih t s ht, rfl⟩

/-! ### Numbers -/

/-- A run of digits ends in front of a text that begins with none. -/
theorem takeWhile_append_stops (hb : Stops b) (r : Text) :
    (r ++ b).takeWhile Char.isDigit = r.takeWhile Char.isDigit ∧
      (r ++ b).dropWhile Char.isDigit = r.dropWhile Char.isDigit ++ b := by
  induction r with
  | nil =>
    cases b with
    | nil => exact ⟨rfl, rfl⟩
    | cons c b => simp [(hb c rfl).1]
  | cons c r ih => by_cases hc : c.isDigit = true <;> simp [hc, ih]

theorem ignores_someDigits (hb : Stops b) : Ignores b someDigits := by
  intro t a r h
  rw [someDigits.eq_def] at h
  split at h
  · cases h
  · next c s =>
    split at h
    · next hc =>
      obtain ⟨rfl, rfl⟩ := Prod.mk.inj (Except.ok.inj h)
      obtain ⟨ht, hd⟩ := takeWhile_append_stops hb s
      rw [List.cons_append, someDigits, if_pos hc, ht, hd]
    · cases h

theorem ignores_fractionPart (hb : Stops b) : Ignores b fractionPart := by
  intro t a r h
  rw [fractionPart.eq_def] at h
  split at h
  · exact (ignores_someDigits hb).map some _ a r h
  · next hp =>
    obtain ⟨rfl, rfl⟩ := Prod.mk.inj (Except.ok.inj h)
    rw [fractionPart.eq_def]
    split
    · next s hs =>
      -- the point would stand in the text or at the begin of what follows
      cases t with
      | nil => exact absurd rfl (hb '.' (by rw [show b = '.' :: s from hs]; rfl)).2.1
      | cons c t => exact absurd (by rw [(List.cons.inj hs).1]) (hp t)
    · rfl

theorem ignores_exponentDigits (hb : Stops b) : Ignores b exponentDigits := by
  intro t a r h
  rw [exponentDigits.eq_def] at h
  split at h
  · exact (ignores_someDigits hb).map _ _ a r h
  · exact (ignores_someDigits hb).map _ _ a r h
  · next hm hp =>
    have hs := (ignores_someDigits hb).map (fun ds => (Text.digitsValue ds : Int)) t a r h
    rw [exponentDigits.eq_def]
    cases t with
    | nil => cases h
    | cons c t =>
      split
      · next s he => exact absurd (by rw [(List.cons.inj he).1]) (hm t)
      · next s he => exact absurd (by rw [(List.cons.inj he).1]) (hp t)
      · exact hs

theorem ignores_exponentPart (hb : Stops b) : Ignores b exponentPart := by
  intro t a r h
  rw [exponentPart.eq_def] at h
  split at h
  · exact (ignores_exponentDigits hb).map some _ a r h
  · exact (ignores_exponentDigits hb).map some _ a r h
  · next hl hu =>
    obtain ⟨rfl, rfl⟩ := Prod.mk.inj (Except.ok.inj h)
    rw [exponentPart.eq_def]
    split
    · next s hs =>
      cases t with
      | nil => exact absurd rfl (hb 'e' (by rw [show b = 'e' :: s from hs]; rfl)).2.2.1
      | cons c t => exact absurd (by rw [(List.cons.inj hs).1]) (hl t)
    · next s hs =>
      cases t with
      | nil => exact absurd rfl (hb 'E' (by rw [show b = 'E' :: s from hs]; rfl)).2.2.2
      | cons c t => exact absurd (by rw [(List.cons.inj hs).1]) (hu t)
    · rfl

theorem ignores_wholeDigits (hb : Stops b) (c : Char) : Ignores b (wholeDigits c) := by
  intro t a r h
  rw [wholeDigits] at h ⊢
  split at h
  · next hc =>
    rw [if_pos hc]
    split at h
    · cases h
    · next hd =>
      obtain ⟨rfl, rfl⟩ := Prod.mk.inj (Except.ok.inj h)
      refine if_neg ?_
      cases t with
      | nil =>
        cases b with
        | nil => exact hd
        | cons x b => simp [(hb x rfl).1]
      | cons x t => exact hd
  · next hc =>
    obtain ⟨rfl, rfl⟩ := Prod.mk.inj (Except.ok.inj h)
    obtain ⟨ht, hd⟩ := takeWhile_append_stops hb t
    rw [if_neg hc, ht, hd]

theorem ignores_numeral (hb : Stops b) (negative : Bool) (c : Char) :
    Ignores b (numeral negative c) :=
  (ignores_wholeDigits hb c).andThen fun _ => (ignores_fractionPart hb).andThen fun _ =>
    (ignores_exponentPart hb).map _

theorem ignores_number (hb : Stops b) (negative : Bool) (c : Char) :
    Ignores b (number negative c) := by
  refine (ignores_numeral hb negative c).andThen fun n => ?_
  split
  · exact ignores_ok _
  · exact ignores_error _

theorem ignores_negativeNumber (hb : Stops b) : Ignores b negativeNumber := by
  intro t v r h
  rw [negativeNumber.eq_def] at h
  split at h
  · cases h
  · next c s =>
    split at h
    · next hc =>
      rw [List.cons_append, negativeNumber, if_pos hc]
      exact ignores_number hb true c s v r h
    · cases h

/-! ### Tokens -/

theorem ignores_afterWord (word b : Text) : Ignores b (afterWord word) := by
  induction word with
  | nil => exact ignores_ok ()
  | cons x word ih =>
    intro t a r h
    cases t with
    | nil => cases h
    | cons c t =>
      rw [afterWord] at h
      split at h
      · next hc =>
        rw [List.cons_append, afterWord, if_pos hc]
        exact ih t a r h
      · cases h

theorem ignores_token (hb : Stops b) (c : Char) : Ignores b (token c) := by
  intro t k r h
  rw [token] at h ⊢
  split at h
  · exact ignores_ok _ t k r h
  · split at h
    · next word v _ => exact (ignores_afterWord word.toList b).map (fun _ => Token.value v) t k r h
    · split_ifs at h ⊢
      · exact (ignores_quoted b).map Token.text t k r h
      · exact (ignores_negativeNumber hb).map Token.value t k r h
      · exact (ignores_number hb false c).map Token.value t k r h

/-- The text can be cut into tokens as a whole. -/
def IsSound (t : Text) : Prop := ∀ e q, Token.broken e q ∉ tokens t

theorem tokens_nil : tokens [] = [] := by rw [tokens]

theorem tokens_separator {c : Char} (h : isSeparator c = true) (r : Text) :
    tokens (c :: r) = tokens r := by
  rw [tokens, if_pos h]

theorem tokens_cons_of_ok {c : Char} {r rest : Text} {k : Token} (hc : isSeparator c = false)
    (h : token c r = .ok (k, rest)) : tokens (c :: r) = k :: tokens rest := by
  rw [tokens, if_neg (by simp [hc])]
  split
  · next e he => rw [h] at he; cases he
  · next k' rest' he =>
    rw [h] at he
    obtain ⟨rfl, rfl⟩ := Prod.mk.inj (Except.ok.inj he)
    rfl

/-- **The tokens of a text stand in front of those of what follows**, where no number goes on in
it. -/
theorem tokens_append {t : Text} (h : IsSound t) (hb : Stops b) :
    tokens (t ++ b) = tokens t ++ tokens b := by
  induction t using tokens.induct with
  | case1 => simp [tokens]
  | case2 c r hc ih =>
    rw [IsSound, tokens_separator hc] at h
    rw [List.cons_append, tokens_separator hc, ih h, tokens_separator hc]
  | case3 c r hc e he =>
    refine absurd (?_ : Token.broken e (c == '"') ∈ tokens (c :: r)) (h _ _)
    rw [tokens, if_neg hc]
    split
    · next e' he' =>
      rw [he] at he'
      obtain rfl := Except.error.inj he'
      exact List.mem_cons_self
    · next k rest hk => rw [he] at hk; cases hk
  | case4 c r hc k rest hk _ ih =>
    have hc' : isSeparator c = false := by simpa using hc
    have ht := tokens_cons_of_ok hc' hk
    rw [ht, List.cons_append, tokens_cons_of_ok hc' (ignores_token hb c r k rest hk),
      ih fun e q hm => h e q (ht ▸ List.mem_cons_of_mem _ hm), List.cons_append]

/-! ### Marks -/

/-- A mark ends a number. -/
theorem stops_of_mem_marks {c : Char} (h : c ∈ marks.map (·.1)) (r : Text) : Stops (c :: r) := by
  have hm : ∀ e ∈ marks, e.1.isDigit = false ∧ e.1 ≠ '.' ∧ e.1 ≠ 'e' ∧ e.1 ≠ 'E' := by decide
  obtain ⟨e, he, rfl⟩ := List.mem_map.1 h
  intro x hx
  obtain rfl := Option.some.inj hx
  exact hm e he

/-- The tokens behind a mark. -/
theorem tokens_mark {c : Char} {k : Token} (h : marks.lookup c = some k)
    (hc : isSeparator c = false) (r : Text) : tokens (c :: r) = k :: tokens r := by
  refine tokens_cons_of_ok hc ?_
  rw [token, h]

theorem tokens_singleton {c : Char} {k : Token} (h : marks.lookup c = some k)
    (hc : isSeparator c = false) : tokens [c] = [k] := by
  rw [tokens_mark h hc, tokens_nil]

end Json

end CardText
