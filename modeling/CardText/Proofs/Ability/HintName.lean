import CardText.Ability.Shape
import CardText.Proofs.Text.Pieces
import CardText.Proofs.Text.Settled

/-!
# Names of hints

A hint gives the name of its ability apart from the text, and the name stands in front of the text
as well.  There it is told from the rest only if it is written in plain form: the name is compared
as it came, the text in plain form.

* `Hint.segment`: the segment of a hint;
* `Hint.IsNamed`: a hint with a name and with the name in front of its full text;
* `Hint.IsNamed.body_text`: the body of its text, the name in front of it in plain form;
* `Classified.ofSegment_eq_ofBody`: without a keyword and an effect the shape is that of the body;
* `Classified.ofSegment_named_iff`: when the name is taken off.
-/

namespace CardText

/-- The segment that a card has for a hint, at the place `n`. -/
def Hint.segment (h : Hint) (n : Nat) : Segment := ⟨n, h.text, h.text.normalize, some h⟩

/-- The hint has the name `name`, which stands in front of `text` in its full text as well, and has
neither keyword nor effect.  The name has no blanks around it, no parenthesis and no symbol; what
counts of the text begins with a letter or a symbol. -/
structure Hint.IsNamed (h : Hint) (name text : Text) : Prop where
  keyword_eq : h.keyword = none
  effect_eq : h.effect = none
  name_eq : h.name = some name
  fullText_eq : h.fullText = name ++ ' ' :: text
  trim_eq : name.trim = name
  ne_nil : name ≠ []
  noParenthesis : '(' ∉ name
  noSymbol : '\x7b' ∉ name
  opens : ∃ c ∈ text.normalize.body.head?, Text.isLetter c = true ∨ c = '\x7b'

namespace Hint.IsNamed

variable {h : Hint} {name text : Text} (hn : h.IsNamed name text)

include hn

theorem isVoid_name : name.isVoid = false := by
  rw [Text.isVoid, hn.trim_eq]
  simpa using hn.ne_nil

/-- The full text is there, so that no other part of the hint stands for it. -/
theorem text_eq : h.text = name ++ ' ' :: text := by
  have hv : h.fullText.isVoid = false := by
    rw [hn.fullText_eq, Text.isVoid_append, hn.isVoid_name, Bool.false_and]
  rw [Hint.text, hv, Bool.not_false, if_pos rfl, hn.fullText_eq]

/-- The body is the name in plain form and then the body of the text. -/
theorem body_text : h.text.normalize.body = name.normalize.body ++ ' ' :: text.normalize.body := by
  obtain ⟨c, hc, hl⟩ := hn.opens
  have hname : name.normalize.body ≠ [] := by
    intro he
    have hv := Text.isVoid_body_normalize name
    have hself : (Text.parted 0 [] name).body = name := by
      rw [Text.parted_eq_self hn.noParenthesis]
    have hb : name.body.isVoid = false := by
      rw [← Bool.not_eq_true, Text.isVoid_iff_ink, Text.ink_body, hself, ← Text.isVoid_iff_ink,
        hn.isVoid_name]
      exact Bool.false_ne_true
    rw [he, hb] at hv
    cases hv
  have htext : text.normalize.body ≠ [] := fun he => by
    rw [he] at hc
    cases hc
  have hgap : Text.gapBefore text.normalize.body = [' '] := Text.gapBefore_eq_space fun x hx => by
    obtain rfl : c = x := Option.mem_unique hc hx
    constructor <;>
    · rintro rfl
      revert hl
      decide
  rw [hn.text_eq, Text.body_normalize_append_space (.of_not_mem hn.noParenthesis)
    (.of_not_mem hn.noSymbol) hname htext, hgap, List.append_assoc, List.singleton_append]

/-- A name in plain form is taken off. -/
theorem bodyAfterName_of_isSettled (hs : name.IsSettled) :
    Classified.bodyAfterName (some name) h.text.normalize.body = text.normalize.body := by
  have htrim : text.normalize.body.trim = text.normalize.body :=
    Text.trim_eq_self (fun _ => Text.head_body) fun _ => (Text.spaced_body _).getLast
  have hplain : name.normalize.body = name := by rw [hs.normalize, hs.body]
  simp only [Classified.bodyAfterName, hn.body_text, hplain, Text.isPrefixOf?_append,
    Text.trim_cons_space, htrim]

/-- Any other name stays, in plain form: it does not stand in front of the body as it came. -/
theorem bodyAfterName_of_not_isSettled (hs : ¬ name.IsSettled) :
    Classified.bodyAfterName (some name) h.text.normalize.body = h.text.normalize.body := by
  have hnone : name.isPrefixOf? h.text.normalize.body = none := Text.isPrefixOf?_eq_none
    fun hp => hs (Text.isSettled_of_isPrefix hn.trim_eq hn.noParenthesis hn.noSymbol hp)
  simp only [Classified.bodyAfterName, hnone]

end Hint.IsNamed

namespace Classified

variable {h : Hint} {n : Nat}

/-- A hint that has neither keyword nor effect, and is no keyword line, has the shape of its
body. -/
theorem ofSegment_eq_ofBody (ctx : Context) (hkeyword : h.keyword = none)
    (heffect : h.effect = none) (hk : Keyword.entries? h.text.normalize = none) :
    ofSegment ctx (h.segment n) = ⟨h.name, bodyAfterName h.name h.text.normalize.body,
      Shape.ofBody ctx (bodyAfterName h.name h.text.normalize.body)⟩ := by
  have hentry : Keyword.entryOfHint? h = none := by rw [Keyword.entryOfHint?, hkeyword]; rfl
  have hshape : ∀ body, Shape.ofHint ctx h body = Shape.ofBody ctx body := fun body => by
    rw [Shape.ofHint, heffect]
    rcases h.hintType with _ | t
    · rfl
    · cases t <;> rfl
  simp only [ofSegment, Hint.segment, ofHint, hentry, hk, hshape]

variable {name text : Text}

/-- **The name of a hint** is taken off the text just if it is written in plain form.  Then the body
and the shape are those of the text behind it.  Otherwise the name stays in front of the body, and
the shape is that of both together. -/
theorem ofSegment_named_iff (ctx : Context) (n : Nat) (hn : h.IsNamed name text)
    (hk : Keyword.entries? (h.segment n).text = none) :
    ((ofSegment ctx (h.segment n)).body = text.normalize.body ∧
        (ofSegment ctx (h.segment n)).shape = Shape.ofBody ctx text.normalize.body ↔
      name.IsSettled) ∧
      (¬ name.IsSettled → ofSegment ctx (h.segment n) =
        ⟨some name, name.normalize.body ++ ' ' :: text.normalize.body,
          Shape.ofBody ctx (name.normalize.body ++ ' ' :: text.normalize.body)⟩) := by
  have hclass := ofSegment_eq_ofBody (n := n) ctx hn.keyword_eq hn.effect_eq hk
  rw [hn.name_eq] at hclass
  by_cases hset : name.IsSettled
  · rw [hn.bodyAfterName_of_isSettled hset] at hclass
    refine ⟨iff_of_true ?_ hset, fun h => absurd hset h⟩
    simp only [hclass, and_self]
  · rw [hn.bodyAfterName_of_not_isSettled hset, hn.body_text] at hclass
    refine ⟨iff_of_false (fun hc => ?_) hset, fun _ => hclass⟩
    -- the body is longer by the name
    have hbody := hc.1
    rw [hclass] at hbody
    have hlen := congrArg List.length hbody
    simp only [List.length_append, List.length_cons] at hlen
    omega

/-- The name "MAGIC MIRROR" in front of a text with glyphs and another dash. -/
def mirror : Hint :=
  { name := some "MAGIC MIRROR".toList
    fullText := "MAGIC MIRROR".toList ++ ' ' :: "⟳, 2 ⬡ – Draw a card.".toList }

theorem ofSegment_named_mirror :
    (ofSegment ⟨.item, {}⟩ (mirror.segment 0)).body =
        "\x7bE\x7d, 2 \x7bI\x7d — Draw a card.".toList ∧
      (ofSegment ⟨.item, {}⟩ (mirror.segment 0)).shape =
        Shape.ofBody ⟨.item, {}⟩ "\x7bE\x7d, 2 \x7bI\x7d — Draw a card.".toList := by
  have hn : mirror.IsNamed "MAGIC MIRROR".toList "⟳, 2 ⬡ – Draw a card.".toList :=
    { keyword_eq := rfl
      effect_eq := rfl
      name_eq := rfl
      fullText_eq := rfl
      trim_eq := by decide
      ne_nil := by decide
      noParenthesis := by decide
      noSymbol := by decide
      opens := ⟨'\x7b', by decide +kernel, .inr rfl⟩ }
  have hk : Keyword.entries? (mirror.segment 0).text = none := by decide +kernel
  have hb : Text.body (Text.normalize "⟳, 2 ⬡ – Draw a card.".toList) =
      "\x7bE\x7d, 2 \x7bI\x7d — Draw a card.".toList := by decide +kernel
  have hset : Text.IsSettled "MAGIC MIRROR".toList := ⟨by decide +kernel, by decide +kernel⟩
  have hboth := (ofSegment_named_iff ⟨.item, {}⟩ 0 hn hk).1.2 hset
  rwa [hb] at hboth

/-- The name "BELLE’S BOOK", with a curly quote. -/
def bellesBook : Hint :=
  { name := some "BELLE’S BOOK".toList
    fullText :=
      "BELLE’S BOOK".toList ++ ' ' :: "When you play this character, draw a card.".toList }

/-- A name with a curly quote stays in front of the body. -/
theorem not_ofSegment_named :
    ¬ ∀ (ctx : Context) (n : Nat) (h : Hint) (name text : Text), h.IsNamed name text →
      Keyword.entries? (h.segment n).text = none →
        (ofSegment ctx (h.segment n)).body = text.normalize.body ∧
          (ofSegment ctx (h.segment n)).shape = Shape.ofBody ctx text.normalize.body := by
  intro hall
  have hn : bellesBook.IsNamed "BELLE’S BOOK".toList
      "When you play this character, draw a card.".toList :=
    { keyword_eq := rfl
      effect_eq := rfl
      name_eq := rfl
      fullText_eq := rfl
      trim_eq := by decide
      ne_nil := by decide
      noParenthesis := by decide
      noSymbol := by decide
      opens := ⟨'W', by decide +kernel, .inl (by decide)⟩ }
  obtain ⟨hbody, -⟩ := hall ⟨.character, {}⟩ 0 bellesBook _ _ hn (by decide +kernel)
  revert hbody
  decide +kernel

end Classified

end CardText
