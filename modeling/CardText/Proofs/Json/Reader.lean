import Mathlib.Data.List.Forall2
import CardText.Json.Reader
import CardText.Proofs.Json.Token

/-!
# JSON inside of JSON

A JSON text is read in the same way inside of arrays and objects, as long as it is not nested too
deep there.

* `Json.nesting`: how deep arrays and objects are nested in a text;
* `Json.State.IsLocal`: an answer that looks only at the innermost arrays and objects; it holds of
  every step (`Json.State.isLocal_step`), and of a run by `Json.State.run_within`;
* `Json.ReadsInside`: a text that is read as a value inside of other arrays and objects, too; a JSON
  text is one (`Json.readsInside_of_read`);
* `Json.readsInside_arrayText`, `Json.readsInside_objectText`: an array and an object are read item
  by item and member by member, by `Json.run_parts`.
-/

namespace CardText

namespace Json

/-! ### Nesting -/

/-- The number of arrays and objects that are open behind the token, where `n` are open in front of
it. -/
def Token.nest (n : Nat) : Token → Nat
  | .arrayStart => n + 1
  | .objectStart => n + 1
  | .arrayEnd => n - 1
  | .objectEnd => n - 1
  | _ => n

/-- The greatest number of arrays and objects that are open at once, where `n` are open in front of
the tokens. -/
def deepest (n : Nat) : List Token → Nat
  | [] => n
  | k :: ks => max n (deepest (k.nest n) ks)

theorem le_deepest (n : Nat) (ks : List Token) : n ≤ deepest n ks := by
  cases ks with
  | nil => exact Nat.le_refl n
  | cons k ks => exact Nat.le_max_left n _

/-- How deep arrays and objects are nested in a text. -/
def nesting (t : Text) : Nat := deepest 0 (tokens t)

namespace State

/-! ### One token -/

/-- The number of arrays and objects that are open. -/
def depth : State → Nat
  | reading _ s => s.length
  | done _ => 0

/-- The state inside of the further arrays and objects `base`: a value that is complete belongs to
the innermost of them. -/
def within (base : Stack) : State → Except Fault State
  | reading place s => .ok (reading place (s ++ base))
  | done v => complete v base

/-- The answer to a token looks only at the innermost arrays and objects: behind it there are as
many as the token says, and it is the same with `base` around them. -/
def IsLocal (k : Token) (answer : Stack → Except Fault State) : Prop :=
  ∀ s st, answer s = .ok st → st.depth = k.nest s.length ∧ ∀ base : Stack,
    k.nest s.length + base.length ≤ maxDepth → answer (s ++ base) = st.within base

theorem isLocal_error (k : Token) (e : Fault) : IsLocal k fun _ => .error e := by
  intro s st h
  cases h

/-- A complete value belongs to what is open around it. -/
theorem complete_eq_ok {v : Value} {s : Stack} {st : State} (h : complete v s = .ok st) :
    st.depth = s.length ∧ ∀ base, complete v (s ++ base) = st.within base := by
  match s with
  | [] =>
    obtain rfl := Except.ok.inj h
    exact ⟨rfl, fun _ => rfl⟩
  | .array items :: s =>
    obtain rfl := Except.ok.inj h
    exact ⟨rfl, fun _ => rfl⟩
  | .member members name :: s =>
    obtain rfl := Except.ok.inj h
    exact ⟨rfl, fun _ => rfl⟩
  | .object members :: s => cases h

theorem isLocal_complete {k : Token} (hk : ∀ n, k.nest n = n) (v : Value) :
    IsLocal k (complete v) := by
  intro s st h
  obtain ⟨hd, hb⟩ := complete_eq_ok h
  exact ⟨hd.trans (hk _).symm, fun base _ => hb base⟩

theorem isLocal_openFrame {k : Token} (hk : ∀ n, k.nest n = n + 1) (place : Place)
    (frame : Frame) : IsLocal k (openFrame place frame) := by
  intro s st h
  rw [openFrame] at h
  split at h
  · obtain rfl := Except.ok.inj h
    refine ⟨(hk _).symm, fun base hbase => if_pos ?_⟩
    rw [hk] at hbase
    rw [List.length_append]
    omega
  · cases h

theorem isLocal_close {k : Token} (hk : ∀ n, k.nest n = n - 1) : IsLocal k (close k) := by
  intro s st h
  match s with
  | .array items :: s =>
    cases k with
    | arrayEnd =>
      obtain ⟨hd, hb⟩ := complete_eq_ok (s := s) h
      exact ⟨hd, fun base _ => hb base⟩
    | _ => cases h
  | .object members :: s =>
    cases k with
    | objectEnd =>
      obtain ⟨hd, hb⟩ := complete_eq_ok (s := s) h
      exact ⟨hd, fun base _ => hb base⟩
    | _ => cases h
  | [] => cases h
  | .member _ _ :: _ => cases h

theorem isLocal_takeValue (k : Token) : IsLocal k fun s => takeValue s k := by
  cases k with
  | text t => exact isLocal_complete (fun _ => rfl) _
  | value v => exact isLocal_complete (fun _ => rfl) _
  | arrayStart => exact isLocal_openFrame (fun _ => rfl) _ _
  | objectStart => exact isLocal_openFrame (fun _ => rfl) _ _
  | _ => exact isLocal_error _ _

theorem isLocal_takeName (k : Token) : IsLocal k fun s => takeName s k := by
  cases k with
  | text t =>
    intro s st h
    match s with
    | .object members :: s =>
      obtain rfl := Except.ok.inj h
      exact ⟨rfl, fun _ _ => rfl⟩
    | [] => cases h
    | .array _ :: _ => cases h
    | .member _ _ :: _ => cases h
  | broken e q => cases q <;> exact isLocal_error _ _
  | _ => exact isLocal_error _ _

theorem isLocal_takeNext (k : Token) : IsLocal k fun s => takeNext s k := by
  cases k with
  | comma =>
    intro s st h
    match s with
    | .array items :: s =>
      obtain rfl := Except.ok.inj h
      exact ⟨rfl, fun _ _ => rfl⟩
    | .object members :: s =>
      obtain rfl := Except.ok.inj h
      exact ⟨rfl, fun _ _ => rfl⟩
    | [] => cases h
    | .member _ _ :: _ => cases h
  | arrayEnd => exact isLocal_close fun _ => rfl
  | objectEnd => exact isLocal_close fun _ => rfl
  | _ =>
    -- no other token ends an array or an object
    intro s st h
    match s with
    | .array items :: s => cases h
    | .object members :: s => cases h
    | [] => cases h
    | .member _ _ :: _ => cases h

/-- Every step looks only at the innermost arrays and objects. -/
theorem isLocal_step (place : Place) (k : Token) :
    IsLocal k fun s => (reading place s).step k := by
  cases place with
  | value => exact isLocal_takeValue k
  | firstItem =>
    cases k with
    | arrayEnd => exact isLocal_close fun _ => rfl
    | _ => exact isLocal_takeValue _
  | firstName =>
    cases k with
    | objectEnd => exact isLocal_close fun _ => rfl
    | _ => exact isLocal_takeName _
  | name => exact isLocal_takeName k
  | colon =>
    cases k with
    | colon =>
      intro s st h
      obtain rfl := Except.ok.inj h
      exact ⟨rfl, fun _ _ => rfl⟩
    | _ => exact isLocal_error _ _
  | next => exact isLocal_takeNext k

/-! ### A text -/

theorem run_cons (st : State) (k : Token) (ks : List Token) :
    st.run (k :: ks) = (st.step k).bind fun st => st.run ks := by
  rw [run]
  cases st.step k <;> rfl

theorem run_singleton (st : State) (k : Token) : st.run [k] = st.step k := by
  rw [run_cons]
  cases st.step k <;> rfl

/-- A run that ends with a value ends with it inside of other arrays and objects, too, if it does
not go too deep there. -/
theorem run_within {place : Place} {s : Stack} {ks : List Token} {v : Value}
    (h : (reading place s).run ks = .ok (done v)) {base : Stack}
    (hd : deepest s.length ks + base.length ≤ maxDepth) :
    (reading place (s ++ base)).run ks = complete v base := by
  -- the steps of the run on its own are repeated around `base`, which none of them reaches
  induction ks generalizing place s with
  | nil => cases h
  | cons k ks ih =>
    rw [run_cons] at h
    rw [deepest] at hd
    cases hk : (reading place s).step k with
    | error e =>
      rw [hk] at h
      cases h
    | ok st =>
      rw [hk] at h
      obtain ⟨hdepth, hlocal⟩ := isLocal_step place k s st hk
      have hle := le_deepest (k.nest s.length) ks
      have hstep : (reading place (s ++ base)).step k = st.within base := hlocal base (by omega)
      rw [run_cons, hstep]
      cases st with
      | reading place' s' =>
        refine ih h ?_
        change s'.length = k.nest s.length at hdepth
        rw [hdepth]
        omega
      | done w =>
        -- nothing may follow a complete value
        cases ks with
        | nil =>
          obtain rfl := State.done.inj (Except.ok.inj h)
          rw [within]
          cases complete w base <;> rfl
        | cons k ks => cases h

theorem step_broken (st : State) (e : Fault) (q : Bool) :
    ∃ e', st.step (.broken e q) = .error e' := by
  match st with
  | done _ => exact ⟨_, rfl⟩
  | reading .value _ => exact ⟨_, rfl⟩
  | reading .firstItem _ => exact ⟨_, rfl⟩
  | reading .firstName _ => cases q <;> exact ⟨_, rfl⟩
  | reading .name _ => cases q <;> exact ⟨_, rfl⟩
  | reading .colon _ => exact ⟨_, rfl⟩
  | reading .next s =>
    refine ⟨.malformed, ?_⟩
    match s with
    | .array items :: s => rfl
    | .object members :: s => rfl
    | [] => rfl
    | .member _ _ :: _ => rfl

/-- A run stops at a broken token. -/
theorem not_mem_broken {st st' : State} {ks : List Token} (h : st.run ks = .ok st') (e : Fault)
    (q : Bool) : Token.broken e q ∉ ks := by
  induction ks generalizing st with
  | nil => exact List.not_mem_nil
  | cons k ks ih =>
    rw [run_cons] at h
    intro hm
    rcases List.mem_cons.1 hm with rfl | hm
    · obtain ⟨e', he⟩ := step_broken st e q
      rw [he] at h
      cases h
    · cases hk : st.step k with
      | error e' =>
        rw [hk] at h
        cases h
      | ok st₁ =>
        rw [hk] at h
        exact ih h hm

end State

open State

variable {t : Text} {v : Value}

theorem run_of_read (h : read t = .ok v) : start.run (tokens t) = .ok (done v) := by
  rw [read] at h
  cases hr : start.run (tokens t) with
  | error e =>
    rw [hr] at h
    cases h
  | ok st =>
    rw [hr] at h
    match st with
    | done w =>
      obtain rfl := Except.ok.inj h
      rfl
    | reading _ _ => cases h

theorem isSound_of_read (h : read t = .ok v) : IsSound t := not_mem_broken (run_of_read h)

/-- The text is read as the value `v` inside of up to `d` arrays and objects. -/
def ReadsInside (d : Nat) (t : Text) (v : Value) : Prop :=
  ∀ base : Stack, base.length ≤ d → (reading .value base).run (tokens t) = complete v base

variable {d : Nat} {base : Stack}

/-- A JSON text is read inside of other arrays and objects as it is on its own. -/
theorem readsInside_of_read (h : read t = .ok v) (hd : nesting t + d ≤ maxDepth) :
    ReadsInside d t v := by
  intro base hb
  have hn : deepest 0 (tokens t) + base.length ≤ maxDepth := by
    rw [nesting] at hd
    omega
  exact run_within (s := []) (run_of_read h) hn

namespace ReadsInside

theorem read_eq (h : ReadsInside d t v) : read t = .ok v := by
  rw [read, start, h [] (Nat.zero_le d)]
  rfl

theorem run_append (h : ReadsInside d t v) (base : Stack) (hb : base.length ≤ d) {r : Text}
    (hr : Stops r) :
    (reading .value base).run (tokens (t ++ r)) =
      (complete v base).bind fun st => st.run (tokens r) := by
  rw [tokens_append (isSound_of_read h.read_eq) hr, State.run_append, h base hb]

end ReadsInside

/-! ### Parts of arrays and objects -/

/-- The text is a part of an array or object: it makes `g` of the innermost one, `f`, whatever
follows it. -/
def Adds (place : Place) (base : Stack) (t : Text) (f g : Frame) : Prop :=
  ∀ r, Stops r → (reading place (f :: base)).run (tokens (t ++ r)) =
    (reading .next (g :: base)).run (tokens r)

/-- Parts with commas between them are added one after the other, the first one in a place of its
own. -/
theorem run_parts {α β : Type} {first place : Place} {frame : β → Frame} (add : β → α → β)
    {t : Text} {a : α} {ts : List Text} {as : List α} {acc : β}
    (hcomma : ∀ acc, (reading .next (frame acc :: base)).step .comma =
      .ok (reading place (frame acc :: base)))
    (ht : Adds first base t (frame acc) (frame (add acc a)))
    (hts : List.Forall₂ (fun t a => ∀ acc, Adds place base t (frame acc) (frame (add acc a))) ts as)
    {r : Text} (hr : Stops r) :
    (reading first (frame acc :: base)).run (tokens (List.intercalate [','] (t :: ts) ++ r)) =
      (reading .next (frame ((a :: as).foldl add acc) :: base)).run (tokens r) := by
  induction hts generalizing first t a acc with
  | nil =>
    rw [List.intercalate_singleton]
    exact ht r hr
  | @cons t' a' ts as ht' _ ih =>
    rw [List.intercalate_cons_cons, List.append_assoc, List.append_assoc, List.singleton_append,
      ht _ (stops_of_mem_marks (by decide) _), tokens_mark rfl rfl, run_cons, hcomma]
    exact ih (ht' _)

/-! ### Arrays -/

/-- The array with the texts `ts` as its items. -/
def arrayText (ts : List Text) : Text := '[' :: (List.intercalate [','] ts ++ [']'])

theorem ReadsInside.adds (h : ReadsInside (d + 1) t v) (hb : base.length ≤ d)
    (items : List Value) : Adds .value base t (.array items) (.array (v :: items)) :=
  fun _ hr => h.run_append (.array items :: base) (Nat.succ_le_succ hb) hr

/-- A JSON text is no end of an array. -/
theorem ReadsInside.adds_first (h : ReadsInside (d + 1) t v) (hb : base.length ≤ d) :
    Adds .firstItem base t (.array []) (.array [v]) := by
  intro r hr
  refine Eq.trans ?_ (h.adds hb [] r hr)
  rw [tokens_append (isSound_of_read h.read_eq) hr]
  have hrun := run_of_read h.read_eq
  cases hk : tokens t with
  | nil =>
    rw [hk] at hrun
    cases hrun
  | cons k ks =>
    rw [hk] at hrun
    cases k with
    | arrayEnd => cases hrun
    | _ => rfl

/-- An array is read item by item. -/
theorem readsInside_arrayText {ts : List Text} {vs : List Value} (hd : d < maxDepth)
    (h : List.Forall₂ (ReadsInside (d + 1)) ts vs) : ReadsInside d (arrayText ts) (.array vs) := by
  intro base hb
  have hopen : (reading .value base).step .arrayStart =
      .ok (reading .firstItem (.array [] :: base)) := if_pos (by omega)
  rw [arrayText, tokens_mark rfl rfl, run_cons, hopen]
  change (reading .firstItem (.array [] :: base)).run _ = _
  cases h with
  | nil =>
    rw [List.intercalate_nil, List.nil_append, tokens_singleton rfl rfl, run_singleton]
    rfl
  | @cons t v ts vs ht hts =>
    rw [run_parts (fun items v => v :: items) (fun _ => rfl) (ht.adds_first hb)
        (hts.imp fun t v ht items => ht.adds hb items) (stops_of_mem_marks (by decide) _),
      tokens_singleton rfl rfl, run_singleton, List.foldl_flip_cons_eq_append']
    change complete (.array (_ ++ []).reverse) base = _
    rw [List.append_nil, List.reverse_reverse]

/-! ### Objects -/

/-- The text of a member of an object: that of its name and that of its value. -/
structure MemberText where
  name : Text
  value : Text

namespace MemberText

/-- The member with its colon. -/
def text (m : MemberText) : Text := m.name ++ ':' :: m.value

/-- The member has the name and the value `e`, inside of up to `d` arrays and objects. -/
structure ReadsInside (d : Nat) (m : MemberText) (e : Text × Value) : Prop where
  name : tokens m.name = [.text e.1]
  value : Json.ReadsInside d m.value e.2

variable {m : MemberText} {e : Text × Value}

theorem ReadsInside.tokens_text (h : ReadsInside d m e) (r : Text) :
    tokens (m.text ++ r) = .text e.1 :: .colon :: tokens (m.value ++ r) := by
  have hs : IsSound m.name := by
    rw [IsSound, h.name]
    simp
  rw [text, List.append_assoc, List.cons_append,
    tokens_append hs (stops_of_mem_marks (by decide) _), tokens_mark rfl rfl, h.name]
  rfl

theorem ReadsInside.adds (h : ReadsInside (d + 1) m e) (hb : base.length ≤ d)
    (members : Members) :
    Adds .name base m.text (.object members) (.object (members.put e.1 e.2)) := by
  intro r hr
  rw [h.tokens_text]
  exact h.value.run_append (.member members e.1 :: base) (Nat.succ_le_succ hb) hr

/-- The name of a member is no end of an object. -/
theorem ReadsInside.adds_first (h : ReadsInside (d + 1) m e) (hb : base.length ≤ d) :
    Adds .firstName base m.text (.object []) (.object [e]) := by
  intro r hr
  refine Eq.trans ?_ (h.adds hb [] r hr)
  rw [h.tokens_text]
  rfl

end MemberText

/-- The object with the texts `ms` as its members. -/
def objectText (ms : List MemberText) : Text :=
  '\x7b' :: (List.intercalate [','] (ms.map MemberText.text) ++ ['\x7d'])

/-- The object with these members. Of members with the same name the last one counts. -/
def objectOf (es : List (Text × Value)) : Value :=
  .object (es.foldl (fun t e => Table.put t e.1 e.2) [])

/-- An object is read member by member. -/
theorem readsInside_objectText {ms : List MemberText} {es : List (Text × Value)} (hd : d < maxDepth)
    (h : List.Forall₂ (MemberText.ReadsInside (d + 1)) ms es) :
    ReadsInside d (objectText ms) (objectOf es) := by
  intro base hb
  have hopen : (reading .value base).step .objectStart =
      .ok (reading .firstName (.object [] :: base)) := if_pos (by omega)
  rw [objectText, tokens_mark rfl rfl, run_cons, hopen]
  change (reading .firstName (.object [] :: base)).run _ = _
  cases h with
  | nil =>
    rw [List.map_nil, List.intercalate_nil, List.nil_append, tokens_singleton rfl rfl,
      run_singleton]
    rfl
  | @cons m e ms es hm hms =>
    have hparts : List.Forall₂ (fun t e => ∀ members : Members,
        Adds .name base t (.object members) (.object (members.put e.1 e.2)))
        (ms.map MemberText.text) es :=
      List.forall₂_map_left_iff.2 (hms.imp fun m e hm members => hm.adds hb members)
    rw [List.map_cons, run_parts (fun (t : Members) (e : Text × Value) => t.put e.1 e.2)
        (fun _ => rfl) (hm.adds_first hb) hparts (stops_of_mem_marks (by decide) _),
      tokens_singleton rfl rfl, run_singleton]
    rfl

end Json

end CardText
