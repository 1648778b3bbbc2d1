import CardText.Text.Basic

/-!
# Tables

A table keeps values under texts, its keys, in the order in which the keys came first.

* `Table.get?`, `Table.put`: the value of a key, and a new value for it; `Table.get?_put` says that
  nothing else changes;
* `Table.keys`: the keys, where a new one comes last (`Table.keys_put_of_mem`,
  `Table.keys_put_of_not_mem`) and none comes twice (`Table.nodup_keys_put`).
-/

namespace CardText

/-- Values under keys. -/
abbrev Table (α : Type) := List (Text × α)

namespace Table

variable {α : Type}

/-- The keys in their order. -/
def keys (t : Table α) : List Text := t.map (·.1)

/-- The value of a key. -/
def get? : Table α → Text → Option α
  | [], _ => none
  | e :: t, key => if e.1 = key then some e.2 else get? t key

/-- Sets the value of a key. -/
def put : Table α → Text → α → Table α
  | [], key, v => [(key, v)]
  | e :: t, key, v => if e.1 = key then (key, v) :: t else e :: put t key v

/-- Setting a value changes what is under its key and nothing else. -/
theorem get?_put (t : Table α) (key other : Text) (v : α) :
    (t.put key v).get? other = if key = other then some v else t.get? other := by
  induction t with
  | nil => rfl
  | cons e t ih =>
    rw [put]
    split
    · next he =>
      subst he
      simp only [get?]
      split <;> rfl
    · next he =>
      simp only [get?, ih]
      split
      · next ho => rw [if_neg fun h => he (ho.trans h.symm)]
      · rfl

/-- A key that is there stays where it is. -/
theorem keys_put_of_mem {t : Table α} {key : Text} (h : key ∈ t.keys) (v : α) :
    (t.put key v).keys = t.keys := by
  induction t with
  | nil => cases h
  | cons e t ih =>
    rw [put]
    split
    · next he => subst he; rfl
    · next he =>
      have h : key ∈ keys t := (List.mem_cons.1 h).resolve_left fun h => he h.symm
      exact congrArg (e.1 :: ·) (ih h)

/-- A key that is new comes last. -/
theorem keys_put_of_not_mem {t : Table α} {key : Text} (h : key ∉ t.keys) (v : α) :
    (t.put key v).keys = t.keys ++ [key] := by
  induction t with
  | nil => rfl
  | cons e t ih =>
    have he : e.1 ≠ key := fun he => h (List.mem_cons.2 (.inl he.symm))
    rw [put, if_neg he]
    exact congrArg (e.1 :: ·) (ih fun hm => h (List.mem_cons_of_mem _ hm))

/-- Keys that were different stay different. -/
theorem nodup_keys_put {t : Table α} (h : t.keys.Nodup) (key : Text) (v : α) :
    (t.put key v).keys.Nodup := by
  by_cases hk : key ∈ t.keys
  · rw [keys_put_of_mem hk]
    exact h
  · rw [keys_put_of_not_mem hk, List.nodup_append]
    refine ⟨h, by simp, fun a ha b hb hab => ?_⟩
    rw [List.mem_singleton.1 hb] at hab
    exact hk (hab ▸ ha)

end Table

end CardText
