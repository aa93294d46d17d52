/-!
# Tables

A table is a list of entries in the order in which their keys were first entered, each key at
most once. Scopes, open handles and stored files are tables.

- `Table.get?`: the value under a key.
- `Table.set`: enters a value, in place of the one under its key if there is one.
- `Table.erase`: strikes out a key.
- `Table.get?_set`, `Table.keys_set`: what entering does to each key, and to the keys.
- `Table.get?_erase`: what striking out does to each key.
- `Table.has_iff_mem_keys`: the keys are what has a value.
-/

namespace ScriptLang

/-- Values entered under keys. -/
abbrev Table (κ α : Type) : Type := List (κ × α)

namespace Table

variable {κ α : Type} [DecidableEq κ]

/-- The keys, in the order in which they were entered. -/
def keys (t : Table κ α) : List κ := t.map Prod.fst

/-- The value under a key. -/
def get? (k : κ) : Table κ α → Option α
  | [] => none
  | (k', a) :: t => if k = k' then some a else get? k t

/-- Enters a value, in place of the one under its key if there is one. -/
def set (k : κ) (a : α) : Table κ α → Table κ α
  | [] => [(k, a)]
  | (k', b) :: t => if k = k' then (k', a) :: t else (k', b) :: set k a t

/-- Strikes out a key. -/
def erase (k : κ) (t : Table κ α) : Table κ α := t.filter fun e => e.1 ≠ k

/-- Whether a key is entered. -/
def has (k : κ) (t : Table κ α) : Bool := (t.get? k).isSome

/-! ## What the operations do -/

@[simp] theorem get?_nil (k : κ) : get? k ([] : Table κ α) = none := rfl

/-- A key is entered if it is among the keys. -/
theorem has_iff_mem_keys {k : κ} {t : Table κ α} : t.has k ↔ k ∈ t.keys := by
  induction t with
  | nil => exact iff_of_false nofun nofun
  | cons e t ih =>
    obtain ⟨l, b⟩ := e
    show ((if k = l then some b else get? k t).isSome : Prop) ↔ k ∈ l :: keys t
    rw [List.mem_cons]
    by_cases hk : k = l
    · rw [if_pos hk]
      exact iff_of_true rfl (.inl hk)
    · rw [if_neg hk]
      exact ih.trans (or_iff_right hk).symm

/-- Every key has a value. -/
theorem exists_of_mem_keys {k : κ} {t : Table κ α} (h : k ∈ t.keys) : ∃ a, t.get? k = some a :=
  Option.isSome_iff_exists.mp (has_iff_mem_keys.mpr h)

theorem get?_set (k k' : κ) (a : α) (t : Table κ α) :
    (t.set k a).get? k' = if k' = k then some a else t.get? k' := by
  induction t with
  | nil => simp [set, get?]
  | cons e t ih =>
    obtain ⟨l, b⟩ := e
    by_cases hk : k = l
    · subst hk
      by_cases hk' : k' = k <;> simp [set, get?, hk']
    · by_cases hl : k' = l
      · subst hl
        have : ¬k' = k := fun h => hk h.symm
        simp [set, get?, hk, this]
      · simp [set, get?, hk, hl, ih]

theorem get?_erase (k k' : κ) (t : Table κ α) :
    (t.erase k).get? k' = if k' = k then none else t.get? k' := by
  induction t with
  | nil => simp [erase, get?]
  | cons e t ih =>
    obtain ⟨l, b⟩ := e
    have hrest : get? k' (List.filter (fun e => e.1 ≠ k) t) =
        if k' = k then none else get? k' t := ih
    by_cases hl : l = k
    · rw [erase, List.filter_cons_of_neg (by simpa using hl), hrest, get?]
      by_cases hk : k' = k
      · rw [if_pos hk, if_pos hk]
      · rw [if_neg hk, if_neg hk, if_neg fun h => hk (h.trans hl)]
    · rw [erase, List.filter_cons_of_pos (by simpa using hl), get?, hrest, get?]
      by_cases hk' : k' = l
      · rw [if_pos hk', if_pos hk', if_neg fun h => hl (hk'.symm.trans h)]
      · rw [if_neg hk', if_neg hk']

/-- Entering a value adds its key at the end, unless it is entered already. -/
theorem keys_set (k : κ) (a : α) (t : Table κ α) :
    (t.set k a).keys = if t.has k then t.keys else t.keys ++ [k] := by
  induction t with
  | nil => simp [set, keys, has]
  | cons e t ih =>
    obtain ⟨l, b⟩ := e
    by_cases hk : k = l
    · simp [set, keys, has, get?, hk]
    · simp only [set, hk, if_false, keys, List.map_cons, has, get?] at ih ⊢
      rw [ih]
      split <;> simp_all

end Table
end ScriptLang
