import ScriptLang.Proofs.Visibility

/-!
# Bindings, scope by scope

What a name means is only its nearest binding. To say what becomes of the other ones, a binding
is found here by how many scopes out it is, and the nearest one is the first of these that there
is.

- `Scopes.binding?`, `Scopes.nearest?`: a binding by its scope, and where the nearest one is.
- `Scopes.get?_eq_binding?`: a name means its nearest binding.
- `Scopes.Rebound`: one binding has a new value, and no other one has.
- `Scopes.rebound_of_assign?`, `Scopes.isSome_assign?`: what assigning to a name does, and when
  it does anything.
-/

namespace ScriptLang.Scopes

/-- All scopes, from the inside out. -/
def all (s : Scopes) : List Scope := s.current :: s.enclosing

/-- The value that a name is bound to in the scope that is `level` scopes out. -/
def binding? (level : Nat) (x : String) (s : Scopes) : Option Value :=
  s.all[level]?.bind (Table.get? x)

/-- How many scopes out the first one is that `Table.has` the name. -/
def nearest? (x : String) (s : Scopes) : Option Nat := s.all.findIdx? (Table.has x)

/-- `depth` is as before, and each `binding?` is what it was but for one. -/
structure Rebound (level : Nat) (x : String) (v : Value) (s t : Scopes) : Prop where
  depth : t.depth = s.depth
  binding? (k : Nat) (y : String) :
    t.binding? k y = if k = level ∧ y = x then some v else s.binding? k y

variable {s t : Scopes} {x : String} {v : Value} {ss ts : List Scope}

/-- `find?` gives the value from the first scope that `Table.has` the name. -/
theorem find?_eq_findIdx? (x : String) (ss : List Scope) :
    find? x ss = (ss.findIdx? (Table.has x)).bind fun level =>
      ss[level]?.bind (Table.get? x) := by
  induction ss with
  | nil => rfl
  | cons scope ss ih =>
    rw [find?, List.findIdx?_cons, ih]
    by_cases h : Table.has x scope
    · obtain ⟨v, hv⟩ := Option.isSome_iff_exists.mp h
      rw [if_pos h, hv]
      exact hv.symm
    · have hnone : Table.get? x scope = none := Option.not_isSome_iff_eq_none.mp h
      rw [if_neg h, hnone, Option.none_or]
      cases ss.findIdx? (Table.has x) <;> rfl

/-- What `get?` finds is the `nearest?` `binding?`. -/
theorem get?_eq_binding? (x : String) (s : Scopes) :
    s.get? x = (s.nearest? x).bind fun level => s.binding? level x :=
  find?_eq_findIdx? x s.all

/-- Behind `update?` the scopes are the same but for the nearest binding of the name. -/
theorem binding?_update? (h : update? x v ss = some ts) :
    ts.length = ss.length ∧ ∃ level, ss.findIdx? (Table.has x) = some level ∧ ∀ k y,
      ts[k]?.bind (Table.get? y) = if k = level ∧
      y = x then some v else ss[k]?.bind (Table.get? y) := by
  induction ss generalizing ts with
  | nil => cases h
  | cons scope ss ih =>
    rw [update?] at h
    rw [List.findIdx?_cons]
    -- the first scope that binds the name is the one that is changed
    by_cases hx : Table.has x scope
    · rw [if_pos hx] at h ⊢
      cases h
      refine ⟨rfl, 0, rfl, fun k y => ?_⟩
      cases k with
      | zero =>
        show Table.get? y (Table.set x v scope) = _
        rw [Table.get?_set]
        exact if_congr (by simp) rfl rfl
      | succ k => rw [if_neg fun hk => Nat.succ_ne_zero k hk.1]; rfl
    · rw [if_neg hx] at h ⊢
      obtain ⟨rest, hrest, rfl⟩ := Option.map_eq_some_iff.mp h
      obtain ⟨hlength, level, hlevel, hbinding⟩ := ih hrest
      refine ⟨congrArg (· + 1) hlength, level + 1, by rw [hlevel]; rfl, fun k y => ?_⟩
      cases k with
      | zero => rw [if_neg fun hk => Nat.succ_ne_zero level hk.1.symm]; rfl
      | succ k =>
        show rest[k]?.bind (Table.get? y) = if k + 1 = level + 1 ∧
          y = x then _ else ss[k]?.bind _
        rw [hbinding k y]
        exact if_congr (by simp) rfl rfl

/-- `assign?` gives the `nearest?` binding of the name the new value, and no other binding. -/
theorem rebound_of_assign? (h : s.assign? x v = some t) :
    ∃ level, s.nearest? x = some level ∧ Rebound level x v s t := by
  have hupdate : update? x v s.all = some t.all := by
    have hmap := assign?_eq_map s x v
    rw [h] at hmap
    exact hmap.symm
  obtain ⟨hlength, level, hlevel, hbinding⟩ := binding?_update? hupdate
  exact ⟨level, hlevel, hlength, hbinding⟩

/-- A name has a `nearest?` binding exactly if it has one at all. -/
theorem isSome_nearest?_iff :
    (s.nearest? x).isSome ↔ ∃ level v, s.binding? level x = some v := by
  rw [nearest?, List.findIdx?_isSome, List.any_eq_true]
  constructor
  · rintro ⟨scope, hscope, hhas⟩
    obtain ⟨level, hlevel⟩ := List.getElem?_of_mem hscope
    obtain ⟨v, hv⟩ := Option.isSome_iff_exists.mp hhas
    refine ⟨level, v, ?_⟩
    rw [binding?, hlevel]
    exact hv
  · rintro ⟨level, v, hv⟩
    obtain ⟨scope, hscope, hget⟩ := Option.bind_eq_some_iff.mp hv
    exact ⟨scope, List.mem_of_getElem? hscope, Option.isSome_iff_exists.mpr ⟨v, hget⟩⟩

/-- The scope that `nearest?` finds has a `binding?` for the name. -/
theorem exists_binding?_of_nearest? {level : Nat} (h : s.nearest? x = some level) :
    ∃ v, s.binding? level x = some v := by
  obtain ⟨hlevel, hhas, -⟩ := List.findIdx?_eq_some_iff_getElem.mp h
  obtain ⟨v, hv⟩ := Option.isSome_iff_exists.mp hhas
  refine ⟨v, ?_⟩
  rw [binding?, List.getElem?_eq_getElem hlevel]
  exact hv

/-- `assign?` succeeds exactly if the name has a `nearest?` binding. -/
theorem isSome_assign? (s : Scopes) (x : String) (v : Value) :
    (s.assign? x v).isSome = (s.nearest? x).isSome := by
  rw [nearest?, List.findIdx?_isSome, ← Option.isSome_map, assign?_eq_map]
  exact isSome_update? x v s.all

/-- `assign?` fails exactly if the name has none. -/
theorem assign?_eq_none_iff : s.assign? x v = none ↔ s.nearest? x = none := by
  rw [← Option.not_isSome_iff_eq_none, isSome_assign?, Option.not_isSome_iff_eq_none]

end ScriptLang.Scopes
