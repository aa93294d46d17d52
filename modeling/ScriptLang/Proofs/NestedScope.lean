import Mathlib.Data.List.Induction
import Mathlib.Data.List.Infix
import ScriptLang.Proofs.Bindings
import ScriptLang.Proofs.ScopeDiscipline

/-!
# What a nested scope leaves behind

Between opening a scope and closing it again, anything may be done with scopes, as long as at no
time more scopes have been closed than opened. Of all this nothing is seen outside but the
assignments that reach through, to a name which none of the scopes opened since binds at that
time. Everything together comes to the same as these assignments alone, made one after the other
in the scopes outside. So afterwards each scope binds the names that it bound before, and to the
same values, but for the nearest binding of a name that was assigned to in this way, which has
the value that came last.

Whether an assignment reaches through depends on all scopes that are open when it is made, so a
row of operations is followed with both sides in view: the scopes opened since, of which only
their number matters, and around them the scopes that the assignments seen so far would have
left on their own.

- `Scopes.Op`, `Scopes.run`: what can be done with scopes, and rows of it.
- `Scopes.Balanced`: rows that close as many scopes as they open, and have at no time closed
  more.
- `Scopes.reaching`: the assignments in a row that reach through the scope it is nested in.
- `Scopes.Surrounds`: scopes with others opened inside of them; `Surrounds.run` follows both
  through a row.
- `Scopes.run_nested`: a row in a nested scope comes to its assignments that reach through.
- `Scopes.Overwritten`: what is different behind assignments, binding by binding.
- `Scopes.nested_scope_invisible`: what is different behind a row in a nested scope.
-/

namespace ScriptLang.Scopes

/-! ## Rows of operations -/

/-- What can be done with `Scopes`. -/
inductive Op where
  | nest
  | unnest
  | insert (name : String) (value : Value)
  | assign (name : String) (value : Value)
  | get (name : String)

/-- An assignment, and the scopes in which it is made. -/
structure Assignment where
  scopes : Scopes
  name : String
  value : Value

namespace Op

/-- Whether the operation is `nest`. -/
def opens : Op → Bool
  | nest => true
  | _ => false

/-- Whether the operation is `unnest`. -/
def closes : Op → Bool
  | unnest => true
  | _ => false

/-- The scopes behind an operation. `get` changes nothing, nor does `assign` to a name that is
not bound. -/
def apply : Op → Scopes → Scopes
  | nest, s => s.nest
  | unnest, s => s.unnest
  | insert x v, s => s.insert x v
  | assign x v, s => (s.assign? x v).getD s
  | get _, s => s

/-- The `Assignment` that is made by an operation, if it is one. -/
def assignment? : Op → Scopes → Option Assignment
  | assign x v, s => some ⟨s, x, v⟩
  | _, _ => none

end Op

namespace Assignment

/-- The `Op` by which an assignment is made. -/
def op (a : Assignment) : Op := .assign a.name a.value

/-- Whether `assign?` finds a binding that is given the value. -/
def succeeds (a : Assignment) : Bool := (a.scopes.assign? a.name a.value).isSome

end Assignment

/-- The scopes behind a row of operations, by `Op.apply`. -/
def run (w : List Op) (s : Scopes) : Scopes := w.foldl (fun s o => o.apply s) s

/-- The `Assignment`s in a row of operations, each with the scopes that it is made in. -/
def assignments : List Op → Scopes → List Assignment
  | [], _ => []
  | o :: w, s => (o.assignment? s).toList ++ assignments w (o.apply s)

/-- Whether one of the scopes inside of the outermost `outer` binds the name. -/
def hides (outer : Nat) (x : String) (s : Scopes) : Bool :=
  (s.all.take (s.depth - outer)).any (Table.has x)

/-- The `assignments` in a row of operations that reach through the scope it is nested in: those
made while no scope opened since `hides` the name. -/
def reaching (w : List Op) (s : Scopes) : List Assignment :=
  (assignments w s.nest).filter fun a => !a.scopes.hides s.depth a.name

/-- The value that a name is given last by the assignments. -/
def lastValue? (x : String) (as : List Assignment) : Option Value :=
  (as.filter fun a => a.name = x).getLast?.map Assignment.value

/-- No prefix of the row has more that `closes` than that `opens`. -/
def StaysInside (w : List Op) : Prop := ∀ u, u <+: w → u.countP Op.closes ≤ u.countP Op.opens

/-- As many scopes are closed as opened, and the row `StaysInside`. -/
structure Balanced (w : List Op) : Prop where
  closed : w.countP Op.closes = w.countP Op.opens
  inside : StaysInside w

instance (w : List Op) : Decidable (Balanced w) :=
  decidable_of_iff
    (w.countP Op.closes = w.countP Op.opens ∧
      ∀ u ∈ w.inits, u.countP Op.closes ≤ u.countP Op.opens)
    ⟨fun h => ⟨h.1, fun u hu => h.2 u ((List.mem_inits u w).mpr hu)⟩,
      fun h => ⟨h.closed, fun u hu => h.inside u ((List.mem_inits u w).mp hu)⟩⟩

section Rows

variable {s : Scopes} {u w : List Op} {o : Op} {a : Assignment}

theorem StaysInside.of_prefix (hw : StaysInside w) (hu : u <+: w) : StaysInside u :=
  fun u' hu' => hw u' (hu'.trans hu)

theorem StaysInside.le (hw : StaysInside w) : w.countP Op.closes ≤ w.countP Op.opens :=
  hw w (List.prefix_refl w)

theorem run_concat (w : List Op) (o : Op) (s : Scopes) :
    run (w ++ [o]) s = o.apply (run w s) := by
  rw [run, List.foldl_append]
  rfl

theorem assignments_concat (w : List Op) (o : Op) (s : Scopes) :
    assignments (w ++ [o]) s = assignments w s ++ (o.assignment? (run w s)).toList := by
  induction w generalizing s with
  | nil => exact List.append_nil _
  | cons o' w ih =>
    rw [List.cons_append, assignments, assignments, ih, List.append_assoc]
    rfl

theorem reaching_concat (w : List Op) (o : Op) (s : Scopes) : reaching (w ++ [o]) s =
    reaching w s ++ (o.assignment? (run w s.nest)).toList.filter fun a =>
      !a.scopes.hides s.depth a.name := by
  rw [reaching, assignments_concat, List.filter_append]
  rfl

/-- An operation that is no assignment adds nothing to `reaching`. -/
theorem reaching_concat_of_other (h : ∀ t, o.assignment? t = none) :
    reaching (w ++ [o]) s = reaching w s := by
  rw [reaching_concat, h]
  exact List.append_nil _

theorem reaching_concat_assign (w : List Op) (x : String) (v : Value) (s : Scopes) :
    reaching (w ++ [.assign x v]) s =
      if (run w s.nest).hides s.depth x then reaching w s
      else reaching w s ++ [⟨run w s.nest, x, v⟩] := by
  rw [reaching_concat]
  show _ ++ List.filter _ [(⟨run w s.nest, x, v⟩ : Assignment)] = _
  by_cases hx : (run w s.nest).hides s.depth x
  · rw [if_pos hx, List.filter_cons_of_neg (by simpa using hx)]
    exact List.append_nil _
  · rw [if_neg hx, List.filter_cons_of_pos (by simpa using hx)]
    rfl

/-- The scopes of an assignment are those that the operations in front of it have left by
`run`. -/
theorem exists_of_mem_assignments (h : a ∈ assignments w s) :
    ∃ u, u <+: w ∧ a.scopes = run u s := by
  induction w using List.reverseRecOn with
  | nil => cases h
  | append_singleton w o ih =>
    rw [assignments_concat] at h
    cases List.mem_append.mp h with
    | inl h =>
      obtain ⟨u, hu, hscopes⟩ := ih h
      exact ⟨u, hu.trans (List.prefix_append w [o]), hscopes⟩
    | inr h =>
      refine ⟨w, List.prefix_append w [o], ?_⟩
      cases o with
      | assign x v =>
        rw [List.mem_singleton.mp h]
      | _ => cases h

theorem lastValue?_concat (x : String) (as : List Assignment) (a : Assignment) :
    lastValue? x (as ++ [a]) = if x = a.name then some a.value else lastValue? x as := by
  rw [lastValue?, List.filter_append]
  by_cases hx : x = a.name
  · simp [hx]
  · simp [hx, Ne.symm hx, lastValue?]

end Rows

/-! ## Inside and outside -/

/-- Inside of the scopes `s`, `k` others have been opened to make `t`. -/
def Surrounds (s : Scopes) (k : Nat) (t : Scopes) : Prop :=
  ∃ inner : List Scope, inner.length = k ∧ t.all = inner ++ s.all

theorem eq_of_all {s t : Scopes} (h : t.all = s.all) : t = s := by
  obtain ⟨current, enclosing⟩ := s
  obtain ⟨current', enclosing'⟩ := t
  obtain ⟨rfl, rfl⟩ := List.cons_eq_cons.mp h
  rfl

theorem all_assign (x : String) (v : Value) (s : Scopes) :
    ((Op.assign x v).apply s).all = (update? x v s.all).getD s.all := by
  have hmap : (s.assign? x v).map all = update? x v s.all := assign?_eq_map s x v
  rw [← hmap]
  show ((s.assign? x v).getD s).all = _
  cases s.assign? x v <;> rfl

namespace Surrounds

variable {s t : Scopes} {k : Nat} {x : String} {v : Value}

theorem eq (h : Surrounds s 0 t) : t = s := by
  obtain ⟨inner, hlength, hall⟩ := h
  rw [List.length_eq_zero_iff.mp hlength] at hall
  exact eq_of_all hall

theorem nest (h : Surrounds s k t) : Surrounds s (k + 1) t.nest := by
  obtain ⟨inner, hlength, hall⟩ := h
  exact ⟨[] :: inner, congrArg (· + 1) hlength, congrArg ([] :: ·) hall⟩

theorem unnest (h : Surrounds s (k + 1) t) : Surrounds s k t.unnest := by
  obtain ⟨inner, hlength, hall⟩ := h
  obtain ⟨current, enclosing⟩ := t
  cases inner with
  | nil => cases hlength
  | cons scope inner =>
    have henclosing : enclosing = inner ++ s.all := (List.cons_eq_cons.mp hall).2
    refine ⟨inner, Nat.succ_inj.mp hlength, ?_⟩
    -- the root scope is one of those outside, so it is not the one to be closed
    cases enclosing with
    | nil =>
      exact absurd henclosing.symm (List.append_ne_nil_of_right_ne_nil _ (List.cons_ne_nil _ _))
    | cons => exact henclosing

theorem insert (h : Surrounds s (k + 1) t) (x : String) (v : Value) :
    Surrounds s (k + 1) (t.insert x v) := by
  obtain ⟨inner, hlength, hall⟩ := h
  cases inner with
  | nil => cases hlength
  | cons scope inner =>
    obtain ⟨-, henclosing⟩ := List.cons_eq_cons.mp hall
    exact ⟨t.current.set x v :: inner, hlength, congrArg (t.current.set x v :: ·) henclosing⟩

/-- A name is hidden, by `hides`, if one of the scopes that have been opened inside binds it. -/
theorem hides_eq {inner : List Scope} (hall : t.all = inner ++ s.all) (x : String) :
    t.hides s.depth x = inner.any (Table.has x) := by
  have hdepth : t.depth - s.depth = inner.length := by
    have hlength := congrArg List.length hall
    rw [List.length_append] at hlength
    show t.all.length - s.all.length = inner.length
    omega
  rw [hides, hdepth, hall, List.take_left]

/-- An assignment to a hidden name leaves the scopes that `t` `Surrounds` as they are. -/
theorem assign_of_hides (h : Surrounds s k t) (hx : t.hides s.depth x) :
    Surrounds s k ((Op.assign x v).apply t) := by
  obtain ⟨inner, hlength, hall⟩ := h
  rw [hides_eq hall, ← isSome_update? x v] at hx
  obtain ⟨inner', hinner⟩ := Option.isSome_iff_exists.mp hx
  refine ⟨inner', (binding?_update? hinner).1.trans hlength, ?_⟩
  rw [all_assign, hall, update?_append, hinner]
  rfl

/-- An assignment to a name that is not hidden is made to the scopes that `t` `Surrounds`. -/
theorem assign_of_not_hides (h : Surrounds s k t) (hx : t.hides s.depth x = false) :
    Surrounds ((Op.assign x v).apply s) k ((Op.assign x v).apply t) := by
  obtain ⟨inner, hlength, hall⟩ := h
  rw [hides_eq hall, ← isSome_update? x v, Option.isSome_eq_false_iff,
    Option.isNone_iff_eq_none] at hx
  refine ⟨inner, hlength, ?_⟩
  rw [all_assign, all_assign, hall, update?_append, hx]
  cases update? x v s.all <;> rfl

/-- It succeeds exactly if the name has a `nearest?` binding outside. -/
theorem isSome_assign? (h : Surrounds s k t) (hx : t.hides s.depth x = false) :
    (t.assign? x v).isSome = (s.nearest? x).isSome := by
  obtain ⟨inner, -, hall⟩ := h
  rw [Scopes.isSome_assign?, nearest?, List.findIdx?_isSome, hall,
    List.any_append, ← hides_eq hall, hx, Bool.false_or, nearest?, List.findIdx?_isSome]

end Surrounds

/-! ## Assignments on their own -/

/-- The scopes have the `SameNames`, and each `binding?` is what it was, but for the nearest one
of each name for which `last` is some value. -/
structure Overwritten (last : String → Option Value) (s t : Scopes) : Prop where
  names : SameNames s t
  binding? (level : Nat) (x : String) : t.binding? level x =
    if s.nearest? x = some level then (last x).or (s.binding? level x) else s.binding? level x

section Assignments

variable {s t : Scopes} {last : String → Option Value}

theorem SameNames.all (h : SameNames s t) : t.all.map Table.keys = s.all.map Table.keys :=
  List.cons_eq_cons.mpr ⟨h.current, h.enclosing⟩

/-- `nearest?` goes by names only. -/
theorem SameNames.nearest? (h : SameNames s t) (x : String) : t.nearest? x = s.nearest? x := by
  have hkeys (u : Scopes) : u.nearest? x = (u.all.map Table.keys).findIdx? (x ∈ ·) := by
    rw [List.findIdx?_map]
    refine congrArg (u.all.findIdx? ·) (funext fun scope => ?_)
    exact Bool.eq_iff_iff.mpr (Table.has_iff_mem_keys.trans decide_eq_true_iff.symm)
  rw [hkeys, hkeys, h.all]

theorem sameNames_assign (x : String) (v : Value) (s : Scopes) :
    SameNames s ((Op.assign x v).apply s) := by
  show SameNames s ((s.assign? x v).getD s)
  cases hassign : s.assign? x v with
  | none => exact ⟨rfl, rfl⟩
  | some t => exact sameNames_of_assign? hassign

/-- `Op.assign` gives the `nearest?` binding of the name the value, if there is one, and no
other binding. -/
theorem binding?_assign (x : String) (v : Value) (s : Scopes) (level : Nat) (y : String) :
    ((Op.assign x v).apply s).binding? level y =
      if y = x ∧ s.nearest? x = some level then some v else s.binding? level y := by
  show ((s.assign? x v).getD s).binding? level y = _
  cases hassign : s.assign? x v with
  | none =>
    rw [assign?_eq_none_iff.mp hassign, if_neg fun h => nomatch h.2]
    rfl
  | some t =>
    obtain ⟨near, hnear, hrebound⟩ := rebound_of_assign? hassign
    show t.binding? level y = _
    rw [hrebound.binding?, hnear]
    refine if_congr ⟨?_, ?_⟩ rfl rfl
    · rintro ⟨rfl, rfl⟩
      exact ⟨rfl, rfl⟩
    · rintro ⟨rfl, hlevel⟩
      exact ⟨(Option.some_inj.mp hlevel).symm, rfl⟩

/-- With one more `Op.assign`, the name has that value last. -/
theorem Overwritten.assign (h : Overwritten last s t) (x : String) (v : Value) :
    Overwritten (fun y => if y = x then some v else last y) s ((Op.assign x v).apply t) := by
  refine ⟨h.names.trans (sameNames_assign x v t), fun level y => ?_⟩
  rw [binding?_assign, h.binding?, h.names.nearest? x]
  by_cases hy : y = x
  · subst hy
    by_cases hlevel : s.nearest? y = some level
    · rw [if_pos ⟨rfl, hlevel⟩, if_pos hlevel, if_pos rfl]
      rfl
    · rw [if_neg fun hboth => hlevel hboth.2, if_neg hlevel, if_neg hlevel]
  · rw [if_neg fun hboth => hy hboth.1, if_neg hy]

/-- `get?` finds the last value of each name that is bound. -/
theorem Overwritten.get? (h : Overwritten last s t) (x : String) :
    t.get? x = (s.get? x).map (last x).getD := by
  rw [get?_eq_binding?, get?_eq_binding?, h.names.nearest?]
  cases hnear : s.nearest? x with
  | none => rfl
  | some level =>
    obtain ⟨v, hv⟩ := exists_binding?_of_nearest? hnear
    show t.binding? level x = (s.binding? level x).map (last x).getD
    rw [h.binding?, if_pos hnear, hv]
    cases last x <;> rfl

/-- Behind assignments, scopes are `Overwritten` by the `lastValue?` of each name. -/
theorem overwritten_run (as : List Assignment) (s : Scopes) :
    Overwritten (lastValue? · as) s (run (as.map Assignment.op) s) := by
  induction as using List.reverseRecOn with
  | nil => exact ⟨⟨rfl, rfl⟩, fun level x => (ite_self _).symm⟩
  | append_singleton as a ih =>
    have hnext := ih.assign a.name a.value
    rw [List.map_append, List.map_singleton, run_concat]
    simp only [lastValue?_concat]
    exact hnext

end Assignments

/-! ## Rows in a nested scope -/

section Nested

variable {s : Scopes} {w : List Op} {k : Nat}

theorem depth_run_assignments (as : List Assignment) (s : Scopes) :
    (run (as.map Assignment.op) s).depth = s.depth :=
  (overwritten_run as s).names.grow.depth

/-- Behind a row that `StaysInside`, the scopes outside are as the assignments that are
`reaching` them would have left them on their own, and `k` and one have been opened and not
closed. -/
theorem Surrounds.run (hw : StaysInside w) (hk : k + w.countP Op.closes = w.countP Op.opens) :
    Surrounds (Scopes.run ((reaching w s).map Assignment.op) s) (k + 1)
      (Scopes.run w s.nest) := by
  induction w using List.reverseRecOn generalizing k with
  | nil =>
    have hk : k = 0 := hk
    rw [hk]
    exact ⟨[[]], rfl, rfl⟩
  | append_singleton w o ih =>
    have hw' : StaysInside w := hw.of_prefix (List.prefix_append w [o])
    have hle := hw'.le
    rw [List.countP_append, List.countP_append, List.countP_singleton,
      List.countP_singleton] at hk
    rw [run_concat]
    cases o with
    | nest =>
      have hk : k + (w.countP Op.closes + 0) = w.countP Op.opens + 1 := hk
      obtain ⟨j, rfl⟩ : ∃ j, k = j + 1 := ⟨k - 1, by omega⟩
      rw [reaching_concat_of_other fun _ => rfl]
      exact (ih hw' (by omega)).nest
    | unnest =>
      have hk : k + (w.countP Op.closes + 1) = w.countP Op.opens + 0 := hk
      have hk : k + 1 + w.countP Op.closes = w.countP Op.opens := by omega
      rw [reaching_concat_of_other fun _ => rfl]
      exact (ih hw' hk).unnest
    | insert x v =>
      rw [reaching_concat_of_other fun _ => rfl]
      exact (ih hw' hk).insert x v
    | get x =>
      rw [reaching_concat_of_other fun _ => rfl]
      exact ih hw' hk
    | assign x v =>
      have hinside := ih hw' hk
      -- the scopes outside have changed since, but there are as many of them as at first
      have hdepth := depth_run_assignments (reaching w s) s
      rw [reaching_concat_assign]
      by_cases hx : (Scopes.run w s.nest).hides s.depth x
      · rw [if_pos hx]
        exact hinside.assign_of_hides (by rwa [hdepth])
      · rw [if_neg hx, List.map_append, List.map_singleton, run_concat]
        exact hinside.assign_of_not_hides (by rw [hdepth]; exact eq_false_of_ne_true hx)

/-- A row of operations that is `Balanced` comes in a nested scope to the assignments that are
`reaching` through, made on their own. -/
theorem run_nested (hw : Balanced w) (s : Scopes) :
    run (.nest :: w ++ [.unnest]) s = run ((reaching w s).map Assignment.op) s := by
  have hclosed : 0 + w.countP Op.closes = w.countP Op.opens := by rw [hw.closed, Nat.zero_add]
  have hinside := Surrounds.run (s := s) hw.inside hclosed
  rw [run_concat]
  exact hinside.unnest.eq

/-- An assignment that is `reaching` through `succeeds` exactly if the name was bound outside at
first. -/
theorem succeeds_of_reaching (hw : Balanced w) {a : Assignment} (ha : a ∈ reaching w s) :
    a.succeeds = (s.nearest? a.name).isSome := by
  obtain ⟨hmem, hhides⟩ := List.mem_filter.mp ha
  obtain ⟨u, hu, hscopes⟩ := exists_of_mem_assignments hmem
  -- it is made inside of what the assignments in front of it have left outside
  let outer := run ((reaching u s).map Assignment.op) s
  have hu : StaysInside u := hw.inside.of_prefix hu
  have hinside : Surrounds outer _ a.scopes :=
    hscopes ▸ Surrounds.run hu (Nat.sub_add_cancel hu.le)
  have hreaches : a.scopes.hides outer.depth a.name = false := by
    rw [depth_run_assignments]
    simpa using hhides
  calc a.succeeds = (outer.nearest? a.name).isSome := hinside.isSome_assign? hreaches
    _ = (s.nearest? a.name).isSome := by rw [(overwritten_run (reaching u s) s).names.nearest?]

/-- A nested scope is invisible once it is closed, but for the assignments that reach through
it, those of `reaching w s`. There are as many scopes as before, and they bind the same names to
the same values, but for the nearest binding of each name that was assigned to in this way,
which has the value that came last: so `get?` finds that value, or the one it found before. Each
such assignment succeeds exactly if the name had a binding. -/
theorem nested_scope_invisible (hw : Balanced w) (s : Scopes) :
    let t := run (.nest :: w ++ [.unnest]) s
    t.depth = s.depth ∧ t.all.map Table.keys = s.all.map Table.keys ∧
      (∀ level x, t.binding? level x =
        if s.nearest? x = some level then (lastValue? x (reaching w s)).or (s.binding? level x)
        else s.binding? level x) ∧
      (∀ x, t.get? x = (s.get? x).map (lastValue? x (reaching w s)).getD) ∧
      ∀ a ∈ reaching w s, a.succeeds ↔ ∃ level v, s.binding? level a.name = some v := by
  intro t
  have hnested : t = run ((reaching w s).map Assignment.op) s := run_nested hw s
  have hoverwritten := overwritten_run (reaching w s) s
  rw [hnested]
  refine ⟨hoverwritten.names.grow.depth, hoverwritten.names.all, hoverwritten.binding?,
    hoverwritten.get?, fun a ha => ?_⟩
  rw [succeeds_of_reaching hw ha]
  exact isSome_nearest?_iff

/-- A name that is hidden behind its first assignment, one that is hidden for a while, and one
that is not bound. -/
theorem nested_scope_invisible_shadowed :
    let s : Scopes := ⟨[("a", .integer 1)], [[("a", .integer 2), ("b", .integer 3)]]⟩
    let w : List Op :=
      [.assign "a" (.integer 4), .insert "a" (.integer 5), .assign "a" (.integer 6), .nest,
        .insert "b" .null, .assign "b" (.integer 7), .unnest, .get "a",
        .assign "b" (.integer 8), .assign "c" .null]
    let t := run (.nest :: w ++ [.unnest]) s
    Balanced w ∧ t.depth = 2 ∧ t.all.map Table.keys = [["a"], ["a", "b"]] ∧
      t.binding? 0 "a" = some (.integer 4) ∧ t.binding? 1 "a" = some (.integer 2) ∧
      t.binding? 1 "b" = some (.integer 8) ∧ t.get? "b" = some (.integer 8) ∧
      t.get? "c" = none ∧ (reaching w s).map Assignment.name = ["a", "b", "c"] ∧
      ∀ a ∈ reaching w s, a.succeeds ↔ ∃ level v, s.binding? level a.name = some v := by
  intro s w t
  have hw : Balanced w := by decide
  obtain ⟨hdepth, hnames, hbinding, hget, hsucceeds⟩ := nested_scope_invisible hw s
  exact ⟨hw, hdepth, hnames, hbinding 0 "a", hbinding 1 "a", hbinding 1 "b", hget "b",
    hget "c", rfl, hsucceeds⟩

end Nested
end ScriptLang.Scopes
