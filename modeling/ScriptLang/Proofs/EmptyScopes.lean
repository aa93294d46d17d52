import ScriptLang.Proofs.Confinement
import ScriptLang.Proofs.Visibility

/-!
# Empty scopes do not matter

A scope that binds nothing might as well not be there. On machines that differ in nothing but in
how many empty scopes lie in between, an evaluation goes the same way, and it leaves machines
that differ in this way again: not only do names mean the same on both, but each value is in the
scope where it was on the other side.

The empty scopes must not be the current ones when a name is declared. Expressions declare
nothing, and all else that declares stands in a block, which has a scope of its own, or is told
to be in a scope that is the same on both sides. Expressions do not look at loops either, so for
them the count of loops may differ too.

- `Scopes.Padded`, `Machine.Padded`: scopes and machines that are the same but for empty scopes.
- `Scopes.Padded.correspondence`: the operations on scopes respect that they are so.
- `Eval.Carries`: an evaluation that goes the same way on such machines, with as much leeway as
  is said.
- `carries_congruence`: evaluation of whatever does.
- `Eval.SamePadded`, `Eval.same_of_carries`: both ways at once.
-/

namespace ScriptLang

/-! ## Empty scopes in between -/

namespace Scopes

/-- The scopes are the same one by one, so many of them from the inside out, and below them they
are the same but for the empty ones in front, which are `i` on one side and `j` on the other. -/
inductive Padded (i j : Nat) : Nat → List Scope → List Scope → Prop
  | outer {ss : List Scope} :
      ss ≠ [] → Padded i j 0 (List.replicate i [] ++ ss) (List.replicate j [] ++ ss)
  | inner {k : Nat} {s : Scope} {ss ts : List Scope} :
      Padded i j k ss ts → Padded i j (k + 1) (s :: ss) (s :: ts)

section Empty

variable (i : Nat) (x : String) (v : Value) (ss : List Scope)

/-- Empty scopes bind nothing, so `find?` does not see them. -/
theorem find?_replicate_append : find? x (List.replicate i [] ++ ss) = find? x ss := by
  induction i with
  | zero => rfl
  | succ i ih =>
    rw [List.replicate_succ, List.cons_append, find?, ih]
    rfl

theorem update?_replicate_append : update? x v (List.replicate i [] ++ ss) =
    (update? x v ss).map (List.replicate i [] ++ ·) := by
  have hnone : update? x v (List.replicate i []) = none := by
    rw [← Option.not_isSome_iff_eq_none, isSome_update?, List.any_eq_true]
    rintro ⟨scope, hscope, hhas⟩
    rw [List.eq_of_mem_replicate hscope] at hhas
    cases hhas
  rw [update?_append, hnone]
  rfl

end Empty

namespace Padded

variable {i j k : Nat} {ss ts : List Scope}

theorem symm (h : Padded i j k ss ts) : Padded j i k ts ss := by
  induction h with
  | outer hne => exact .outer hne
  | inner _ ih => exact .inner ih

theorem ne_nil (h : Padded i j k ss ts) : ss ≠ [] ∧ ts ≠ [] := by
  cases h with
  | outer hne =>
    exact ⟨List.append_ne_nil_of_right_ne_nil _ hne, List.append_ne_nil_of_right_ne_nil _ hne⟩
  | inner => exact ⟨List.cons_ne_nil _ _, List.cons_ne_nil _ _⟩

/-- Without empty scopes, `Padded` is equality. -/
theorem eq_of_zero (h : Padded 0 0 k ss ts) : ss = ts := by
  induction h with
  | outer => rfl
  | inner _ ih => rw [ih]

theorem find? (h : Padded i j k ss ts) (x : String) :
    Scopes.find? x ss = Scopes.find? x ts := by
  induction h with
  | outer => rw [find?_replicate_append, find?_replicate_append]
  | inner _ ih => rw [Scopes.find?, Scopes.find?, ih]

/-- `update?` finds the same scope on either side, or none on both. -/
theorem update? (h : Padded i j k ss ts) (x : String) (v : Value) :
    Option.Rel (Padded i j k) (Scopes.update? x v ss) (Scopes.update? x v ts) := by
  induction h with
  | @outer ss hne =>
    rw [update?_replicate_append, update?_replicate_append]
    cases hss : Scopes.update? x v ss with
    | none => exact .none
    | some ss' => exact .some (.outer (ne_nil_of_update? hss))
  | @inner k s ss ts h ih =>
    rw [Scopes.update?, Scopes.update?]
    by_cases hs : Table.has x s
    · rw [if_pos hs, if_pos hs]
      exact .some (.inner h)
    · rw [if_neg hs, if_neg hs]
      generalize Scopes.update? x v ss = r at ih ⊢
      generalize Scopes.update? x v ts = r' at ih ⊢
      cases ih with
      | none => exact .none
      | some hr => exact .some (.inner hr)

/-- One more empty scope on one side counts towards `j`. -/
theorem more (h : Padded i j 0 ss ts) : Padded i (j + 1) 0 ss ([] :: ts) := by
  cases h with
  | outer hne =>
    have hmore : Padded i (j + 1) 0 _ _ := .outer hne
    rwa [List.replicate_succ] at hmore

/-- `Table.set` in the current scope, which is the same on both sides if any has been opened. -/
theorem set {s t : Scope} (hk : 0 < k) (h : Padded i j k (s :: ss) (t :: ts)) (x : String)
    (v : Value) : Padded i j k (Table.set x v s :: ss) (Table.set x v t :: ts) := by
  generalize hss : s :: ss = ss' at h
  generalize hts : t :: ts = ts' at h
  cases h with
  | outer => exact absurd hk (Nat.lt_irrefl 0)
  | inner h =>
    cases hss
    cases hts
    exact .inner h

/-- `Padded` is a `Correspondence`: scopes that are opened on both sides are the same. -/
theorem correspondence (i j : Nat) : Correspondence (0 < ·) (Padded i j) where
  binds_succ := Nat.succ_pos
  ne_nil := ne_nil
  find? := find?
  update? := update?
  set := set
  nest := .inner
  unnest h := by
    cases h with
    | inner h => exact h

/-- `unnest` of an empty scope on one side takes one off `j`. -/
theorem less {s' : Scopes} (h : Padded i (j + 1) 0 ss (s'.current :: s'.enclosing)) :
    Padded i j 0 ss (s'.unnest.current :: s'.unnest.enclosing) := by
  obtain ⟨current, enclosing⟩ := s'
  generalize hts : current :: enclosing = ts at h
  cases h with
  | outer hne =>
    rw [List.replicate_succ, List.cons_append] at hts
    cases hts
    have hless : Padded i j 0 _ _ := .outer hne
    obtain ⟨scope, scopes, henclosing⟩ := List.exists_cons_of_ne_nil hless.ne_nil.2
    rw [henclosing] at hless ⊢
    exact hless

end Padded
end Scopes

namespace Machine

/-- Machines whose scopes are `Scopes.Padded`, and which agree in all else but the journal; with
`loops` they agree in the count of loops as well. -/
structure Padded (i j k : Nat) (loops : Bool) (m m' : Machine) : Prop where
  scopes : Scopes.Padded i j k (m.scopes.current :: m.scopes.enclosing)
    (m'.scopes.current :: m'.scopes.enclosing)
  host : m.host = m'.host
  errors : m.errors = m'.errors
  loopDepth : loops = true → m.loopDepth = m'.loopDepth
  callDepth : m.callDepth = m'.callDepth

namespace Padded

variable {i j k : Nat} {loops : Bool} {m m' : Machine}

theorem symm (h : Padded i j k loops m m') : Padded j i k loops m' m :=
  ⟨h.scopes.symm, h.host.symm, h.errors.symm, fun hloops => (h.loopDepth hloops).symm,
    h.callDepth.symm⟩

theorem of_scopes_eq (hscopes : m.scopes = m'.scopes) (hhost : m.host = m'.host)
    (herrors : m.errors = m'.errors) (hloops : loops = true → m.loopDepth = m'.loopDepth)
    (hcalls : m.callDepth = m'.callDepth) : Padded 0 0 0 loops m m' := by
  refine ⟨?_, hhost, herrors, hloops, hcalls⟩
  rw [hscopes]
  exact .outer (List.cons_ne_nil _ _)

theorem refl (m : Machine) : Padded 0 0 0 loops m m :=
  .of_scopes_eq rfl rfl rfl (fun _ => rfl) rfl

/-- With no empty scopes in between, `scopes` is the same. -/
theorem scopes_eq (h : Padded 0 0 k loops m m') : m.scopes = m'.scopes := by
  obtain ⟨hcurrent, henclosing⟩ := List.cons.inj h.scopes.eq_of_zero
  exact congrArg₂ Scopes.mk hcurrent henclosing

/-- Then `loopDepth` may be set anew. -/
theorem recounted (h : Padded 0 0 k loops m m') {anew : Bool} {a b : Nat}
    (hab : anew = true → a = b) :
    Padded 0 0 0 anew { m with loopDepth := a } { m' with loopDepth := b } :=
  .of_scopes_eq h.scopes_eq h.host h.errors hab h.callDepth

/-- Then, with `loops`, nothing but the journal differs. -/
theorem eq_noting (h : Padded 0 0 k true m m') : m' = { m with journal := m'.journal } := by
  have hscopes := h.scopes_eq
  obtain ⟨-, hhost, herrors, hloops, hcalls⟩ := h
  obtain ⟨scopes, host, errors, loopDepth, callDepth, journal⟩ := m
  obtain ⟨scopes', host', errors', loopDepth', callDepth', journal'⟩ := m'
  cases hscopes
  cases hhost
  cases herrors
  cases hloops rfl
  cases hcalls
  rfl

/-- `Machine.nested` opens the same scope on both sides. -/
theorem nested (h : Padded i j k loops m m') : Padded i j (k + 1) loops m.nested m'.nested :=
  ⟨.inner h.scopes, h.host, h.errors, h.loopDepth, h.callDepth⟩

/-- `Machine.nested` on one side is an empty scope more. -/
theorem nested_right (h : Padded i j 0 loops m m') : Padded i (j + 1) 0 loops m m'.nested :=
  ⟨h.scopes.more, h.host, h.errors, h.loopDepth, h.callDepth⟩

/-- `Machine.closed` on one side is an empty scope less. -/
theorem closed_right (h : Padded i (j + 1) 0 loops m m') : Padded i j 0 loops m m'.closed := by
  constructor
  case scopes =>
    rw [closed_scopes]
    exact h.scopes.less
  case host => rw [closed_host, h.host]
  case errors => rw [closed_errors, h.errors]
  case loopDepth =>
    rw [closed_loopDepth]
    exact h.loopDepth
  case callDepth => rw [closed_callDepth, h.callDepth]

end Padded

/-- Machines are `Machine.Padded` if they are `Machine.Corresponds` by `Scopes.Padded`. -/
theorem padded_iff {i j k : Nat} {loops : Bool} {m m' : Machine} :
    Padded i j k loops m m' ↔ m.Corresponds (Scopes.Padded i j) k loops m' :=
  ⟨fun h => ⟨h.scopes, h.host, h.errors, h.loopDepth, h.callDepth⟩,
    fun h => ⟨h.scopes, h.host, h.errors, h.loopDepth, h.callDepth⟩⟩

end Machine

/-! ## Evaluations on such machines -/

open Eval

/-- Wherever `e` ends, `e'` ends on all machines that are `Machine.Padded`, in the same way and
on such a machine again. Without `Leeway.leaves`, every ending `Flow.Stays`, and the loops need
not be counted alike; with `Leeway.binds`, there is a scope to bind names in. -/
def Eval.Carries (i j : Nat) (l : Leeway) {α : Type} (e e' : Eval α) : Prop :=
  ∀ k m m', (l.binds = true → 0 < k) → m.Padded i j k l.leaves m' →
    ∀ flow n, e m = some (flow, n) → (l.leaves = false → flow.Stays) ∧
      ∃ n', e' m' = some (flow, n') ∧ n.Padded i j k l.leaves n'

namespace Eval

/-- So `Carries` is `Mirrors` by `Scopes.Padded`, with names bound where `k` is above 0. -/
theorem carries_iff {i j : Nat} {l : Leeway} {α : Type} {e e' : Eval α} :
    Carries i j l e e' ↔ Mirrors (0 < ·) (Scopes.Padded i j) l e e' := by
  simp only [Carries, Mirrors, Machine.padded_iff]

end Eval

/-- `Eval.Carries` is a `Congruence`: evaluation does not see empty scopes. -/
theorem carries_congruence (limit i j : Nat) :
    Congruence limit limit fun l _ e e' => Carries i j l e e' := by
  simp only [carries_iff]
  exact mirrors_congruence (Scopes.Padded.correspondence i j) limit

/-! ## Both ways -/

namespace Eval

variable {α β : Type} {i j k : Nat} {loops : Bool} {m m' : Machine} {e e' : Eval α}

/-- Both sides have an answer or none has, with the same ending and machines that are
`Machine.Padded`. -/
def SamePadded (i j k : Nat) (loops : Bool) :
    Option (Flow α × Machine) → Option (Flow α × Machine) → Prop :=
  Option.Rel fun r r' => r.1 = r'.1 ∧ r.2.Padded i j k loops r'.2

/-- What `Carries` from either side has the same answers on both. Loops that need not be counted
alike are so all the same, if they were before. -/
theorem same_of_carries {l : Leeway} (he : ∀ i j, Carries i j l e e)
    (hkeeps : Keeps Machine.SameCounts Machine.SameCounts e) (hk : l.binds = true → 0 < k)
    (hleaves : l.leaves = true → loops = true) (hm : m.Padded i j k loops m') :
    SamePadded i j k loops (e m) (e m') := by
  have hpadded : m.Padded i j k l.leaves m' :=
    ⟨hm.scopes, hm.host, hm.errors, fun h => hm.loopDepth (hleaves h), hm.callDepth⟩
  obtain ⟨hnone, hnone'⟩ | ⟨flow, n, n', hn, hn', h⟩ :=
    same_of_mirrors (carries_iff.mp (he i j)) (carries_iff.mp (he j i)) hk
      (Machine.padded_iff.mp hpadded) (Machine.padded_iff.mp hpadded.symm)
  · rw [hnone, hnone']
    exact .none
  · rw [hn, hn']
    refine .some ⟨rfl, h.scopes, h.host, h.errors, fun hloops => ?_, h.callDepth⟩
    rw [(hkeeps.relates hn).loopDepth, (hkeeps.relates hn').loopDepth, hm.loopDepth hloops]

/-- Results that are `SamePadded` are answers both, with the same ending, or neither is one. -/
theorem SamePadded.answers {r r' : Option (Flow α × Machine)}
    (h : SamePadded i j k loops r r') :
    r = none ∧ r' = none ∨
      ∃ flow n n', r = some (flow, n) ∧ r' = some (flow, n') ∧ n.Padded i j k loops n' := by
  cases h with
  | none => exact .inl ⟨rfl, rfl⟩
  | @some r r' h =>
    obtain ⟨flow, n⟩ := r
    obtain ⟨_, n'⟩ := r'
    obtain ⟨rfl, h⟩ := h
    exact .inr ⟨flow, n, n', rfl, rfl, h⟩

theorem SamePadded.of_left {r r' : Option (Flow α × Machine)} (h : SamePadded i j k loops r r')
    {flow : Flow α} {n : Machine} (hr : r = some (flow, n)) :
    ∃ n', r' = some (flow, n') ∧ n.Padded i j k loops n' := by
  obtain ⟨hnone, -⟩ | ⟨flow', n', k', hn, hn', hpadded⟩ := h.answers
  · cases hnone.symm.trans hr
  · cases hn.symm.trans hr
    exact ⟨k', hn', hpadded⟩

theorem SamePadded.of_right {r r' : Option (Flow α × Machine)} (h : SamePadded i j k loops r r')
    {flow : Flow α} {n' : Machine} (hr : r' = some (flow, n')) :
    ∃ n, r = some (flow, n) ∧ n.Padded i j k loops n' := by
  obtain ⟨-, hnone⟩ | ⟨flow', n, k', hn, hn', hpadded⟩ := h.answers
  · cases hnone.symm.trans hr
  · cases hn'.symm.trans hr
    exact ⟨n, hn, hpadded⟩

/-- An empty scope is closed behind an evaluation on one side. -/
theorem SamePadded.closed_right {r r' : Option (Flow α × Machine)}
    (h : SamePadded i (j + 1) 0 loops r r') :
    SamePadded i j 0 loops r (r'.map fun (flow, n) => (flow, n.closed)) := by
  cases h with
  | none => exact .none
  | some h => exact .some ⟨h.1, h.2.closed_right⟩

/-- Evaluations are `SamePadded` if their first parts are, and what follows on each value is. -/
theorem same_bind {f f' : α → Eval β} (he : SamePadded i j k loops (e m) (e' m'))
    (hf : ∀ a n n', e m = some (.done a, n) → n.Padded i j k loops n' →
      SamePadded i j k loops (f a n) (f' a n')) :
    SamePadded i j k loops ((e >>= f) m) ((e' >>= f') m') := by
  show SamePadded i j k loops (Eval.bind e f m) (Eval.bind e' f' m')
  rw [Eval.bind, Eval.bind]
  obtain ⟨hnone, hnone'⟩ | ⟨flow, n, n', hn, hn', hpadded⟩ := he.answers
  · rw [hnone, hnone']
    exact .none
  · rw [hn, hn']
    cases flow with
    | done a => exact hf a n n' hn hpadded
    | _ => exact .some ⟨rfl, hpadded⟩

/-- As `same_bind`, where `observe` hands on the ending of the first part, whatever it is. -/
theorem same_observe_bind {f f' : Flow α → Eval β} (he : SamePadded i j k loops (e m) (e' m'))
    (hf : ∀ flow n n', e m = some (flow, n) → n.Padded i j k loops n' →
      SamePadded i j k loops (f flow n) (f' flow n')) :
    SamePadded i j k loops ((observe e >>= f) m) ((observe e' >>= f') m') := by
  rw [observe_bind, observe_bind]
  obtain ⟨hnone, hnone'⟩ | ⟨flow, n, n', hn, hn', hpadded⟩ := he.answers
  · rw [hnone, hnone']
    exact .none
  · rw [hn, hn']
    exact hf flow n n' hn hpadded

end Eval
end ScriptLang
