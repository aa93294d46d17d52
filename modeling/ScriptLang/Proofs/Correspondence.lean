import ScriptLang.Proofs.Congruence
import ScriptLang.Proofs.Inside

/-!
# Scopes that correspond

Two evaluations of one tree may begin on machines whose scopes are not the same. If the scopes
are related in a way that finding a name, giving it a new value, binding it, and opening and
closing a scope all respect, then the evaluations go the same way, and the scopes are related
again behind them. This is shown here for all such relations at once.

A scope that is opened on both sides is one step further in than those at the beginning, so a
relation is told how many scopes have been opened on both sides in the meantime. It may ask for
some of them before a name may be bound.

- `Scopes.Correspondence`: a relation between scopes that all operations on scopes respect.
- `Machine.Corresponds`: machines whose scopes are so related, and which agree in all else but
  the journal.
- `Eval.Mirrors`: an evaluation that goes the same way as another one on such machines.
- `mirrors_congruence`: evaluation of whatever does.
- `Eval.same_of_mirrors`: both ways at once.
-/

namespace ScriptLang

/-- A relation `R k` between scopes that all operations on scopes respect, with `k` scopes
opened on both sides. A name may be bound where `binds k` holds, which it does if `k` is not
0. -/
structure Scopes.Correspondence (binds : Nat → Prop)
    (R : Nat → List Scope → List Scope → Prop) : Prop where
  binds_succ (k : Nat) : binds (k + 1)
  ne_nil {k : Nat} {ss ts : List Scope} : R k ss ts → ss ≠ [] ∧ ts ≠ []
  find? {k : Nat} {ss ts : List Scope} : R k ss ts → ∀ x, Scopes.find? x ss = Scopes.find? x ts
  update? {k : Nat} {ss ts : List Scope} : R k ss ts → ∀ x v,
    Option.Rel (R k) (Scopes.update? x v ss) (Scopes.update? x v ts)
  set {k : Nat} {s t : Scope} {ss ts : List Scope} : binds k → R k (s :: ss) (t :: ts) → ∀ x v,
    R k (Table.set x v s :: ss) (Table.set x v t :: ts)
  nest {k : Nat} {ss ts : List Scope} : R k ss ts → R (k + 1) ([] :: ss) ([] :: ts)
  unnest {k : Nat} {s t : Scope} {ss ts : List Scope} : R (k + 1) (s :: ss) (t :: ts) →
    R k ss ts

/-- `Scopes.assign?` is `update?` on all scopes. -/
theorem Scopes.assign?_eq_map (s : Scopes) (x : String) (v : Value) :
    (s.assign? x v).map (fun t => t.current :: t.enclosing) =
      update? x v (s.current :: s.enclosing) := by
  rw [assign?, update?]
  by_cases hs : Table.has x s.current
  · rw [if_pos hs, if_pos hs]
    rfl
  · rw [if_neg hs, if_neg hs, Option.map_map]
    rfl

/-! ## Machines -/

namespace Machine

/-- Machines whose scopes are related by `R k`, and which agree in all else but the journal;
with `loops` they agree in the count of loops as well. -/
structure Corresponds (R : Nat → List Scope → List Scope → Prop) (k : Nat) (loops : Bool)
    (m m' : Machine) : Prop where
  scopes : R k (m.scopes.current :: m.scopes.enclosing)
    (m'.scopes.current :: m'.scopes.enclosing)
  host : m.host = m'.host
  errors : m.errors = m'.errors
  loopDepth : loops = true → m.loopDepth = m'.loopDepth
  callDepth : m.callDepth = m'.callDepth

namespace Corresponds

variable {binds : Nat → Prop} {R : Nat → List Scope → List Scope → Prop}
  (hR : Scopes.Correspondence binds R)
  {k : Nat} {loops : Bool} {m m' : Machine}

include hR

/-- `Scopes.get?` is the same on both sides. -/
theorem get? (h : m.Corresponds R k loops m') (x : String) :
    m.scopes.get? x = m'.scopes.get? x :=
  hR.find? h.scopes x

/-- `Machine.nested` opens a scope on both sides. -/
theorem nested (h : m.Corresponds R k loops m') :
    m.nested.Corresponds R (k + 1) loops m'.nested :=
  ⟨hR.nest h.scopes, h.host, h.errors, h.loopDepth, h.callDepth⟩

/-- A name is bound on both sides, at a depth where names may be bound. -/
theorem insert (h : m.Corresponds R k loops m') (hk : binds k) (x : String) (v : Value) :
    Corresponds R k loops { m with scopes := m.scopes.insert x v }
      { m' with scopes := m'.scopes.insert x v } :=
  ⟨hR.set hk h.scopes x v, h.host, h.errors, h.loopDepth, h.callDepth⟩

/-- `Machine.closed` uncovers the scopes around one that was opened on both sides. -/
theorem closed (h : m.Corresponds R (k + 1) loops m') :
    m.closed.Corresponds R k loops m'.closed := by
  constructor
  case scopes =>
    have hinner := hR.unnest h.scopes
    obtain ⟨hne, hne'⟩ := hR.ne_nil hinner
    rw [closed_scopes, closed_scopes]
    obtain ⟨⟨current, enclosing⟩, host, errors, loops, calls, journal⟩ := m
    obtain ⟨⟨current', enclosing'⟩, host', errors', loops', calls', journal'⟩ := m'
    obtain ⟨scope, scopes, rfl⟩ := List.exists_cons_of_ne_nil hne
    obtain ⟨scope', scopes', rfl⟩ := List.exists_cons_of_ne_nil hne'
    exact hinner
  case host => rw [closed_host, closed_host, h.host]
  case errors => rw [closed_errors, closed_errors, h.errors]
  case loopDepth =>
    rw [closed_loopDepth, closed_loopDepth]
    exact h.loopDepth
  case callDepth => rw [closed_callDepth, closed_callDepth, h.callDepth]

/-- `Scopes.assign?` gives a name a new value on both sides, or on none. -/
theorem assign? (h : m.Corresponds R k loops m') (x : String) (v : Value) :
    m.scopes.assign? x v = none ∧ m'.scopes.assign? x v = none ∨
      ∃ s s', m.scopes.assign? x v = some s ∧ m'.scopes.assign? x v = some s' ∧
        Corresponds R k loops { m with scopes := s } { m' with scopes := s' } := by
  have hscopes := hR.update? h.scopes x v
  rw [← Scopes.assign?_eq_map, ← Scopes.assign?_eq_map] at hscopes
  rcases hs : m.scopes.assign? x v with _ | s <;>
    rcases hs' : m'.scopes.assign? x v with _ | s' <;>
    rw [hs, hs'] at hscopes <;> cases hscopes
  · exact .inl ⟨rfl, rfl⟩
  · rename_i hscopes
    exact .inr ⟨s, s', rfl, rfl, hscopes, h.host, h.errors, h.loopDepth, h.callDepth⟩

end Corresponds
end Machine

/-! ## Evaluations -/

open Eval

/-- The ending is neither `returned` nor `broke`. -/
def Flow.Stays {α : Type} : Flow α → Prop
  | .done _ | .faulted => True
  | .returned _ | .broke => False

/-- Wherever `e` ends, `e'` ends on all machines for which `Machine.Corresponds` holds, in the
same way and on such a machine again. Without `Leeway.leaves`, every ending `Flow.Stays`, and
the loops need not be counted alike; with `Leeway.binds`, names are bound where they may be. -/
def Eval.Mirrors (binds : Nat → Prop) (R : Nat → List Scope → List Scope → Prop) (l : Leeway)
    {α : Type} (e e' : Eval α) : Prop :=
  ∀ k m m', (l.binds = true → binds k) → m.Corresponds R k l.leaves m' →
    ∀ flow n, e m = some (flow, n) → (l.leaves = false → flow.Stays) ∧
      ∃ n', e' m' = some (flow, n') ∧ n.Corresponds R k l.leaves n'

namespace Eval

/-- `Eval.inScope` is the evaluation between `Machine.nested` and `Machine.closed`. -/
theorem inScope_apply {α : Type} (e : Eval α) (m : Machine) :
    inScope e m = (e m.nested).map fun (flow, n) => (flow, n.closed) := by
  have hinside :
      inScope e m = (observe e >>= fun flow => unnest >>= fun _ => raise flow) m.nested := rfl
  rw [hinside, observe_bind]
  rcases e m.nested with _ | ⟨flow, n⟩ <;> rfl

/-- `Eval.calling` is the body between `Machine.inCall` and `Machine.outOfCall`, and what is
done with its ending. -/
theorem calling_apply {α β : Type} (e : Eval α) (f : Flow α → Eval β) (m : Machine) :
    calling e f m = match e m.inCall with
      | none => none
      | some (flow, n) => f flow (n.outOfCall m.loopDepth) := by
  show (observe e >>= fun flow => _) m.inCall = _
  rw [observe_bind]
  rcases e m.inCall with _ | ⟨flow, n⟩ <;> rfl

section Mirrors

variable {binds : Nat → Prop} {R : Nat → List Scope → List Scope → Prop} {α β : Type}
  {l : Leeway} {e e' : Eval α}

theorem outOfFuel_mirrors : Mirrors binds R l outOfFuel e := by
  rintro k m m' hk hm flow n ⟨⟩

/-- `raise` leaves the machine alone. If nothing may leave, the ending `Stays`. -/
theorem raise_mirrors {flow : Flow α} (hflow : l.leaves = false → flow.Stays) :
    Mirrors binds R l (raise flow) (raise flow) := by
  rintro k m m' hk hm _ _ ⟨⟩
  exact ⟨hflow, m', rfl, hm⟩

/-- With `Leeway.leaves`, any ending may be raised. -/
theorem leaving_mirrors {declares : Bool} (flow : Flow α) :
    Mirrors binds R ⟨true, declares⟩ (raise flow) (raise flow) :=
  raise_mirrors nofun

theorem pure_mirrors (a : α) : Mirrors binds R l (pure a : Eval α) (pure a) :=
  raise_mirrors fun _ => trivial

/-- `Eval.fault` reports the same diagnostic on both sides. -/
theorem fault_mirrors (line : Nat) (cause : Cause) :
    Mirrors binds R l (fault line cause : Eval α) (fault line cause) := by
  rintro k m m' hk hm _ _ ⟨⟩
  have herrors := congrArg (· ++ [⟨line, cause⟩]) hm.errors
  exact ⟨fun _ => trivial, _, rfl, hm.scopes, hm.host, herrors, hm.loopDepth, hm.callDepth⟩

/-- `Eval.change` has to keep machines corresponding, at any depth. -/
theorem change_mirrors {f : Machine → Machine}
    (hf : ∀ k m m', (l.binds = true → binds k) → Machine.Corresponds R k l.leaves m m' →
      (f m).Corresponds R k l.leaves (f m')) : Mirrors binds R l (change f) (change f) := by
  rintro k m m' hk hm _ _ ⟨⟩
  exact ⟨fun _ => trivial, _, rfl, hf k m m' hk hm⟩

/-- Both sides of `>>=` are done with the same value, or end in the same way. -/
theorem bind_mirrors {f f' : α → Eval β} (he : Mirrors binds R l e e')
    (hf : ∀ a, Mirrors binds R l (f a) (f' a)) : Mirrors binds R l (e >>= f) (e' >>= f') := by
  intro k m m' hk hm flow n hn
  have hn : Eval.bind e f m = some (flow, n) := hn
  show _ ∧ ∃ n', Eval.bind e' f' m' = some (flow, n') ∧ _
  rw [Eval.bind] at hn
  rw [Eval.bind]
  rcases hp : e m with _ | ⟨ending, p⟩ <;> rw [hp] at hn
  · cases hn
  · obtain ⟨hstays, p', hp', hcorresponds⟩ := he k m m' hk hm ending p hp
    rw [hp']
    cases ending with
    | done a => exact hf a k p p' hk hcorresponds flow n hn
    | returned v =>
      cases hn
      exact ⟨hstays, p', rfl, hcorresponds⟩
    | broke =>
      cases hn
      exact ⟨hstays, p', rfl, hcorresponds⟩
    | faulted =>
      cases hn
      exact ⟨fun _ => trivial, p', rfl, hcorresponds⟩

/-- An ending that is observed by `Eval.observe` is the same one. -/
theorem observe_mirrors {f f' : Flow α → Eval β} (he : Mirrors binds R l e e')
    (hf : ∀ flow, Mirrors binds R l (f flow) (f' flow)) :
    Mirrors binds R l (observe e >>= f) (observe e' >>= f') := by
  intro k m m' hk hm flow n hn
  rw [observe_bind] at hn
  rw [observe_bind]
  rcases hp : e m with _ | ⟨ending, p⟩ <;> rw [hp] at hn
  · cases hn
  · obtain ⟨-, p', hp', hcorresponds⟩ := he k m m' hk hm ending p hp
    rw [hp']
    exact hf ending k p p' hk hcorresponds flow n hn

/-- In `Eval.calling` loops are counted from nought, so the body may return and break whatever
is allowed around it. -/
theorem calling_mirrors {leaves declares : Bool} {f f' : Flow α → Eval β}
    (he : Mirrors binds R ⟨true, declares⟩ e e')
    (hf : ∀ flow, Mirrors binds R ⟨leaves, declares⟩ (f flow) (f' flow)) :
    Mirrors binds R ⟨leaves, declares⟩ (calling e f) (calling e' f') := by
  intro k m m' hk hm flow n hn
  rw [calling_apply] at hn
  rw [calling_apply]
  -- the loops of the body are counted alike, whether those around the call are or not
  have hcalled : Machine.Corresponds R k true m.inCall m'.inCall :=
    ⟨hm.scopes, hm.host, hm.errors, fun _ => rfl, congrArg (· + 1) hm.callDepth⟩
  rcases hp : e m.inCall with _ | ⟨ending, p⟩ <;> rw [hp] at hn
  · cases hn
  · obtain ⟨-, p', hp', h⟩ := he k _ _ hk hcalled ending p hp
    rw [hp']
    have hleft :
        Machine.Corresponds R k leaves (p.outOfCall m.loopDepth) (p'.outOfCall m'.loopDepth) :=
      ⟨h.scopes, h.host, h.errors, hm.loopDepth, congrArg (· - 1) h.callDepth⟩
    exact hf ending k _ _ hk hleft flow n hn

/-- The hosts are the same, so `Eval.act` does the same. -/
theorem act_mirrors (line : Nat) (builtin : Builtin) (vs : List Value) :
    Mirrors binds R l (act line builtin vs) (act line builtin vs) := by
  intro k m m' hk hm
  rw [act, machine_bind, machine_bind, hm.host]
  have hresult : ∀ result : Except Cause (Option Value),
      Mirrors binds R l (orFault line result) (orFault line result) := by
    intro result
    cases result with
    | ok a => exact pure_mirrors a
    | error cause => exact fault_mirrors line cause
  refine bind_mirrors (change_mirrors fun k m m' hk hm => ?_) (fun _ => hresult _) k m m' hk hm
  exact ⟨hm.scopes, rfl, hm.errors, hm.loopDepth, hm.callDepth⟩

/-- As many calls are open on both sides, so `Eval.guarded` refuses both or none. -/
theorem guarded_mirrors {limit : Nat} (line : Nat) (he : Mirrors binds R l e e') :
    Mirrors binds R l (guarded limit line e) (guarded limit line e') := by
  intro k m m' hk hm
  rw [guarded, guarded, machine_bind, machine_bind, hm.callDepth]
  by_cases hcut : limit ≤ m'.callDepth
  · rw [if_pos hcut, if_pos hcut]
    exact fault_mirrors line _ k m m' hk hm
  · rw [if_neg hcut, if_neg hcut]
    exact he k m m' hk hm

/-- With `Leeway.leaves`, loops are counted alike, so `Eval.breakOut` breaks on both sides or on
none. -/
theorem breakOut_mirrors {declares : Bool} :
    Mirrors binds R ⟨true, declares⟩ breakOut breakOut := by
  intro k m m' hk hm
  rw [breakOut, machine_bind, machine_bind, hm.loopDepth rfl]
  by_cases hloops : m'.loopDepth = 0
  · rw [if_pos hloops]
    exact pure_mirrors none k m m' hk hm
  · rw [if_neg hloops]
    exact leaving_mirrors _ k m m' hk hm

/-! ### What looks at scopes -/

variable (hR : Scopes.Correspondence binds R)

include hR

/-- In `Eval.inScope` names may be bound. -/
theorem inScope_mirrors {leaves declares : Bool} (he : Mirrors binds R ⟨leaves, true⟩ e e') :
    Mirrors binds R ⟨leaves, declares⟩ (inScope e) (inScope e') := by
  intro k m m' hk hm flow n hn
  rw [inScope_apply, Option.map_eq_some_iff] at hn
  obtain ⟨⟨flow, p⟩, hp, ⟨⟩⟩ := hn
  obtain ⟨hstays, p', hp', h⟩ :=
    he (k + 1) _ _ (fun _ => hR.binds_succ k) (hm.nested hR) flow p hp
  refine ⟨hstays, p'.closed, ?_, h.closed hR⟩
  rw [inScope_apply, hp']
  rfl

/-- `Eval.lookup` goes by what a name means. -/
theorem lookup_mirrors (line : Nat) (x : String) :
    Mirrors binds R l (lookup line x) (lookup line x) := by
  intro k m m' hk hm
  rw [lookup, machine_bind, machine_bind, hm.get? hR x]
  cases m'.scopes.get? x with
  | some v => exact pure_mirrors v k m m' hk hm
  | none =>
    cases Builtin.ofName? x with
    | some builtin => exact pure_mirrors _ k m m' hk hm
    | none => exact fault_mirrors line _ k m m' hk hm

/-- A name is given a new value on both sides, by `Corresponds.assign?`, or is missing on
both. -/
theorem reassign_mirrors {missing missing' : Eval Unit} (x : String) (v : Value)
    (hmissing : Mirrors binds R l missing missing') :
    Mirrors binds R l (reassign x v missing) (reassign x v missing') := by
  intro k m m' hk hm
  rw [reassign, reassign, machine_bind, machine_bind]
  obtain ⟨hnone, hnone'⟩ | ⟨s, s', hs, hs', h⟩ := hm.assign? hR x v
  · rw [hnone, hnone']
    exact hmissing k m m' hk hm
  · rw [hs, hs']
    rintro _ _ ⟨⟩
    exact ⟨fun _ => trivial, _, rfl, h⟩

end Mirrors

/-- What `Mirrors` from either side has an answer on both or on none, with the same ending. -/
theorem same_of_mirrors {binds : Nat → Prop} {R R' : Nat → List Scope → List Scope → Prop}
    {l : Leeway} {α : Type} {e e' : Eval α} (he : Mirrors binds R l e e')
    (hback : Mirrors binds R' l e' e) {k : Nat} (hk : l.binds = true → binds k)
    {m m' : Machine} (hm : m.Corresponds R k l.leaves m')
    (hm' : m'.Corresponds R' k l.leaves m) :
    e m = none ∧ e' m' = none ∨
      ∃ flow n n', e m = some (flow, n) ∧ e' m' = some (flow, n') ∧
        n.Corresponds R k l.leaves n' := by
  rcases hn : e m with _ | ⟨flow, n⟩
  · rcases hn' : e' m' with _ | ⟨flow', n'⟩
    · exact .inl ⟨rfl, rfl⟩
    · obtain ⟨-, n, hfound, -⟩ := hback k m' m hk hm' flow' n' hn'
      cases hn.symm.trans hfound
  · obtain ⟨-, n', hn', h⟩ := he k m m' hk hm flow n hn
    exact .inr ⟨flow, n, n', rfl, hn', h⟩

end Eval

/-- `Eval.Mirrors` is a `Congruence`: evaluation sees nothing of scopes but what a
`Scopes.Correspondence` respects. -/
theorem mirrors_congruence {binds : Nat → Prop} {R : Nat → List Scope → List Scope → Prop}
    (hR : Scopes.Correspondence binds R) (limit : Nat) :
    Congruence limit limit fun l _ e e' => Mirrors binds R l e e' where
  outOfFuel _ := outOfFuel_mirrors
  pure := pure_mirrors
  faulted := raise_mirrors fun _ => trivial
  raise := leaving_mirrors
  fault := fault_mirrors
  note _ :=
    change_mirrors fun _ _ _ _ hm => ⟨hm.scopes, hm.host, hm.errors, hm.loopDepth, hm.callDepth⟩
  lookup := lookup_mirrors hR
  reassign := reassign_mirrors hR
  bindName x v := change_mirrors fun _ _ _ hk hm => hm.insert hR (hk rfl) x v
  act := act_mirrors
  bind := bind_mirrors
  observe := observe_mirrors
  scope := inScope_mirrors hR
  breakOut := breakOut_mirrors
  loopEntered := change_mirrors fun _ _ _ _ hm =>
    ⟨hm.scopes, hm.host, hm.errors, fun hloops => congrArg (· + 1) (hm.loopDepth hloops),
      hm.callDepth⟩
  loopLeft := change_mirrors fun _ _ _ _ hm =>
    ⟨hm.scopes, hm.host, hm.errors, fun hloops => congrArg (· - 1) (hm.loopDepth hloops),
      hm.callDepth⟩
  guarded := guarded_mirrors
  calling := calling_mirrors

end ScriptLang
