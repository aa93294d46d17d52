import ScriptLang.Eval.Node

/-!
# What evaluation does to the machine

A relation between the machine before an evaluation and the machine behind it holds of every
evaluation if it holds of the few things that evaluation does to a machine: binding and
assigning names, letting a builtin act on the host, reporting a fault, and opening and closing
scopes, loops and calls around other evaluations. The induction over trees and over fuel is done
here, once for all such relations.

What holds of an evaluation that faults may differ from what holds of the others, so there are
two relations. Binding a name in the current scope is kept apart, because there are trees that
bind none.

- `Stable`: two relations that hold of what evaluation does, but for binding names.
- `Eval.Keeps`: an evaluation within two relations, with a rule for each form of node.
- `Eval.ofNode_keeps`: every evaluation is within two stable relations that allow binding names.
- `evaluateNodes_keeps`: the same for the nodes of a package.
-/

namespace ScriptLang

/-- What holds of the machines before and behind an evaluation, by how it ends: `F` for a fault,
else `R`. -/
def Flow.Moves {α : Type} (R F : Machine → Machine → Prop) : Flow α → Machine → Machine → Prop
  | .faulted => F
  | _ => R

/-- `R` and `F` hold around an evaluation if they hold of it, and if `before` and `behind` are
done to the machine. What is done behind it may depend on the machine at first. -/
def Around (R F : Machine → Machine → Prop) (before : Machine → Machine)
    (behind : Machine → Machine → Machine) : Prop :=
  ∀ m n, (R (before m) n → R m (behind m n)) ∧ (F (before m) n → F m (behind m n))

/-- Relations `R` and, for faults, `F` between machines, that hold of all that evaluation does
to a machine, but for binding names. -/
structure Stable (R F : Machine → Machine → Prop) : Prop where
  refl (m : Machine) : R m m
  trans {a b c : Machine} : R a b → R b c → R a c
  beforeFault {a b c : Machine} : R a b → F b c → F a c
  behindFault {a b c : Machine} : F a b → R b c → F a c
  noted (m : Machine) (journal : Journal) : R m { m with journal }
  reported (m : Machine) (d : Diagnostic) : F m (m.report d)
  assigned {m : Machine} {x : String} {v : Value} {scopes : Scopes} :
    m.scopes.assign? x v = some scopes → R m { m with scopes }
  acted (m : Machine) (builtin : Builtin) (vs : List Value) :
    R m { m with host := (builtin.call vs m.host).host }
  scope : Around R F (fun m => { m with scopes := m.scopes.nest })
    fun _ n => { n with scopes := n.scopes.unnest }
  loop : Around R F Machine.inLoop fun _ => Machine.outOfLoop
  call : Around R F Machine.inCall fun m => Machine.outOfCall m.loopDepth

/-- The relation `R` holds of binding a name in the current scope. -/
def Binds (R : Machine → Machine → Prop) : Prop :=
  ∀ (m : Machine) (x : String) (v : Value), R m { m with scopes := m.scopes.insert x v }

namespace Eval

variable {α β : Type} {R F : Machine → Machine → Prop}

/-- `R` and `F` hold of the evaluation `e` on the machine `m`. -/
def KeepsAt (R F : Machine → Machine → Prop) (e : Eval α) (m : Machine) : Prop :=
  ∀ flow n, e m = some (flow, n) → flow.Moves R F m n

/-- `R` and `F` hold of the evaluation `e` on every machine. -/
def Keeps (R F : Machine → Machine → Prop) (e : Eval α) : Prop := ∀ m, KeepsAt R F e m

/-- What `observe` passes on is the ending of `e`, if it has one. -/
theorem observe_bind (e : Eval α) (k : Flow α → Eval β) (m : Machine) :
    (observe e >>= k) m = match e m with
      | none => none
      | some (flow, n) => k flow n := by
  show Eval.bind (observe e) k m = _
  rw [Eval.bind, observe]
  rcases e m with _ | ⟨flow, n⟩ <;> rfl

namespace KeepsAt

variable {m : Machine} {e : Eval α}

/-- `outOfFuel` has no ending, so nothing has to hold of it. -/
theorem outOfFuel : KeepsAt R F (outOfFuel : Eval α) m := by
  rintro flow n ⟨⟩

/-- What reads the `machine` is run on that machine, which is where it has to keep the
relations. -/
theorem machine_bind {f : Machine → Eval α} (hf : KeepsAt R F (f m) m) :
    KeepsAt R F (machine >>= f) m := hf

end KeepsAt

section Rules

variable (h : Stable R F) {m : Machine}

include h

/-- `raise` leaves the machine as it is, and `Stable.refl` holds of that. -/
theorem raise_keeps {flow : Flow α} (hflow : flow ≠ .faulted) : Keeps R F (raise flow) := by
  rintro m _ _ ⟨⟩
  cases flow with
  | faulted => exact absurd rfl hflow
  | _ => exact h.refl m

theorem pure_keeps (a : α) : Keeps R F (pure a : Eval α) := raise_keeps h nofun

theorem broke_keeps : Keeps R F (raise .broke : Eval α) := raise_keeps h nofun

theorem returned_keeps (v : Option Value) : Keeps R F (raise (.returned v) : Eval α) :=
  raise_keeps h nofun

/-- `fault` reports and stops, which is `Stable.reported`. -/
theorem fault_keeps (line : Nat) (cause : Cause) : Keeps R F (fault line cause : Eval α) := by
  rintro m _ _ ⟨⟩
  exact h.reported m _

/-- One evaluation behind another: by `Stable.trans`, or by the law for whichever of them
faults. -/
theorem bind_keepsAt {e : Eval α} {f : α → Eval β} (he : KeepsAt R F e m)
    (hf : ∀ a n, KeepsAt R F (f a) n) : KeepsAt R F (e >>= f) m := by
  intro flow k hk
  have hk : Eval.bind e f m = some (flow, k) := hk
  rw [Eval.bind] at hk
  rcases hn : e m with _ | ⟨ending, n⟩ <;> rw [hn] at hk
  · cases hk
  · have hmoves := he ending n hn
    cases ending with
    | done a =>
      have hrest := hf a n flow k hk
      cases flow with
      | faulted => exact h.beforeFault hmoves hrest
      | _ => exact h.trans hmoves hrest
    | _ =>
      cases hk
      exact hmoves

theorem bind_keeps {e : Eval α} {f : α → Eval β} (he : Keeps R F e)
    (hf : ∀ a, Keeps R F (f a)) : Keeps R F (e >>= f) :=
  fun m => bind_keepsAt h (he m) hf

omit h in
/-- A change of the machine keeps the relations if `R` holds of it. -/
theorem change_keeps {f : Machine → Machine} (hf : ∀ m, R m (f m)) : Keeps R F (change f) := by
  rintro m _ _ ⟨⟩
  exact hf m

theorem note_keeps (event : Event) : Keeps R F (note event) :=
  change_keeps fun m => h.noted m _

theorem orFault_keeps (line : Nat) (x : Except Cause α) : Keeps R F (orFault line x) := by
  cases x with
  | ok a => exact pure_keeps h a
  | error cause => exact fault_keeps h line cause

/-- An evaluation under `observe` goes on with `k`, which has to pass on a fault. -/
theorem observe_keepsAt {e : Eval α} {k : Flow α → Eval β} (he : KeepsAt R F e m)
    (hk : ∀ flow n, flow ≠ .faulted → KeepsAt R F (k flow) n)
    (hfault : k .faulted = raise .faulted) : KeepsAt R F (observe e >>= k) m := by
  intro flow n hn
  rw [observe_bind] at hn
  rcases hm : e m with _ | ⟨ending, m'⟩ <;> rw [hm] at hn
  · cases hn
  · have hmoves := he ending m' hm
    dsimp only at hn
    -- a fault is passed on as it is; behind any other ending the first relation holds
    by_cases hending : ending = .faulted
    · subst hending
      rw [hfault] at hn
      cases hn
      exact hmoves
    · have hrest := hk ending m' hending flow n hn
      have hmoves : R m m' := by
        cases ending with
        | faulted => exact absurd rfl hending
        | _ => exact hmoves
      cases flow with
      | faulted => exact h.beforeFault hmoves hrest
      | _ => exact h.trans hmoves hrest

/-- Something done to the machine before and behind an evaluation under `observe`, however it
ends. -/
theorem around_keepsAt {before : Machine → Machine} {behind : Machine → Machine → Machine}
    (ha : Around R F before behind) {e : Eval α} (he : Keeps R F e) {k : Flow α → Eval β}
    (hk : ∀ flow, flow ≠ .faulted → Keeps R F (k flow)) (hfault : k .faulted = raise .faulted) :
    KeepsAt R F (do
      change before
      let flow ← observe e
      change (behind m)
      k flow) m := by
  intro flow n hn
  have hn : (observe e >>= fun flow => change (behind m) >>= fun _ => k flow) (before m) =
      some (flow, n) := hn
  rw [observe_bind] at hn
  rcases hm : e (before m) with _ | ⟨ending, m'⟩ <;> rw [hm] at hn
  · cases hn
  · have hn : k ending (behind m m') = some (flow, n) := hn
    have hmoves := he _ ending m' hm
    -- a fault ends it behind the second change; otherwise `k` goes on from there
    by_cases hending : ending = .faulted
    · subst hending
      rw [hfault] at hn
      cases hn
      exact (ha m m').2 hmoves
    · have hmoves : R (before m) m' := by
        cases ending with
        | faulted => exact absurd rfl hending
        | _ => exact hmoves
      have hrest := hk ending hending _ flow n hn
      cases flow with
      | faulted => exact h.beforeFault ((ha m m').1 hmoves) hrest
      | _ => exact h.trans ((ha m m').1 hmoves) hrest

/-- An evaluation in a scope of its own, by `Stable.scope`. -/
theorem inScope_keeps {e : Eval α} (he : Keeps R F e) : Keeps R F (inScope e) := by
  have hwithin : Around R F Machine.nested fun _ n => n.closed := by
    intro m n
    have hopen : R { m with scopes := m.scopes.nest } m.nested := h.noted _ _
    have hclose : R { n with scopes := n.scopes.unnest } n.closed := by
      obtain ⟨journal, hclosed⟩ := n.closed_eq
      rw [hclosed]
      exact h.noted _ journal
    exact ⟨fun hr => h.trans ((h.scope m n).1 (h.trans hopen hr)) hclose,
      fun hf => h.behindFault ((h.scope m n).2 (h.beforeFault hopen hf)) hclose⟩
  exact fun m => around_keepsAt h hwithin he (fun _ => raise_keeps h) rfl

/-- `lookup` finds a value, or reports that there is none. -/
theorem lookup_keeps (line : Nat) (x : String) : Keeps R F (lookup line x) := by
  intro m
  refine .machine_bind ?_
  cases m.scopes.get? x with
  | some v => exact pure_keeps h v m
  | none =>
    cases Builtin.ofName? x with
    | some builtin => exact pure_keeps h _ m
    | none => exact fault_keeps h line _ m

/-- Giving a name another value is `Stable.assigned`, and a name that is not bound is up to
`missing`. -/
theorem reassign_keeps (x : String) (v : Value) {missing : Eval Unit}
    (hmissing : Keeps R F missing) : Keeps R F (reassign x v missing) := by
  intro m
  refine .machine_bind ?_
  cases hx : m.scopes.assign? x v with
  | some scopes =>
    rintro _ _ ⟨⟩
    exact h.assigned hx
  | none => exact hmissing m

omit h in
theorem bindName_keeps (hb : Binds R) (x : String) (v : Value) : Keeps R F (bindName x v) :=
  change_keeps fun m => hb m x v

/-! ## The rules -/

variable {run : Evaluator} {n : Node}

theorem operand_keeps (hn : Keeps R F (run n)) : Keeps R F (operand run n) := by
  refine bind_keeps h hn fun value => ?_
  cases value with
  | some v => exact pure_keeps h v
  | none => exact fault_keeps h _ _

theorem prefixed_keeps (o : Token) (hn : Keeps R F (run n)) : Keeps R F (prefixed run o n) :=
  bind_keeps h (operand_keeps h hn) fun _ =>
    bind_keeps h (orFault_keeps h _ _) fun _ => pure_keeps h _

theorem infixed_keeps (o : Token) {left : Node} (hl : Keeps R F (run left))
    (hn : Keeps R F (run n)) : Keeps R F (infixed run o left n) :=
  bind_keeps h (operand_keeps h hl) fun _ => bind_keeps h (operand_keeps h hn) fun _ =>
    bind_keeps h (orFault_keeps h _ _) fun _ => pure_keeps h _

/-- `assign` looks at the left side first, which may bind a name. -/
theorem assign_keeps {target : Node} (ht : Keeps R F (assignee target))
    (hn : Keeps R F (run n)) : Keeps R F (assign run target n) := by
  refine bind_keeps h ht fun x => bind_keeps h hn fun value => ?_
  exact bind_keeps h (reassign_keeps h x _ (note_keeps h _)) fun _ => pure_keeps h _

/-- A name on the left side is only looked up, so `Binds` is not asked for. -/
theorem assignee_ident_keeps (line : Nat) (x : String) :
    Keeps R F (assignee (.ident line x)) :=
  bind_keeps h (lookup_keeps h line x) fun _ => pure_keeps h _

theorem assignee_keeps (hb : Binds R) (target : Node) : Keeps R F (assignee target) := by
  cases target with
  | ident line x => exact assignee_ident_keeps h line x
  | declare t b => exact bind_keeps h (bindName_keeps hb _ _) fun _ => pure_keeps h _
  | _ => exact fault_keeps h _ _

/-- `sequence` evaluates a row of nodes one behind the other. -/
theorem sequence_keeps (last : Option Value) {ns : List Node}
    (hns : ∀ n ∈ ns, Keeps R F (run n)) : Keeps R F (sequence run last ns) := by
  induction ns generalizing last with
  | nil => exact pure_keeps h last
  | cons n ns ih =>
    exact bind_keeps h (hns n List.mem_cons_self) fun value =>
      ih value fun n hn => hns n (List.mem_cons_of_mem _ hn)

/-- A `break` raises its ending, or does nothing where there is no loop around it. -/
theorem breakOut_keeps : Keeps R F breakOut := by
  refine fun m => .machine_bind ?_
  by_cases hloops : m.loopDepth = 0
  · rw [if_pos hloops]
    exact pure_keeps h _ m
  · rw [if_neg hloops]
    exact broke_keeps h m

/-- `block` is a `sequence` in a scope of its own. -/
theorem block_keeps {b : Block} (hb : ∀ n ∈ b.nodes, Keeps R F (run n)) :
    Keeps R F (block run b) := by
  have hbody := inScope_keeps h (sequence_keeps h none hb)
  refine fun m => observe_keepsAt h (hbody m) (fun flow n hflow => ?_) rfl
  cases flow with
  | broke => exact breakOut_keeps h n
  | faulted => exact absurd rfl hflow
  | done a => exact pure_keeps h a n
  | returned v => exact returned_keeps h v n

theorem condition_keeps (hn : Keeps R F (run n)) : Keeps R F (condition run n) := by
  refine bind_keeps h hn fun value => ?_
  split
  · exact pure_keeps h _
  · exact fault_keeps h _ _

theorem conditional_keeps (hn : Keeps R F (run n)) {b : Block}
    (hb : ∀ n ∈ b.nodes, Keeps R F (run n)) {c : Option Block}
    (hc : ∀ e ∈ c, ∀ n ∈ e.nodes, Keeps R F (run n)) : Keeps R F (conditional run n b c) := by
  refine bind_keeps h (condition_keeps h hn) fun test => ?_
  cases test with
  | true => exact block_keeps h hb
  | false =>
    cases c with
    | some c => exact block_keeps h (hc c rfl)
    | none => exact pure_keeps h _

theorem optional_keeps {part : Option Node} (hpart : ∀ n ∈ part, Keeps R F (run n)) :
    Keeps R F (optional run part) := by
  cases part with
  | some n => exact bind_keeps h (hpart n rfl) fun _ => pure_keeps h _
  | none => exact pure_keeps h _

/-- The first part of a loop and its turns are between `Machine.inLoop` and `Machine.outOfLoop`,
in a scope of their own. -/
theorem loop_keeps {turns : Eval (Option Value)} (hturns : Keeps R F turns) {init : Option Node}
    (hinit : ∀ n ∈ init, Keeps R F (run n)) : Keeps R F (loop run turns init) := by
  have hbody := inScope_keeps h (bind_keeps h (optional_keeps h hinit) fun _ => hturns)
  exact fun m => around_keepsAt h h.loop hbody (fun _ => raise_keeps h) rfl

theorem arguments_keeps {ns : List Node} (hns : ∀ n ∈ ns, Keeps R F (run n)) :
    Keeps R F (arguments run ns) := by
  induction ns with
  | nil => exact pure_keeps h _
  | cons n ns ih =>
    exact bind_keeps h (hns n List.mem_cons_self) fun _ =>
      bind_keeps h (ih fun n hn => hns n (List.mem_cons_of_mem _ hn)) fun _ => pure_keeps h _

theorem bindAll_keeps (hb : Binds R) (xs : List String) (vs : List Value) :
    Keeps R F (bindAll xs vs) := by
  induction xs generalizing vs with
  | nil => exact pure_keeps h ()
  | cons x xs ih =>
    cases vs with
    | nil => exact pure_keeps h ()
    | cons v vs => exact bind_keeps h (bindName_keeps hb x v) fun _ => ih vs

/-- `guarded` makes a call a fault at the limit, and leaves it as it was below. -/
theorem guarded_keeps (limit line : Nat) {e : Eval α} (he : Keeps R F e) :
    Keeps R F (guarded limit line e) := by
  refine fun m => .machine_bind ?_
  by_cases hlimit : limit ≤ m.callDepth
  · rw [if_pos hlimit]
    exact fault_keeps h _ _ m
  · rw [if_neg hlimit]
    exact he m

/-- The body of a function is between `Machine.inCall` and `Machine.outOfCall`, on parameters
bound in a scope of its own. -/
theorem callFunction_keeps (limit line : Nat) (f : Function) {args : List Node}
    (hargs : ∀ n ∈ args, Keeps R F (run n))
    (hbody : ∀ vs, Keeps R F (inScope do bindAll f.params vs; block run f.body)) :
    Keeps R F (callFunction run limit line f args) := by
  rw [callFunction]
  by_cases hlength : f.params.length ≠ args.length
  · rw [if_pos hlength]
    exact fault_keeps h _ _
  · rw [if_neg hlength]
    refine guarded_keeps h limit line (bind_keeps h (arguments_keeps h hargs) fun vs => ?_)
    refine bind_keeps h (note_keeps h _) fun _ m => .machine_bind ?_
    -- the counts of the caller are put back, however the body ends
    refine around_keepsAt h h.call (hbody vs) (fun flow hflow => ?_) rfl
    cases flow with
    | faulted => exact absurd rfl hflow
    | _ => exact pure_keeps h _

/-- What a builtin does to the host is `Stable.acted`. -/
theorem act_keeps (line : Nat) (builtin : Builtin) (vs : List Value) :
    Keeps R F (act line builtin vs) := by
  intro m
  refine .machine_bind (bind_keepsAt h ?_ fun _ => orFault_keeps h line _)
  rintro _ _ ⟨⟩
  exact h.trans (h.acted m builtin vs) (h.noted _ _)

/-- What is stored in a variable behind a call is `Stable.assigned`. -/
theorem writeBack_keeps (args : List Node) (result : Option Value) :
    Keeps R F (writeBack args result) := by
  unfold writeBack
  split
  · exact reassign_keeps h _ _ (pure_keeps h ())
  · exact pure_keeps h ()

theorem callBuiltin_keeps (line : Nat) (builtin : Builtin) {args : List Node}
    (hargs : ∀ n ∈ args, Keeps R F (run n)) :
    Keeps R F (callBuiltin run line builtin args) := by
  rw [callBuiltin]
  split
  · exact fault_keeps h _ _
  · refine bind_keeps h (arguments_keeps h hargs) fun vs =>
      bind_keeps h (note_keeps h _) fun _ => ?_
    refine bind_keeps h (act_keeps h line builtin vs) fun result => ?_
    split
    · exact bind_keeps h (writeBack_keeps h args result) fun _ => pure_keeps h _
    · exact pure_keeps h _

/-- `call` is of a builtin, of a function that a name means, or a fault. -/
theorem call_keeps (limit line : Nat) (callee : Node) {args : List Node}
    (hargs : ∀ n ∈ args, Keeps R F (run n))
    (hbody : ∀ (f : Function) vs,
      Keeps R F (inScope do bindAll f.params vs; block run f.body)) :
    Keeps R F (call run limit line callee args) := by
  rw [call.eq_def]
  split
  · refine bind_keeps h (lookup_keeps h _ _) fun v => ?_
    split
    · exact callFunction_keeps h limit line _ hargs (hbody _)
    · exact callBuiltin_keeps h line _ hargs
    · exact fault_keeps h _ _
  · exact fault_keeps h _ _

theorem function_keeps (hb : Binds R) (f : Binder) (params : List Binder) (body : Block) :
    Keeps R F (function f params body) :=
  bind_keeps h (note_keeps h _) fun _ => bind_keeps h (bindName_keeps hb _ _) fun _ =>
    pure_keeps h _

/-! ## Every node -/

section Step

variable {limit fuel : Nat} (hrun : ∀ n, Keeps R F (ofNode limit fuel n))

include hrun

/-- `turns` keep the relations one unit of fuel up. -/
theorem turns_keep_step (hturns : ∀ test step body, Keeps R F (turns limit fuel test step body))
    (test : Node) (step : Option Node) (body : Block) :
    Keeps R F (turns limit (fuel + 1) test step body) := by
  rw [turns]
  refine bind_keeps h (condition_keeps h (hrun test)) fun go => ?_
  cases go with
  | false => exact pure_keeps h _
  | true =>
    refine fun m => observe_keepsAt h (block_keeps h (fun n _ => hrun n) m)
      (fun flow n hflow => ?_) rfl
    cases flow with
    | done =>
      exact bind_keepsAt h (optional_keeps h (fun n _ => hrun n) n) fun _ =>
        hturns test step body
    | broke => exact pure_keeps h _ n
    | returned v => exact returned_keeps h v n
    | faulted => exact absurd rfl hflow

/-- `ofNode` keeps the relations one unit of fuel up: one case for each constructor. -/
theorem ofNode_keeps_step (hb : Binds R)
    (hturns : ∀ test step body, Keeps R F (turns limit fuel test step body)) (n : Node) :
    Keeps R F (ofNode limit (fuel + 1) n) := by
  cases n with
  | integer | string | boolean => exact pure_keeps h _
  | ident line x => exact bind_keeps h (lookup_keeps h line x) fun _ => pure_keeps h _
  | declare t b => exact bind_keeps h (bindName_keeps hb _ _) fun _ => pure_keeps h _
  | assign line target value => exact assign_keeps h (assignee_keeps h hb target) (hrun value)
  | prefixed o right => exact prefixed_keeps h o (hrun right)
  | infixed o left right => exact infixed_keeps h o (hrun left) (hrun right)
  | call line callee args =>
    refine call_keeps h limit line callee (fun n _ => hrun n) fun f vs => inScope_keeps h ?_
    exact bind_keeps h (bindAll_keeps h hb _ vs) fun _ => block_keeps h fun n _ => hrun n
  | block b => exact block_keeps h fun n _ => hrun n
  | conditional line test b c =>
    exact conditional_keeps h (hrun test) (fun n _ => hrun n) fun _ _ n _ => hrun n
  | loop line init test step body =>
    exact loop_keeps h (hturns test step body) fun n _ => hrun n
  | function line f params body => exact function_keeps h hb f params body
  | returning line value => exact bind_keeps h (hrun value) fun v => returned_keeps h v
  | breaking line => exact broke_keeps h

end Step

/-- By induction on the fuel, which `ofNode` and `turns` share. -/
theorem both_keep (hb : Binds R) (limit fuel : Nat) : (∀ n, Keeps R F (ofNode limit fuel n)) ∧
    ∀ test step body, Keeps R F (turns limit fuel test step body) := by
  -- nodes and turns go down together: a loop has its turns below it, and turns have nodes
  induction fuel with
  | zero => exact ⟨fun _ _ => .outOfFuel, fun _ _ _ _ => .outOfFuel⟩
  | succ fuel ih => exact ⟨ofNode_keeps_step h ih.1 hb ih.2, turns_keep_step h ih.1 ih.2⟩

/-- Relations that are `Stable` and hold of binding a name are kept by every `ofNode`. -/
theorem ofNode_keeps (hb : Binds R) (limit fuel : Nat) (n : Node) :
    Keeps R F (ofNode limit fuel n) :=
  (both_keep h hb limit fuel).1 n

/-- They are kept by the `turns` of every loop. -/
theorem turns_keeps (hb : Binds R) (limit fuel : Nat) (test : Node) (step : Option Node)
    (body : Block) : Keeps R F (turns limit fuel test step body) :=
  (both_keep h hb limit fuel).2 test step body

end Rules

end Eval

/-! ## Packages -/

/-- Where faults are no exception, `Flow.Moves` is one relation, however an evaluation ends. -/
theorem Flow.moves_self {α : Type} {R : Machine → Machine → Prop} {flow : Flow α}
    {m n : Machine} : flow.Moves R R m n ↔ R m n := by
  cases flow <;> exact Iff.rfl

/-- What an evaluation `Keeps` holds of any answer it has. -/
theorem Eval.Keeps.relates {α : Type} {R : Machine → Machine → Prop} {e : Eval α}
    (h : e.Keeps R R) {flow : Flow α} {m n : Machine} (hn : e m = some (flow, n)) : R m n :=
  Flow.moves_self.mp (h m flow n hn)

/-- A relation that is `Stable` and holds of resetting the counts holds of `evaluateNodes`. -/
theorem evaluateNodes_keeps {R : Machine → Machine → Prop} (h : Stable R R) (hb : Binds R)
    (hreset : ∀ m, R m { m with loopDepth := 0, callDepth := 0 }) {limit fuel : Nat}
    {package : String} {last value : Option Value} {ns : List Node} {m n : Machine}
    (hn : evaluateNodes limit fuel package last ns m = some (value, n)) : R m n := by
  induction ns generalizing last m with
  | nil =>
    cases hn
    exact h.refl _
  | cons node ns ih =>
    rw [evaluateNodes] at hn
    rcases he : Eval.ofNode limit fuel node (m.note (.evaluating package node.line)) with
      _ | ⟨flow, k⟩ <;> rw [he] at hn
    · cases hn
    · have hnode := Flow.moves_self.mp (Eval.ofNode_keeps h hb limit fuel node _ flow k he)
      exact h.trans (h.trans (h.noted m _) hnode) (h.trans (hreset k) (ih hn))

end ScriptLang
