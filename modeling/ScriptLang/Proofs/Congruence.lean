import ScriptLang.Proofs.Keeping
import ScriptLang.Proofs.ScopeDiscipline

/-!
# Two evaluations side by side

Two evaluations of one tree may differ in the machines that they begin on, in their fuel and in
the limit on the depth of calls. What is to be shown of both of them together is mostly some
relation between evaluations that holds of the few things that evaluation does to a machine.
That it then holds of whole trees, by induction over fuel, is shown here once for all such
relations.

Not every relation bears everything. One that compares machines which do not count the same
loops has nothing to say of a break, and one that compares machines whose current scopes differ
has nothing to say of a declaration. So a relation takes a leeway, which is what may happen in
the evaluations that it compares. For an expression any leeway will do, because breaks and
declarations are only inside of the functions that it calls, and there the loops are counted
anew, in a scope that is new.

- `Leeway`: what may happen in evaluations that are compared.
- `Congruence`: a relation that holds of what evaluation does.
- `Congruence.expression`: it holds of the evaluations of an expression, whatever the leeway.
- `Congruence.node`: it holds of the evaluations of every tree, at the full leeway.
-/

namespace ScriptLang

/-- What may happen in evaluations that a `Congruence` compares. -/
structure Leeway where
  /-- Whether they may return and break. -/
  leaves : Bool
  /-- Whether they may bind names in the current scope. -/
  binds : Bool

/-- The `Leeway` for anything to happen. -/
abbrev Leeway.full : Leeway := ⟨true, true⟩

open Eval

/-- A relation `P` between evaluations under `limit` and under `limit'` that holds of what
evaluation does to a machine. It holds of an evaluation that has no answer and any other one, so
there may be more fuel for the second one. -/
structure Congruence (limit limit' : Nat) (P : Leeway → (α : Type) → Eval α → Eval α → Prop) :
    Prop where
  outOfFuel {l : Leeway} {α : Type} (e : Eval α) : P l α outOfFuel e
  pure {l : Leeway} {α : Type} (a : α) : P l α (pure a) (pure a)
  faulted {l : Leeway} {α : Type} : P l α (raise .faulted) (raise .faulted)
  raise {binds : Bool} {α : Type} (flow : Flow α) : P ⟨true, binds⟩ α (raise flow) (raise flow)
  fault {l : Leeway} {α : Type} (line : Nat) (cause : Cause) : P l α (fault line cause)
    (fault line cause)
  note {l : Leeway} (event : Event) : P l Unit (note event) (note event)
  lookup {l : Leeway} (line : Nat) (x : String) : P l Value (lookup line x) (lookup line x)
  reassign {l : Leeway} {missing missing' : Eval Unit} (x : String) (v : Value) : P l Unit
    missing missing' → P l Unit (reassign x v missing) (reassign x v missing')
  bindName {leaves : Bool} (x : String) (v : Value) : P ⟨leaves, true⟩ Unit (bindName x v)
    (bindName x v)
  act {l : Leeway} (line : Nat) (builtin : Builtin) (vs : List Value) :
    P l (Option Value) (act line builtin vs) (act line builtin vs)
  bind {l : Leeway} {α β : Type} {e e' : Eval α} {f f' : α → Eval β} : P l α e e' →
    (∀ a, P l β (f a) (f' a)) → P l β (e >>= f) (e' >>= f')
  observe {l : Leeway} {α β : Type} {e e' : Eval α} {f f' : Flow α → Eval β} : P l α e e' →
    (∀ flow, P l β (f flow) (f' flow)) → P l β (observe e >>= f) (observe e' >>= f')
  scope {leaves binds : Bool} {α : Type} {e e' : Eval α} : P ⟨leaves, true⟩ α e e' →
    P ⟨leaves, binds⟩ α (inScope e) (inScope e')
  breakOut {binds : Bool} : P ⟨true, binds⟩ (Option Value) breakOut breakOut
  loopEntered {l : Leeway} : P l Unit (change Machine.inLoop) (change Machine.inLoop)
  loopLeft {l : Leeway} : P l Unit (change Machine.outOfLoop) (change Machine.outOfLoop)
  guarded {l : Leeway} {α : Type} {e e' : Eval α} (line : Nat) : P l α e e' →
    P l α (guarded limit line e) (guarded limit' line e')
  calling {leaves binds : Bool} {α β : Type} {e e' : Eval α} {f f' : Flow α → Eval β} :
    P ⟨true, binds⟩ α e e' → (∀ flow, P ⟨leaves, binds⟩ β (f flow) (f' flow)) →
    P ⟨leaves, binds⟩ β (calling e f) (calling e' f')

namespace Congruence

variable {limit limit' : Nat} {P : Leeway → (α : Type) → Eval α → Eval α → Prop}

section Rules

variable (h : Congruence limit limit' P) {l : Leeway} {leaves binds : Bool}
  {run run' : Evaluator} {n : Node}

include h

/-- `Eval.orFault` gives the same result or the same fault on both sides. -/
theorem orFault {α : Type} (line : Nat) (x : Except Cause α) :
    P l α (orFault line x) (orFault line x) := by
  cases x with
  | ok a => exact h.pure a
  | error cause => exact h.fault line cause

/-- `Eval.operand` is a fault on both sides where there is no value. -/
theorem operand (hn : P l _ (run n) (run' n)) : P l _ (operand run n) (operand run' n) := by
  refine h.bind hn fun value => ?_
  cases value with
  | some v => exact h.pure v
  | none => exact h.fault _ _

theorem prefixed (o : Token) (hn : P l _ (run n) (run' n)) :
    P l _ (prefixed run o n) (prefixed run' o n) :=
  h.bind (h.operand hn) fun _ => h.bind (h.orFault _ _) fun _ => h.pure _

theorem infixed (o : Token) {left : Node} (hleft : P l _ (run left) (run' left))
    (hn : P l _ (run n) (run' n)) : P l _ (infixed run o left n) (infixed run' o left n) :=
  h.bind (h.operand hleft) fun _ => h.bind (h.operand hn) fun _ =>
    h.bind (h.orFault _ _) fun _ => h.pure _

/-- `Eval.assign` takes the left side first, then the value. -/
theorem assign {target : Node} (htarget : P l _ (assignee target) (assignee target))
    (hn : P l _ (run n) (run' n)) : P l _ (assign run target n) (assign run' target n) := by
  refine h.bind htarget fun x => h.bind hn fun value => ?_
  exact h.bind (h.reassign x _ (h.note _)) fun _ => h.pure _

/-- `Eval.assignee` on a name binds nothing, so it has any `Leeway`. -/
theorem assignee_ident (line : Nat) (x : String) :
    P l _ (assignee (.ident line x)) (assignee (.ident line x)) :=
  h.bind (h.lookup line x) fun _ => h.pure x

/-- `Eval.assignee` on a declaration binds a name. -/
theorem assignee (target : Node) : P ⟨leaves, true⟩ _ (assignee target) (assignee target) := by
  cases target with
  | ident line x => exact h.assignee_ident line x
  | declare t b => exact h.bind (h.bindName _ _) fun _ => h.pure _
  | _ => exact h.fault _ _

/-- `Eval.sequence` over a row of nodes is related if the nodes are. -/
theorem sequence (last : Option Value) {ns : List Node}
    (hns : ∀ n ∈ ns, P l _ (run n) (run' n)) :
    P l _ (sequence run last ns) (sequence run' last ns) := by
  induction ns generalizing last with
  | nil => exact h.pure last
  | cons n ns ih =>
    exact h.bind (hns n List.mem_cons_self) fun value =>
      ih value fun n hn => hns n (List.mem_cons_of_mem _ hn)

theorem arguments {ns : List Node} (hns : ∀ n ∈ ns, P l _ (run n) (run' n)) :
    P l _ (arguments run ns) (arguments run' ns) := by
  induction ns with
  | nil => exact h.pure _
  | cons n ns ih =>
    exact h.bind (hns n List.mem_cons_self) fun _ =>
      h.bind (ih fun n hn => hns n (List.mem_cons_of_mem _ hn)) fun _ => h.pure _

/-- `Eval.block` opens a scope, and takes a break if there is no loop to do so. -/
theorem block {b : Block} (hb : ∀ n ∈ b.nodes, P .full _ (run n) (run' n)) :
    P ⟨true, binds⟩ _ (block run b) (block run' b) := by
  refine h.observe (h.scope (h.sequence none hb)) fun flow => ?_
  cases flow with
  | broke => exact h.breakOut
  | _ => exact h.raise _

theorem condition (hn : P l _ (run n) (run' n)) :
    P l _ (condition run n) (condition run' n) := by
  refine h.bind hn fun value => ?_
  split
  · exact h.pure _
  · exact h.fault _ _

/-- `Eval.conditional` takes blocks for branches, so whatever they bind is gone behind them. -/
theorem conditional (hn : P ⟨true, binds⟩ _ (run n) (run' n)) {b : Block}
    (hb : ∀ n ∈ b.nodes, P .full _ (run n) (run' n)) {c : Option Block}
    (hc : ∀ e ∈ c, ∀ n ∈ e.nodes, P .full _ (run n) (run' n)) :
    P ⟨true, binds⟩ _ (conditional run n b c) (conditional run' n b c) := by
  refine h.bind (h.condition hn) fun test => ?_
  cases test with
  | true => exact h.block hb
  | false =>
    cases c with
    | some c => exact h.block (hc c rfl)
    | none => exact h.pure _

theorem optional {part : Option Node} (hpart : ∀ n ∈ part, P l _ (run n) (run' n)) :
    P l _ (optional run part) (optional run' part) := by
  cases part with
  | some n => exact h.bind (hpart n rfl) fun _ => h.pure _
  | none => exact h.pure _

/-- What `Eval.finish` makes of the ending of a body: the next turn, a result or the same
ending. -/
theorem finish {next next' : Eval (Option Value)} (hnext : P .full _ next next')
    (flow : Flow (Option Value)) : P .full _ (finish next flow) (finish next' flow) := by
  cases flow with
  | done => exact hnext
  | broke => exact h.pure _
  | _ => exact h.raise _

/-- `Eval.optional` on the step of a loop, with what comes behind it. -/
theorem step {step : Option Node} (hstep : ∀ n ∈ step, P .full _ (run n) (run' n))
    {next next' : Eval (Option Value)} (hnext : P .full _ next next') :
    P .full _ (do Eval.optional run step; next) (do Eval.optional run' step; next') :=
  h.bind (h.optional hstep) fun _ => hnext

/-- A turn is the condition, the body, and what `finish` makes of the body's ending. -/
theorem turn {next next' : Eval (Option Value)} (hn : P .full _ (run n) (run' n)) {b : Block}
    (hb : ∀ n ∈ b.nodes, P .full _ (run n) (run' n)) (hnext : P .full _ next next') :
    P .full _ (turn run n b next) (turn run' n b next') := by
  refine h.bind (h.condition hn) fun go => ?_
  cases go with
  | false => exact h.pure _
  | true => exact h.observe (h.block hb) (h.finish hnext)

/-- `Eval.loop` is related to one with other `turns` if the turns are. -/
theorem loop {turns turns' : Eval (Option Value)} (hturns : P .full _ turns turns')
    {init : Option Node} (hinit : ∀ n ∈ init, P .full _ (run n) (run' n)) :
    P ⟨true, binds⟩ _ (loop run turns init) (loop run' turns' init) :=
  h.bind h.loopEntered fun _ =>
    h.observe (h.scope (h.bind (h.optional hinit) fun _ => hturns)) fun _ =>
      h.bind h.loopLeft fun _ => h.raise _

/-- `Eval.bindAll` takes the `Leeway` to bind names. -/
theorem bindAll (xs : List String) (vs : List Value) :
    P ⟨leaves, true⟩ _ (bindAll xs vs) (bindAll xs vs) := by
  induction xs generalizing vs with
  | nil => exact h.pure ()
  | cons x xs ih =>
    cases vs with
    | nil => exact h.pure ()
    | cons v vs => exact h.bind (h.bindName x v) fun _ => ih vs

/-- `Eval.callFunction` is related at any `Leeway`, because the body is evaluated at the full
one. -/
theorem callFunction (line : Nat) (f : Function) {args : List Node}
    (hargs : ∀ n ∈ args, P l _ (run n) (run' n))
    (hbody : ∀ n ∈ f.body.nodes, P .full _ (run n) (run' n)) :
    P l _ (callFunction run limit line f args) (callFunction run' limit' line f args) := by
  rw [Eval.callFunction, Eval.callFunction]
  by_cases hlength : f.params.length ≠ args.length
  · rw [if_pos hlength, if_pos hlength]
    exact h.fault _ _
  · rw [if_neg hlength, if_neg hlength]
    have hcalled : ∀ values, P l _
        (Eval.calling (inScope do Eval.bindAll f.params values; Eval.block run f.body) endCall)
        (Eval.calling (inScope do Eval.bindAll f.params values; Eval.block run' f.body)
          endCall) := by
      intro values
      refine h.calling (h.scope (h.bind (h.bindAll _ _) fun _ => h.block hbody)) fun flow => ?_
      cases flow with
      | faulted => exact h.faulted
      | _ => exact h.pure _
    exact h.guarded line (h.bind (h.arguments hargs) fun values =>
      h.bind (h.note _) fun _ => hcalled values)

/-- `Eval.writeBack` gives an existing binding another value, so it has any `Leeway`. -/
theorem writeBack (args : List Node) (result : Option Value) :
    P l _ (writeBack args result) (writeBack args result) := by
  unfold Eval.writeBack
  split
  · exact h.reassign _ _ (h.pure ())
  · exact h.pure ()

/-- `Eval.callBuiltin` takes related arguments, and then the builtin does the same on both
sides. -/
theorem callBuiltin (line : Nat) (builtin : Builtin) {args : List Node}
    (hargs : ∀ n ∈ args, P l _ (run n) (run' n)) :
    P l _ (callBuiltin run line builtin args) (callBuiltin run' line builtin args) := by
  rw [Eval.callBuiltin, Eval.callBuiltin]
  split
  · exact h.fault _ _
  · refine h.bind (h.arguments hargs) fun vs => h.bind (h.note _) fun _ => ?_
    refine h.bind (h.act line builtin vs) fun result => ?_
    split
    · exact h.bind (h.writeBack args result) fun _ => h.pure _
    · exact h.pure _

/-- `Eval.call` looks the callee up on both sides, and calls a function that it means under
either limit. -/
theorem call (line : Nat) (callee : Node) {args : List Node}
    (hargs : ∀ n ∈ args, P l _ (run n) (run' n)) (hrun : ∀ n, P .full _ (run n) (run' n)) :
    P l _ (call run limit line callee args) (call run' limit' line callee args) := by
  cases callee with
  | ident line' x =>
    refine h.bind (h.lookup line' x) fun v => ?_
    cases v with
    | function f => exact h.callFunction line f hargs fun n _ => hrun n
    | builtin b => exact h.callBuiltin line b hargs
    | _ => exact h.fault _ _
  | _ => exact h.fault _ _

end Rules

/-! ## Trees -/

section Step

variable (h : Congruence limit limit' P) {fuel fuel' : Nat}
  (hrun : ∀ n, P .full _ (ofNode limit fuel n) (ofNode limit' fuel' n))

include h hrun

/-- An expression, one unit of fuel up: what it calls is run with leeway of its own, so `l` is
kept. -/
theorem expression_step {l : Leeway}
    (hexpression : ∀ {n : Node}, n.IsExpression →
      P l _ (ofNode limit fuel n) (ofNode limit' fuel' n))
    {n : Node} (hn : n.IsExpression) :
    P l _ (ofNode limit (fuel + 1) n) (ofNode limit' (fuel' + 1) n) := by
  cases hn with
  | integer | string | boolean => exact h.pure _
  | ident => exact h.bind (h.lookup _ _) fun _ => h.pure _
  | prefixed hn => exact h.prefixed _ (hexpression hn)
  | infixed hl hr => exact h.infixed _ (hexpression hl) (hexpression hr)
  | call hargs => exact h.call _ _ (fun n hn => hexpression (hargs n hn)) hrun
  | assign hn => exact h.assign (h.assignee_ident _ _) (hexpression hn)

/-- `Eval.turns` is related one unit of fuel up. -/
theorem turns_step
    (hturns : ∀ test step b, P .full _ (Eval.turns limit fuel test step b)
      (Eval.turns limit' fuel' test step b))
    (test : Node) (step : Option Node) (b : Block) :
    P .full _ (Eval.turns limit (fuel + 1) test step b)
      (Eval.turns limit' (fuel' + 1) test step b) := by
  rw [Eval.turns, Eval.turns]
  exact h.turn (hrun test) (fun n _ => hrun n) (h.step (fun n _ => hrun n) (hturns test step b))

/-- `ofNode` is related one unit of fuel up, for any node. -/
theorem node_step
    (hturns : ∀ test step b, P .full _ (Eval.turns limit fuel test step b)
      (Eval.turns limit' fuel' test step b))
    (n : Node) : P .full _ (ofNode limit (fuel + 1) n) (ofNode limit' (fuel' + 1) n) := by
  cases n with
  | integer | string | boolean => exact h.pure _
  | ident line x => exact h.bind (h.lookup line x) fun _ => h.pure _
  | declare t b => exact h.bind (h.bindName _ _) fun _ => h.pure _
  | assign line target value => exact h.assign (h.assignee target) (hrun value)
  | prefixed o right => exact h.prefixed o (hrun right)
  | infixed o left right => exact h.infixed o (hrun left) (hrun right)
  | call line callee args => exact h.call line callee (fun n _ => hrun n) hrun
  | block b => exact h.block fun n _ => hrun n
  | conditional line test b c =>
    exact h.conditional (hrun test) (fun n _ => hrun n) fun _ _ n _ => hrun n
  | loop line init test step b => exact h.loop (hturns test step b) fun n _ => hrun n
  | function line f params b =>
    exact h.bind (h.note _) fun _ => h.bind (h.bindName _ _) fun _ => h.pure _
  | returning line value => exact h.bind (hrun value) fun _ => h.raise _
  | breaking line => exact h.raise _

end Step

section Trees

variable (h : Congruence limit limit' P) {fuel fuel' : Nat} (hle : fuel ≤ fuel')

include h hle

/-- With no less fuel on the second side, `ofNode` and `Eval.turns` are related. -/
theorem node_and_turns : (∀ n, P .full _ (ofNode limit fuel n) (ofNode limit' fuel' n)) ∧
    ∀ test step b, P .full _ (Eval.turns limit fuel test step b)
      (Eval.turns limit' fuel' test step b) := by
  -- nodes and turns go down together: a loop has its turns below it, and turns have nodes
  induction fuel generalizing fuel' with
  | zero => exact ⟨fun _ => h.outOfFuel _, fun _ _ _ => h.outOfFuel _⟩
  | succ fuel ih =>
    obtain ⟨fuel', rfl⟩ := Nat.exists_eq_add_of_lt hle
    obtain ⟨hnodes, hturns⟩ := ih (Nat.le_add_right fuel fuel')
    exact ⟨h.node_step hnodes hturns, h.turns_step hnodes hturns⟩

/-- A `Congruence` holds of `ofNode` on every tree, at the full `Leeway`. -/
theorem node (n : Node) : P .full _ (ofNode limit fuel n) (ofNode limit' fuel' n) :=
  (h.node_and_turns hle).1 n

/-- A `Congruence` holds of `ofNode` on an expression at every `Leeway`. -/
theorem expression {l : Leeway} {n : Node} (hn : n.IsExpression) :
    P l _ (ofNode limit fuel n) (ofNode limit' fuel' n) := by
  induction fuel generalizing fuel' n with
  | zero => exact h.outOfFuel _
  | succ fuel ih =>
    obtain ⟨fuel', rfl⟩ := Nat.exists_eq_add_of_lt hle
    have hless : fuel ≤ fuel + fuel' := Nat.le_add_right fuel fuel'
    exact h.expression_step (h.node hless) (fun hn => ih hless hn) hn

end Trees
end Congruence
end ScriptLang
