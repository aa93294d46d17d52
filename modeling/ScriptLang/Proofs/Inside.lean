import ScriptLang.Proofs.Keeping
import ScriptLang.Proofs.Roles
import ScriptLang.Session

/-!
# Evaluations inside of evaluations

An evaluation goes through evaluations of parts of its tree, each on the machine that the ones
before it have left. A *spot* is one of them: a node, or what is left of a loop, with the
machine that it is evaluated on, where it stands, and how many loops and calls of declared
functions are open around it. Loops count from the call on: a function does not see the loops of
its caller.

That one spot is directly inside of another one is told here form by form, with the counts that
the forms of the tree give. What the machine counts has no part in it.

- `Position`, `Piece`, `Spot`: an evaluation inside of a run.
- `Inside`: a spot is directly inside of another one.
- `Spot.answer`: what the evaluation comes to.
- `Spot.exists_inside`, `Session.exists_begins`: an evaluation has no answer only if one
  directly inside of it has none, and so it is with that of a package and those at its top
  level.
-/

namespace ScriptLang

/-- Where an evaluation stands. -/
inductive Position where
  /-- At a part of a node, in its role. -/
  | part (role : Role)
  /-- At a branch of a conditional, or at the body of a loop. -/
  | branch
  /-- At the body of a function that is called. -/
  | called
  /-- At the next turn of a loop. -/
  | turns

/-- Where the value of an expression is asked for, in any `Role` but `Role.statement`: an
operand, an argument, a right side, a returned value, or a part of the head of a conditional or
a loop. -/
def Position.IsExpression : Position → Prop
  | part role => role ≠ .statement
  | branch | called | turns => False

/-- What is evaluated: a node, or the turns of a loop that are left. -/
inductive Piece where
  | node (n : Node)
  | turns (test : Node) (step : Option Node) (body : Block)

/-- An evaluation inside of a run. -/
structure Spot where
  position : Position
  /-- The number of loops around it in the same call. -/
  loops : Nat
  /-- The number of calls of declared functions around it. -/
  calls : Nat
  fuel : Nat
  piece : Piece
  machine : Machine

/-- What `Eval.ofNode` or `Eval.turns` comes to at the spot, if it has an answer. -/
def Spot.answer (limit : Nat) (s : Spot) : Option (Flow (Option Value) × Machine) :=
  match s.piece with
  | .node n => Eval.ofNode limit s.fuel n s.machine
  | .turns test step body => Eval.turns limit s.fuel test step body s.machine

/-- The machine in a call of the function `f`, which has been noted: `Machine.inCall`. -/
def Machine.calling (f : Function) (values : List Value) (m : Machine) : Machine :=
  (m.note (.calling f.name values.length)).inCall

/-- Whether `Eval.call` gets as far as its arguments, with so many of them. -/
def Value.Accepts (limit args : Nat) (m : Machine) : Value → Prop
  | .function f => f.params.length = args ∧ m.callDepth < limit
  | .builtin b => b.arity.refuses? args = none
  | _ => False

section Inside

variable (limit : Nat)

/-- The second spot is an evaluation that `Eval.ofNode` or `Eval.turns` goes through at the
first one, with none in between. -/
inductive Inside : Spot → Spot → Prop
  | operand {p : Position} {loops calls fuel : Nat} {m : Machine} {o : Token} {n : Node} :
      Inside ⟨p, loops, calls, fuel + 1, .node (.prefixed o n), m⟩
        ⟨.part .operand, loops, calls, fuel, .node n, m⟩
  | left {p : Position} {loops calls fuel : Nat} {m : Machine} {o : Token} {l r : Node} :
      Inside ⟨p, loops, calls, fuel + 1, .node (.infixed o l r), m⟩
        ⟨.part .left, loops, calls, fuel, .node l, m⟩
  | right {p : Position} {loops calls fuel : Nat} {m k : Machine} {o : Token} {l r : Node}
      {v : Value} :
      Eval.operand (Eval.ofNode limit fuel) l m = some (.done v, k) →
      Inside ⟨p, loops, calls, fuel + 1, .node (.infixed o l r), m⟩
        ⟨.part .right, loops, calls, fuel, .node r, k⟩
  | assigned {p : Position} {loops calls fuel line : Nat} {m k : Machine} {target n : Node}
      {x : String} :
      Eval.assignee target m = some (.done x, k) →
      Inside ⟨p, loops, calls, fuel + 1, .node (.assign line target n), m⟩
        ⟨.part .assigned, loops, calls, fuel, .node n, k⟩
  | argument {p : Position} {loops calls fuel line l : Nat} {m k : Machine} {x : String}
      {v : Value} {before behind : List Node} {n : Node} {values : List Value} :
      Eval.lookup l x m = some (.done v, m) → v.Accepts limit (before ++ n :: behind).length m →
      Eval.arguments (Eval.ofNode limit fuel) before m = some (.done values, k) →
      Inside ⟨p, loops, calls, fuel + 1,
        .node (.call line (.ident l x) (before ++ n :: behind)), m⟩
        ⟨.part .argument, loops, calls, fuel, .node n, k⟩
  | called {p : Position} {loops calls fuel line l : Nat} {m k k' : Machine} {x : String}
      {args : List Node} {f : Function} {values : List Value} :
      Eval.lookup l x m = some (.done (.function f), m) →
      (Value.function f).Accepts limit args.length m →
      Eval.arguments (Eval.ofNode limit fuel) args m = some (.done values, k) →
      Eval.bindAll f.params values (k.calling f values).nested = some (.done (), k') →
      Inside ⟨p, loops, calls, fuel + 1, .node (.call line (.ident l x) args), m⟩
        ⟨.called, 0, calls + 1, fuel + 1, .node (.block f.body), k'⟩
  | statement {p : Position} {loops calls fuel line : Nat} {m k : Machine}
      {before behind : List Node} {n : Node} {value : Option Value} :
      Eval.sequence (Eval.ofNode limit fuel) none before m.nested = some (.done value, k) →
      Inside ⟨p, loops, calls, fuel + 1, .node (.block ⟨line, before ++ n :: behind⟩), m⟩
        ⟨.part .statement, loops, calls, fuel, .node n, k⟩
  | test {p : Position} {loops calls fuel line : Nat} {m : Machine} {test : Node} {b : Block}
      {c : Option Block} :
      Inside ⟨p, loops, calls, fuel + 1, .node (.conditional line test b c), m⟩
        ⟨.part .condition, loops, calls, fuel, .node test, m⟩
  | branch {p : Position} {loops calls fuel line : Nat} {m k : Machine} {test : Node}
      {b chosen : Block} {c : Option Block} {go : Bool} :
      Eval.condition (Eval.ofNode limit fuel) test m = some (.done go, k) →
      (if go then some b else c) = some chosen →
      Inside ⟨p, loops, calls, fuel + 1, .node (.conditional line test b c), m⟩
        ⟨.branch, loops, calls, fuel + 1, .node (.block chosen), k⟩
  | init {p : Position} {loops calls fuel line : Nat} {m : Machine} {n test : Node}
      {step : Option Node} {b : Block} :
      Inside ⟨p, loops, calls, fuel + 1, .node (.loop line (some n) test step b), m⟩
        ⟨.part .init, loops + 1, calls, fuel, .node n, m.inLoop.nested⟩
  | turns {p : Position} {loops calls fuel line : Nat} {m k : Machine} {init step : Option Node}
      {test : Node} {b : Block} :
      Eval.optional (Eval.ofNode limit fuel) init m.inLoop.nested = some (.done (), k) →
      Inside ⟨p, loops, calls, fuel + 1, .node (.loop line init test step b), m⟩
        ⟨.turns, loops + 1, calls, fuel, .turns test step b, k⟩
  | condition {p : Position} {loops calls fuel : Nat} {m : Machine} {test : Node}
      {step : Option Node} {b : Block} :
      Inside ⟨p, loops, calls, fuel + 1, .turns test step b, m⟩
        ⟨.part .condition, loops, calls, fuel, .node test, m⟩
  | body {p : Position} {loops calls fuel : Nat} {m k : Machine} {test : Node}
      {step : Option Node} {b : Block} :
      Eval.condition (Eval.ofNode limit fuel) test m = some (.done true, k) →
      Inside ⟨p, loops, calls, fuel + 1, .turns test step b, m⟩
        ⟨.branch, loops, calls, fuel + 1, .node (.block b), k⟩
  | step {p : Position} {loops calls fuel : Nat} {m k k' : Machine} {test n : Node} {b : Block}
      {value : Option Value} :
      Eval.condition (Eval.ofNode limit fuel) test m = some (.done true, k) →
      Eval.block (Eval.ofNode limit fuel) b k = some (.done value, k') →
      Inside ⟨p, loops, calls, fuel + 1, .turns test (some n) b, m⟩
        ⟨.part .step, loops, calls, fuel, .node n, k'⟩
  | again {p : Position} {loops calls fuel : Nat} {m k k' k'' : Machine} {test : Node}
      {step : Option Node} {b : Block} {value : Option Value} :
      Eval.condition (Eval.ofNode limit fuel) test m = some (.done true, k) →
      Eval.block (Eval.ofNode limit fuel) b k = some (.done value, k') →
      Eval.optional (Eval.ofNode limit fuel) step k' = some (.done (), k'') →
      Inside ⟨p, loops, calls, fuel + 1, .turns test step b, m⟩
        ⟨.turns, loops, calls, fuel, .turns test step b, k''⟩
  | returned {p : Position} {loops calls fuel line : Nat} {m : Machine} {n : Node} :
      Inside ⟨p, loops, calls, fuel + 1, .node (.returning line n), m⟩
        ⟨.part .returned, loops, calls, fuel, .node n, m⟩

end Inside

/-- The spots at which `Package.evaluate` stands at its top level, with the machine `m` to begin
with. -/
inductive Package.Begins (limit fuel : Nat) (p : Package) (m : Machine) : Spot → Prop
  | node {before behind : List Node} {n : Node} {value : Option Value} {k : Machine} :
      p.nodes = before ++ n :: behind →
      evaluateNodes limit fuel p.name none before m = some (value, k) →
      Begins limit fuel p m ⟨.part .statement, 0, 0, fuel, .node n,
        k.note (.evaluating p.name n.line)⟩

/-! ## Evaluations without an answer

Nothing is left out of `Inside`: where an evaluation has no answer although there is fuel for
it, the answer is missing directly inside of it. -/

namespace Eval

variable {α β : Type} {Q : Prop} {m : Machine}

/-- The evaluation has no answer on the machine `m` only if `Q` holds. -/
def LacksOnlyIf (Q : Prop) (e : Eval α) (m : Machine) : Prop := e m = none → Q

namespace LacksOnlyIf

/-- What has an answer does not lack one. -/
theorem answered {e : Eval α} {result : Flow α × Machine} (h : e m = some result) :
    LacksOnlyIf Q e m := by
  intro hnone
  rw [hnone] at h
  cases h

/-- `>>=` lacks an answer only if its first part does, or `f` behind it if that is done. -/
theorem bind {e : Eval α} {f : α → Eval β} (he : LacksOnlyIf Q e m)
    (hf : ∀ a k, e m = some (.done a, k) → LacksOnlyIf Q (f a) k) :
    LacksOnlyIf Q (e >>= f) m := by
  intro hnone
  have hnone : Eval.bind e f m = none := hnone
  rw [Eval.bind] at hnone
  rcases hk : e m with _ | ⟨flow, k⟩ <;> rw [hk] at hnone
  · exact he hk
  · cases flow with
    | done a => exact hf a k hk hnone
    | _ => cases hnone

/-- So it is for what follows an ending that is observed by `Eval.observe`. -/
theorem observe_bind {e : Eval α} {f : Flow α → Eval β} (he : LacksOnlyIf Q e m)
    (hf : ∀ flow k, e m = some (flow, k) → LacksOnlyIf Q (f flow) k) :
    LacksOnlyIf Q (observe e >>= f) m := by
  intro hnone
  rw [Eval.observe_bind] at hnone
  rcases hk : e m with _ | ⟨flow, k⟩ <;> rw [hk] at hnone
  · exact he hk
  · exact hf flow k hk hnone

/-- Behind an evaluation that always has an answer. -/
theorem behind {e : Eval α} {f : α → Eval β} (he : ∀ k, LacksOnlyIf Q e k)
    (hf : ∀ a k, LacksOnlyIf Q (f a) k) : LacksOnlyIf Q (e >>= f) m :=
  .bind (he m) fun a k _ => hf a k

end LacksOnlyIf

theorem machine_bind (f : Machine → Eval α) (m : Machine) : (machine >>= f) m = f m m := rfl

/-- A bind goes on with the value of its first part if that is done, and ends with it in all
other cases. -/
theorem bind_of_done {e : Eval α} {f : α → Eval β} {a : α} {k : Machine}
    (h : e m = some (.done a, k)) : (e >>= f) m = f a k := by
  show Eval.bind e f m = _
  rw [Eval.bind, h]

theorem bind_of_none {e : Eval α} {f : α → Eval β} {m : Machine} (h : e m = none) :
    (e >>= f) m = none := by
  show Eval.bind e f m = none
  rw [Eval.bind, h]

theorem bind_of_returned {e : Eval α} {f : α → Eval β} {v : Option Value} {m k : Machine}
    (h : e m = some (.returned v, k)) : (e >>= f) m = some (.returned v, k) := by
  show Eval.bind e f m = _
  rw [Eval.bind, h]

theorem bind_of_broke {e : Eval α} {f : α → Eval β} {m k : Machine}
    (h : e m = some (.broke, k)) : (e >>= f) m = some (.broke, k) := by
  show Eval.bind e f m = _
  rw [Eval.bind, h]

theorem bind_of_faulted {e : Eval α} {f : α → Eval β} {m k : Machine}
    (h : e m = some (.faulted, k)) : (e >>= f) m = some (.faulted, k) := by
  show Eval.bind e f m = _
  rw [Eval.bind, h]

/-! ### What always has an answer -/

section Answered

theorem orFault_lacks (line : Nat) (x : Except Cause α) : LacksOnlyIf Q (orFault line x) m := by
  cases x with
  | ok a => exact .answered rfl
  | error cause => exact .answered rfl

/-- `Eval.lookup` gives a value on the same machine, or is a fault. -/
theorem lookup_cases (line : Nat) (x : String) (m : Machine) :
    (∃ v, lookup line x m = some (.done v, m)) ∨ ∃ k, lookup line x m = some (.faulted, k) := by
  rw [lookup, machine_bind]
  cases m.scopes.get? x with
  | some v => exact .inl ⟨v, rfl⟩
  | none =>
    cases Builtin.ofName? x with
    | some builtin => exact .inl ⟨.builtin builtin, rfl⟩
    | none => exact .inr ⟨_, rfl⟩

/-- `Eval.lookup` always has an answer, and so has all that follows in this section. -/
theorem lookup_lacks (line : Nat) (x : String) : LacksOnlyIf Q (lookup line x) m := by
  obtain ⟨v, h⟩ | ⟨k, h⟩ := lookup_cases line x m
  · exact .answered h
  · exact .answered h

/-- `Eval.assignee` looks up a name or binds one. -/
theorem assignee_lacks (target : Node) : LacksOnlyIf Q (assignee target) m := by
  cases target with
  | ident line x => exact .behind (fun _ => lookup_lacks line x) fun _ _ => .answered rfl
  | declare t b => exact .answered rfl
  | _ => exact .answered rfl

/-- `Eval.reassign` gives a name a value, or goes on with `missing`. -/
theorem reassign_lacks (x : String) (v : Value) {missing : Eval Unit}
    (hmissing : ∀ k, LacksOnlyIf Q missing k) :
    LacksOnlyIf Q (reassign x v missing) m := by
  refine .bind (.answered rfl) ?_
  rintro _ k -
  split
  · exact .answered rfl
  · exact hmissing k

/-- `Eval.writeBack` stores a result, or there is nothing to do. -/
theorem writeBack_lacks (args : List Node) (result : Option Value) :
    LacksOnlyIf Q (writeBack args result) m := by
  unfold writeBack
  split
  · exact reassign_lacks _ _ fun _ => .answered rfl
  · exact .answered rfl

theorem bindAll_lacks (xs : List String) (vs : List Value) :
    LacksOnlyIf Q (bindAll xs vs) m := by
  induction xs generalizing vs m with
  | nil => exact .answered rfl
  | cons x xs ih =>
    cases vs with
    | nil => exact .answered rfl
    | cons v vs => exact .behind (fun _ => .answered rfl) fun _ _ => ih vs

end Answered

/-! ### The rules -/

section Rules

variable {run : Evaluator} {n : Node}

/-- A scope of its own: what lacks the answer is evaluated on `Machine.nested`. -/
theorem inScope_lacks {e : Eval α} (he : LacksOnlyIf Q e m.nested) :
    LacksOnlyIf Q (inScope e) m := by
  have hinside :
      LacksOnlyIf Q (observe e >>= fun flow => unnest >>= fun _ => raise flow) m.nested :=
    .observe_bind he fun flow k _ => .answered rfl
  exact hinside

theorem operand_lacks (hn : LacksOnlyIf Q (run n) m) : LacksOnlyIf Q (operand run n) m := by
  refine .bind hn fun value k _ => ?_
  cases value with
  | some v => exact .answered rfl
  | none => exact .answered rfl

theorem prefixed_lacks {o : Token} (hn : LacksOnlyIf Q (run n) m) :
    LacksOnlyIf Q (prefixed run o n) m :=
  .bind (operand_lacks hn) fun _ _ _ => .behind (fun _ => orFault_lacks _ _) fun _ _ =>
    .answered rfl

/-- The right side is reached when the left side has a value. -/
theorem infixed_lacks {o : Token} {left : Node} (hl : LacksOnlyIf Q (run left) m)
    (hn : ∀ v k, operand run left m = some (.done v, k) → LacksOnlyIf Q (run n) k) :
    LacksOnlyIf Q (infixed run o left n) m :=
  .bind (operand_lacks hl) fun v k hk => .bind (operand_lacks (hn v k hk)) fun _ _ _ =>
    .behind (fun _ => orFault_lacks _ _) fun _ _ => .answered rfl

/-- The right side is reached behind the left one, which always has an answer. -/
theorem assign_lacks {target : Node}
    (hn : ∀ x k, assignee target m = some (.done x, k) → LacksOnlyIf Q (run n) k) :
    LacksOnlyIf Q (assign run target n) m := by
  refine .bind (assignee_lacks target) fun x k hk => .bind (hn x k hk) fun value k' _ => ?_
  exact .behind (fun _ => reassign_lacks x _ fun _ => .answered rfl) fun _ _ => .answered rfl

/-- A node of a row is reached when `Eval.sequence` is done with those in front of it. -/
theorem sequence_lacks {ns : List Node} (last : Option Value)
    (hns : ∀ before n behind value k, ns = before ++ n :: behind →
      sequence run last before m = some (.done value, k) → LacksOnlyIf Q (run n) k) :
    LacksOnlyIf Q (sequence run last ns) m := by
  induction ns generalizing last m with
  | nil => exact .answered rfl
  | cons n ns ih =>
    refine .bind (hns [] n ns last m rfl rfl) fun value k hk => ih value ?_
    rintro before n' behind value' k' rfl hbefore
    exact hns (n :: before) n' behind value' k' rfl ((bind_of_done hk).trans hbefore)

/-- An argument is reached when `Eval.arguments` has the values of those in front of it. -/
theorem arguments_lacks {ns : List Node}
    (hns : ∀ before n behind values k, ns = before ++ n :: behind →
      arguments run before m = some (.done values, k) → LacksOnlyIf Q (run n) k) :
    LacksOnlyIf Q (arguments run ns) m := by
  induction ns generalizing m with
  | nil => exact .answered rfl
  | cons n ns ih =>
    -- the first argument has none before it, and is before all others
    refine .bind (hns [] n ns [] m rfl rfl) fun value k hk => ?_
    refine .bind (ih ?_) fun _ _ _ => .answered rfl
    rintro before n' behind values k' rfl hbefore
    exact hns (n :: before) n' behind _ k' rfl ((bind_of_done hk).trans (bind_of_done hbefore))

/-- The nodes of a block are reached on `Machine.nested`. -/
theorem block_lacks {b : Block} (hb : LacksOnlyIf Q (sequence run none b.nodes) m.nested) :
    LacksOnlyIf Q (block run b) m := by
  refine .observe_bind (inScope_lacks hb) fun flow k _ => ?_
  cases flow with
  | broke =>
    refine .bind (.answered rfl) ?_
    rintro _ k' -
    split
    · exact .answered rfl
    · exact .answered rfl
  | _ => exact .answered rfl

theorem condition_lacks (hn : LacksOnlyIf Q (run n) m) : LacksOnlyIf Q (condition run n) m := by
  refine .bind hn fun value k _ => ?_
  split
  · exact .answered rfl
  · exact .answered rfl

/-- A branch is reached when `Eval.condition` has chosen it. -/
theorem conditional_lacks {b : Block} {c : Option Block} (hn : LacksOnlyIf Q (run n) m)
    (hb : ∀ go k chosen, condition run n m = some (.done go, k) →
      (if go then some b else c) = some chosen → LacksOnlyIf Q (block run chosen) k) :
    LacksOnlyIf Q (conditional run n b c) m := by
  refine .bind (condition_lacks hn) fun go k hk => ?_
  cases go with
  | true => exact hb true k b hk rfl
  | false =>
    cases c with
    | some c => exact hb false k c hk rfl
    | none => exact .answered rfl

theorem optional_lacks {part : Option Node} (hpart : ∀ n ∈ part, LacksOnlyIf Q (run n) m) :
    LacksOnlyIf Q (optional run part) m := by
  cases part with
  | some n => exact .bind (hpart n rfl) fun _ _ _ => .answered rfl
  | none => exact .answered rfl

/-- The turns of a loop are reached when `Eval.optional` is done with its first part. -/
theorem loop_lacks {turns : Eval (Option Value)} {init : Option Node}
    (hinit : ∀ n ∈ init, LacksOnlyIf Q (run n) m.inLoop.nested)
    (hturns : ∀ k, optional run init m.inLoop.nested = some (.done (), k) →
      LacksOnlyIf Q turns k) :
    LacksOnlyIf Q (loop run turns init) m := by
  refine .bind (.answered rfl) ?_
  rintro _ _ ⟨⟩
  refine .observe_bind (inScope_lacks ?_) fun _ _ _ => .answered rfl
  exact .bind (optional_lacks hinit) fun _ k hk => hturns k hk

/-- The arguments are reached if `Value.Accepts` lets the call through, and the body behind
them, with the parameters bound to their values. -/
theorem callFunction_lacks {limit line : Nat} {f : Function} {args : List Node}
    (hargs : (Value.function f).Accepts limit args.length m →
      LacksOnlyIf Q (arguments run args) m)
    (hbody : ∀ values k k', (Value.function f).Accepts limit args.length m →
      arguments run args m = some (.done values, k) →
      bindAll f.params values (k.calling f values).nested = some (.done (), k') →
      LacksOnlyIf Q (block run f.body) k') :
    LacksOnlyIf Q (callFunction run limit line f args) m := by
  rw [callFunction]
  split
  · exact .answered rfl
  · next harity =>
    refine .bind (.answered rfl) ?_
    rintro _ _ ⟨⟩
    split
    · exact .answered rfl
    · next hdepth =>
      have haccepts : (Value.function f).Accepts limit args.length m :=
        ⟨not_not.mp harity, Nat.lt_of_not_le hdepth⟩
      refine .bind (hargs haccepts) fun values k hk => ?_
      have hcalled : LacksOnlyIf Q (bindAll f.params values >>= fun _ => block run f.body)
          (k.calling f values).nested :=
        .bind (bindAll_lacks _ _) fun _ k' hk' => hbody values k k' haccepts hk hk'
      -- the call is noted and counted before its scope is opened
      refine .bind (.answered rfl) ?_
      rintro _ _ ⟨⟩
      refine .bind (.answered rfl) ?_
      rintro _ _ ⟨⟩
      refine .bind (.answered rfl) ?_
      rintro _ _ ⟨⟩
      refine .observe_bind (inScope_lacks hcalled) fun flow k' _ => ?_
      cases flow <;> exact .answered rfl

/-- Of `Eval.callBuiltin`, only the arguments may lack an answer. -/
theorem callBuiltin_lacks {limit line : Nat} {builtin : Builtin} {args : List Node}
    (hargs : (Value.builtin builtin).Accepts limit args.length m →
      LacksOnlyIf Q (arguments run args) m) :
    LacksOnlyIf Q (callBuiltin run line builtin args) m := by
  rw [callBuiltin]
  split
  · exact .answered rfl
  · next hrefuses =>
    refine .bind (hargs hrefuses) fun values k _ => ?_
    refine .behind (fun _ => .answered rfl) fun _ k' =>
      .behind (fun k'' => ?_) fun result k'' => ?_
    · exact .behind (fun _ => .answered rfl) fun _ _ =>
        .behind (fun _ => .answered rfl) fun _ _ => orFault_lacks _ _
    · split
      · exact .behind (fun _ => writeBack_lacks args result) fun _ _ => .answered rfl
      · exact .answered rfl

/-- A call is of what its name means, which `lookup` finds without changing the machine. -/
theorem call_lacks {limit line : Nat} {callee : Node} {args : List Node}
    (hargs : ∀ l x v, callee = .ident l x → lookup l x m = some (.done v, m) →
      v.Accepts limit args.length m → LacksOnlyIf Q (arguments run args) m)
    (hbody : ∀ l x f values k k', callee = .ident l x →
      lookup l x m = some (.done (.function f), m) →
      (Value.function f).Accepts limit args.length m →
      arguments run args m = some (.done values, k) →
      bindAll f.params values (k.calling f values).nested = some (.done (), k') →
      LacksOnlyIf Q (block run f.body) k') :
    LacksOnlyIf Q (call run limit line callee args) m := by
  cases callee with
  | ident l x =>
    refine .bind (lookup_lacks l x) fun v k hk => ?_
    obtain ⟨w, hw⟩ | ⟨k', hk'⟩ := lookup_cases l x m
    · cases hw.symm.trans hk
      cases v with
      | function f =>
        exact callFunction_lacks (hargs l x _ rfl hk) fun values k k' =>
          hbody l x f values k k' rfl hk
      | builtin b => exact callBuiltin_lacks (hargs l x _ rfl hk)
      | _ => exact .answered rfl
    · cases hk'.symm.trans hk
  | _ => exact .answered rfl

end Rules
end Eval

section Inside

open Eval

variable {limit : Nat}

/-- If there is fuel at a spot and its `Spot.answer` is missing, then it is missing at a spot
directly `Inside`. -/
theorem Spot.exists_inside {s : Spot} (hfuel : s.fuel ≠ 0) (hnone : s.answer limit = none) :
    ∃ t, Inside limit s t ∧ t.answer limit = none := by
  obtain ⟨position, loops, calls, fuel, piece, m⟩ := s
  obtain ⟨fuel, rfl⟩ := Nat.exists_eq_succ_of_ne_zero hfuel
  cases piece with
  | turns test step b =>
    revert hnone
    show LacksOnlyIf _ (Eval.turns limit (fuel + 1) test step b) m
    refine .bind (condition_lacks fun h => ⟨_, .condition, h⟩) fun go k hk => ?_
    cases go with
    | false => exact .answered rfl
    | true =>
      refine .observe_bind (fun h => ⟨_, .body hk, h⟩) fun flow k' hk' => ?_
      cases flow with
      | done value =>
        -- only behind a result there are a step and another turn
        refine .bind (optional_lacks ?_) fun _ k'' hk'' h => ⟨_, .again hk hk' hk'', h⟩
        rintro n rfl h
        exact ⟨_, .step hk hk', h⟩
      | _ => exact .answered rfl
  | node n =>
    revert hnone
    show LacksOnlyIf _ (ofNode limit (fuel + 1) n) m
    cases n with
    | integer | string | boolean | declare | breaking => exact .answered rfl
    | function => exact .answered rfl
    | ident line x => exact .behind (fun _ => lookup_lacks line x) fun _ _ => .answered rfl
    | assign line target n => exact assign_lacks fun x k hk h => ⟨_, .assigned hk, h⟩
    | prefixed o n => exact prefixed_lacks fun h => ⟨_, .operand, h⟩
    | infixed o l r =>
      exact infixed_lacks (fun h => ⟨_, .left, h⟩) fun v k hk h => ⟨_, .right hk, h⟩
    | returning line n => exact .bind (fun h => ⟨_, .returned, h⟩) fun _ _ _ => .answered rfl
    | block b =>
      refine block_lacks (sequence_lacks none ?_)
      obtain ⟨line, nodes⟩ := b
      rintro before n behind value k rfl hk h
      exact ⟨_, .statement hk, h⟩
    | conditional line test b c =>
      exact conditional_lacks (fun h => ⟨_, .test, h⟩) fun go k chosen hk hchosen h =>
        ⟨_, .branch hk hchosen, h⟩
    | loop line init test step b =>
      refine loop_lacks ?_ fun k hk h => ⟨_, .turns hk, h⟩
      rintro n rfl h
      exact ⟨_, .init, h⟩
    | call line callee args =>
      refine call_lacks ?_ ?_
      · rintro l x v rfl hv haccepts
        refine arguments_lacks ?_
        rintro before n behind values k rfl hk h
        exact ⟨_, .argument hv haccepts hk, h⟩
      · rintro l x f values k k' rfl hf haccepts hk hk' h
        exact ⟨_, .called hf haccepts hk hk', h⟩

/-- `evaluateNodes` has no answer only if `Eval.ofNode` has none for one of the nodes, behind
those in front of it. -/
theorem exists_of_evaluateNodes_eq_none {fuel : Nat} {package : String} {last : Option Value}
    {ns : List Node} {m : Machine} (h : evaluateNodes limit fuel package last ns m = none) :
    ∃ before n behind value k, ns = before ++ n :: behind ∧
      evaluateNodes limit fuel package last before m = some (value, k) ∧
      ofNode limit fuel n (k.note (.evaluating package n.line)) = none := by
  induction ns generalizing last m with
  | nil => cases h
  | cons node ns ih =>
    rw [evaluateNodes] at h
    rcases hnode : ofNode limit fuel node
      (m.note (.evaluating package node.line)) with _ | ⟨flow, k⟩ <;>
      rw [hnode] at h
    · exact ⟨[], node, ns, last, m, rfl, rfl, hnode⟩
    · obtain ⟨before, n, behind, value, l, hsplit, hbefore, hnone⟩ := ih h
      refine ⟨node :: before, n, behind, value, l, congrArg (node :: ·) hsplit, ?_, hnone⟩
      rw [evaluateNodes, hnode]
      exact hbefore

/-- If `Session.evaluate` has no answer, then it is missing at one of the spots that
`Package.Begins`. -/
theorem Session.exists_begins {s : Session} {fuel : Nat} {p : Package}
    (h : s.evaluate fuel p = none) :
    ∃ top, p.Begins s.config.maxCallDepth fuel s.machine top ∧
      top.answer s.config.maxCallDepth = none := by
  rw [evaluate, Package.evaluate] at h
  rcases hnodes : evaluateNodes s.config.maxCallDepth fuel p.name none p.nodes s.machine with
    _ | ⟨value, k⟩ <;> rw [hnodes] at h
  · obtain ⟨before, n, behind, value, k, hsplit, hbefore, hnone⟩ :=
      exists_of_evaluateNodes_eq_none hnodes
    exact ⟨_, .node hsplit hbefore, hnone⟩
  · cases h

end Inside

end ScriptLang
