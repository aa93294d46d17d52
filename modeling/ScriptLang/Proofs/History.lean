import Mathlib.Data.List.Induction
import ScriptLang.Proofs.Inside
import ScriptLang.Proofs.Running

/-!
# The calls that a program makes

A program acts on its host by calling builtins, and in no other way. So what becomes of a host
is told by the calls made on it, one after the other, whoever makes them. Here the calls are
read off a run: each form of node makes those of its parts, in the order in which they are
evaluated and as far as the evaluation gets, and a call of a builtin makes one more when it has
its arguments. A statement that is abandoned has made the calls up to the fault, and an
evaluation that finds no answer those that it had fuel for.

- `Call`, `History`: a call of a builtin, and the calls made on a host since some point.
- `Eval.callsOf`, `Package.calls`: the calls that an evaluation makes.
- `Attribution`: what may be said of evaluations and their calls, with a rule for each form of
  node.
- `Eval.ofNode_makes`: an evaluation changes the host by its calls.
- `Session.Goes`: what a session goes through, with the calls that are made on the way.
- `Session.history_evaluate`: these calls are a history of the host.
-/

namespace ScriptLang

/-- A call of a builtin: its arguments, and the host that it is made on. -/
structure Call where
  builtin : Builtin
  values : List Value
  host : Host

/-- What `Builtin.call` gives back. -/
def Call.reply (c : Call) : Reply (Option Value) := c.builtin.call c.values c.host

/-- The calls made on a host since some point, each on the `Host` that the `Call.reply` before
it has left. -/
inductive History (h : Host) : List Call → Host → Prop
  | none : History h [] h
  | call {cs : List Call} {c : Call} : History h cs c.host → History h (cs ++ [c]) c.reply.host

namespace History

variable {h k l : Host} {cs ds : List Call}

/-- One call is a `History` by itself. -/
theorem single (c : Call) : History c.host [c] c.reply.host :=
  have hlast : History c.host ([] ++ [c]) c.reply.host := .call .none
  hlast

/-- A `History` and another one from the host where it ends. -/
theorem append (hcs : History h cs k) (hds : History k ds l) : History h (cs ++ ds) l := by
  induction hds with
  | none => rwa [List.append_nil]
  | call _ ih =>
    rw [← List.append_assoc]
    exact .call ih

/-- A `History` without its last call. -/
theorem of_concat {c : Call} (hcs : History h (cs ++ [c]) l) :
    History h cs c.host ∧ l = c.reply.host := by
  generalize hall : cs ++ [c] = all at hcs
  cases hcs with
  | none => exact absurd hall (by simp)
  | call hbefore =>
    obtain ⟨rfl, hlast⟩ := List.append_inj' hall rfl
    cases hlast
    exact ⟨hbefore, rfl⟩

/-- A `History` is one up to each of its moments and one from there on. -/
theorem split (hall : History h (cs ++ ds) l) : ∃ k, History h cs k ∧ History k ds l := by
  induction ds using List.reverseRecOn generalizing l with
  | nil =>
    rw [List.append_nil] at hall
    exact ⟨l, hall, .none⟩
  | append_singleton ds d ih =>
    rw [← List.append_assoc] at hall
    obtain ⟨hbefore, rfl⟩ := hall.of_concat
    obtain ⟨k, hcs, hds⟩ := ih hbefore
    exact ⟨k, hcs, .call hds⟩

/-- Each call of a `History` is made on the host that the ones before it have left. -/
theorem at_call {c : Call} (hall : History h (cs ++ c :: ds) l) : History h cs c.host := by
  rw [List.append_cons] at hall
  obtain ⟨k, hbefore, -⟩ := split hall
  exact hbefore.of_concat.1

/-- Any builtins may be called with any values, one after the other: there is a `History` of
it. -/
theorem exists_of (h : Host) (made : List (Builtin × List Value)) :
    ∃ cs l, History h cs l ∧ cs.map (fun c => (c.builtin, c.values)) = made := by
  induction made using List.reverseRecOn with
  | nil => exact ⟨[], h, .none, rfl⟩
  | append_singleton made last ih =>
    obtain ⟨cs, l, hcs, rfl⟩ := ih
    refine ⟨cs ++ [⟨last.1, last.2, l⟩], _, .call hcs, ?_⟩
    rw [List.map_append]
    rfl

end History

/-! ## The calls of an evaluation -/

instance Value.decidableAccepts (limit args : Nat) (m : Machine) :
    (v : Value) → Decidable (v.Accepts limit args m)
  | .function f => inferInstanceAs (Decidable (f.params.length = args ∧ m.callDepth < limit))
  | .builtin b => inferInstanceAs (Decidable (b.arity.refuses? args = none))
  | .null | .boolean _ | .integer _ | .string _ => inferInstanceAs (Decidable False)

namespace Eval

/-- The calls behind an evaluation, made only if it is `Flow.done`. -/
def behind {α : Type} (e : Eval α) (calls : α → Machine → List Call) (m : Machine) :
    List Call :=
  match e m with
  | some (.done a, n) => calls a n
  | _ => []

/-- The calls that are made only if the ending is `Flow.done`. -/
def callsOfDone {α : Type} (calls : α → Machine → List Call) (flow : Flow α) (m : Machine) :
    List Call :=
  match flow with
  | .done a => calls a m
  | _ => []

section Forms

variable (run : Evaluator) (made : Node → Machine → List Call)

/-- The calls of `Eval.sequence` and `Eval.arguments`. -/
def rowCalls : List Node → Machine → List Call
  | [], _ => []
  | n :: ns, m => made n m ++ behind (run n) (fun _ => rowCalls ns) m

/-- The calls of `Eval.block`, made on `Machine.nested`. -/
def blockCalls (b : Block) (m : Machine) : List Call := rowCalls run made b.nodes m.nested

/-- The calls of `Eval.optional`. -/
def optionalCalls : Option Node → Machine → List Call
  | some n, m => made n m
  | none, _ => []

/-- The calls of a block that may be left out. -/
def branchCalls : Option Block → Machine → List Call
  | some b, m => blockCalls run made b m
  | none, _ => []

/-- The calls of `Eval.conditional`. -/
def conditionalCalls (test : Node) (b : Block) (c : Option Block) (m : Machine) : List Call :=
  made test m ++ behind (condition run test)
    (fun go => branchCalls run made (if go then some b else c)) m

/-- The calls of `Eval.loop`, given those of its turns. -/
def loopCalls (turns : Machine → List Call) (init : Option Node) (m : Machine) : List Call :=
  optionalCalls made init m.inLoop.nested ++ behind (optional run init) (fun _ => turns)
    m.inLoop.nested

/-- The calls of the body of a function that has its arguments, made on `Machine.calling`. -/
def bodyCalls (f : Function) (values : List Value) (m : Machine) : List Call :=
  behind (bindAll f.params values) (fun _ => blockCalls run made f.body)
    (m.calling f values).nested

/-- The calls that come of a value being called, if `Value.Accepts` it. A builtin that has its
arguments is a call itself. -/
def valueCalls (limit : Nat) (args : List Node) (v : Value) (m : Machine) : List Call :=
  if v.Accepts limit args.length m then
    rowCalls run made args m ++ behind (arguments run args) (fun values k =>
      match v with
      | .function f => bodyCalls run made f values k
      | .builtin b => [⟨b, values, k.host⟩]
      | _ => []) m
  else []

/-- The calls of `Eval.call`. -/
def callCalls (limit : Nat) (args : List Node) (m : Machine) : Node → List Call
  | .ident line x => behind (lookup line x) (valueCalls run made limit args) m
  | _ => []

/-- The calls of `Eval.turn`, with those of the turns behind it. -/
def turnCalls (turns : Machine → List Call) (test : Node) (step : Option Node) (b : Block)
    (m : Machine) : List Call :=
  made test m ++ behind (condition run test) (fun go k =>
    if go then
      blockCalls run made b k ++ behind (block run b) (fun _ k =>
        optionalCalls made step k ++ behind (optional run step) (fun _ => turns) k) k
    else []) m

end Forms

mutual

/-- The calls of builtins that `Eval.ofNode` makes, in order. -/
def callsOf (limit : Nat) : Nat → Node → Machine → List Call
  | 0, _, _ => []
  | fuel + 1, node, m =>
    match node with
    | .assign _ target value => behind (assignee target) (fun _ => callsOf limit fuel value) m
    | .prefixed _ right => callsOf limit fuel right m
    | .infixed _ left right =>
      callsOf limit fuel left m ++
        behind (operand (ofNode limit fuel) left) (fun _ => callsOf limit fuel right) m
    | .call _ callee args =>
      callCalls (ofNode limit fuel) (callsOf limit fuel) limit args m callee
    | .block b => blockCalls (ofNode limit fuel) (callsOf limit fuel) b m
    | .conditional _ test b c =>
      conditionalCalls (ofNode limit fuel) (callsOf limit fuel) test b c m
    | .loop _ init test step b =>
      loopCalls (ofNode limit fuel) (callsOf limit fuel)
        (callsOfTurns limit fuel test step b) init m
    | .returning _ value => callsOf limit fuel value m
    | .integer .. | .string .. | .boolean .. | .ident .. | .declare .. | .function ..
    | .breaking _ => []

/-- The calls that `Eval.turns` makes, in order. -/
def callsOfTurns (limit : Nat) : Nat → Node → Option Node → Block → Machine → List Call
  | 0, _, _, _, _ => []
  | fuel + 1, test, step, b, m =>
    turnCalls (ofNode limit fuel) (callsOf limit fuel) (callsOfTurns limit fuel test step b)
      test step b m

end

/-! ## Evaluations and their calls -/

end Eval

open Eval

/-- What is said of evaluations on a machine, and of the calls that they make there, if it holds
of what evaluation does to a machine. Only `Eval.act` sees the host; whatever else is done goes
by the rest of the machine, so it does the same on `Machine.withHost`. -/
structure Attribution (P : (α : Type) → Eval α → Machine → List Call → Prop) : Prop where
  outOfFuel {α : Type} (m : Machine) : P α outOfFuel m []
  raise {α : Type} (flow : Flow α) (m : Machine) : P α (raise flow) m []
  fault {α : Type} (line : Nat) (cause : Cause) (m : Machine) : P α (fault line cause) m []
  change {f : Machine → Machine} (hf : ∀ m host, f (m.withHost host) = (f m).withHost host)
    (m : Machine) : P Unit (change f) m []
  machine {α : Type} {f : Machine → Eval α} {m : Machine} {cs : List Call} :
    (∀ host, f (m.withHost host) = f m) → P α (f m) m cs → P α (machine >>= f) m cs
  bind {α β : Type} {e : Eval α} {f : α → Eval β} {m : Machine} {cs : List Call}
    {calls : α → Machine → List Call} : P α e m cs →
    (∀ a n, e m = some (.done a, n) → P β (f a) n (calls a n)) →
    P β (e >>= f) m (cs ++ behind e calls m)
  observe {α : Type} {e : Eval α} {m : Machine} {cs : List Call} : P α e m cs →
    P (Flow α) (observe e) m cs
  act (line : Nat) (builtin : Builtin) (values : List Value) (m : Machine) :
    P (Option Value) (act line builtin values) m [⟨builtin, values, m.host⟩]

namespace Attribution

variable {P : (α : Type) → Eval α → Machine → List Call → Prop}

section Rules

variable (h : Attribution P) {α β : Type} {e : Eval α} {m : Machine} {cs : List Call}

include h

theorem pure (a : α) (m : Machine) : P α (pure a) m [] := h.raise (.done a) m

theorem note (event : Event) (m : Machine) : P Unit (note event) m [] :=
  h.change (fun _ _ => rfl) m

/-- What is behind `Eval.change` makes its calls on the machine as changed. -/
theorem change_bind {f : Machine → Machine} {g : Unit → Eval β}
    (hf : ∀ m host, f (m.withHost host) = (f m).withHost host) (hg : P β (g ()) (f m) cs) :
    P β (Eval.change f >>= g) m cs := by
  have hbehind : ∀ a n, Eval.change f m = some (.done a, n) → P β (g a) n cs := by
    rintro _ _ ⟨⟩
    exact hg
  exact h.bind (h.change hf m) hbehind

/-- What is behind `>>=` makes no calls, whether it takes the result or the ending. -/
theorem bind_quiet {f : α → Eval β} (he : P α e m cs) (hf : ∀ a n, P β (f a) n []) :
    P β (e >>= f) m cs := by
  have hboth := h.bind he fun a n _ => hf a n
  have hnone : behind e (fun _ _ => []) m = [] := by
    rw [behind]
    split <;> rfl
  rwa [hnone, List.append_nil] at hboth

/-- What is in front of `>>=` makes no calls. -/
theorem quiet_bind {f : α → Eval β} {calls : α → Machine → List Call} (he : P α e m [])
    (hf : ∀ a n, P β (f a) n (calls a n)) : P β (e >>= f) m (behind e calls m) :=
  h.bind he fun a n _ => hf a n

/-- Of what follows `Eval.observe`, only what is done with a result makes calls. -/
theorem observe_bind {f : Flow α → Eval β} {calls : α → Machine → List Call} (he : P α e m cs)
    (hf : ∀ a n, P β (f (.done a)) n (calls a n))
    (hother : ∀ flow, (∀ a, flow ≠ .done a) → ∀ n, P β (f flow) n []) :
    P β (Eval.observe e >>= f) m (cs ++ behind e calls m) := by
  have hcalls : behind (Eval.observe e) (callsOfDone calls) m = behind e calls m := by
    rw [behind, behind, Eval.observe]
    rcases e m with _ | ⟨_ | _ | _ | _, n⟩ <;> rfl
  rw [← hcalls]
  refine h.bind (h.observe he) fun flow n _ => ?_
  cases flow with
  | done a => exact hf a n
  | _ =>
    refine hother _ ?_ n
    rintro _ ⟨⟩

theorem orFault (line : Nat) (x : Except Cause α) (m : Machine) :
    P α (orFault line x) m [] := by
  cases x with
  | ok a => exact h.pure a m
  | error cause => exact h.fault line cause m

theorem bindName (x : String) (v : Value) (m : Machine) : P Unit (bindName x v) m [] :=
  h.change (fun _ _ => rfl) m

theorem bindAll (xs : List String) (vs : List Value) (m : Machine) :
    P Unit (bindAll xs vs) m [] := by
  induction xs generalizing vs m with
  | nil => exact h.pure () m
  | cons x xs ih =>
    cases vs with
    | nil => exact h.pure () m
    | cons v vs => exact h.bind_quiet (h.bindName x v m) fun _ => ih vs

theorem lookup (line : Nat) (x : String) (m : Machine) : P Value (lookup line x) m [] := by
  refine h.machine (fun _ => rfl) ?_
  cases m.scopes.get? x with
  | some v => exact h.pure v m
  | none =>
    cases Builtin.ofName? x with
    | some builtin => exact h.pure _ m
    | none => exact h.fault line _ m

theorem assignee (target : Node) (m : Machine) : P String (assignee target) m [] := by
  cases target with
  | ident line x => exact h.bind_quiet (h.lookup line x m) fun _ => h.pure x
  | declare t b => exact h.bind_quiet (h.bindName _ _ m) fun _ => h.pure _
  | _ => exact h.fault _ _ m

/-- `Eval.reassign` makes no calls. -/
theorem reassign (x : String) (v : Value) {missing : Eval Unit}
    (hmissing : ∀ m, P Unit missing m []) (m : Machine) :
    P Unit (reassign x v missing) m [] := by
  refine h.machine (fun _ => rfl) ?_
  cases m.scopes.assign? x v with
  | some scopes => exact h.change (fun _ _ => rfl) m
  | none => exact hmissing m

theorem writeBack (args : List Node) (result : Option Value) (m : Machine) :
    P Unit (writeBack args result) m [] := by
  unfold Eval.writeBack
  split
  · exact h.reassign _ _ (h.pure ()) m
  · exact h.pure () m

theorem inScope (he : P α e m.nested cs) : P α (inScope e) m cs := by
  have hunnest (m : Machine) : P Unit unnest m [] := by
    refine h.change (fun m host => ?_) m
    show (if m.scopes.enclosing.isEmpty then _ else _) =
      Machine.withHost host (if _ then _ else _)
    split <;> rfl
  refine h.change_bind (fun _ _ => rfl) ?_
  exact h.bind_quiet (h.observe he) fun flow n =>
    h.bind_quiet (hunnest n) fun _ => h.raise flow

/-- Behind the body of `Eval.calling` no other calls are made. -/
theorem calling {β : Type} {body : Eval α} {behind : Flow α → Eval β}
    (hbody : P α body m.inCall cs) (hbehind : ∀ flow k, P β (behind flow) k []) :
    P β (calling body behind) m cs := by
  refine h.machine (fun _ => rfl) (h.change_bind (fun _ _ => rfl) ?_)
  exact h.bind_quiet (h.observe hbody) fun flow k =>
    h.change_bind (fun _ _ => rfl) (hbehind flow _)

theorem endCall (flow : Flow (Option Value)) (m : Machine) : P _ (endCall flow) m [] := by
  cases flow with
  | faulted => exact h.raise _ m
  | _ => exact h.pure _ m

/-! ### The rules -/

variable {run : Evaluator} {made : Node → Machine → List Call} {n : Node}

theorem operand (hn : P _ (run n) m cs) : P Value (operand run n) m cs := by
  refine h.bind_quiet hn fun value => ?_
  cases value with
  | some v => exact h.pure v
  | none => exact h.fault _ _

theorem condition (hn : P _ (run n) m cs) : P Bool (condition run n) m cs := by
  refine h.bind_quiet hn fun value => ?_
  split
  · exact h.pure _
  · exact h.fault _ _

variable (hrun : ∀ n m, P _ (run n) m (made n m))

include hrun

theorem prefixed (o : Token) : P _ (prefixed run o n) m (made n m) :=
  h.bind_quiet (h.operand (hrun n m)) fun _ _ => h.bind_quiet (h.orFault _ _ _) fun _ =>
    h.pure _

/-- The right side of `Eval.infixed` makes its calls behind those of the left one. -/
theorem infixed (o : Token) (left : Node) :
    P _ (infixed run o left n) m
      (made left m ++ behind (Eval.operand run left) (fun _ => made n) m) := by
  refine h.bind (h.operand (hrun left m)) fun v k _ => ?_
  exact h.bind_quiet (h.operand (hrun n k)) fun _ _ =>
    h.bind_quiet (h.orFault _ _ _) fun _ => h.pure _

theorem assign (target : Node) :
    P _ (assign run target n) m (behind (Eval.assignee target) (fun _ => made n) m) := by
  refine h.quiet_bind (h.assignee target m) fun x k => ?_
  exact h.bind_quiet (hrun n k) fun value _ =>
    h.bind_quiet (h.reassign x _ (h.note _) _) fun _ => h.pure _

/-- `Eval.sequence` makes the `rowCalls`, as far as it gets. -/
theorem sequence (last : Option Value) (ns : List Node) :
    P _ (sequence run last ns) m (rowCalls run made ns m) := by
  induction ns generalizing last m with
  | nil => exact h.pure last m
  | cons n ns ih => exact h.bind (hrun n m) fun value _ _ => ih value

theorem arguments (ns : List Node) : P _ (arguments run ns) m (rowCalls run made ns m) := by
  induction ns generalizing m with
  | nil => exact h.pure _ m
  | cons n ns ih =>
    exact h.bind (hrun n m) fun _ _ _ => h.bind_quiet ih fun _ => h.pure _

theorem block (b : Block) : P _ (block run b) m (blockCalls run made b m) := by
  refine h.bind_quiet (h.observe (h.inScope (h.sequence hrun none b.nodes))) fun flow k => ?_
  cases flow with
  | broke =>
    refine h.machine (fun _ => rfl) ?_
    by_cases hloops : k.loopDepth = 0
    · rw [if_pos hloops]
      exact h.pure none k
    · rw [if_neg hloops]
      exact h.raise _ k
  | _ => exact h.raise _ k

/-- `Eval.conditional` makes the calls of its condition and of the branch taken. -/
theorem conditional (b : Block) (c : Option Block) :
    P _ (conditional run n b c) m (conditionalCalls run made n b c m) := by
  refine h.bind (h.condition (hrun n m)) fun go k _ => ?_
  cases go with
  | true => exact h.block hrun b
  | false =>
    cases c with
    | some c => exact h.block hrun c
    | none => exact h.pure none k

theorem optional (part : Option Node) :
    P _ (optional run part) m (optionalCalls made part m) := by
  cases part with
  | some n => exact h.bind_quiet (hrun n m) fun _ => h.pure ()
  | none => exact h.pure () m

/-- `Eval.loop` makes the calls of its first part and of its turns. -/
theorem loop {turns : Eval (Option Value)} {calls : Machine → List Call}
    (hturns : ∀ m, P _ turns m (calls m)) (init : Option Node) :
    P _ (loop run turns init) m (loopCalls run made calls init m) := by
  have hbody : P _ (Eval.inScope (Eval.optional run init >>= fun _ => turns)) m.inLoop
      (loopCalls run made calls init m) :=
    h.inScope (h.bind (h.optional hrun init) fun _ k _ => hturns k)
  refine h.change_bind (fun _ _ => rfl) (h.bind_quiet (h.observe hbody) fun flow k => ?_)
  exact h.change_bind (fun _ _ => rfl) (h.raise flow _)

/-- `Eval.callFunction` makes the calls of its arguments and the `bodyCalls`. -/
theorem callFunction (limit line : Nat) (f : Function) (args : List Node) :
    P _ (callFunction run limit line f args) m
      (valueCalls run made limit args (.function f) m) := by
  rw [Eval.callFunction, valueCalls]
  by_cases hlength : f.params.length ≠ args.length
  · rw [if_pos hlength, if_neg fun h => hlength h.1]
    exact h.fault _ _ m
  · rw [if_neg hlength]
    refine h.machine (fun _ => rfl) ?_
    by_cases hlimit : limit ≤ m.callDepth
    · rw [if_pos hlimit, if_neg fun h => Nat.not_lt.mpr hlimit h.2]
      exact h.fault _ _ m
    · rw [if_neg hlimit, if_pos ⟨not_not.mp hlength, Nat.lt_of_not_le hlimit⟩]
      refine h.bind (h.arguments hrun args) fun values k _ => ?_
      have hbody : P _ (Eval.inScope do Eval.bindAll f.params values; Eval.block run f.body)
          (k.calling f values) (bodyCalls run made f values k) :=
        h.inScope (h.quiet_bind (h.bindAll f.params values _) fun _ _ => h.block hrun f.body)
      exact h.change_bind (fun _ _ => rfl) (h.calling hbody h.endCall)

/-- `Eval.callBuiltin` makes the calls of its arguments, and is one itself. -/
theorem callBuiltin (limit line : Nat) (builtin : Builtin) (args : List Node) :
    P _ (callBuiltin run line builtin args) m
      (valueCalls run made limit args (.builtin builtin) m) := by
  rw [Eval.callBuiltin, valueCalls]
  cases hrefuses : builtin.arity.refuses? args.length with
  | some expected =>
    have hnot : ¬(Value.builtin builtin).Accepts limit args.length m := by
      intro h
      cases hrefuses.symm.trans h
    rw [if_neg hnot]
    exact h.fault _ _ m
  | none =>
    have haccepts : (Value.builtin builtin).Accepts limit args.length m := hrefuses
    rw [if_pos haccepts]
    refine h.bind (h.arguments hrun args) fun values k _ => h.change_bind (fun _ _ => rfl) ?_
    refine h.bind_quiet (h.act line builtin values _) fun result l => ?_
    split
    · exact h.bind_quiet (h.writeBack args result l) fun _ => h.pure result
    · exact h.pure result l

/-- `Eval.call` makes the `valueCalls` of what its name means. -/
theorem call (limit line : Nat) (callee : Node) (args : List Node) :
    P _ (call run limit line callee args) m (callCalls run made limit args m callee) := by
  cases callee with
  | ident l x =>
    refine h.quiet_bind (h.lookup l x m) fun v k => ?_
    cases v with
    | function f => exact h.callFunction hrun limit line f args
    | builtin b => exact h.callBuiltin hrun limit line b args
    | _ => exact h.fault _ _ k
  | _ => exact h.fault _ _ m

/-- `Eval.turn` makes the calls of its condition, its body and its step, and those of the turns
behind it. -/
theorem turn {turns : Eval (Option Value)} {calls : Machine → List Call}
    (hturns : ∀ m, P _ turns m (calls m)) (test : Node) (step : Option Node) (b : Block) :
    P _ (turn run test b (do Eval.optional run step; turns)) m
      (turnCalls run made calls test step b m) := by
  refine h.bind (h.condition (hrun test m)) fun go k _ => ?_
  cases go with
  | false => exact h.pure none k
  | true =>
    refine h.observe_bind (h.block hrun b) (fun value l => ?_) fun flow hflow => ?_
    · exact h.bind (h.optional hrun step) fun _ k _ => hturns k
    · cases flow with
      | done a => exact absurd rfl (hflow a)
      | broke => exact h.pure none
      | _ => exact h.raise _

end Rules

/-! ### Every node -/

section Step

variable (h : Attribution P) {limit fuel : Nat}
  (hrun : ∀ n m, P _ (ofNode limit fuel n) m (callsOf limit fuel n m))
  (hturns : ∀ test step b m,
    P _ (turns limit fuel test step b) m (callsOfTurns limit fuel test step b m))

include h hrun hturns

/-- A node, one unit of fuel up: one case for each constructor. -/
theorem node_step (n : Node) (m : Machine) :
    P _ (ofNode limit (fuel + 1) n) m (callsOf limit (fuel + 1) n m) := by
  cases n with
  | integer | string | boolean => exact h.pure _ m
  | ident line x => exact h.bind_quiet (h.lookup line x m) fun _ => h.pure _
  | declare t b => exact h.bind_quiet (h.bindName _ _ m) fun _ => h.pure _
  | assign line target value => exact h.assign hrun target
  | prefixed o right => exact h.prefixed hrun o
  | infixed o left right => exact h.infixed hrun o left
  | call line callee args => exact h.call hrun limit line callee args
  | block b => exact h.block hrun b
  | conditional line test b c => exact h.conditional hrun b c
  | loop line init test step b => exact h.loop hrun (hturns test step b) init
  | function line f params b =>
    exact h.bind_quiet (h.note _ m) fun _ n => h.bind_quiet (h.bindName _ _ n) fun _ => h.pure _
  | returning line value => exact h.bind_quiet (hrun value m) fun _ => h.raise _
  | breaking line => exact h.raise _ m

end Step

/-- An `Attribution` holds of `Eval.ofNode` for every node, with the calls by `callsOf`. -/
theorem node (h : Attribution P) (limit fuel : Nat) (n : Node) (m : Machine) :
    P _ (ofNode limit fuel n) m (callsOf limit fuel n m) := by
  -- nodes and turns go down together: a loop has its turns below it, and turns have nodes
  have both : (∀ n m, P _ (ofNode limit fuel n) m (callsOf limit fuel n m)) ∧
      ∀ test step b m, P _ (turns limit fuel test step b) m
        (callsOfTurns limit fuel test step b m) := by
    induction fuel with
    | zero => exact ⟨fun _ => h.outOfFuel, fun _ _ _ => h.outOfFuel⟩
    | succ fuel ih =>
      exact ⟨h.node_step ih.1 ih.2, fun test step b m =>
        h.turn ih.1 (ih.2 test step b) test step b⟩
  exact both.1 n m

end Attribution

/-! ### The history of an evaluation -/

namespace Eval

/-- The calls are a `History` of the host, and where it ends is where the evaluation leaves the
host, if the evaluation ends. -/
def Makes {α : Type} (e : Eval α) (m : Machine) (cs : List Call) : Prop :=
  ∃ h, History m.host cs h ∧ ∀ flow n, e m = some (flow, n) → n.host = h

section Makes

variable {α β : Type} {e : Eval α} {m : Machine} {cs : List Call}

/-- An evaluation that leaves the host alone `Makes` no calls. -/
theorem makes_nil (he : ∀ flow n, e m = some (flow, n) → n.host = m.host) : Makes e m [] :=
  ⟨m.host, .none, he⟩

/-- The calls behind `>>=` are those of the first part and those of what is `behind` its
result. -/
theorem bind_makes {f : α → Eval β} {calls : α → Machine → List Call} (he : Makes e m cs)
    (hf : ∀ a n, e m = some (.done a, n) → Makes (f a) n (calls a n)) :
    Makes (e >>= f) m (cs ++ behind e calls m) := by
  obtain ⟨h, hhistory, hends⟩ := he
  show ∃ k, History m.host (cs ++ behind e calls m) k ∧
    ∀ flow n, Eval.bind e f m = some (flow, n) → n.host = k
  rw [Eval.bind, behind]
  rcases hn : e m with _ | ⟨ending, n⟩
  · refine ⟨h, ?_, ?_⟩
    · rwa [List.append_nil]
    · rintro _ _ ⟨⟩
  · have hhost := hends ending n hn
    cases ending with
    | done a =>
      obtain ⟨k, hrest, hends'⟩ := hf a n hn
      rw [hhost] at hrest
      exact ⟨k, hhistory.append hrest, hends'⟩
    | _ =>
      refine ⟨h, ?_, ?_⟩
      · rwa [List.append_nil]
      · rintro _ _ ⟨⟩
        exact hhost

theorem observe_makes (he : Makes e m cs) : Makes (observe e) m cs := by
  obtain ⟨h, hhistory, hends⟩ := he
  refine ⟨h, hhistory, fun flow n hn => ?_⟩
  rw [observe] at hn
  rcases hm : e m with _ | ⟨ending, k⟩ <;> rw [hm] at hn
  · cases hn
  · cases hn
    exact hends ending _ hm

/-- `Eval.act` leaves the host as the reply of `Builtin.call` has it, whether that is a result
or a failure. -/
theorem act_eq (line : Nat) (builtin : Builtin) (values : List Value) (m : Machine) :
    act line builtin values m =
      let reply := builtin.call values m.host
      orFault line (reply.result.mapError fun failure => .builtin builtin.name failure.message)
        { m with host := reply.host, journal := m.journal.noteAll reply.events } := rfl

/-- `Eval.act` is one call. -/
theorem act_makes (line : Nat) (builtin : Builtin) (values : List Value) (m : Machine) :
    Makes (act line builtin values) m [⟨builtin, values, m.host⟩] := by
  refine ⟨_, .single ⟨builtin, values, m.host⟩, fun flow n hn => ?_⟩
  rw [act_eq] at hn
  cases hresult : (builtin.call values m.host).result.mapError fun failure =>
      Cause.builtin builtin.name failure.message with
  | ok a =>
    dsimp only at hn
    rw [hresult] at hn
    cases hn
    rfl
  | error cause =>
    dsimp only at hn
    rw [hresult] at hn
    cases hn
    rfl

end Makes

/-- `Makes` is an `Attribution`. -/
theorem makes_attribution : Attribution fun _ e m cs => Makes e m cs where
  outOfFuel _ := makes_nil nofun
  raise flow m := by
    refine makes_nil ?_
    rintro _ _ ⟨⟩
    rfl
  fault line cause m := by
    refine makes_nil ?_
    rintro _ _ ⟨⟩
    rfl
  change {f} hf m := by
    have hkept : f m = (f m).withHost m.host := hf m m.host
    refine makes_nil ?_
    rintro _ _ ⟨⟩
    rw [hkept]
    rfl
  machine _ hf := hf
  bind := bind_makes
  observe := observe_makes
  act := act_makes

/-- `Eval.ofNode` changes the host by `callsOf` the node. -/
theorem ofNode_makes (limit fuel : Nat) (n : Node) (m : Machine) :
    Makes (ofNode limit fuel n) m (callsOf limit fuel n m) :=
  makes_attribution.node limit fuel n m

end Eval

/-! ## Packages and sessions -/

/-- The calls of `evaluateNodes`, each node on the machine that the one before it has left,
however that one has ended. -/
def nodesCalls (limit fuel : Nat) (package : String) : List Node → Machine → List Call
  | [], _ => []
  | node :: nodes, m =>
    let noted := m.note (.evaluating package node.line)
    Eval.callsOf limit fuel node noted ++
      match Eval.ofNode limit fuel node noted with
      | some (_, m) =>
        nodesCalls limit fuel package nodes { m with loopDepth := 0, callDepth := 0 }
      | none => []

/-- The calls that `Package.evaluate` makes. -/
def Package.calls (limit fuel : Nat) (p : Package) (m : Machine) : List Call :=
  nodesCalls limit fuel p.name p.nodes m

/-- `nodesCalls` are a `History` from the host before to the host behind. -/
theorem history_evaluateNodes (limit fuel : Nat) (package : String) (last : Option Value)
    (ns : List Node) (m : Machine) :
    ∃ h, History m.host (nodesCalls limit fuel package ns m) h ∧
      ∀ value n, evaluateNodes limit fuel package last ns m = some (value, n) → n.host = h := by
  induction ns generalizing last m with
  | nil =>
    refine ⟨m.host, .none, ?_⟩
    rintro _ _ ⟨⟩
    rfl
  | cons node ns ih =>
    obtain ⟨h, hnode, hends⟩ :=
      Eval.ofNode_makes limit fuel node (m.note (.evaluating package node.line))
    rw [nodesCalls]
    simp only [evaluateNodes]
    rcases hk : Eval.ofNode limit fuel node
      (m.note (.evaluating package node.line)) with _ | ⟨flow, k⟩
    · refine ⟨h, ?_, ?_⟩
      · rw [List.append_nil]
        exact hnode
      · rintro _ _ ⟨⟩
    · obtain rfl := hends flow k hk
      obtain ⟨l, hrest, hends'⟩ := ih flow.outcome { k with loopDepth := 0, callDepth := 0 }
      exact ⟨l, hnode.append hrest, hends'⟩

namespace Session

/-- The calls that `Session.evaluate` makes. -/
def calls (fuel : Nat) (p : Package) (s : Session) : List Call :=
  p.calls s.config.maxCallDepth fuel s.machine

/-- The calls that `Session.run` makes. There are none if the source has mistakes. -/
def callsOfRun (fuel : Nat) (source : String) (s : Session) : List Call :=
  match s.parse source with
  | (⟨package, []⟩, s) => s.calls fuel package
  | _ => []

/-- A session comes from another one by `parse`, `evaluate` and `run`, with the calls made on
the way. -/
inductive Goes (s : Session) : List Call → Session → Prop
  | start : Goes s [] s
  | parse {t : Session} {cs : List Call} (source : String) :
      Goes s cs t → Goes s cs (t.parse source).2
  | evaluate {t u : Session} {cs : List Call} {fuel : Nat} {p : Package} {e : Evaluation} :
      Goes s cs t → t.evaluate fuel p = some (e, u) → Goes s (cs ++ t.calls fuel p) u
  | run {t u : Session} {cs : List Call} {fuel : Nat} {source : String} {o : Outcome} :
      Goes s cs t → t.run fuel source = some (o, u) → Goes s (cs ++ t.callsOfRun fuel source) u

/-- `Session.calls` are a `History` of the host, whether the evaluation has an answer or not. -/
theorem history_evaluate (s : Session) (fuel : Nat) (p : Package) :
    ∃ h, History s.machine.host (s.calls fuel p) h ∧
      ∀ e t, s.evaluate fuel p = some (e, t) → t.machine.host = h := by
  obtain ⟨h, hhistory, hends⟩ :=
    history_evaluateNodes s.config.maxCallDepth fuel p.name none p.nodes s.machine
  refine ⟨h, hhistory, fun e t he => ?_⟩
  rw [evaluate, Package.evaluate] at he
  rcases hn : evaluateNodes s.config.maxCallDepth fuel p.name none p.nodes s.machine with
    _ | ⟨value, n⟩ <;> rw [hn] at he
  · cases he
  · cases he
    exact hends value n hn

/-- So are the `callsOfRun`. -/
theorem history_run {s t : Session} {fuel : Nat} {source : String} {o : Outcome}
    (h : s.run fuel source = some (o, t)) :
    History s.machine.host (s.callsOfRun fuel source) t.machine.host := by
  rw [callsOfRun]
  rcases hp : s.parse source with ⟨⟨package, errors⟩, u⟩
  have hhost : u.machine.host = s.machine.host := by
    have hparsed : u = (s.parse source).2 := by rw [hp]
    rw [hparsed]
    rfl
  rw [run, hp] at h
  -- a source with mistakes is not evaluated, so it makes no calls
  cases errors with
  | nil =>
    obtain ⟨k, hhistory, hends⟩ := history_evaluate u fuel package
    rw [hhost] at hhistory
    dsimp only at h
    rcases he : u.evaluate fuel package with _ | ⟨⟨value, errors⟩, v⟩ <;> rw [he] at h
    · cases h
    · have hv := hends _ v he
      cases errors with
      | nil =>
        cases h
        rwa [hv]
      | cons =>
        cases h
        rwa [hv]
  | cons =>
    cases h
    rw [hhost]
    exact .none

/-- Whatever a session `Goes` through, the calls made on the way are a `History` of its host. -/
theorem Goes.history {s t : Session} {cs : List Call} (h : s.Goes cs t) :
    History s.machine.host cs t.machine.host := by
  induction h with
  | start => exact .none
  | parse source _ ih => exact ih
  | @evaluate t u cs fuel p e _ he ih =>
    obtain ⟨k, hhistory, hends⟩ := history_evaluate t fuel p
    rw [hends e u he]
    exact ih.append hhistory
  | run _ hrun ih => exact ih.append (history_run hrun)

/-- So they are with the `Session.calls` of an evaluation that comes next, whether it has an
answer or not. -/
theorem Goes.history_calls {s t : Session} {cs : List Call} (h : s.Goes cs t) (fuel : Nat)
    (p : Package) :
    ∃ l, History s.machine.host (cs ++ t.calls fuel p) l ∧
      ∀ e u, t.evaluate fuel p = some (e, u) → u.machine.host = l := by
  obtain ⟨l, hcalls, hends⟩ := history_evaluate t fuel p
  exact ⟨l, h.history.append hcalls, hends⟩

end Session
end ScriptLang
