import ScriptLang.Proofs.Keeping
import ScriptLang.Proofs.Lexing
import ScriptLang.Proofs.Provenance

/-!
# Guarantees

Some of what is shown of evaluations is shown along with something about their values: that a
function comes from the parser, or that there is no loop in its body. Neither can be shown
without the other, because values come back out of scopes, and functions are called. Such a
guarantee passes through the forms of nodes in one and the same way, if it holds of the few
things that evaluation does to a machine. That is shown here once for all guarantees. What is
left to each of them is how scopes are opened and calls are counted, and of which trees it is
given.

- `Cause.IsRuntime`: what the language leaves to run time.
- `Guarantee`: what may be said of evaluations and their values, with a rule for the forms of
  nodes.
-/

namespace ScriptLang

/-- The causes that the language leaves to run time. A name is looked up and called by a name
only. -/
def Cause.IsRuntime : Cause → Prop
  | identNotFound name | notCallable name => isName name.toList
  | invalidOperator | invalidCombination | expectedBoolean | arityMismatch .. | divisionByZero
  | integerOverflow | missingValue | callDepthExceeded _ | builtin .. => True
  | expectedIdent _ | expectedParen _ | expectedBrace
      _ | expectedTerminator .. | expectedLoopInit
  | expectedLoopCondition | expectedExpression _ | expectedOperator _ | unexpectedEof _
  | eofInExpression | unexpectedToken _ | invalidNumber _ | illegalCharacter
      _ | unterminatedString
  | illegalOperation => False

/-- Whatever `Operator.apply` may report is a cause of run time. -/
theorem Cause.IsOfOperator.isRuntime {cause : Cause} (h : cause.IsOfOperator) :
    cause.IsRuntime := by
  cases cause with
  | invalidOperator | invalidCombination | divisionByZero | integerOverflow => trivial
  | _ => exact h.elim

open Eval

/-- Something that `P` says of an evaluation, together with what holds of its value if it has
one. Of values that scopes store `Q` holds, and of causes that are reported `C`. -/
structure Guarantee (Q : Value → Prop) (C : Cause → Prop)
    (P : (α : Type) → (α → Prop) → Eval α → Prop) : Prop where
  data {v : Value} : v.IsData → Q v
  runtime {cause : Cause} : cause.IsRuntime → C cause
  pure {α : Type} {V : α → Prop} {a : α} : V a → P α V (pure a)
  fault {α : Type} {V : α → Prop} (line : Nat) {cause : Cause} :
    C cause → P α V (fault line cause)
  bind {α β : Type} {V : α → Prop} {W : β → Prop} {e : Eval α} {f : α → Eval β} :
    P α V e → (∀ a, V a → P β W (f a)) → P β W (e >>= f)
  machine {α : Type} {V : α → Prop} {f : Machine → Eval α} :
    (∀ m, P α V (f m)) → P α V (machine >>= f)
  note (event : Event) : P Unit (fun _ => True) (note event)
  acted (host : Host) (events : List Event) :
    P Unit (fun _ => True) (change fun m =>
      { m with host, journal := m.journal.noteAll events })
  lookup (line : Nat) {x : String} : C (.identNotFound x) → P Value Q (lookup line x)
  reassign (x : String) {v : Value} {missing : Eval Unit} :
    Q v → P Unit (fun _ => True) missing → P Unit (fun _ => True) (reassign x v missing)
  bindName (x : String) {v : Value} : Q v → P Unit (fun _ => True) (bindName x v)

namespace Guarantee

variable {Q : Value → Prop} {C : Cause → Prop} {P : (α : Type) → (α → Prop) → Eval α → Prop}

section Rules

variable (h : Guarantee Q C P) {run : Evaluator} {n : Node}

include h

/-- Of `Eval.orFault`: the property holds if the result is good and the cause may be reported.
-/
theorem orFault {α : Type} {V : α → Prop} (line : Nat) {x : Except Cause α}
    (hok : ∀ a, x = .ok a → V a) (herror : ∀ cause, x = .error cause → C cause) :
    P α V (orFault line x) := by
  cases x with
  | ok a => exact h.pure (hok a rfl)
  | error cause => exact h.fault line (herror cause rfl)

/-- `Eval.orFault` gives the value of an operator, or its fault. -/
theorem operator (line : Nat) {x : Except Cause Value} (hx : OperatorReply x) :
    P Value Q (Eval.orFault line x) := by
  refine h.orFault line ?_ ?_
  · rintro v rfl
    exact h.data hx
  · rintro cause rfl
    exact h.runtime hx.isRuntime

/-- `Eval.act` gives data, or fails for a cause of the builtin. -/
theorem act (line : Nat) (builtin : Builtin) (vs : List Value) :
    P (Option Value) (Gives Q) (act line builtin vs) := by
  refine h.machine fun m => h.bind (h.acted _ _) fun _ _ => h.orFault line ?_ ?_
  · intro r hr
    cases hresult : (builtin.call vs m.host).result with
    | ok r' =>
      rw [hresult] at hr
      cases hr
      exact (Builtin.isData_call hresult).imp fun _ => h.data
    | error failure =>
      rw [hresult] at hr
      cases hr
  · intro cause hcause
    cases hresult : (builtin.call vs m.host).result with
    | ok r =>
      rw [hresult] at hcause
      cases hcause
    | error failure =>
      rw [hresult] at hcause
      cases hcause
      exact h.runtime trivial

/-- An operand that has a value gives one of which `Q` holds. -/
theorem operand (hn : P _ (Gives Q) (run n)) : P _ Q (operand run n) := by
  refine h.bind hn fun value hvalue => ?_
  cases value with
  | some v => exact h.pure (hvalue v rfl)
  | none => exact h.fault _ (h.runtime trivial)

/-- Of `-a` and `!a`: by `Guarantee.operator` the result is data or a fault. -/
theorem prefixed (o : Token) (hn : P _ (Gives Q) (run n)) :
    P _ (Gives Q) (prefixed run o n) := by
  refine h.bind (h.operand hn) fun v _ => ?_
  exact h.bind (h.operator _ (operatorReply_prefixValue _ _)) fun w hw => h.pure (gives_some hw)

/-- Of `a o b`, evaluated from left to right. -/
theorem infixed (o : Token) {left : Node} (hleft : P _ (Gives Q) (run left))
    (hn : P _ (Gives Q) (run n)) : P _ (Gives Q) (infixed run o left n) := by
  refine h.bind (h.operand hleft) fun v _ => h.bind (h.operand hn) fun w _ => ?_
  exact h.bind (h.operator _ (operatorReply_infixValue _ _ _)) fun u hu =>
    h.pure (gives_some hu)

theorem assignee_ident (line : Nat) {x : String} (hx : C (.identNotFound x)) :
    P _ (fun _ => True) (assignee (.ident line x)) :=
  h.bind (h.lookup line hx) fun _ _ => h.pure trivial

theorem assignee_declare (t : Token) (b : Binder) :
    P _ (fun _ => True) (assignee (.declare t b)) :=
  h.bind (h.bindName b.name (h.data trivial)) fun _ _ => h.pure trivial

/-- An assignment stores the value that its right side gives, of which `Q` holds. -/
theorem assign {target : Node} (htarget : P _ (fun _ => True) (assignee target))
    (hn : P _ (Gives Q) (run n)) : P _ (Gives Q) (assign run target n) := by
  refine h.bind htarget fun x _ => h.bind hn fun value hvalue => ?_
  exact h.bind (h.reassign x (hvalue.getD (h.data trivial)) (h.note _)) fun _ _ =>
    h.pure gives_none

/-- A row of statements gives what its last one gives, so `Q` holds of that if it holds of every
one's value, and of `last` for the empty row. -/
theorem sequence {ns : List Node} (hns : ∀ n ∈ ns, P _ (Gives Q) (run n)) {last : Option Value}
    (hlast : Gives Q last) : P _ (Gives Q) (sequence run last ns) := by
  induction ns generalizing last with
  | nil => exact h.pure hlast
  | cons n ns ih =>
    obtain ⟨hn, hns⟩ := List.forall_mem_cons.mp hns
    exact h.bind hn fun value hvalue => ih hns hvalue

theorem condition (hn : P _ (Gives Q) (run n)) : P _ (fun _ => True) (condition run n) := by
  refine h.bind hn fun value _ => ?_
  split
  · exact h.pure trivial
  · exact h.fault _ (h.runtime trivial)

/-- `Eval.conditional` gives what the branch gives that is taken, or nothing. -/
theorem conditional {b : Block} {c : Option Block} (hn : P _ (Gives Q) (run n))
    (hb : P _ (Gives Q) (block run b)) (hc : ∀ e ∈ c, P _ (Gives Q) (block run e)) :
    P _ (Gives Q) (conditional run n b c) := by
  refine h.bind (h.condition hn) fun test _ => ?_
  cases test with
  | true => exact hb
  | false =>
    cases c with
    | some c => exact hc c rfl
    | none => exact h.pure gives_none

theorem optional {part : Option Node} (hpart : ∀ n ∈ part, P _ (Gives Q) (run n)) :
    P _ (fun _ => True) (optional run part) := by
  cases part with
  | some n => exact h.bind (hpart n rfl) fun _ _ => h.pure trivial
  | none => exact h.pure trivial

/-- Every argument has a value of which `Q` holds, or the evaluation ends before the call. -/
theorem arguments {ns : List Node} (hns : ∀ n ∈ ns, P _ (Gives Q) (run n)) :
    P _ (fun vs => ∀ v ∈ vs, Q v) (arguments run ns) := by
  induction ns with
  | nil => exact h.pure nofun
  | cons n ns ih =>
    obtain ⟨hn, hns⟩ := List.forall_mem_cons.mp hns
    refine h.bind hn fun value hvalue => h.bind (ih hns) fun vs hvs => h.pure ?_
    exact List.forall_mem_cons.mpr ⟨hvalue.getD (h.data trivial), hvs⟩

/-- Parameters are bound to arguments, of all of which `Q` holds. -/
theorem bindAll (xs : List String) {vs : List Value} (hvs : ∀ v ∈ vs, Q v) :
    P _ (fun _ => True) (bindAll xs vs) := by
  induction xs generalizing vs with
  | nil => exact h.pure trivial
  | cons x xs ih =>
    cases vs with
    | nil => exact h.pure trivial
    | cons v vs =>
      obtain ⟨hv, hvs⟩ := List.forall_mem_cons.mp hvs
      exact h.bind (h.bindName x hv) fun _ _ => ih hvs

/-- What `writeBack` stores in the variable that is its first argument is the result of the
call. -/
theorem writeBack (args : List Node) {result : Option Value} (hresult : Gives Q result) :
    P _ (fun _ => True) (writeBack args result) := by
  unfold Eval.writeBack
  split
  · exact h.reassign _ (hresult _ rfl) (h.pure trivial)
  · exact h.pure trivial

/-- A builtin acts by `Guarantee.act`, and what it gives back is data. -/
theorem callBuiltin (line : Nat) (builtin : Builtin) {args : List Node}
    (hargs : ∀ n ∈ args, P _ (Gives Q) (run n)) :
    P _ (Gives Q) (callBuiltin run line builtin args) := by
  rw [Eval.callBuiltin]
  split
  · refine h.fault line (h.runtime ?_)
    trivial
  · refine h.bind (h.arguments hargs) fun vs _ => h.bind (h.note _) fun _ _ => ?_
    refine h.bind (h.act line builtin vs) fun result hresult => ?_
    split
    · exact h.bind (h.writeBack args hresult) fun _ _ => h.pure hresult
    · exact h.pure hresult

/-- `Eval.call` on a name is of a builtin, or of a function whose calls are as the guarantee
says. -/
theorem call (limit line l : Nat) {x : String} (hx : C (.identNotFound x))
    (hnot : C (.notCallable x)) {args : List Node}
    (hfunction : ∀ f, Q (.function f) → P _ (Gives Q) (callFunction run limit line f args))
    (hargs : ∀ n ∈ args, P _ (Gives Q) (run n)) :
    P _ (Gives Q) (call run limit line (.ident l x) args) := by
  refine h.bind (h.lookup l hx) fun v hv => ?_
  cases v with
  | function f => exact hfunction f hv
  | builtin b => exact h.callBuiltin line b hargs
  | _ => exact h.fault line hnot

/-- A declaration of a function binds a function value, whose body has to satisfy `Q`. -/
theorem function {f : Binder} {params : List Binder} {body : Block}
    (hbody : Q (.function ⟨f.name, params.map (·.name), body⟩)) :
    P _ (Gives Q) (function f params body) :=
  h.bind (h.note _) fun _ _ => h.bind (h.bindName _ hbody) fun _ _ => h.pure gives_none

end Rules
end Guarantee
end ScriptLang
