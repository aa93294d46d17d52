import ScriptLang.Builtin.Call
import ScriptLang.Eval.Flow
import ScriptLang.Eval.Operator
import ScriptLang.Syntax.Printed

/-!
# Evaluating syntax trees

Each form of node has a rule, which takes the evaluation of the parts as an argument. The rules
are tied together by `eval` and `turns` over the fuel: going down into a node takes one unit,
and so does each turn of a loop.

A name means its innermost binding or, without one, the builtin of that name. Where a value is
needed and there is none, arguments and assigned values are null, and operands are a fault.

- `eval`: the evaluation of a node.
- `turns`: the turns of a loop.
- `Package.evaluate`: the evaluation of a package, node by node. A node that faults is abandoned
  and the next one is evaluated.
-/

namespace ScriptLang

/-- The evaluation of nodes that a rule is given for the parts of its construct. -/
abbrev Evaluator := Node → Eval (Option Value)

namespace Eval

/-- A result, or a `fault` at the given line. -/
def orFault {α : Type} (line : Nat) : Except Cause α → Eval α
  | .ok a => return a
  | .error cause => fault line cause

/-- The value that a name means, or a `fault` if it means none. -/
def lookup (line : Nat) (name : String) : Eval Value := do
  match (← machine).scopes.get? name with
  | some value => return value
  | none =>
    match Builtin.ofName? name with
    | some builtin => return .builtin builtin
    | none => fault line (.identNotFound name)

/-- The value of an operand, which has to have one. -/
def operand (run : Evaluator) (node : Node) : Eval Value := do
  match ← run node with
  | some value => return value
  | none => fault node.line .missingValue

/-- A prefix operator and its operand. -/
def prefixed (run : Evaluator) (operator : Token) (right : Node) : Eval (Option Value) := do
  let value ← operand run right
  return some (← orFault operator.line (prefixValue operator.kind value))

/-- An infix operator and its operands, the left one first. -/
def infixed (run : Evaluator) (operator : Token) (left right : Node) : Eval (Option Value) := do
  let a ← operand run left
  let b ← operand run right
  return some (← orFault operator.line (infixValue operator.kind a b))

/-- The name that is assigned to. An assignment to a name looks the name up first, and one to a
declaration declares it. -/
def assignee (target : Node) : Eval String := do
  match target with
  | .ident line name =>
    let _ ← lookup line name
    return name
  | .declare _ binder =>
    bindName binder.name .null
    return binder.name
  | other => fault other.line .illegalOperation

/-- Gives a name a new value in the innermost scope that binds it. The last argument is what is
done where none does. -/
def reassign (name : String) (value : Value) (unbound : Eval Unit) : Eval Unit := do
  match (← machine).scopes.assign? name value with
  | some scopes => change ({ · with scopes })
  | none => unbound

/-- Stores an assigned value by `reassign`. Where only a builtin has the name the value is
dropped. -/
def store (name : String) (value : Value) : Eval Unit :=
  reassign name value (note (.assignmentDropped name))

/-- An assignment: the `assignee` first, then the value, which `store` puts there. -/
def assign (run : Evaluator) (target value : Node) : Eval (Option Value) := do
  let name ← assignee target
  store name ((← run value).getD .null)
  return none

/-- Nodes one after the other, for the value of the last one. -/
def sequence (run : Evaluator) (last : Option Value) : List Node → Eval (Option Value)
  | [] => return last
  | node :: nodes => do
    let value ← run node
    sequence run value nodes

/-- A break on its way out of a block. It goes on if a loop of the current call is there to take
it, which `Machine.loopDepth` tells, and ends with the block otherwise. -/
def breakOut : Eval (Option Value) := do
  if (← machine).loopDepth = 0 then return none else raise .broke

/-- A `sequence` of nodes in a scope of its own, which a break leaves by `breakOut`. -/
def block (run : Evaluator) (body : Block) : Eval (Option Value) := do
  match ← observe (inScope (sequence run none body.nodes)) with
  | .broke => breakOut
  | flow => raise flow

/-- A condition, which has to be a boolean. -/
def condition (run : Evaluator) (node : Node) : Eval Bool := do
  match ← run node with
  | some (.boolean value) => return value
  | _ => fault node.line .expectedBoolean

/-- A conditional: its `condition`, and the `block` that it chooses. -/
def conditional (run : Evaluator) (test : Node) (thenBlock : Block)
    (elseBlock : Option Block) : Eval (Option Value) := do
  if ← condition run test then
    block run thenBlock
  else
    match elseBlock with
    | some elseBlock => block run elseBlock
    | none => return none

/-- A part of a loop that may be left out. -/
def optional (run : Evaluator) : Option Node → Eval Unit
  | some node => do let _ ← run node
  | none => return ()

/-- A loop, in a scope of its own that its first part and its `turns` share. -/
def loop (run : Evaluator) (turns : Eval (Option Value)) (init : Option Node) :
    Eval (Option Value) := do
  change Machine.inLoop
  let flow ← observe (inScope do
    optional run init
    turns)
  change Machine.outOfLoop
  raise flow

/-- What is left of a loop behind the body of a `turn`, by how the body has ended. -/
def finish (next : Eval (Option Value)) : Flow (Option Value) → Eval (Option Value)
  | .done _ => next
  | .broke => return none
  | flow => raise flow

/-- A turn of a loop, and what comes behind its body if the loop goes on. -/
def turn (run : Evaluator) (test : Node) (body : Block) (next : Eval (Option Value)) :
    Eval (Option Value) := do
  if ← condition run test then
    finish next (← observe (block run body))
  else
    return none

/-- The values of arguments, from left to right. -/
def arguments (run : Evaluator) : List Node → Eval (List Value)
  | [] => return []
  | node :: nodes => do
    let value ← run node
    return value.getD .null :: (← arguments run nodes)

/-- Binds names to values in the current scope, pair by pair. -/
def bindAll : List String → List Value → Eval Unit
  | name :: names, value :: values => do
    bindName name value
    bindAll names values
  | _, _ => return ()

/-- A fault if as many calls are running inside of each other as `limit` allows, and the
evaluation `e` otherwise. -/
def guarded {α : Type} (limit line : Nat) (e : Eval α) : Eval α := do
  if limit ≤ (← machine).callDepth then
    fault line (.callDepthExceeded limit)
  else
    e

/-- The body of a call. It counts its loops from nothing, and `behind` it the count of the
caller is put back, however it has ended. -/
def calling {α β : Type} (body : Eval α) (behind : Flow α → Eval β) : Eval β := do
  let loops := (← machine).loopDepth
  change Machine.inCall
  let flow ← observe body
  change (Machine.outOfCall loops)
  behind flow

/-- How a call ends, by how the body of the function has ended. A break that leaves the body
ends the call. -/
def endCall : Flow (Option Value) → Eval (Option Value)
  | .done value | .returned value => return value
  | .broke => return none
  | .faulted => raise .faulted

/-- A call of a declared function, `guarded` by the limit: its `arguments`, and its body,
`calling` it in a scope with its parameters. -/
def callFunction (run : Evaluator) (limit line : Nat) (function : Function) (args : List Node) :
    Eval (Option Value) := do
  if function.params.length ≠ args.length then
    fault line (.arityMismatch function.params.length args.length)
  else
    guarded limit line do
      let values ← arguments run args
      note (.calling function.name values.length)
      let body := inScope do
        bindAll function.params values
        block run function.body
      calling body endCall

/-- Lets a builtin act on the host by `Builtin.call`. -/
def act (line : Nat) (builtin : Builtin) (values : List Value) : Eval (Option Value) := do
  let reply := builtin.call values (← machine).host
  change fun m => { m with host := reply.host, journal := m.journal.noteAll reply.events }
  orFault line (reply.result.mapError fun failure => .builtin builtin.name failure.message)

/-- Stores the result of a builtin by `reassign`, in the variable that is its first argument. -/
def writeBack (args : List Node) (result : Option Value) : Eval Unit := do
  match args.head?, result with
  | some (.ident _ name), some value => reassign name value (return ())
  | _, _ => return ()

/-- A call of a builtin: its `arguments`, its `act`, and a `writeBack` if it asks for one. -/
def callBuiltin (run : Evaluator) (line : Nat) (builtin : Builtin) (args : List Node) :
    Eval (Option Value) := do
  match builtin.arity.refuses? args.length with
  | some expected => fault line (.arityMismatch expected args.length)
  | none =>
    let values ← arguments run args
    note (.callingBuiltin builtin.name values.length)
    let result ← act line builtin values
    if builtin.writesBack then
      writeBack args result
    return result

/-- A call, by `callFunction` or by `callBuiltin`. Only a name can be called. -/
def call (run : Evaluator) (limit line : Nat) (callee : Node) (args : List Node) :
    Eval (Option Value) := do
  match callee with
  | .ident nameLine name =>
    match ← lookup nameLine name with
    | .function function => callFunction run limit line function args
    | .builtin builtin => callBuiltin run line builtin args
    | _ => fault line (.notCallable name)
  | other => fault line (.notCallable other.text)

/-- A function declaration. -/
def function (binder : Binder) (params : List Binder) (body : Block) :
    Eval (Option Value) := do
  note (.declared binder.name)
  bindName binder.name (.function ⟨binder.name, params.map (·.name), body⟩)
  return none

mutual

/-- The evaluation of a node, with a limit on the depth of calls. -/
def ofNode (limit : Nat) : Nat → Evaluator
  | 0, _ => outOfFuel
  | fuel + 1, node =>
    match node with
    | .integer _ value => return some (.integer value)
    | .string _ value => return some (.string value)
    | .boolean _ value => return some (.boolean value)
    | .ident line name => return some (← lookup line name)
    | .declare _ binder => do
      bindName binder.name .null
      return none
    | .assign _ target value => assign (ofNode limit fuel) target value
    | .prefixed operator right => prefixed (ofNode limit fuel) operator right
    | .infixed operator left right => infixed (ofNode limit fuel) operator left right
    | .call line callee args => call (ofNode limit fuel) limit line callee args
    | .block body => block (ofNode limit fuel) body
    | .conditional _ test thenBlock elseBlock =>
      conditional (ofNode limit fuel) test thenBlock elseBlock
    | .loop _ init test step body =>
      loop (ofNode limit fuel) (turns limit fuel test step body) init
    | .function _ binder params body => function binder params body
    | .returning _ value => do
      let value ← ofNode limit fuel value
      raise (.returned value)
    | .breaking _ => raise .broke

/-- The turns of a loop, each a `turn` with the others behind it. -/
def turns (limit : Nat) : Nat → Node → Option Node → Block → Eval (Option Value)
  | 0, _, _, _ => outOfFuel
  | fuel + 1, test, step, body =>
    turn (ofNode limit fuel) test body do
      optional (ofNode limit fuel) step
      turns limit fuel test step body

end

end Eval

/-! ## Packages -/

/-- The value that a node gives at the top level, where a return ends it as well. -/
def Flow.outcome : Flow (Option Value) → Option Value
  | .done value | .returned value => value
  | .broke | .faulted => none

/-- Evaluates nodes at the top level by `ofNode`, for the value of the last one. -/
def evaluateNodes (limit fuel : Nat) (package : String) (last : Option Value) :
    List Node → Machine → Option (Option Value × Machine)
  | [], m => some (last, m)
  | node :: nodes, m =>
    match Eval.ofNode limit fuel node (m.note (.evaluating package node.line)) with
    | none => none
    | some (flow, m) =>
      evaluateNodes limit fuel package flow.outcome nodes
        { m with loopDepth := 0, callDepth := 0 }

/-- What `Package.evaluate` gives: the value of the last node, and a diagnostic for each node
that was abandoned. -/
structure Evaluation where
  value : Option Value
  errors : List Diagnostic

/-- Evaluates a package by `evaluateNodes`. The diagnostics are handed over, so the machine
keeps none. -/
def Package.evaluate (limit fuel : Nat) (package : Package) (m : Machine) :
    Option (Evaluation × Machine) :=
  match evaluateNodes limit fuel package.name none package.nodes m with
  | none => none
  | some (value, m) => some (⟨value, m.errors⟩, { m with errors := [] })

end ScriptLang
