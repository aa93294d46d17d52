import ScriptLang.Host
import ScriptLang.Journal
import ScriptLang.Scopes

/-!
# Evaluation as a computation

Evaluating a construct changes a machine, which holds the bindings, the host and the diagnostics
reported so far, and ends in one of four ways: with a result, by a return that is on its way to
the nearest call, by a break that is on its way to the nearest loop, or by a fault, for which a
diagnostic has been reported and which abandons the statement at the top level.

A program may run for ever, so an evaluation is given an amount of fuel. Running out of it is
not a way to end: there is simply no answer, and `Eval` keeps that apart from every ending.

- `Flow`: the endings.
- `Machine`: what evaluation works on, with what opening and closing scopes, loops and calls
  does to it.
- `Eval`: the monad. A sequence goes on only behind a result.
- `Eval.observe`, `Eval.raise`: an ending seen as a result, and a result turned back into an
  ending.
- `Eval.inScope`: an evaluation in a scope of its own, which is closed however the evaluation
  ends.
-/

namespace ScriptLang

/-- How the evaluation of a construct ends. -/
inductive Flow (α : Type) where
  /-- With a result. -/
  | done (result : α)
  /-- By a return, with the value that it carries, if any. -/
  | returned (value : Option Value)
  /-- By a break. -/
  | broke
  /-- By a fault that has been reported. -/
  | faulted

/-- What evaluation works on. -/
structure Machine where
  scopes : Scopes := {}
  host : Host := {}
  errors : List Diagnostic := []
  /-- The number of loops that are running in the current call. -/
  loopDepth : Nat := 0
  /-- The number of calls of declared functions that are running. -/
  callDepth : Nat := 0
  journal : Journal := {}

/-- Notes an event in the journal. -/
def Machine.note (e : Event) (m : Machine) : Machine := { m with journal := m.journal.note e }

/-- Adds a diagnostic to those reported. -/
def Machine.report (d : Diagnostic) (m : Machine) : Machine :=
  { m with errors := m.errors ++ [d], journal := m.journal.note (.reported d) }

namespace Machine

/-- The machine with another host. -/
def withHost (host : Host) (m : Machine) : Machine := { m with host }

/-- The machine in a new scope. -/
def nested (m : Machine) : Machine :=
  let scopes := m.scopes.nest
  { m with scopes, journal := m.journal.note (.nested scopes.depth) }

/-- The machine with its current scope closed, unless it is the root scope. -/
def closed (m : Machine) : Machine :=
  if m.scopes.enclosing.isEmpty then m
  else
    let scopes := m.scopes.unnest
    { m with scopes, journal := m.journal.note (.unnested scopes.depth) }

/-- Of the root scope too, closing it is `Scopes.unnest`. -/
theorem closed_eq (m : Machine) :
    ∃ journal, m.closed = { m with scopes := m.scopes.unnest, journal } := by
  rw [closed]
  split
  next hroot => exact ⟨m.journal, by rw [Scopes.unnest_of_isEmpty hroot]⟩
  next => exact ⟨_, rfl⟩

@[simp] theorem closed_scopes (m : Machine) : m.closed.scopes = m.scopes.unnest := by
  obtain ⟨journal, hclosed⟩ := m.closed_eq
  rw [hclosed]

@[simp] theorem closed_host (m : Machine) : m.closed.host = m.host := by
  obtain ⟨journal, hclosed⟩ := m.closed_eq
  rw [hclosed]

@[simp] theorem closed_errors (m : Machine) : m.closed.errors = m.errors := by
  obtain ⟨journal, hclosed⟩ := m.closed_eq
  rw [hclosed]

@[simp] theorem closed_loopDepth (m : Machine) : m.closed.loopDepth = m.loopDepth := by
  obtain ⟨journal, hclosed⟩ := m.closed_eq
  rw [hclosed]

@[simp] theorem closed_callDepth (m : Machine) : m.closed.callDepth = m.callDepth := by
  obtain ⟨journal, hclosed⟩ := m.closed_eq
  rw [hclosed]

/-- The machine in another loop. -/
def inLoop (m : Machine) : Machine := { m with loopDepth := m.loopDepth + 1 }

/-- The machine behind a loop. -/
def outOfLoop (m : Machine) : Machine := { m with loopDepth := m.loopDepth - 1 }

/-- The machine in a call of a declared function, which does not see the loops of its caller. -/
def inCall (m : Machine) : Machine :=
  { m with loopDepth := 0, callDepth := m.callDepth + 1 }

/-- The machine behind a call, with the number `loops` of loops around the call. -/
def outOfCall (loops : Nat) (m : Machine) : Machine :=
  { m with loopDepth := loops, callDepth := m.callDepth - 1 }

end Machine

/-- An evaluation: from a `Machine` to a `Flow` and the machine then, or to no answer if the
fuel runs out. -/
def Eval (α : Type) : Type := Machine → Option (Flow α × Machine)

namespace Eval

variable {α β : Type}

/-- Ends with a result. -/
@[inline] protected def pure (a : α) : Eval α := fun m => some (.done a, m)

/-- One evaluation after the other; `f` is taken only behind a result of `e`. -/
@[inline] protected def bind (e : Eval α) (f : α → Eval β) : Eval β := fun m =>
  match e m with
  | none => none
  | some (.done a, m) => f a m
  | some (.returned value, m) => some (.returned value, m)
  | some (.broke, m) => some (.broke, m)
  | some (.faulted, m) => some (.faulted, m)

instance : Monad Eval where
  pure := Eval.pure
  bind := Eval.bind

/-- No answer, whatever the machine. -/
def outOfFuel : Eval α := fun _ => none

/-- Ends by the given `Flow`. -/
def raise (flow : Flow α) : Eval α := fun m => some (flow, m)

/-- The `Flow` of an evaluation, as a result. -/
def observe (e : Eval α) : Eval (Flow α) := fun m =>
  match e m with
  | none => none
  | some (flow, m) => some (.done flow, m)

/-- The machine. -/
def machine : Eval Machine := fun m => some (.done m, m)

/-- Changes the machine. -/
def change (f : Machine → Machine) : Eval Unit := fun m => some (.done (), f m)

/-- Notes an event in the journal. -/
def note (e : Event) : Eval Unit := change (·.note e)

/-- Reports a diagnostic and ends by `Flow.faulted`. -/
def fault (line : Nat) (cause : Cause) : Eval α := fun m =>
  some (.faulted, m.report ⟨line, cause⟩)

/-- Opens a scope. -/
def nest : Eval Unit := change Machine.nested

/-- Closes the current scope, unless it is the root scope. -/
def unnest : Eval Unit := change Machine.closed

/-- An evaluation between `nest` and `unnest`, which is done however the evaluation ends. -/
def inScope (e : Eval α) : Eval α := do
  nest
  let flow ← observe e
  unnest
  raise flow

/-- Binds a name in the current scope. -/
def bindName (name : String) (value : Value) : Eval Unit :=
  change fun m => { m with scopes := m.scopes.insert name value }

end Eval
end ScriptLang
