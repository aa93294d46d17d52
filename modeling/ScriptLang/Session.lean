import ScriptLang.Eval.Node
import ScriptLang.Syntax.Grammar
import ScriptLang.Text.Blank

/-!
# Sessions

A session runs sources one after the other on one machine, so that bindings and open files last
from one source to the next. A source with a syntax error is not evaluated at all.

- `Config`: what a session is set up with.
- `Outcome`: what running a source comes to, with `Outcome.text` as it is shown.
- `Session.fresh`, `Session.run`: a session that begins, and that runs a source.
-/

namespace ScriptLang

/-- What a session is set up with. -/
structure Config where
  /-- The namespace that packages are parsed into. -/
  package : String := "main"
  /-- The number of calls of declared functions that may run inside one another. -/
  maxCallDepth : Nat := 200

/-- What running a source comes to. -/
inductive Outcome where
  /-- The source did not parse, and nothing was evaluated. -/
  | parseErrors (errors : List Diagnostic)
  | runtimeErrors (errors : List Diagnostic)
  | value (result : Option Value)

namespace Outcome

/-- The diagnostics of an outcome that is not a value. -/
def errors? : Outcome → Option (List Diagnostic)
  | parseErrors errors | runtimeErrors errors => some errors
  | value _ => none

/-- An outcome as it is shown. -/
def text : Outcome → String
  | parseErrors errors | runtimeErrors errors =>
    String.ofList (Text.trimEnd (Diagnostic.report errors).toList)
  | value (some result) => result.text
  | value none => ""

end Outcome

/-- The outcome that is made of an evaluation. -/
def Evaluation.outcome (e : Evaluation) : Outcome :=
  if e.errors = [] then .value e.value else .runtimeErrors e.errors

/-- A machine that runs sources, and what it was set up with. -/
structure Session where
  config : Config := {}
  machine : Machine := {}

namespace Session

/-- The session of a configuration and a host that has run nothing yet. -/
def fresh (config : Config) (host : Host) : Session := ⟨config, { host }⟩

/-- `Package.parse` on a source, into a package of the session's namespace. -/
def parse (source : String) (s : Session) : Parsed × Session :=
  let (parsed, journal) := Package.parse s.config.package source s.machine.journal
  (parsed, { s with machine := { s.machine with journal } })

/-- The bytes that have not been scanned yet. -/
def input (s : Session) : List UInt8 := s.machine.host.input

/-- The session with other bytes to be scanned. -/
def withInput (input : List UInt8) (s : Session) : Session :=
  { s with machine := s.machine.withHost (s.machine.host.withInput input) }

/-- Prints a text as a program would. -/
def print (text : String) (s : Session) : Session :=
  let host := s.machine.host
  { s with machine := s.machine.withHost { host with output := host.output.push text } }

/-- `Package.evaluate` on the session's machine. There is no answer if the fuel runs out. -/
def evaluate (fuel : Nat) (package : Package) (s : Session) : Option (Evaluation × Session) :=
  match package.evaluate s.config.maxCallDepth fuel s.machine with
  | none => none
  | some (evaluation, machine) => some (evaluation, { s with machine })

/-- Runs a source: it is parsed, and evaluated if there are no diagnostics. There is no answer
if the fuel runs out. -/
def run (fuel : Nat) (source : String) (s : Session) : Option (Outcome × Session) :=
  match s.parse source with
  | (⟨package, []⟩, s) =>
    (s.evaluate fuel package).map fun (evaluation, s) => (evaluation.outcome, s)
  | (⟨_, errors⟩, s) => some (.parseErrors errors, s)

end Session
end ScriptLang
