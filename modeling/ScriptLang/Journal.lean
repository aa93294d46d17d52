import ScriptLang.Diagnostic
import ScriptLang.Text.Escaped
import ScriptLang.Token

/-!
# The journal

What happens inside a session can be followed in a journal: tokens as they are read, diagnostics
as they are reported, scopes, calls and files as they come and go. A journal is written and
never read: nothing that a program computes, prints or reports depends on it.

- `Event`: what can be noted, with its `level`, the part of the language it belongs to
  (`target`) and its wording (`message`).
- `Journal`: the events noted so far, and the level down to which they are kept.
- `Journal.note`: notes an event, if its level is kept.
-/

namespace ScriptLang

/-- How closely a journal follows. -/
inductive Level where
  | debug
  | trace
  deriving DecidableEq

/-- The name of a level in an entry. -/
def Level.text : Level → String
  | debug => "DEBUG"
  | trace => "TRACE"

/-- What a journal can note. -/
inductive Event where
  | scanned (token : Token)
  | reported (diagnostic : Diagnostic)
  | parsedFunction (name : String) (params : Nat)
  | parsedPackage (name : String) (nodes errors : Nat)
  | evaluating (package : String) (line : Nat)
  | declared (function : String)
  | calling (function : String) (args : Nat)
  | callingBuiltin (name : String) (args : Nat)
  | assignmentDropped (name : String)
  | nested (depth : Nat)
  | unnested (depth : Nat)
  | skipped (builtin typeName : String)
  | opened (path : String) (handle : Nat)
  | openFailed (path reason : String)
  | closed (handle : Nat)

namespace Event

/-- The level at which an event is noted. -/
def level : Event → Level
  | scanned .. | parsedFunction .. | nested .. | unnested .. | skipped .. => .trace
  | reported .. | parsedPackage .. | evaluating .. | declared .. | calling ..
  | callingBuiltin .. | assignmentDropped .. | opened .. | openFailed .. | closed .. => .debug

/-- The part of the language that an event belongs to. -/
def target : Event → String
  | scanned .. => "eldr::lexer"
  | reported .. => "eldr::common"
  | parsedFunction .. | parsedPackage .. => "eldr::parser"
  | evaluating .. | declared .. | calling .. | callingBuiltin .. | assignmentDropped .. =>
    "eldr::interpreter"
  | nested .. | unnested .. => "eldr::environment"
  | skipped .. | opened .. | openFailed .. | closed .. => "eldr::builtins"

/-- The wording of an event. -/
def message : Event → String
  | scanned token =>
    "token " ++ token.kind.label ++ " " ++ String.ofList (Text.quote token.literal.toList) ++
      " at L" ++ token.line.repr
  | reported diagnostic => diagnostic.text
  | parsedFunction name params =>
    "parsed function " ++ name ++ " with " ++ params.repr ++ " parameters"
  | parsedPackage name nodes errors =>
    "parsed package " ++ name ++ " into " ++ nodes.repr ++ " nodes with " ++ errors.repr ++
      " errors"
  | evaluating package line => "evaluating " ++ package ++ " node at L" ++ line.repr
  | declared function => "declared function " ++ function
  | calling function args => "calling " ++ function ++ " with " ++ args.repr ++ " arguments"
  | callingBuiltin name args =>
    "calling builtin " ++ name ++ " with " ++ args.repr ++ " arguments"
  | assignmentDropped name => "assignment to " ++ name ++ " dropped, no such binding"
  | nested depth => "nest scope, depth " ++ depth.repr
  | unnested depth => "unnest scope, depth " ++ depth.repr
  | skipped builtin typeName => builtin ++ " skips a " ++ typeName ++ " value"
  | opened path handle => "opened " ++ path ++ " as handle " ++ handle.repr
  | openFailed path reason => "could not open " ++ path ++ ": " ++ reason
  | closed handle => "closed handle " ++ handle.repr

/-- An event as an entry of the journal. -/
def text (e : Event) : String :=
  e.level.text ++ " " ++ e.target ++ ": " ++ e.message

end Event

/-- The events noted so far, and the level down to which events are kept; without a level
nothing is kept. -/
structure Journal where
  level : Option Level := none
  /-- The events, the latest first. -/
  latest : List Event := []

namespace Journal

/-- Whether a journal keeps events of the given level. -/
def keeps (j : Journal) (level : Level) : Bool :=
  match j.level with
  | none => false
  | some .debug => level = .debug
  | some .trace => true

/-- Notes an event, if its level is kept. -/
def note (e : Event) (j : Journal) : Journal :=
  if j.keeps e.level then { j with latest := e :: j.latest } else j

/-- Notes events in order. -/
def noteAll (es : List Event) (j : Journal) : Journal :=
  es.foldl (fun j e => j.note e) j

/-- The events in order. -/
def events (j : Journal) : List Event := j.latest.reverse

@[simp] theorem level_note (e : Event) (j : Journal) : (j.note e).level = j.level := by
  unfold note
  split <;> rfl

/-- A journal grows at its end, and only by what it keeps. -/
theorem events_note (e : Event) (j : Journal) :
    (j.note e).events = if j.keeps e.level then j.events ++ [e] else j.events := by
  unfold note events
  split <;> simp

end Journal
end ScriptLang
