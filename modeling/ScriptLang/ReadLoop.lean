import ScriptLang.Session
import ScriptLang.Text.Backspace

/-!
# The read loop

The read loop takes lines from standard input and collects them until one has a semicolon in it;
then the collected text is run, and its outcome is shown. While nothing is collected, not even a
blank line, the word `exit` alone on a line leaves the loop and the word `clear` clears the
screen. A backspace in a line erases the character before it, as if the line were typed.

Programs scan the same input, which comes in blocks. A scan takes over what is left of each
block it looks into: later scans go on from there, and the loop goes on behind the last such
block. So the loop ends behind a source that scanned something, unless the input is longer than
a block.

- `Reaction`, `react`: what a line makes the loop do.
- `blockEnd`: the end of a block of the input.
- `ReadLoop.runSource`: runs a source, which may scan the input behind the line it ended in.
- `Turn`, `ReadLoop.turn`, `ReadLoop.next?`: what the loop does with a line, and where it goes
  on.
- `ReadLoop.run`: the loop over the lines of the input.
-/

namespace ScriptLang

/-- What a line makes the read loop do. -/
inductive Reaction where
  | leave
  | clear
  /-- Wait for more, with the text collected so far. -/
  | collect (pending : String)
  | run (source : String)

/-- What a line makes the read loop do, with the text `pending` from the lines before it. -/
def react (pending line : String) : Reaction :=
  let word := Text.trim line.toList
  if pending = "" ∧ word = "exit".toList then .leave
  else if pending = "" ∧ word = "clear".toList then .clear
  else
    let source := pending ++ line ++ "\n"
    if line.toList.contains ';' then .run source else .collect source

/-- What the read loop does with a line. -/
inductive Turn where
  /-- Nothing: programs have taken the line over. -/
  | skipped
  /-- It stops, because the line is no text. -/
  | garbled
  | reacted (reaction : Reaction)

/-- A line without its end, which is a line feed or a carriage return and a line feed. -/
def withoutLineEnd (line : String) : String :=
  match line.toList.reverse with
  | '\n' :: '\r' :: cs => String.ofList cs.reverse
  | '\n' :: cs => String.ofList cs.reverse
  | _ => line

/-- What a line says, without its end: `Text.typed` has erased what was before backspaces. -/
def lineText (line : String) : String := String.ofList (Text.typed (withoutLineEnd line).toList)

/-- What clears the screen and moves the cursor to its corner. -/
def clearScreen : String := "\x1B[2J\x1B[1;1H"

/-- The number of bytes in a block of standard input. The last block may be shorter. -/
def blockSize : Nat := 8192

/-- The end of the block of `blockSize` bytes that the byte before a position is in. -/
def blockEnd (position : Nat) : Nat := (position + blockSize - 1) / blockSize * blockSize

/-- The state of a read loop. Between two sources, the input of the session is what programs
have taken over and not yet scanned. -/
structure ReadLoop where
  session : Session
  /-- The lines collected since a source was last run. -/
  pending : String := ""
  /-- What has been written to the error stream, the latest text first. -/
  complaints : List String := []
  /-- How many bytes of the input the lines so far were. -/
  position : Nat := 0
  /-- Where the input ends that programs have taken over. -/
  taken : Nat := 0

namespace ReadLoop

/-- Shows an outcome: a value where programs print, diagnostics on the error stream. -/
def shown (outcome : Outcome) (loop : ReadLoop) : ReadLoop :=
  let text := outcome.text
  if text = "" then loop
  else
    match outcome with
    | .value _ => { loop with session := loop.session.print (text ++ "\n") }
    | _ => { loop with complaints := (text ++ "\n") :: loop.complaints }

/-- Runs a source by `Session.run` and shows its outcome. Its scans read what programs have
taken over before, and then `rest`, up to the `blockEnd` that the last of them ends in. There is
no answer if the fuel runs out. -/
def runSource (fuel : Nat) (source : String) (rest : List UInt8) (loop : ReadLoop) :
    Option ReadLoop :=
  let input := loop.session.input ++ rest
  match (loop.session.withInput input).run fuel source with
  | none => none
  | some (outcome, session) =>
    let left := session.input
    let taken := if rest.length ≤ left.length then loop.taken
      else blockEnd (loop.position + (rest.length - left.length))
    let untaken := rest.length - (taken - loop.position)
    let session := session.withInput (left.take (left.length - untaken))
    some ({ loop with session, taken, pending := "" }.shown outcome)

/-- What the loop does with a line, by `react` unless programs have taken the line over. -/
def turn (line : List UInt8) (loop : ReadLoop) : Turn :=
  let bytes := line.drop (loop.taken - loop.position)
  if bytes = [] then .skipped
  else
    match Text.decode? bytes with
    | none => .garbled
    | some line => .reacted (react loop.pending (lineText line))

/-- The loop with a line behind it. -/
def past (line : List UInt8) (loop : ReadLoop) : ReadLoop :=
  { loop with position := loop.position + line.length }

/-- Where the loop goes on behind a line, if its `turn` lets it, with the lines `rest` that are
left. -/
def next? (fuel : Nat) (line : List UInt8) (rest : List (List UInt8)) (loop : ReadLoop) :
    Option ReadLoop :=
  match loop.turn line with
  | .skipped => some (loop.past line)
  | .garbled | .reacted .leave => none
  | .reacted .clear => some { loop.past line with session := loop.session.print clearScreen }
  | .reacted (.collect pending) => some { loop.past line with pending }
  | .reacted (.run source) => (loop.past line).runSource fuel source rest.flatten

/-- Runs the loop over lines, each with its end. The flag of the answer tells whether the loop
was stopped by a line that is no text. There is no answer if the fuel runs out. -/
def run (fuel : Nat) : List (List UInt8) → ReadLoop → Option (ReadLoop × Bool)
  | [], loop => some (loop, false)
  | line :: lines, loop =>
    match loop.turn line with
    | .garbled => some (loop.past line, true)
    | .reacted .leave => some (loop.past line, false)
    | _ =>
      match loop.next? fuel line lines with
      | none => none
      | some loop => run fuel lines loop

end ReadLoop
end ScriptLang
