import ScriptLang.Journal
import ScriptLang.Syntax.Node

/-!
# Parsers over a list of tokens

A parser reads from a list of tokens whose head is the current token; past the last token the
current one is the end of the source, for ever. It may fail. A failure abandons the construct
that is being parsed, usually after a diagnostic has been reported, and whoever tried the
construct goes on from the place that was reached.

Parsers move on by `advance` and look one token ahead by `peek`; both note the token they see in
the journal. A failed construct is left by one of two recoveries. Each passes tokens until it
meets one that ends the construct, keeps count of the parentheses or braces that open on the
way, and leaves a closing brace that it did not see opened to the enclosing block.

- `Reading`: what a parse still has to read, and what it has reported.
- `Parser`: the monad, with `attempt` to see a failure and `report` to add a diagnostic.
- `Ending`: what may end an expression.
- `Recovery`: how tokens are passed after a failure, with `Recovery.expression` and
  `Recovery.statement`.
-/

namespace ScriptLang

/-- What a parse still has to read, and what it has reported so far. -/
structure Reading where
  /-- The current token and those after it; none at the end of the source. -/
  tokens : List Token
  /-- The line that the source ends on. -/
  endLine : Nat
  errors : List Diagnostic
  journal : Journal

namespace Reading

/-- The first of the tokens, or the end of the source. -/
def headOf (tokens : List Token) (endLine : Nat) : Token :=
  tokens.headD (.eof endLine)

/-- The current token. -/
def current (r : Reading) : Token := headOf r.tokens r.endLine

/-- The token behind the current one. -/
def ahead (r : Reading) : Token := headOf r.tokens.tail r.endLine

/-- Notes an event in the journal. -/
def note (e : Event) (r : Reading) : Reading :=
  { r with journal := r.journal.note e }

end Reading

/-- A parser: from a `Reading` to a result, if it succeeds, and the `Reading` that is left. -/
def Parser (α : Type) : Type := Reading → Option α × Reading

namespace Parser

/-- Succeeds with a value and reads nothing. -/
@[inline] protected def pure {α : Type} (a : α) : Parser α := fun r => (some a, r)

/-- One parser after the other; `f` runs only if `p` succeeds. -/
@[inline] protected def bind {α β : Type} (p : Parser α) (f : α → Parser β) :
    Parser β := fun r =>
  match p r with
  | (some a, r) => f a r
  | (none, r) => (none, r)

instance : Monad Parser where
  pure := Parser.pure
  bind := Parser.bind

/-- Behind a success of `p` the second parser runs on its result. -/
theorem bind_of_some {α β : Type} {p : Parser α} {f : α → Parser β} {r r' : Reading} {a : α}
    (h : p r = (some a, r')) : (p >>= f) r = f a r' := by
  show Parser.bind p f r = f a r'
  rw [Parser.bind, h]

/-- Behind a failure of `p` the second parser does not run. -/
theorem bind_of_none {α β : Type} {p : Parser α} {f : α → Parser β} {r r' : Reading}
    (h : p r = (none, r')) : (p >>= f) r = (none, r') := by
  show Parser.bind p f r = (none, r')
  rw [Parser.bind, h]

/-- Fails and reads nothing. -/
def fail {α : Type} : Parser α := fun r => (none, r)

/-- The result of the parser `p`, with failure as the result `none`. -/
def attempt {α : Type} (p : Parser α) : Parser (Option α) := fun r =>
  match p r with
  | (result, r) => (some result, r)

/-- The current token, as `Reading.current` gives it. -/
def current : Parser Token := fun r => (some r.current, r)

/-- Passes the current token and gives the one behind it. -/
def advance : Parser Token := fun r =>
  (some r.ahead,
    { r with tokens := r.tokens.tail, journal := r.journal.note (.scanned r.ahead) })

/-- The token behind the current one, without moving; the journal notes that it was scanned. -/
def peek : Parser Token := fun r => (some r.ahead, r.note (.scanned r.ahead))

/-- Notes an event in the journal. -/
def note (e : Event) : Parser Unit := fun r => (some (), r.note e)

/-- Reports a diagnostic. -/
def reportAt (line : Nat) (cause : Cause) : Parser Unit := fun r =>
  (some (), { r with
    errors := r.errors ++ [⟨line, cause⟩]
    journal := r.journal.note (.reported ⟨line, cause⟩) })

/-- Reports a diagnostic at the current token. -/
def report (cause : Cause) : Parser Unit := do
  reportAt (← current).line cause

/-- The number of diagnostics reported so far. -/
def reported : Parser Nat := fun r => (some r.errors.length, r)

/-- To `report` a diagnostic at the current token, and to `fail`. -/
def reject {α : Type} (cause : Cause) : Parser α := do
  report cause
  fail

end Parser

/-- Where an expression stands, which decides the tokens that end it. -/
inductive Ending where
  /-- A statement, ended by a semicolon. -/
  | statement
  /-- A group in parentheses. -/
  | group
  /-- An argument of a call, ended by the closing parenthesis or a comma. -/
  | argument
  deriving DecidableEq

namespace Ending

/-- Whether a token ends the expression. -/
def closes : Ending → TokenKind → Bool
  | statement, kind => kind = .semicolon
  | group, kind => kind = .rightParen
  | argument, kind => kind = .rightParen || kind = .comma

/-- The token that a diagnostic asks for when the expression does not end. -/
def expected : Ending → TokenKind
  | statement => .semicolon
  | group | argument => .rightParen

end Ending

/-! ## Recovery -/

/-- How tokens are passed after a failure. The number counts what has been opened on the way and
not yet closed. -/
structure Recovery where
  /-- The count behind a token, or nothing if recovery ends on the token. -/
  step : Nat → TokenKind → Option Nat
  /-- Whether recovery ends before a closing brace. -/
  heedsBrace : Nat → Bool

namespace Recovery

/-- To the token that ends an expression, over the groups that are opened before it. -/
def expression (ending : Ending) : Recovery where
  step depth kind :=
    if kind = .leftParen then some (depth + 1)
    else if kind = .rightParen ∧ 0 < depth then some (depth - 1)
    else if depth = 0 ∧ ending.closes kind then none
    else some depth
  heedsBrace _ := true

/-- To the semicolon that ends a statement, or to the end of the block that it opens. -/
def statement : Recovery where
  step depth kind :=
    if kind = .semicolon ∧ depth = 0 then none
    else if kind = .leftBrace then some (depth + 1)
    else if kind = .rightBrace ∧ 0 < depth then if depth = 1 then none else some (depth - 1)
    else some depth
  heedsBrace depth := depth = 0

/-- Passes tokens up to the one that recovery ends on, which becomes the current one. -/
def skip (how : Recovery) (endLine : Nat) :
    Nat → List Token → Journal → List Token × Journal
  | _, [], journal => ([], journal)
  | depth, token :: rest, journal =>
    match how.step depth token.kind with
    | none => (token :: rest, journal)
    | some depth =>
      let next := Reading.headOf rest endLine
      if how.heedsBrace depth then
        if next.kind = .rightBrace then (token :: rest, journal.note (.scanned next))
        else how.skip endLine depth rest ((journal.note (.scanned next)).note (.scanned next))
      else how.skip endLine depth rest (journal.note (.scanned next))

end Recovery

/-- Leaves a construct that failed, by `Recovery.skip`. -/
def Parser.recover (how : Recovery) : Parser Unit := fun r =>
  match how.skip r.endLine 0 r.tokens r.journal with
  | (tokens, journal) => (some (), { r with tokens := tokens, journal := journal })

end ScriptLang
