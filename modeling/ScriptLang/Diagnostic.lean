/-!
# Diagnostics

Neither parsing nor evaluation stops at the first problem: each problem becomes a diagnostic, a
cause with the line it was met on, and work goes on behind it.

- `Cause`: every problem that can be reported, with `Cause.message` as its wording.
- `Diagnostic`: a cause and its line, with `Diagnostic.text` as it is shown.
- `Diagnostic.report`: a list of diagnostics as it is shown, one to a line.
-/

namespace ScriptLang

/-- Why a program was not parsed, or a statement not evaluated. -/
inductive Cause where
  -- met while parsing
  | expectedIdent (found : String)
  | expectedParen (found : String)
  | expectedBrace (found : String)
  | expectedTerminator (expected found : String)
  | expectedLoopInit
  | expectedLoopCondition
  | expectedExpression (found : String)
  | expectedOperator (found : String)
  | unexpectedEof (expected : String)
  | eofInExpression
  | unexpectedToken (found : String)
  | invalidNumber (digits : String)
  | illegalCharacter (character : String)
  | unterminatedString
  | illegalOperation
  -- met while evaluating
  | identNotFound (name : String)
  | invalidOperator
  | invalidCombination
  | expectedBoolean
  | arityMismatch (expected found : Nat)
  | notCallable (callee : String)
  | divisionByZero
  | integerOverflow
  | missingValue
  | callDepthExceeded (limit : Nat)
  | builtin (name message : String)
  deriving DecidableEq

/-- The wording of a cause. -/
def Cause.message : Cause → String
  | expectedIdent found => "expected name declaration but got \"" ++ found ++ "\""
  | expectedParen found => "expected opening parenthesis but got \"" ++ found ++ "\""
  | expectedBrace found => "expected opening brace but got \"" ++ found ++ "\""
  | expectedTerminator expected found =>
    "expected \"" ++ expected ++ "\" but got \"" ++ found ++ "\""
  | expectedLoopInit => "expected initialization for loop variable"
  | expectedLoopCondition => "expected condition for loop action"
  | expectedExpression found => "expected expression but got \"" ++ found ++ "\""
  | expectedOperator found => "expected operator but got \"" ++ found ++ "\""
  | unexpectedEof expected => "unexpected end of file, expected \"" ++ expected ++ "\""
  | eofInExpression => "unexpected end of file in expression"
  | unexpectedToken found => "unexpected \"" ++ found ++ "\""
  | invalidNumber digits => "\"" ++ digits ++ "\" is not a valid number"
  | illegalCharacter character => "illegal character \"" ++ character ++ "\""
  | unterminatedString => "unterminated string literal"
  | illegalOperation => "illegal operation attempt"
  | identNotFound name => "identifier not found: " ++ name
  | invalidOperator => "invalid operator for object"
  | invalidCombination => "invalid operator combination of objects"
  | expectedBoolean => "expected conditional or boolean"
  | arityMismatch expected found =>
    "expected " ++ expected.repr ++ " function parameters but got " ++ found.repr
  | notCallable callee => "\"" ++ callee ++ "\" is not a function"
  | divisionByZero => "division by zero"
  | integerOverflow => "integer overflow"
  | missingValue => "expression produced no value"
  | callDepthExceeded limit => "maximum call depth of " ++ limit.repr ++ " exceeded"
  | builtin name message => name ++ ": " ++ message

/-- A cause with the line it was met on. -/
structure Diagnostic where
  line : Nat
  cause : Cause
  deriving DecidableEq

/-- A diagnostic as it is shown. -/
def Diagnostic.text (d : Diagnostic) : String :=
  "* Error at L" ++ d.line.repr ++ " " ++ d.cause.message

/-- Diagnostics as they are shown, one to a line. -/
def Diagnostic.report (ds : List Diagnostic) : String :=
  String.join (ds.map fun d => d.text ++ "\n")

end ScriptLang
