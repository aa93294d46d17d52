import ScriptLang.Diagnostic
import ScriptLang.Value

/-!
# Operators

An operator is given as the kind of its token. Arithmetic is exact or refused: a result that
does not fit a word is an overflow. Strings can only be joined, and booleans only be compared
for equality.

- `prefixValue`: a prefix operator on a value.
- `infixValue`: an infix operator between two values.
-/

namespace ScriptLang

/-- An exact result, if it fits a word. -/
def exact (n : Int) : Except Cause Value :=
  match Text.word? n with
  | some word => .ok (.integer word)
  | none => .error .integerOverflow

/-- An operator between integers. Division drops the fraction. -/
def infixIntegers (operator : TokenKind) (left right : Int64) : Except Cause Value :=
  let a := left.toInt
  let b := right.toInt
  match operator with
  | .plus => exact (a + b)
  | .minus => exact (a - b)
  | .star => exact (a * b)
  | .slash => if b = 0 then .error .divisionByZero else exact (a.tdiv b)
  | .lesser => .ok (.boolean (a < b))
  | .greater => .ok (.boolean (b < a))
  | .lesserEqual => .ok (.boolean (a ≤ b))
  | .greaterEqual => .ok (.boolean (b ≤ a))
  | .equalEqual => .ok (.boolean (a = b))
  | .bangEqual => .ok (.boolean (a ≠ b))
  | _ => .error .invalidOperator

/-- An operator between strings. -/
def infixStrings (operator : TokenKind) (left right : String) : Except Cause Value :=
  match operator with
  | .plus => .ok (.string (left ++ right))
  | _ => .error .invalidOperator

/-- An operator between booleans. -/
def infixBooleans (operator : TokenKind) (left right : Bool) : Except Cause Value :=
  match operator with
  | .equalEqual => .ok (.boolean (left == right))
  | .bangEqual => .ok (.boolean (left != right))
  | _ => .error .invalidOperator

/-- An infix operator between two values. Values of one type that has no operators are told
apart from values of two types. -/
def infixValue (operator : TokenKind) (left right : Value) : Except Cause Value :=
  match left, right with
  | .integer left, .integer right => infixIntegers operator left right
  | .string left, .string right => infixStrings operator left right
  | .boolean left, .boolean right => infixBooleans operator left right
  | .null, .null | .function _, .function _ | .builtin _, .builtin _ => .error .invalidOperator
  | _, _ => .error .invalidCombination

/-- A prefix operator on a value. -/
def prefixValue (operator : TokenKind) (operand : Value) : Except Cause Value :=
  match operator, operand with
  | .bang, .boolean operand => .ok (.boolean (!operand))
  | .plus, .integer operand => .ok (.integer operand)
  | .minus, .integer operand => exact (-operand.toInt)
  | _, _ => .error .invalidOperator

end ScriptLang
