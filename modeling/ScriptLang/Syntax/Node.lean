import ScriptLang.Token

/-!
# Syntax trees

A program is a list of nodes. Expressions and statements share one type, because every statement
form may yield a value and the evaluator gives each form a meaning wherever it stands.

A node keeps the line it is reported at. Where printing or evaluation needs more than the line,
the node keeps its whole token: the digits of an integer, the keyword of a declaration, and the
operator of a prefix or infix expression.

- `Binder`: a name that is introduced: a variable, a function or a parameter.
- `Node`, `Block`: the trees.
- `Node.token`, `Node.line`: where a node stands.
- `Package`: the nodes of one source, under the name of its namespace.
-/

namespace ScriptLang

/-- A name where it is introduced. -/
structure Binder where
  line : Nat
  name : String
  deriving DecidableEq

mutual

/-- A statement or an expression. -/
inductive Node where
  | integer (token : Token) (value : Int64)
  | string (line : Nat) (value : String)
  | boolean (line : Nat) (value : Bool)
  | ident (line : Nat) (name : String)
  | declare (token : Token) (binder : Binder)
  | assign (line : Nat) (target value : Node)
  | prefixed (operator : Token) (operand : Node)
  | infixed (operator : Token) (left right : Node)
  | call (line : Nat) (callee : Node) (args : List Node)
  | block (body : Block)
  | conditional (line : Nat) (condition : Node) (thenBlock : Block) (elseBlock : Option Block)
  | loop (line : Nat) (init : Option Node) (condition : Node) (step : Option Node)
      (body : Block)
  | function (line : Nat) (binder : Binder) (params : List Binder) (body : Block)
  | returning (line : Nat) (value : Node)
  | breaking (line : Nat)

/-- Statements between braces, with the line of the opening brace. -/
structure Block where
  line : Nat
  nodes : List Node

end

namespace Node

/-- The token that a node is reported at: the one it begins with, the operator of an assignment
or an infix expression, and the parenthesis of a call. -/
def token : Node → Token
  | integer token _ => token
  | string line value => ⟨.string, line, value⟩
  | boolean line value => .ofKind (if value then .kwTrue else .kwFalse) line
  | ident line name => ⟨.ident, line, name⟩
  | declare token _ => token
  | assign line .. => .ofKind .equal line
  | prefixed operator _ => operator
  | infixed operator .. => operator
  | call line .. => .ofKind .leftParen line
  | block body => .ofKind .leftBrace body.line
  | conditional line .. => .ofKind .kwIf line
  | loop line .. => .ofKind .kwLoop line
  | function line .. => .ofKind .kwFun line
  | returning line _ => .ofKind .kwReturn line
  | breaking line => .ofKind .kwBreak line

/-- The line that a node is reported at. -/
def line (n : Node) : Nat := n.token.line

/-- Whether a node is printed over several lines and needs no semicolon behind it. -/
def isCompound : Node → Bool
  | block .. | conditional .. | loop .. | function .. => true
  | _ => false

end Node

/-- The nodes of one source, under the name of the namespace they belong to. -/
structure Package where
  name : String
  nodes : List Node

end ScriptLang
