import ScriptLang.Syntax.Parser
import ScriptLang.Text.Decimal
import ScriptLang.Token.Cursor

/-!
# The grammar

    program    = statement*
    statement  = ';' | declaration ';' | expression ';' | block | if | loop | fun
               | 'return' expression ';' | 'break' ';'
    block      = '{' statement* '}'
    if         = 'if' '(' expression ')' block ['else' block]
    loop       = 'loop' ['(' init ';' condition ';' [expression] ')'] block
    fun        = 'fun' NAME '(' [NAME (',' NAME)*] ')' block
    expression = target '=' expression | operand (infix operand)*
    operand    = INTEGER | STRING | 'true' | 'false' | NAME | NAME '(' arguments ')'
               | '(' expression ')' | prefix operand

Infix operators are folded from left to right as they come. There is no precedence, and
parentheses leave no trace in the tree. A declaration may itself begin an expression, and a loop
begins with an assignment and goes on while an infix expression holds.

Each rule starts on the first token of its construct and ends on the last one, so that whoever
called it passes that token. A rule takes the parsers of the parts of its construct as
arguments. Where these are the rules of the grammar again, it takes a record of them: `Rules`.
One level of the grammar makes such a record out of another one, and the grammar is as many
levels as are given over rules that fail; `Grammar.depthFor` is enough for a source of a given
number of tokens.

- `Rules`: parsers in the place of the recursive rules.
- `Grammar.statement`, `statements`, `expression`, `operand`, `arguments`, `parameters`: what
  the recursive rules do, over the rules for what is inside.
- `Rules.level`, `Rules.nest`, `Grammar.rules`: levels of the grammar.
- `Package.parse`: the package of a source text, with every diagnostic.
-/

namespace ScriptLang

open ScriptLang.Parser

namespace Grammar

/-! ## Rules over the parsers of their parts -/

/-- An expression that may not be empty. -/
def required (ending : Ending) (expression : Parser Node) : Parser Node := do
  let token ← current
  if ending.closes token.kind then reject (.expectedExpression token.literal) else expression

/-- An expression in parentheses, from the opening one on. It leaves no node of its own, only
that of `expression`. -/
def group (expression : Parser Node) : Parser Node := do
  let _ ← advance
  required .group expression

/-- The arguments of a call to `callee`, from the opening parenthesis on. -/
def call (callee : Token) (arguments : Parser (List Node)) : Parser Node := do
  let token ← current
  if (← peek).kind = .rightParen then
    let _ ← advance
    return .call token.line (.ident callee.line callee.literal) []
  else
    return .call token.line (.ident callee.line callee.literal) (← arguments)

/-- A prefix operator and its operand. -/
def prefixed (operand : Parser Node) : Parser Node := do
  let operator ← current
  let _ ← advance
  return .prefixed operator (← operand)

/-- An infix operator and its right operand, behind the operand `left`. -/
def infixed (operand : Parser Node) (left : Node) : Parser Node := do
  let operator ← current
  let _ ← advance
  return .infixed operator left (← operand)

/-- Folds the current token, and what belongs to it, into the expression `left` that has been
read so far. -/
def fold (operand : Parser Node) (left : Option Node) : Parser Node := do
  let token ← current
  match left with
  | some left =>
    if token.kind.isInfix then infixed operand left
    else if token.kind.startsOperand then reject (.expectedOperator token.literal)
    else operand
  | none => operand

/-- Whether a node may be assigned to. -/
def isTarget : Node → Bool
  | .ident .. | .declare .. => true
  | _ => false

/-- An assignment to the expression `left` that has been read so far, from the equals sign on.
The expression has to pass `isTarget`. -/
def assign (ending : Ending) (expression : Parser Node) (left : Option Node) : Parser Node := do
  let token ← current
  match left.filter isTarget with
  | some target =>
    let _ ← advance
    return .assign token.line target (← required ending expression)
  | none =>
    report .illegalOperation
    recover (.expression ending)
    fail

/-- A block, from its opening brace on. -/
def block (statements : Parser (List Node)) : Parser Block := do
  let opening ← current
  let _ ← advance
  let nodes ← statements
  if (← current).kind = .eof then reject (.unexpectedEof TokenKind.rightBrace.text)
  else return ⟨opening.line, nodes⟩

/-- A block that has to begin behind the current token. -/
def blockAhead (block : Parser Block) : Parser Block := do
  let token ← advance
  if token.kind = .leftBrace then block else reject (.expectedBrace token.literal)

/-- The blocks of a conditional, behind its condition; each is a `blockAhead`. -/
def branches (block : Parser Block) : Parser (Block × Option Block) := do
  let thenBlock ← blockAhead block
  if (← peek).kind = .kwElse then
    let _ ← advance
    return (thenBlock, some (← blockAhead block))
  else
    return (thenBlock, none)

/-- A conditional: a `group` for its condition, and its `branches`. -/
def conditional (expression : Parser Node) (block : Parser Block) : Parser Node := do
  let token ← current
  let opening ← advance
  if opening.kind = .leftParen then
    let condition ← group expression
    let (thenBlock, elseBlock) ← branches block
    return .conditional token.line condition thenBlock elseBlock
  else
    reject (.expectedParen opening.literal)

/-- Whether a node may begin a loop. -/
def isLoopInit : Node → Bool
  | .assign .. => true
  | _ => false

/-- Whether a node may be the condition of a loop. -/
def isLoopCondition : Node → Bool
  | .infixed .. => true
  | _ => false

/-- A part of a loop's header, of a form that `accepts` allows. -/
def headerPart (part : Parser Node) (accepts : Node → Bool) (cause : Cause) : Parser Node := do
  match (← attempt part).filter accepts with
  | some node => return node
  | none =>
    report cause
    recover (.expression .group)
    fail

/-- What a loop goes on with behind the condition of its header: the step, if there is one, and
the body. -/
def loopRest (step : Parser Node) (block : Parser Block) (line : Nat) (init condition : Node) :
    Parser Node := do
  if (← current).kind = .rightParen then
    return .loop line (some init) condition none (← blockAhead block)
  else
    let step ← step
    return .loop line (some init) condition (some step) (← blockAhead block)

/-- A loop, either bare or with a header of three parts, of which `loopRest` reads the last. -/
def loop (statement expression step : Parser Node) (block : Parser Block) : Parser Node := do
  let token ← current
  if (← peek).kind = .leftParen then
    let _ ← advance
    let _ ← advance
    let init ← headerPart statement isLoopInit .expectedLoopInit
    let _ ← advance
    let condition ← headerPart expression isLoopCondition .expectedLoopCondition
    let _ ← advance
    loopRest step block token.line init condition
  else
    return .loop token.line none (.boolean token.line true) none (← blockAhead block)

/-- A function declaration. -/
def function (params : Parser (List Binder)) (block : Parser Block) : Parser Node := do
  let token ← current
  let name ← advance
  if name.kind = .ident then
    let opening ← advance
    if opening.kind = .leftParen then
      let params ← params
      let body ← blockAhead block
      note (.parsedFunction name.literal params.length)
      return .function token.line ⟨name.line, name.literal⟩ params body
    else
      reject (.expectedParen opening.literal)
  else
    reject (.expectedIdent name.literal)

/-- A variable declaration, with the `expression` that goes on behind the node of the
declaration. -/
def declaration (expression : Option Node → Parser Node) : Parser Node := do
  let token ← current
  let name ← advance
  if name.kind = .ident then
    let _ ← advance
    expression (some (.declare token ⟨name.line, name.literal⟩))
  else
    report (.expectedIdent name.literal)
    recover (.expression .statement)
    fail

/-- A return with its value. -/
def returning (expression : Parser Node) : Parser Node := do
  let token ← current
  let _ ← advance
  return .returning token.line (← required .statement expression)

/-- Reports that a construct should have ended in front of the token `next`, and fails. -/
def unended {α : Type} (ending : Ending) (next : Token) : Parser α := do
  reportAt next.line (.expectedTerminator ending.expected.text next.literal)
  fail

/-- A break with its semicolon. -/
def breaking : Parser Node := do
  let token ← current
  let next ← peek
  if next.kind = .semicolon then
    let _ ← advance
    return .breaking token.line
  else
    unended .statement next

/-- A statement, or nothing. After a reported failure the rest of the statement is passed by
`recover`. -/
def orRecover (statement : Parser Node) : Parser (Option Node) := do
  let before ← reported
  let node ← attempt statement
  if node.isNone ∧ before < (← reported) then
    recover .statement
    return none
  else
    return node

/-- `orRecover` gives a statement that was read as it is. -/
theorem orRecover_of_some {statement : Parser Node} {r r' : Reading} {n : Node}
    (h : statement r = (some n, r')) : orRecover statement r = (some (some n), r') := by
  have ha : attempt statement r = (some (some n), r') := by rw [attempt, h]
  rw [orRecover, bind_of_some (p := reported) rfl, bind_of_some ha,
    bind_of_some (p := reported) rfl]
  rfl

/-- `orRecover` takes a failure without a diagnostic for no reason to recover. -/
theorem orRecover_of_silent {statement : Parser Node} {r r' : Reading}
    (h : statement r = (none, r')) (he : r'.errors.length ≤ r.errors.length) :
    orRecover statement r = (some none, r') := by
  have ha : attempt statement r = (some none, r') := by rw [attempt, h]
  rw [orRecover, bind_of_some (p := reported) rfl, bind_of_some ha,
    bind_of_some (p := reported) rfl, if_neg fun hr => Nat.not_lt.mpr he hr.2]
  rfl

/-- `orRecover` leaves a reported failure by `recover`. -/
theorem orRecover_of_reported {statement : Parser Node} {r r' : Reading}
    (h : statement r = (none, r')) (he : r.errors.length < r'.errors.length) :
    orRecover statement r = (some none, (recover .statement r').2) := by
  have ha : attempt statement r = (some none, r') := by rw [attempt, h]
  rw [orRecover, bind_of_some (p := reported) rfl, bind_of_some ha,
    bind_of_some (p := reported) rfl, if_pos ⟨rfl, he⟩]
  rfl

/-! ## The recursive rules -/

end Grammar

/-- Parsers in the place of the recursive rules, which those of a `level` are built on. -/
structure Rules where
  statement : Parser Node
  /-- Statements up to the end of the source, or, inside a block, up to its closing brace. -/
  statements : Bool → Parser (List Node)
  /-- The rest of an expression, behind what has been read of it. -/
  expression : Ending → Option Node → Parser Node
  operand : Parser Node
  /-- The arguments behind an opening parenthesis or a comma, up to the closing parenthesis. -/
  arguments : Parser (List Node)
  /-- The parameters behind an opening parenthesis or a comma, up to the closing parenthesis. -/
  parameters : Parser (List Binder)

/-- Rules that parse nothing, for what is beyond the depth of `Grammar.rules`. -/
def Rules.failing : Rules where
  statement := .fail
  statements _ := .fail
  expression _ _ := .fail
  operand := .fail
  arguments := .fail
  parameters := .fail

namespace Grammar

variable (inner : Rules)

/-- The parameters behind an opening parenthesis or a comma, up to the closing parenthesis. -/
def parameters : Parser (List Binder) := do
  let name ← advance
  match name.kind with
  | .ident =>
    let separator ← advance
    match separator.kind with
    | .comma => return ⟨name.line, name.literal⟩ :: (← inner.parameters)
    | .rightParen => return [⟨name.line, name.literal⟩]
    | .eof => reject (.unexpectedEof TokenKind.rightParen.text)
    | _ => reject (.unexpectedToken separator.literal)
  | .eof => reject (.unexpectedEof TokenKind.rightParen.text)
  | _ => reject (.expectedIdent name.literal)

/-- The parameter list of a function, from its opening parenthesis on. -/
def parameterList : Parser (List Binder) := do
  if (← peek).kind = .rightParen then
    let _ ← advance
    return []
  else
    inner.parameters

/-- A statement. An empty one fails without a diagnostic. -/
def statement : Parser Node := do
  match (← current).kind with
  | .kwVar => declaration (inner.expression .statement)
  | .leftBrace => return .block (← block (inner.statements true))
  | .kwIf => conditional (inner.expression .group none) (block (inner.statements true))
  | .kwLoop =>
    loop inner.statement (inner.expression .statement none) (inner.expression .group none)
      (block (inner.statements true))
  | .kwFun => function (parameterList inner) (block (inner.statements true))
  | .kwReturn => returning (inner.expression .statement none)
  | .kwBreak => breaking
  | _ => inner.expression .statement none

/-- Statements up to the end of the source, or, inside a block, up to its closing brace. -/
def statements (inBlock : Bool) : Parser (List Node) := do
  let token ← current
  if token.kind = .eof ∨ (inBlock ∧ token.kind = .rightBrace) then
    return []
  else
    let node ← orRecover inner.statement
    let _ ← advance
    return node.toList ++ (← inner.statements inBlock)

/-- The rest of an expression, behind what has been read of it. It fails without a diagnostic if
it is empty. -/
def expression (ending : Ending) (left : Option Node) : Parser Node := do
  let token ← current
  if ending.closes token.kind then
    match left with
    | some node => return node
    | none => fail
  else if token.kind = .eof then
    reject (.unexpectedEof ending.expected.text)
  else if token.kind = .equal then
    assign ending (inner.expression ending none) left
  else
    match ← attempt (fold inner.operand left) with
    | none =>
      recover (.expression ending)
      fail
    | some node =>
      let next ← peek
      -- a closing brace continues no expression, so it is left to its block
      if next.kind = .rightBrace then
        unended ending next
      else
        let _ ← advance
        inner.expression ending (some node)

/-- A single operand: a literal, a name or call, a group, or a prefix operator on an operand. -/
def operand : Parser Node := do
  let token ← current
  match token.kind with
  | .ident =>
    if (← peek).kind = .leftParen then
      let _ ← advance
      call token inner.arguments
    else
      return .ident token.line token.literal
  | .integer =>
    match Text.readInt? token.literal.toList with
    | some value => return .integer token value
    | none => reject (.invalidNumber token.literal)
  | .string => return .string token.line token.literal
  | .kwTrue => return .boolean token.line true
  | .kwFalse => return .boolean token.line false
  | .leftParen => group (inner.expression .group none)
  | .bang | .plus | .minus => prefixed inner.operand
  | .star | .slash | .lesser | .greater | .lesserEqual | .greaterEqual | .equalEqual
  | .bangEqual => reject (.expectedExpression token.literal)
  | .eof => reject .eofInExpression
  | .illegal => reject (.illegalCharacter token.literal)
  | .unterminatedString => reject .unterminatedString
  | _ => reject (.unexpectedToken token.literal)

/-- The arguments behind an opening parenthesis or a comma, up to the closing parenthesis. -/
def arguments : Parser (List Node) := do
  let _ ← advance
  let arg ← required .argument (inner.expression .argument none)
  if (← current).kind = .rightParen then
    return [arg]
  else
    return arg :: (← inner.arguments)

end Grammar

namespace Rules

/-- One level of the grammar, over the rules `inner` for what is inside. -/
def level (inner : Rules) : Rules where
  statement := Grammar.statement inner
  statements := Grammar.statements inner
  expression := Grammar.expression inner
  operand := Grammar.operand inner
  arguments := Grammar.arguments inner
  parameters := Grammar.parameters inner

/-- So many times `level`, over the given rules. -/
def nest : Nat → Rules → Rules
  | 0, inner => inner
  | depth + 1, inner => (nest depth inner).level

/-- All statements of a source, from its first token on. -/
def program (rules : Rules) : Parser (List Node) := do
  note (.scanned (← current))
  rules.statements false

end Rules

namespace Grammar

/-- The rules of the grammar, cut off at a depth of recursion. -/
def rules (depth : Nat) : Rules := Rules.failing.nest depth

/-! Each rule at a level, over the rules at the level below. -/

section Succ

variable (depth : Nat)

theorem rules_succ : rules (depth + 1) = (rules depth).level := rfl

theorem statement_succ : (rules (depth + 1)).statement = statement (rules depth) := rfl

theorem statements_succ : (rules (depth + 1)).statements = statements (rules depth) := rfl

theorem expression_succ : (rules (depth + 1)).expression = expression (rules depth) := rfl

theorem operand_succ : (rules (depth + 1)).operand = operand (rules depth) := rfl

theorem arguments_succ : (rules (depth + 1)).arguments = arguments (rules depth) := rfl

theorem parameters_succ : (rules (depth + 1)).parameters = parameters (rules depth) := rfl

end Succ

/-- A depth of recursion for `rules` that is enough for a source of the given number of
tokens. -/
def depthFor (tokens : Nat) : Nat := 4 * tokens + 4

/-- All statements of a source, by `rules` of the given depth. -/
def program (depth : Nat) : Parser (List Node) := (rules depth).program

end Grammar

/-- What `Package.parse` gives: the package of all statements that could be parsed, and every
diagnostic in the order of discovery. -/
structure Parsed where
  package : Package
  errors : List Diagnostic

/-- The beginning of a source: all of its tokens are left, and nothing has been reported. -/
def Reading.start (source : String) (journal : Journal) : Reading :=
  ⟨(Cursor.start source).tokens.1, (Cursor.start source).tokens.2, [], journal⟩

/-- Parses a source text into a package of the given name, and notes in the journal how. The
depth of recursion is `Grammar.depthFor` its tokens. -/
def Package.parse (name source : String) (journal : Journal) : Parsed × Journal :=
  let start := Reading.start source journal
  let (nodes, reading) := Grammar.program (Grammar.depthFor start.tokens.length) start
  let nodes := nodes.getD []
  (⟨⟨name, nodes⟩, reading.errors⟩,
    reading.journal.note (.parsedPackage name nodes.length reading.errors.length))

end ScriptLang
