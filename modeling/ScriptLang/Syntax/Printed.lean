import ScriptLang.Syntax.Node
import ScriptLang.Text.Lines

/-!
# Programs in canonical form

Every tree has one printed form. Operators are printed with parentheses around them, since the
grammar has no precedence, and the statements of a block stand one to a line behind a tab, each
with a semicolon behind it. A package is printed as a listing with numbered lines.

- `Node.print`, `Block.print`: the printed form.
- `Package.print`: the listing.
-/

namespace ScriptLang

open Text

/-- Lines inside a block: each behind a tab, the last one with a semicolon. -/
def indented : List (List Char) → List Char
  | [] => []
  | [l] => '\t' :: l ++ [';', '\n']
  | l :: ls => '\t' :: l ++ '\n' :: indented ls

/-- Texts one after the other, with a comma and a space between them. -/
def commaSeparated (texts : List (List Char)) : List Char :=
  [',', ' '].intercalate texts

mutual

/-- The printed form of a node. -/
def Node.print : Node → List Char
  | .integer token _ => token.literal.toList
  | .string _ value => '"' :: value.toList ++ ['"']
  | .boolean _ value => if value then "true".toList else "false".toList
  | .ident _ name => name.toList
  | .declare token binder => token.literal.toList ++ ' ' :: binder.name.toList
  | .assign _ target value => target.print ++ " = ".toList ++ value.print
  | .prefixed operator operand => '(' :: operator.literal.toList ++ operand.print ++ [')']
  | .infixed operator left right =>
    '(' :: left.print ++ ' ' :: operator.literal.toList ++ ' ' :: right.print ++ [')']
  | .call _ callee args => callee.print ++ '(' :: commaSeparated (printAll args) ++ [')']
  | .block body => body.print
  | .conditional _ condition thenBlock none =>
    "if (".toList ++ condition.print ++ ") ".toList ++ thenBlock.print
  | .conditional _ condition thenBlock (some elseBlock) =>
    "if (".toList ++ condition.print ++ ") ".toList ++ thenBlock.print ++ " else ".toList ++
      elseBlock.print
  | .loop _ none _ _ body => "loop ".toList ++ body.print
  | .loop _ (some init) condition none body =>
    "loop (".toList ++ init.print ++ "; ".toList ++ condition.print ++ "; ) ".toList ++
      body.print
  | .loop _ (some init) condition (some step) body =>
    "loop (".toList ++ init.print ++ "; ".toList ++ condition.print ++ "; ".toList ++
      step.print ++ ") ".toList ++ body.print
  | .function _ binder params body =>
    "fun ".toList ++ binder.name.toList ++
      '(' :: commaSeparated (params.map (·.name.toList)) ++ ") ".toList ++ body.print
  | .returning _ value => "return ".toList ++ value.print
  | .breaking _ => "break".toList
  termination_by structural n => n

/-- The printed form of a block. -/
def Block.print : Block → List Char
  | ⟨_, nodes⟩ => "\x7b\n".toList ++ printStatements nodes ++ ['\x7d']
  termination_by structural b => b

/-- The printed forms of the nodes of a list. -/
def printAll : List Node → List (List Char)
  | [] => []
  | n :: ns => n.print :: printAll ns
  termination_by structural ns => ns

/-- The statements of a block, each over one or more lines of their own. -/
def printStatements : List Node → List Char
  | [] => []
  | n :: ns => indented (lines n.print) ++ printStatements ns
  termination_by structural ns => ns

end

/-! ## The printed form of each kind of node -/

section Equations

variable (line : Nat)

@[simp] theorem Node.print_integer (token : Token) (value : Int64) :
    (integer token value).print = token.literal.toList := rfl

@[simp] theorem Node.print_string (value : String) :
    (string line value).print = '"' :: value.toList ++ ['"'] := rfl

@[simp] theorem Node.print_boolean (value : Bool) :
    (boolean line value).print = if value then "true".toList else "false".toList := rfl

@[simp] theorem Node.print_ident (name : String) : (ident line name).print = name.toList := rfl

/-- A declaration is printed without its value, which `Node.print_assign` puts behind it. -/
@[simp] theorem Node.print_declare (token : Token) (binder : Binder) :
    (declare token binder).print = token.literal.toList ++ ' ' :: binder.name.toList := rfl

/-- Assignments are printed without parentheses of their own, unlike operators. -/
@[simp] theorem Node.print_assign (target value : Node) :
    (assign line target value).print = target.print ++ " = ".toList ++ value.print := rfl

/-- The printed form of every prefix and infix node has parentheses around it. -/
@[simp] theorem Node.print_prefixed (operator : Token) (operand : Node) :
    (prefixed operator operand).print =
      '(' :: operator.literal.toList ++ operand.print ++ [')'] := rfl

@[simp] theorem Node.print_infixed (operator : Token) (left right : Node) :
    (infixed operator left right).print =
      '(' :: left.print ++ ' ' :: operator.literal.toList ++ ' ' :: right.print ++ [')'] := rfl

@[simp] theorem Node.print_call (callee : Node) (args : List Node) :
    (call line callee args).print =
      callee.print ++ '(' :: commaSeparated (printAll args) ++ [')'] := rfl

@[simp] theorem Node.print_block (body : Block) : (block body).print = body.print := rfl

/-- A conditional without `else`. -/
@[simp] theorem Node.print_conditional (condition : Node) (thenBlock : Block) :
    (conditional line condition thenBlock none).print =
      "if (".toList ++ condition.print ++ ") ".toList ++ thenBlock.print := rfl

/-- A conditional with both branches. -/
@[simp] theorem Node.print_conditional_else (condition : Node) (thenBlock elseBlock : Block) :
    (conditional line condition thenBlock (some elseBlock)).print =
      "if (".toList ++ condition.print ++ ") ".toList ++ thenBlock.print ++ " else ".toList ++
        elseBlock.print := rfl

/-- A loop without a first part is printed as a bare loop, whatever its condition. -/
@[simp] theorem Node.print_loop (condition : Node) (step : Option Node) (body : Block) :
    (loop line none condition step body).print = "loop ".toList ++ body.print := rfl

/-- A loop with a head of two parts. -/
@[simp] theorem Node.print_loop_init (init condition : Node) (body : Block) :
    (loop line (some init) condition none body).print =
      "loop (".toList ++ init.print ++ "; ".toList ++ condition.print ++ "; ) ".toList ++
        body.print := rfl

/-- A loop with a head of three parts. -/
@[simp] theorem Node.print_loop_step (init condition step : Node) (body : Block) :
    (loop line (some init) condition (some step) body).print =
      "loop (".toList ++ init.print ++ "; ".toList ++ condition.print ++ "; ".toList ++
        step.print ++ ") ".toList ++ body.print := rfl

@[simp] theorem Node.print_function (binder : Binder) (params : List Binder) (body : Block) :
    (function line binder params body).print =
      "fun ".toList ++ binder.name.toList ++
        '(' :: commaSeparated (params.map (·.name.toList)) ++ ") ".toList ++ body.print := rfl

@[simp] theorem Node.print_returning (value : Node) :
    (returning line value).print = "return ".toList ++ value.print := rfl

@[simp] theorem Node.print_breaking : (breaking line).print = "break".toList := rfl

end Equations

@[simp] theorem printAll_eq_map (ns : List Node) : printAll ns = ns.map Node.print := by
  induction ns with
  | nil => rfl
  | cons n ns ih => simp [printAll, ih]

/-- Each statement of a block is cut into lines again, and each line gets a tab. -/
theorem printStatements_eq_flatMap (ns : List Node) :
    printStatements ns = ns.flatMap fun n => indented (lines n.print) := by
  induction ns with
  | nil => rfl
  | cons n ns ih => simp [printStatements, ih]

/-- The printed form of a block: braces around its indented statements. -/
theorem Block.print_eq (b : Block) :
    b.print = "\x7b\n".toList ++ (b.nodes.flatMap fun n => indented (lines n.print)) ++
      ['\x7d'] := by
  obtain ⟨line, nodes⟩ := b
  rw [← printStatements_eq_flatMap]
  rfl

namespace Node

/-- The printed form of a node, as a string. -/
def text (n : Node) : String := String.ofList n.print

/-- The lines of a node in a listing. Only a compound node is broken into lines; it needs no
semicolon. -/
def listingLines (n : Node) : List (List Char) :=
  if n.isCompound then lines n.print else [n.print ++ [';']]

end Node

/-- The printed form of a block, as a string. -/
def Block.text (b : Block) : String := String.ofList b.print

/-- The listing of a package: its lines, each behind its number, counted from zero, and a tab.
The numbers have no bound here, where a counter of 32 bits has one: the listing is the same up
to a length of 2 ^ 31 lines. -/
def Package.print (p : Package) : List Char :=
  (p.nodes.flatMap Node.listingLines).zipIdx.flatMap fun (line, number) =>
    Nat.toDigits 10 number ++ '\t' :: line ++ ['\n']

/-- The listing of a package, as a string. -/
def Package.text (p : Package) : String := String.ofList p.print

end ScriptLang
