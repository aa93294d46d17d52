/-!
# Tokens

A token is the smallest piece of a program that the grammar speaks of: its kind, the line it
begins on, and the characters it was written with.

- `TokenKind`: the kinds, with the end of the source and the two lexical faults among them.
- `TokenKind.text`: a kind as it is named in a diagnostic; a keyword or symbol names itself.
- `TokenKind.label`: a kind as it is named in a token listing.
- `TokenKind.ofKeyword?`: the keyword that a word is, if it is one.
- `TokenKind.isPrefix`, `isInfix`, `startsOperand`: the classes the grammar is written with.
- `Token`: kind, line and literal.
-/

namespace ScriptLang

/-- The kind of a token. -/
inductive TokenKind where
  | eof
  | illegal
  | unterminatedString
  | ident
  | integer
  | string
  | kwVar
  | kwFun
  | kwReturn
  | kwTrue
  | kwFalse
  | kwIf
  | kwElse
  | kwLoop
  | kwBreak
  | leftParen
  | rightParen
  | leftBrace
  | rightBrace
  | comma
  | semicolon
  | equal
  | bang
  | plus
  | minus
  | star
  | slash
  | lesser
  | greater
  | lesserEqual
  | greaterEqual
  | equalEqual
  | bangEqual
  deriving DecidableEq

namespace TokenKind

/-- A kind as a diagnostic names it. A keyword or a symbol is its own name. -/
def text : TokenKind → String
  | eof => "end of file"
  | illegal => "illegal"
  | unterminatedString => "unterminated string"
  | ident => "identifier"
  | integer => "integer"
  | string => "string"
  | kwVar => "var"
  | kwFun => "fun"
  | kwReturn => "return"
  | kwTrue => "true"
  | kwFalse => "false"
  | kwIf => "if"
  | kwElse => "else"
  | kwLoop => "loop"
  | kwBreak => "break"
  | leftParen => "("
  | rightParen => ")"
  | leftBrace => "\x7b"
  | rightBrace => "\x7d"
  | comma => ","
  | semicolon => ";"
  | equal => "="
  | bang => "!"
  | plus => "+"
  | minus => "-"
  | star => "*"
  | slash => "/"
  | lesser => "<"
  | greater => ">"
  | lesserEqual => "<="
  | greaterEqual => ">="
  | equalEqual => "=="
  | bangEqual => "!="

/-- A kind as a token listing names it. -/
def label : TokenKind → String
  | eof => "Eof"
  | illegal => "Illegal"
  | unterminatedString => "UnterminatedString"
  | ident => "Ident"
  | integer => "Integer"
  | string => "String"
  | kwVar => "Var"
  | kwFun => "Fun"
  | kwReturn => "Return"
  | kwTrue => "True"
  | kwFalse => "False"
  | kwIf => "If"
  | kwElse => "Else"
  | kwLoop => "Loop"
  | kwBreak => "Break"
  | leftParen => "LeftParen"
  | rightParen => "RightParen"
  | leftBrace => "LeftBrace"
  | rightBrace => "RightBrace"
  | comma => "Comma"
  | semicolon => "Semicolon"
  | equal => "Equal"
  | bang => "Bang"
  | plus => "Plus"
  | minus => "Minus"
  | star => "Star"
  | slash => "Slash"
  | lesser => "Lesser"
  | greater => "Greater"
  | lesserEqual => "LesserEqual"
  | greaterEqual => "GreaterEqual"
  | equalEqual => "EqualEqual"
  | bangEqual => "BangEqual"

/-- The keywords of the language. -/
def keywords : List TokenKind :=
  [kwVar, kwFun, kwReturn, kwTrue, kwFalse, kwIf, kwElse, kwLoop, kwBreak]

/-- The keyword that is written as the given word. -/
def ofKeyword? (word : String) : Option TokenKind :=
  keywords.find? (·.text = word)

/-- The operators that may stand before an operand. -/
def isPrefix : TokenKind → Bool
  | bang | plus | minus => true
  | _ => false

/-- The operators that may stand between two operands. -/
def isInfix : TokenKind → Bool
  | plus | minus | star | slash | lesser | greater | lesserEqual | greaterEqual | equalEqual
  | bangEqual => true
  | _ => false

/-- The tokens that can only begin an operand, and so cannot follow a complete one. The signs
are left out: after an operand they are infix. -/
def startsOperand : TokenKind → Bool
  | ident | integer | string | kwTrue | kwFalse | leftParen | bang => true
  | _ => false

end TokenKind

/-- A token of a program: what it is, the line it begins on, and how it was written. -/
structure Token where
  kind : TokenKind
  line : Nat
  literal : String
  deriving DecidableEq

namespace Token

/-- The token of a keyword or symbol, which is always written alike. -/
def ofKind (kind : TokenKind) (line : Nat) : Token := ⟨kind, line, kind.text⟩

@[simp] theorem kind_ofKind (kind : TokenKind) (line : Nat) : (ofKind kind line).kind = kind :=
  rfl

@[simp] theorem line_ofKind (kind : TokenKind) (line : Nat) : (ofKind kind line).line = line :=
  rfl

/-- The token that stands for the end of a source whose last line is given. -/
def eof (line : Nat) : Token := ⟨.eof, line, ""⟩

@[simp] theorem kind_eof (line : Nat) : (eof line).kind = .eof := rfl

end Token
end ScriptLang
