import ScriptLang.Syntax.Grammar

/-!
# The grammar as a relation

What the token lists of the language are, and which trees they stand for, is said here without
any parser: a form of the grammar *derives* a list of tokens and gives the trees that it stands
for.

    program    = statement*
    statement  = ';' | 'var' NAME tail ';' | 'var' NAME '=' expression ';' | block
               | 'if' '(' expression ')' block ['else' block] | 'loop' block
               | 'loop' '(' init condition ';' [expression] ')' block
               | 'fun' NAME '(' [NAME (',' NAME)*] ')' block
               | 'return' expression ';' | 'break' ';' | expression ';'
    block      = '{' statement* '}'
    expression = target '=' expression | operand tail
    tail       = (infix operand)*
    operand    = INTEGER | STRING | 'true' | 'false' | NAME | NAME '(' [arguments] ')'
               | '(' expression ')' | prefix operand
    arguments  = expression (',' expression)*

A target is a name in any number of parentheses, an init is a statement whose tree is an
assignment, and a condition is an expression whose tree is infix. A tail belongs to the tree on
its left and grows it to the right, so chains of infix operators nest to the left.

- `Grammar.Derives`: the relation, over the forms in `Grammar.Form`.
- `Grammar.Derives.opening`: the kinds of token that a form may begin with.
-/

namespace ScriptLang.Grammar

/-- A name, in zero or more parentheses. -/
inductive Target : List Token → Node → Prop
  | name {t : Token} : t.kind = .ident → Target [t] (.ident t.line t.literal)
  | group {l r : Token} {ts : List Token} {n : Node} :
      l.kind = .leftParen → Target ts n → r.kind = .rightParen → Target (l :: ts ++ [r]) n

/-- Names with commas between them. -/
inductive Names : List Token → List Binder → Prop
  | one {t : Token} : t.kind = .ident → Names [t] [⟨t.line, t.literal⟩]
  | more {t c : Token} {ts : List Token} {bs : List Binder} :
      t.kind = .ident → c.kind = .comma → Names ts bs →
      Names (t :: c :: ts) (⟨t.line, t.literal⟩ :: bs)

/-- The tokens `ts` of a parameter list between its parentheses: `Names`, or nothing. -/
def Parameters (ts : List Token) (bs : List Binder) : Prop :=
  ts = [] ∧ bs = [] ∨ Names ts bs

/-- The forms of the grammar, for which `Derives` has rules. -/
inductive Form where
  | operand
  /-- Infix operators with their right operands, behind a tree. -/
  | tail (left : Node)
  | expression
  | arguments
  | block
  | statement
  | statements

/-- The rules of the grammar. A `Form` derives a list of tokens and gives the trees it stands
for: none for an empty statement, one for any other statement, a block or an expression, and one
for each member of a list. -/
inductive Derives : Form → List Token → List Node → Prop
  | integer {t : Token} {v : Int64} :
      t.kind = .integer → Text.readInt? t.literal.toList = some v →
      Derives .operand [t] [.integer t v]
  | string {t : Token} : t.kind = .string → Derives .operand [t] [.string t.line t.literal]
  | kwTrue {t : Token} : t.kind = .kwTrue → Derives .operand [t] [.boolean t.line true]
  | kwFalse {t : Token} : t.kind = .kwFalse → Derives .operand [t] [.boolean t.line false]
  | name {t : Token} : t.kind = .ident → Derives .operand [t] [.ident t.line t.literal]
  | emptyCall {t l r : Token} :
      t.kind = .ident → l.kind = .leftParen → r.kind = .rightParen →
      Derives .operand [t, l, r] [.call l.line (.ident t.line t.literal) []]
  | call {t l r : Token} {ts : List Token} {args : List Node} :
      t.kind = .ident → l.kind = .leftParen → Derives .arguments ts args →
      r.kind = .rightParen →
      Derives .operand (t :: l :: ts ++ [r]) [.call l.line (.ident t.line t.literal) args]
  | group {l r : Token} {ts : List Token} {n : Node} :
      l.kind = .leftParen → Derives .expression ts [n] → r.kind = .rightParen →
      Derives .operand (l :: ts ++ [r]) [n]
  | prefixed {o : Token} {ts : List Token} {n : Node} :
      o.kind.isPrefix → Derives .operand ts [n] → Derives .operand (o :: ts) [.prefixed o n]
  | noTail {left : Node} : Derives (.tail left) [] [left]
  | infixed {o : Token} {ts us : List Token} {left right n : Node} :
      o.kind.isInfix → Derives .operand ts [right] →
      Derives (.tail (.infixed o left right)) us [n] → Derives (.tail left) (o :: ts ++ us) [n]
  | assign {e : Token} {ts us : List Token} {target value : Node} :
      Target ts target → e.kind = .equal → Derives .expression us [value] →
      Derives .expression (ts ++ e :: us) [.assign e.line target value]
  | chain {ts us : List Token} {first n : Node} :
      Derives .operand ts [first] → Derives (.tail first) us [n] →
      Derives .expression (ts ++ us) [n]
  | lastArgument {ts : List Token} {n : Node} :
      Derives .expression ts [n] → Derives .arguments ts [n]
  | moreArguments {c : Token} {ts us : List Token} {n : Node} {ns : List Node} :
      Derives .expression ts [n] → c.kind = .comma → Derives .arguments us ns →
      Derives .arguments (ts ++ c :: us) (n :: ns)
  | block {l r : Token} {ts : List Token} {ns : List Node} :
      l.kind = .leftBrace → Derives .statements ts ns → r.kind = .rightBrace →
      Derives .block (l :: ts ++ [r]) [.block ⟨l.line, ns⟩]
  | empty {s : Token} : s.kind = .semicolon → Derives .statement [s] []
  | declaration {v t s : Token} {ts : List Token} {n : Node} :
      v.kind = .kwVar → t.kind = .ident →
      Derives (.tail (.declare v ⟨t.line, t.literal⟩)) ts [n] → s.kind = .semicolon →
      Derives .statement (v :: t :: ts ++ [s]) [n]
  | initialized {v t e s : Token} {ts : List Token} {value : Node} :
      v.kind = .kwVar → t.kind = .ident → e.kind = .equal → Derives .expression ts [value] →
      s.kind = .semicolon →
      Derives .statement (v :: t :: e :: ts ++ [s])
        [.assign e.line (.declare v ⟨t.line, t.literal⟩) value]
  | blockStatement {ts : List Token} {n : Node} :
      Derives .block ts [n] → Derives .statement ts [n]
  | conditional {i l r : Token} {ts us : List Token} {test : Node} {thenBlock : Block} :
      i.kind = .kwIf → l.kind = .leftParen → Derives .expression ts [test] →
      r.kind = .rightParen → Derives .block us [.block thenBlock] →
      Derives .statement (i :: l :: ts ++ r :: us) [.conditional i.line test thenBlock none]
  | conditionalElse {i l r e : Token} {ts us vs : List Token} {test : Node}
      {thenBlock elseBlock : Block} :
      i.kind = .kwIf → l.kind = .leftParen → Derives .expression ts [test] →
      r.kind = .rightParen → Derives .block us [.block thenBlock] → e.kind = .kwElse →
      Derives .block vs [.block elseBlock] →
      Derives .statement (i :: l :: ts ++ r :: us ++ e :: vs)
        [.conditional i.line test thenBlock (some elseBlock)]
  | bareLoop {k : Token} {us : List Token} {body : Block} :
      k.kind = .kwLoop → Derives .block us [.block body] →
      Derives .statement (k :: us) [.loop k.line none (.boolean k.line true) none body]
  | loop {k l s r : Token} {is ts us : List Token} {init test : Node} {body : Block} :
      k.kind = .kwLoop → l.kind = .leftParen → Derives .statement is [init] → isLoopInit init →
      Derives .expression ts [test] → isLoopCondition test → s.kind = .semicolon →
      r.kind = .rightParen → Derives .block us [.block body] →
      Derives .statement (k :: l :: is ++ ts ++ s :: r :: us)
        [.loop k.line (some init) test none body]
  | loopStep {k l s r : Token} {is ts ps us : List Token} {init test step : Node}
      {body : Block} :
      k.kind = .kwLoop → l.kind = .leftParen → Derives .statement is [init] →
      isLoopInit init → Derives .expression ts [test] → isLoopCondition test →
      s.kind = .semicolon → Derives .expression ps [step] → r.kind = .rightParen →
      Derives .block us [.block body] →
      Derives .statement (k :: l :: is ++ ts ++ s :: ps ++ r :: us)
        [.loop k.line (some init) test (some step) body]
  | function {k t l r : Token} {ps us : List Token} {params : List Binder} {body : Block} :
      k.kind = .kwFun → t.kind = .ident → l.kind = .leftParen → Parameters ps params →
      r.kind = .rightParen → Derives .block us [.block body] →
      Derives .statement (k :: t :: l :: ps ++ r :: us)
        [.function k.line ⟨t.line, t.literal⟩ params body]
  | returning {k s : Token} {ts : List Token} {value : Node} :
      k.kind = .kwReturn → Derives .expression ts [value] → s.kind = .semicolon →
      Derives .statement (k :: ts ++ [s]) [.returning k.line value]
  | breaking {k s : Token} :
      k.kind = .kwBreak → s.kind = .semicolon → Derives .statement [k, s] [.breaking k.line]
  | expressionStatement {s : Token} {ts : List Token} {n : Node} :
      Derives .expression ts [n] → s.kind = .semicolon → Derives .statement (ts ++ [s]) [n]
  | noStatements : Derives .statements [] []
  | statements {ts us : List Token} {ns ms : List Node} :
      Derives .statement ts ns → Derives .statements us ms →
      Derives .statements (ts ++ us) (ns ++ ms)

/-- An operand is an expression. -/
theorem Derives.lone {ts : List Token} {n : Node} (h : Derives .operand ts [n]) :
    Derives .expression ts [n] := by
  have h := Derives.chain h .noTail
  rwa [List.append_nil] at h

/-- What `Derives` statements may stand behind statements. -/
theorem Derives.append {ts us : List Token} {ns ms : List Node} (h : Derives .statements ts ns)
    (h' : Derives .statements us ms) : Derives .statements (ts ++ us) (ns ++ ms) := by
  generalize hform : Form.statements = form at h
  induction h with
  | noStatements => exact h'
  | statements hs _ _ ih =>
    rw [List.append_assoc, List.append_assoc]
    exact .statements hs (ih hform)
  | _ => cases hform

/-! ## How a form begins -/

/-- A token of this `kind` may begin an operand. -/
def opensOperand (kind : TokenKind) : Bool := kind.startsOperand || kind.isPrefix

/-- The kinds of token that a statement may begin with. -/
def opensStatement : TokenKind → Bool
  | .semicolon | .kwVar | .leftBrace | .kwIf | .kwLoop | .kwFun | .kwReturn | .kwBreak => true
  | kind => opensOperand kind

/-- The kinds of token that a form may begin with. -/
def Form.opensWith : Form → TokenKind → Bool
  | operand | expression | arguments => opensOperand
  | tail _ => TokenKind.isInfix
  | block => fun kind => kind = .leftBrace
  | statement | statements => opensStatement

/-- The forms that may derive no tokens at all. -/
def Form.mayBeEmpty : Form → Bool
  | tail _ | statements => true
  | _ => false

theorem opensStatement_of_opensOperand {kind : TokenKind} (h : opensOperand kind) :
    opensStatement kind := by
  revert h
  cases kind <;> decide

theorem Target.opening {ts : List Token} {n : Node} (h : Target ts n) :
    ∃ t us, ts = t :: us ∧ opensOperand t.kind := by
  cases h with
  | name ht => exact ⟨_, _, rfl, by rw [ht]; rfl⟩
  | group hl => exact ⟨_, _, rfl, by rw [hl]; rfl⟩

/-- A form `Form.opensWith` the first token it derives, unless it derives no tokens. -/
theorem Derives.opening {form : Form} {ts : List Token} {ns : List Node}
    (h : Derives form ts ns) :
    (ts = [] ∧ form.mayBeEmpty) ∨ ∃ t us, ts = t :: us ∧ form.opensWith t.kind := by
  induction h with
  | integer ht | string ht | kwTrue ht | kwFalse ht | name ht | emptyCall ht | call ht =>
    exact .inr ⟨_, _, rfl, by rw [ht]; rfl⟩
  | group hl => exact .inr ⟨_, _, rfl, by rw [hl]; rfl⟩
  | prefixed ho => exact .inr ⟨_, _, rfl, by simp [Form.opensWith, opensOperand, ho]⟩
  | noTail | noStatements => exact .inl ⟨rfl, rfl⟩
  | infixed ho => exact .inr ⟨_, _, rfl, ho⟩
  | assign ht =>
    obtain ⟨t, us, rfl, ho⟩ := ht.opening
    exact .inr ⟨t, _, rfl, ho⟩
  -- the first token is that of an operand or an expression, since neither is empty
  | chain _ _ ih | moreArguments _ _ _ ih =>
    obtain ⟨-, ⟨⟩⟩ | ⟨t, us, rfl, ht⟩ := ih
    exact .inr ⟨t, _, rfl, ht⟩
  | lastArgument _ ih => exact ih
  | block hl => exact .inr ⟨_, _, rfl, by rw [hl]; rfl⟩
  | empty hk | declaration hk | initialized hk | conditional hk | conditionalElse hk
  | bareLoop hk | loop hk | loopStep hk | function hk | returning hk | breaking hk =>
    exact .inr ⟨_, _, rfl, by rw [hk]; rfl⟩
  | blockStatement _ ih =>
    obtain ⟨-, ⟨⟩⟩ | ⟨t, us, rfl, ht⟩ := ih
    exact .inr ⟨t, us, rfl, by rw [of_decide_eq_true ht]; rfl⟩
  | expressionStatement _ _ ih =>
    obtain ⟨-, ⟨⟩⟩ | ⟨t, us, rfl, ht⟩ := ih
    exact .inr ⟨t, _, rfl, opensStatement_of_opensOperand ht⟩
  | statements _ _ ih ihs =>
    obtain ⟨-, ⟨⟩⟩ | ⟨t, us, rfl, ht⟩ := ih
    exact .inr ⟨t, _, rfl, ht⟩

end ScriptLang.Grammar
