import ScriptLang.Syntax.Grammar

/-!
# Properties that parsers are composed by

All rules of the grammar are built from a few parsers in a few ways. So a property of parsers
that those few have, and that none of those ways destroys, is a property of every rule. A
statement with its recovery, `Grammar.orRecover`, is one of the ways, since it depends on what a
failure has reported.

- `Parser.Composable`: such a property.
- `Rules.Share`: rules that all have a property.
- `Parser.Composable.level`: a level of the grammar has the property if the rules inside of it
  have it.
- `Parser.Composable.rules`: so `Grammar.rules` have it, at any depth.
-/

namespace ScriptLang

/-- All of the `rules` have the property `P` of parsers. -/
structure Rules.Share (P : ∀ {α : Type}, Parser α → Prop) (rules : Rules) : Prop where
  statement : P rules.statement
  statements : ∀ inBlock, P (rules.statements inBlock)
  expression : ∀ ending left, P (rules.expression ending left)
  operand : P rules.operand
  arguments : P rules.arguments
  parameters : P rules.parameters

namespace Parser

open Grammar

/-- A property `P` that parsers have if they are built from parsers that have it. -/
structure Composable (P : ∀ {α : Type}, Parser α → Prop) : Prop where
  pure : ∀ {α : Type} {a : α}, P (Pure.pure a : Parser α)
  fail : ∀ {α : Type}, P (fail : Parser α)
  bind : ∀ {α β : Type} {p : Parser α} {f : α → Parser β}, P p → (∀ a, P (f a)) → P (p >>= f)
  attempt : ∀ {α : Type} {p : Parser α}, P p → P p.attempt
  current : P current
  advance : P advance
  peek : P peek
  note : ∀ {event : Event}, P (note event)
  reportAt : ∀ {line : Nat} {cause : Cause}, P (reportAt line cause)
  recover : ∀ {how : Recovery}, P (recover how)
  orRecover : ∀ {statement : Parser Node}, P statement → P (orRecover statement)

namespace Composable

variable {P : ∀ {α : Type}, Parser α → Prop} (hP : Composable P)

include hP

section Parts

variable {α : Type} {p q : Parser α}

omit hP in
/-- A choice between two parsers with the property. -/
theorem ite {c : Prop} [Decidable c] (hp : P p) (hq : P q) : P (if c then p else q) := by
  split
  · exact hp
  · exact hq

/-- To report a cause is `Parser.reportAt` at the line of the current token. -/
theorem report {cause : Cause} : P (report cause) := hP.bind hP.current fun _ => hP.reportAt

/-- To `reject` is to report and to fail. -/
theorem reject {cause : Cause} : P (reject cause : Parser α) :=
  hP.bind hP.report fun _ => hP.fail

/-- To report, to recover and to fail is how every construct is given up. -/
theorem giveUp {cause : Cause} {how : Recovery} :
    P (do Parser.report cause; Parser.recover how; Parser.fail : Parser α) :=
  hP.bind hP.report fun _ => hP.bind hP.recover fun _ => hP.fail

end Parts

/-! ## Rules over the parsers of their parts -/

section Rules

variable {expression operand statement step : Parser Node} {body : Parser Block}
  {ending : Ending}

/-- `Grammar.required` only looks at the current token before the expression. -/
theorem required (h : P expression) : P (required ending expression) :=
  hP.bind hP.current fun _ => ite hP.reject h

/-- A `group` is an expression that may not be empty, behind its parenthesis. -/
theorem group (h : P expression) : P (group expression) :=
  hP.bind hP.advance fun _ => hP.required h

/-- A `call` without arguments, or with the parser of its `arguments`. -/
theorem call {callee : Token} {arguments : Parser (List Node)} (h : P arguments) :
    P (call callee arguments) :=
  hP.bind hP.current fun _ => hP.bind hP.peek fun _ =>
    ite (hP.bind hP.advance fun _ => hP.pure) (hP.bind h fun _ => hP.pure)

/-- A `prefixed` expression is an operand behind its operator. -/
theorem prefixed (h : P operand) : P (prefixed operand) :=
  hP.bind hP.current fun _ => hP.bind hP.advance fun _ => hP.bind h fun _ => hP.pure

/-- An `infixed` expression is an operand behind its operator, with `left` already read. -/
theorem infixed {left : Node} (h : P operand) : P (infixed operand left) :=
  hP.bind hP.current fun _ => hP.bind hP.advance fun _ => hP.bind h fun _ => hP.pure

/-- `Grammar.fold` is an infix operator or an operand, or it rejects the token. -/
theorem fold {left : Option Node} (h : P operand) : P (fold operand left) := by
  refine hP.bind hP.current fun token => ?_
  split
  · exact ite (hP.infixed h) (ite hP.reject h)
  · exact h

/-- An `assign` to a target, or a construct that is given up. -/
theorem assign {left : Option Node} (h : P expression) : P (assign ending expression left) := by
  refine hP.bind hP.current fun token => ?_
  split
  · exact hP.bind hP.advance fun _ => hP.bind (hP.required h) fun _ => hP.pure
  · exact hP.giveUp

/-- A `block` is its statements, with the braces around them. -/
theorem block {statements : Parser (List Node)} (h : P statements) :
    P (Grammar.block statements) :=
  hP.bind hP.current fun _ => hP.bind hP.advance fun _ => hP.bind h fun _ =>
      hP.bind hP.current fun _ =>
    ite hP.reject hP.pure

/-- A block behind the current token, or a token to `reject`. -/
theorem blockAhead (h : P body) : P (blockAhead body) :=
  hP.bind hP.advance fun _ => ite h hP.reject

/-- The block of a conditional, and the one behind `else` if there is one. -/
theorem branches (h : P body) : P (branches body) :=
  hP.bind (hP.blockAhead h) fun _ => hP.bind hP.peek fun _ =>
    ite (hP.bind hP.advance fun _ => hP.bind (hP.blockAhead h) fun _ => hP.pure) hP.pure

/-- A `conditional` is a group and its branches. -/
theorem conditional (h : P expression) (hb : P body) : P (conditional expression body) :=
  hP.bind hP.current fun _ => hP.bind hP.advance fun _ =>
    ite (hP.bind (hP.group h) fun _ => hP.bind (hP.branches hb) fun _ => hP.pure) hP.reject

/-- A part of the head of a loop, or a head that is given up. -/
theorem headerPart {accepts : Node → Bool} {cause : Cause} (h : P expression) :
    P (headerPart expression accepts cause) := by
  refine hP.bind (hP.attempt h) fun part => ?_
  split
  · exact hP.pure
  · exact hP.giveUp

/-- Behind its condition a loop has a step, or the end of its head, and its body. -/
theorem loopRest (h : P step) (hb : P body) (line : Nat) (init test : Node) :
    P (loopRest step body line init test) := by
  have hb := hP.blockAhead hb
  exact hP.bind hP.current fun _ =>
    ite (hP.bind hb fun _ => hP.pure) (hP.bind h fun _ => hP.bind hb fun _ => hP.pure)

/-- A `loop` is its head, if it has one, of which `loopRest` is the last part, and its body. -/
theorem loop (h : P statement) (he : P expression) (hs : P step) (hb : P body) :
    P (loop statement expression step body) := by
  refine hP.bind hP.current fun _ => hP.bind hP.peek fun _ =>
    ite ?_ (hP.bind (hP.blockAhead hb) fun _ => hP.pure)
  refine hP.bind hP.advance fun _ => hP.bind hP.advance fun _ => ?_
  refine hP.bind (hP.headerPart h) fun _ => hP.bind hP.advance fun _ => ?_
  refine hP.bind (hP.headerPart he) fun _ => hP.bind hP.advance fun _ => ?_
  exact hP.loopRest hs hb _ _ _

/-- A `function` is its name, its parameters and its body. -/
theorem function {params : Parser (List Binder)} (hp : P params) (hb : P body) :
    P (function params body) := by
  refine hP.bind hP.current fun _ => hP.bind hP.advance fun _ => ite ?_ hP.reject
  refine hP.bind hP.advance fun _ => ite ?_ hP.reject
  exact hP.bind hp fun _ => hP.bind (hP.blockAhead hb) fun _ => hP.bind hP.note fun _ => hP.pure

/-- A `declaration`, with whatever expression it begins. -/
theorem declaration {rest : Option Node → Parser Node} (h : ∀ n, P (rest n)) :
    P (declaration rest) :=
  hP.bind hP.current fun _ => hP.bind hP.advance fun _ =>
    ite (hP.bind hP.advance fun _ => h _) hP.giveUp

/-- A return is an expression that may not be empty. -/
theorem returning (h : P expression) : P (returning expression) :=
  hP.bind hP.current fun _ => hP.bind hP.advance fun _ =>
    hP.bind (hP.required h) fun _ => hP.pure

/-- An `unended` construct is reported at the next token. -/
theorem unended {α : Type} {next : Token} : P (unended ending next : Parser α) :=
  hP.bind hP.reportAt fun _ => hP.fail

/-- A `breaking` statement, or a construct that is `unended`. -/
theorem breaking : P breaking :=
  hP.bind hP.current fun _ => hP.bind hP.peek fun _ =>
    ite (hP.bind hP.advance fun _ => hP.pure) hP.unended

end Rules

/-! ## The recursive rules -/

section Level

variable {inner : Rules} (h : inner.Share P)

include h

/-- A closing parenthesis, or the parameters in front of one. -/
theorem parameterList : P (parameterList inner) :=
  hP.bind hP.peek fun _ => ite (hP.bind hP.advance fun _ => hP.pure) h.parameters

/-- Each kind of `statement` is a rule over the parsers of its parts. -/
theorem statement : P (Grammar.statement inner) := by
  have hblock := hP.block (h.statements true)
  refine hP.bind hP.current fun token => ?_
  split
  · exact hP.declaration fun left => h.expression _ left
  · exact hP.bind hblock fun _ => hP.pure
  · exact hP.conditional (h.expression _ _) hblock
  · exact hP.loop h.statement (h.expression _ _) (h.expression _ _) hblock
  · exact hP.function (hP.parameterList h) hblock
  · exact hP.returning (h.expression _ _)
  · exact hP.breaking
  · exact h.expression _ _

/-- `Grammar.statements` is where `Grammar.orRecover` is used. -/
theorem statements (inBlock : Bool) : P (Grammar.statements inner inBlock) :=
  hP.bind hP.current fun _ => ite hP.pure (hP.bind (hP.orRecover h.statement) fun _ =>
    hP.bind hP.advance fun _ => hP.bind (h.statements inBlock) fun _ => hP.pure)

/-- A turn of `Grammar.expression` is one of its endings, an assignment, or a fold and what is
behind it. -/
theorem expression (ending : Ending) (left : Option Node) :
    P (Grammar.expression inner ending left) := by
  refine hP.bind hP.current fun token => ite ?_ (ite hP.reject (ite ?_ ?_))
  · split
    · exact hP.pure
    · exact hP.fail
  · exact hP.assign (h.expression _ _)
  · refine hP.bind (hP.attempt (hP.fold h.operand)) fun folded => ?_
    split
    · exact hP.bind hP.recover fun _ => hP.fail
    · exact hP.bind hP.peek fun _ =>
        ite hP.unended (hP.bind hP.advance fun _ => h.expression _ _)

/-- Only names, groups and prefix operators go on behind the first token of an `operand`. -/
theorem operand : P (Grammar.operand inner) := by
  refine hP.bind hP.current fun token => ?_
  split
  case h_1 =>
    exact hP.bind hP.peek fun _ => ite (hP.bind hP.advance fun _ => hP.call h.arguments) hP.pure
  case h_2 =>
    split
    · exact hP.pure
    · exact hP.reject
  case h_6 => exact hP.group (h.expression _ _)
  case h_7 | h_8 | h_9 => exact hP.prefixed h.operand
  all_goals first | exact hP.pure | exact hP.reject

/-- The `arguments` are one, and the rest of them unless it is the last one. -/
theorem arguments : P (Grammar.arguments inner) :=
  hP.bind hP.advance fun _ => hP.bind (hP.required (h.expression _ _)) fun _ =>
    hP.bind hP.current fun _ => ite hP.pure (hP.bind h.arguments fun _ => hP.pure)

/-- The `parameters` are a name, and the rest of them unless it is the last one. -/
theorem parameters : P (Grammar.parameters inner) := by
  refine hP.bind hP.advance fun name => ?_
  split
  · refine hP.bind hP.advance fun separator => ?_
    split
    · exact hP.bind h.parameters fun _ => hP.pure
    · exact hP.pure
    · exact hP.reject
    · exact hP.reject
  · exact hP.reject
  · exact hP.reject

/-- One level of the grammar, `Rules.level`, keeps the property. -/
theorem level : inner.level.Share P where
  statement := hP.statement h
  statements := hP.statements h
  expression := hP.expression h
  operand := hP.operand h
  arguments := hP.arguments h
  parameters := hP.parameters h

end Level

/-- A property that is `Composable` is shared by all of `Grammar.rules`, at any depth. -/
theorem rules (depth : Nat) : (rules depth).Share P := by
  induction depth with
  | zero => exact ⟨hP.fail, fun _ => hP.fail, fun _ _ => hP.fail, hP.fail, hP.fail, hP.fail⟩
  | succ depth ih => exact hP.level ih

end Composable
end Parser
end ScriptLang
