import ScriptLang.Proofs.Depth
import ScriptLang.Proofs.Relined

/-!
# A source on other lines

No rule of the grammar looks at a line; each passes on the lines of the tokens that it has read.
So if the lines of all tokens are sent through a function, then those of the trees and of the
diagnostics are sent through it, whatever the function is. Nor does any rule look at what has
been reported before it began.

- `Reading.Relined`: a reading with its lines sent through a function, behind other diagnostics.
- `Parser.Relines`: parsers that pass lines on, with a rule for each way to build a parser.
- `Rules.level_relines`: a level of the grammar passes lines on if the rules inside of it do.
- `Grammar.statements_relined`: the statements of a source on other lines.
-/

namespace ScriptLang

/-- The diagnostic `d` with `f` applied to its line. -/
def Diagnostic.relined (f : Nat → Nat) (d : Diagnostic) : Diagnostic :=
  { d with line := f d.line }

/-- A reading `r`, and `r'` which is the same with `f` applied to its lines. On either side
there are also the diagnostics that had been reported `before` and `before'`. -/
structure Reading.Relined (f : Nat → Nat) (before before' : List Diagnostic) (r r' : Reading) :
    Prop where
  tokens : r'.tokens = r.tokens.map (Token.relined f)
  endLine : r'.endLine = f r.endLine
  errors : ∃ ds, r.errors = before ++ ds ∧ r'.errors = before' ++ ds.map (Diagnostic.relined f)

namespace Reading.Relined

variable {f : Nat → Nat} {before before' : List Diagnostic} {r r' : Reading}

/-- `headOf` some tokens, which may be the end of the source, is relined with them. -/
theorem headOf (f : Nat → Nat) (ts : List Token) (e : Nat) :
    headOf (ts.map (Token.relined f)) (f e) = (headOf ts e).relined f := by
  cases ts <;> rfl

/-- The current token of `r'` is that of `r`, on another line. -/
theorem current (h : Relined f before before' r r') : r'.current = r.current.relined f := by
  rw [Reading.current, h.tokens, h.endLine, headOf]
  rfl

/-- The token behind the current one is that of `r`, on another line. -/
theorem ahead (h : Relined f before before' r r') : r'.ahead = r.ahead.relined f := by
  rw [Reading.ahead, h.tokens, h.endLine, ← List.map_tail, headOf]
  rfl

/-- Both readings go on alike behind their first token. -/
theorem tail (h : Relined f before before' r r') :
    r'.tokens.tail = r.tokens.tail.map (Token.relined f) := by
  rw [h.tokens, List.map_tail]

end Reading.Relined

namespace Parser

open Reading

/-- `p'` makes of readings that are `Reading.Relined` what `p` makes of the readings, with `g`
applied to the result. -/
def Relines {α : Type} (f : Nat → Nat) (g : α → α) (p p' : Parser α) : Prop :=
  ∀ before before' r r', Relined f before before' r r' →
    (p' r').1 = (p r).1.map g ∧ Relined f before before' (p r).2 (p' r').2

namespace Relines

variable {f : Nat → Nat} {α β : Type} {g : α → α} {h : β → β} {p p' q q' : Parser α}
  {k k' : α → Parser β}

theorem pure {a : α} : Relines f g (pure a) (pure (g a)) := fun _ _ _ _ hr => ⟨rfl, hr⟩

/-- A result `b` that has the lines it should have. -/
theorem pure_of {a b : α} (hab : b = g a) : Relines f g (Pure.pure a) (Pure.pure b) := by
  rw [hab]
  exact .pure

theorem fail : Relines f g fail fail := fun _ _ _ _ hr => ⟨rfl, hr⟩

/-- `Relines` is kept by the monad, if the continuation relines every result. -/
theorem bind (hp : Relines f g p p') (hk : ∀ a, Relines f h (k a) (k' (g a))) :
    Relines f h (p >>= k) (p' >>= k') := by
  intro before before' r r' hr
  obtain ⟨hresult, hrest⟩ := hp before before' r r' hr
  rcases hs : p r with ⟨_ | a, s⟩ <;> rcases hs' : p' r' with ⟨_ | b, s'⟩ <;>
    rw [hs, hs'] at hresult hrest <;> cases hresult
  · rw [bind_of_none hs, bind_of_none hs']
    exact ⟨rfl, hrest⟩
  · rw [bind_of_some hs, bind_of_some hs']
    exact hk a before before' s s' hrest

/-- A choice relines if the condition `c` does not look at lines. -/
theorem ite {c : Prop} [Decidable c] (hp : Relines f g p p') (hq : Relines f g q q') :
    Relines f g (if c then p else q) (if c then p' else q') := by
  split
  · exact hp
  · exact hq

theorem attempt (hp : Relines f g p p') : Relines f (Option.map g) p.attempt p'.attempt := by
  intro before before' r r' hr
  obtain ⟨hresult, hrest⟩ := hp before before' r r' hr
  exact ⟨congrArg some hresult, hrest⟩

theorem current : Relines f (Token.relined f) current current :=
  fun _ _ _ _ hr => ⟨congrArg some hr.current, hr⟩

theorem advance : Relines f (Token.relined f) advance advance :=
  fun _ _ _ _ hr => ⟨congrArg some hr.ahead, hr.tail, hr.endLine, hr.errors⟩

theorem peek : Relines f (Token.relined f) peek peek :=
  fun _ _ _ _ hr => ⟨congrArg some hr.ahead, hr.tokens, hr.endLine, hr.errors⟩

theorem note {event event' : Event} : Relines f id (note event) (note event') :=
  fun _ _ _ _ hr => ⟨rfl, hr.tokens, hr.endLine, hr.errors⟩

/-- What `reportAt` reports on a line becomes a report on the other line. -/
theorem reportAt (line : Nat) (cause : Cause) :
    Relines f id (reportAt line cause) (reportAt (f line) cause) := by
  intro before before' r r' hr
  obtain ⟨ds, hds, hds'⟩ := hr.errors
  refine ⟨rfl, hr.tokens, hr.endLine, ds ++ [⟨line, cause⟩], ?_, ?_⟩
  · show r.errors ++ _ = _
    rw [hds, List.append_assoc]
  · show r'.errors ++ _ = _
    rw [hds', List.append_assoc, List.map_append]
    rfl

/-- `report` takes its line from the current token, which is on the other line already. -/
theorem report (cause : Cause) : Relines f id (report cause) (report cause) :=
  bind current fun _ => reportAt _ cause

theorem reject (cause : Cause) : Relines f g (reject cause) (reject cause) :=
  bind (report cause) fun _ => fail

/-- `Recovery.skip` looks at the kinds of tokens only. -/
theorem skip_relined (how : Recovery) (ts : List Token) (e depth : Nat)
    (journal journal' : Journal) :
    (how.skip (f e) depth (ts.map (Token.relined f)) journal').1 =
      (how.skip e depth ts journal).1.map (Token.relined f) := by
  induction ts generalizing depth journal journal' with
  | nil => rfl
  | cons t ts ih =>
    rw [List.map_cons, Recovery.skip, Recovery.skip, Token.kind_relined]
    split
    · rfl
    · dsimp only
      rw [Relined.headOf, Token.kind_relined]
      split
      · split
        · rfl
        · exact ih _ _ _
      · exact ih _ _ _

/-- `recover` skips as many tokens on either side, since `skip` looks at kinds only. -/
theorem recover (how : Recovery) : Relines f id (recover how) (recover how) := by
  intro before before' r r' hr
  refine ⟨rfl, ?_, hr.endLine, hr.errors⟩
  show (how.skip r'.endLine 0 r'.tokens r'.journal).1 = _
  rw [hr.endLine, hr.tokens]
  exact skip_relined how _ _ _ _ _

/-- To report, to recover and to fail, which is how every construct is given up, `Relines`
itself. -/
theorem giveUp (cause : Cause) (how : Recovery) :
    Relines f g (do Parser.report cause; Parser.recover how; Parser.fail)
      (do Parser.report cause; Parser.recover how; Parser.fail) :=
  .bind (.report cause) fun _ => .bind (.recover how) fun _ => .fail

end Relines
end Parser

namespace Grammar

open ScriptLang.Parser

/-! ## Rules over the parsers of their parts -/

section Rules

variable {f : Nat → Nat} {expression operand statement step : Parser Node}
  {block : Parser Block} {ending : Ending}

/-- `p` parses the nodes of a source on other lines. -/
abbrev Relining (f : Nat → Nat) (p : Parser Node) : Prop := Relines f (Node.relined f) p p

/-- `required` reports on the line of the current token, or nothing. -/
theorem required_relines (h : Relining f expression) :
    Relining f (required ending expression) :=
  .bind .current fun _ => .ite (.reject _) h

theorem group_relines (h : Relining f expression) : Relining f (group expression) :=
  .bind .advance fun _ => required_relines h

/-- `call` takes its line from the token of its callee. -/
theorem call_relines (callee : Token) {arguments : Parser (List Node)}
    (h : Relines f (List.map (Node.relined f)) arguments arguments) :
    Relines f (Node.relined f) (call callee arguments) (call (callee.relined f) arguments) := by
  refine .bind .current fun t => .bind .peek fun _ => .ite ?_ ?_
  · exact .bind .advance fun _ => .pure_of rfl
  · exact .bind h fun args => .pure_of (by simp [Node.relined])

theorem prefixed_relines (h : Relining f operand) : Relining f (prefixed operand) :=
  .bind .current fun _ => .bind .advance fun _ => .bind h fun _ => .pure_of rfl

theorem infixed_relines (left : Node) (h : Relining f operand) :
    Relines f (Node.relined f) (infixed operand left) (infixed operand (left.relined f)) :=
  .bind .current fun _ => .bind .advance fun _ => .bind h fun _ => .pure_of rfl

/-- `fold` puts operators and operands onto the left side, which may be there already. -/
theorem fold_relines (left : Option Node) (h : Relining f operand) :
    Relines f (Node.relined f) (fold operand left)
      (fold operand (left.map (Node.relined f))) := by
  refine .bind .current fun token => ?_
  cases left with
  | none => exact h
  | some left => exact .ite (infixed_relines left h) (.ite (.reject _) h)

/-- What `accepts` on whatever lines may be asked before lines change or after. -/
theorem filter_relined {accepts : Node → Bool}
    (ha : ∀ n : Node, accepts (n.relined f) = accepts n) (n : Option Node) :
    (n.map (Node.relined f)).filter accepts = (n.filter accepts).map (Node.relined f) := by
  rw [Option.filter_map, show accepts ∘ Node.relined f = accepts from funext ha]

theorem isLoopInit_relined (n : Node) : isLoopInit (n.relined f) = isLoopInit n := by
  cases n <;> rfl

theorem isLoopCondition_relined (n : Node) :
    isLoopCondition (n.relined f) = isLoopCondition n := by
  cases n <;> rfl

/-- `isTarget` does not look at lines. -/
theorem isTarget_relined (n : Node) : isTarget (n.relined f) = isTarget n := by cases n <;> rfl

/-- `assign` also asks whether its left side `isTarget`, which has nothing to do with lines. -/
theorem assign_relines (left : Option Node) (h : Relining f expression) :
    Relines f (Node.relined f) (assign ending expression left)
      (assign ending expression (left.map (Node.relined f))) := by
  refine .bind .current fun token => ?_
  rw [filter_relined isTarget_relined]
  cases left.filter isTarget with
  | none => exact .giveUp _ _
  | some target =>
    exact .bind .advance fun _ => .bind (required_relines h) fun _ => .pure_of rfl

/-- `block` takes its line from the token of its opening brace. -/
theorem block_relines {statements : Parser (List Node)}
    (h : Relines f (List.map (Node.relined f)) statements statements) :
    Relines f (Block.relined f) (Grammar.block statements) (Grammar.block statements) := by
  refine .bind .current fun _ => .bind .advance fun _ => .bind h fun ns => ?_
  exact .bind .current fun _ => .ite (.reject _) (.pure_of (by simp [Block.relined]))

theorem blockAhead_relines (h : Relines f (Block.relined f) block block) :
    Relines f (Block.relined f) (blockAhead block) (blockAhead block) :=
  .bind .advance fun _ => .ite h (.reject _)

/-- Both branches of a conditional, the second one if there is an `else`. -/
theorem branches_relines (h : Relines f (Block.relined f) block block) :
    Relines f (Prod.map (Block.relined f) (Option.map (Block.relined f)))
      (branches block) (branches block) :=
  .bind (blockAhead_relines h) fun _ => .bind .peek fun _ =>
    .ite (.bind .advance fun _ => .bind (blockAhead_relines h) fun _ => .pure_of rfl)
      (.pure_of rfl)

theorem conditional_relines (h : Relining f expression)
    (hb : Relines f (Block.relined f) block block) :
    Relining f (conditional expression block) := by
  refine .bind .current fun _ => .bind .advance fun _ => .ite ?_ (.reject _)
  refine .bind (group_relines h) fun _ => .bind (branches_relines hb) fun _ => .pure_of ?_
  simp [Node.relined]

/-- A part of a loop's head, with a test `accepts` that does not look at lines. -/
theorem headerPart_relines {accepts : Node → Bool}
    (ha : ∀ n : Node, accepts (n.relined f) = accepts n) (cause : Cause)
    (h : Relining f expression) : Relining f (headerPart expression accepts cause) := by
  refine .bind (.attempt h) fun part => ?_
  rw [filter_relined ha]
  cases part.filter accepts with
  | none => exact .giveUp _ _
  | some node => exact .pure

/-- What stands behind the condition of a loop, whose `line` has been taken from its keyword. -/
theorem loopRest_relines (h : Relining f step) (hb : Relines f (Block.relined f) block block)
    (line : Nat) (init test : Node) :
    Relines f (Node.relined f) (loopRest step block line init test)
      (loopRest step block (f line) (init.relined f) (test.relined f)) := by
  have hb := blockAhead_relines hb
  exact .bind .current fun _ => .ite (.bind hb fun _ => .pure_of rfl)
    (.bind h fun _ => .bind hb fun _ => .pure_of rfl)

/-- `loop` with any parts of its head, each of which is `Relining`. -/
theorem loop_relines (h : Relining f statement) (he : Relining f expression)
    (hs : Relining f step) (hb : Relines f (Block.relined f) block block) :
    Relining f (loop statement expression step block) := by
  refine .bind .current fun _ => .bind .peek fun _ =>
    .ite ?_ (.bind (blockAhead_relines hb) fun _ => .pure_of rfl)
  refine .bind .advance fun _ => .bind .advance fun _ => ?_
  refine .bind (headerPart_relines isLoopInit_relined _ h) fun _ => .bind .advance fun _ => ?_
  refine .bind (headerPart_relines isLoopCondition_relined _ he) fun _ =>
    .bind .advance fun _ => ?_
  exact loopRest_relines hs hb _ _ _

/-- `function` takes its line from its keyword, and its binder from its name. -/
theorem function_relines {params : Parser (List Binder)}
    (hp : Relines f (List.map (Binder.relined f)) params params)
    (hb : Relines f (Block.relined f) block block) : Relining f (function params block) := by
  refine .bind .current fun _ => .bind .advance fun _ => .ite ?_ (.reject _)
  refine .bind .advance fun _ => .ite ?_ (.reject _)
  exact .bind hp fun _ => .bind (blockAhead_relines hb) fun _ => .bind .note fun _ =>
    .pure_of rfl

/-- A declaration, whose `rest` is an expression that has its left side already. -/
theorem declaration_relines {rest : Option Node → Parser Node}
    (h : ∀ left, Relines f (Node.relined f) (rest left) (rest (left.map (Node.relined f)))) :
    Relining f (declaration rest) :=
  .bind .current fun _ => .bind .advance fun _ =>
    .ite (.bind .advance fun _ => h (some (.declare _ _))) (.giveUp _ _)

theorem returning_relines (h : Relining f expression) : Relining f (returning expression) :=
  .bind .current fun _ => .bind .advance fun _ => .bind (required_relines h) fun _ =>
    .pure_of rfl

/-- `unended` reports on the line of `next`, so it is given that token from the other side. -/
theorem unended_relines {α : Type} {g : α → α} (next : Token) :
    Relines f g (unended ending next) (unended ending (next.relined f)) :=
  .bind (.reportAt _ _) fun _ => .fail

theorem breaking_relines : Relining f breaking :=
  .bind .current fun _ => .bind .peek fun _ =>
    .ite (.bind .advance fun _ => .pure_of rfl) (unended_relines _)

/-- `orRecover` counts a failure as reported on one side if it does on the other. -/
theorem orRecover_relines (h : Relining f statement) :
    Relines f (Option.map (Node.relined f)) (orRecover statement) (orRecover statement) := by
  intro before before' r r' hr
  obtain ⟨ds, hds, hds'⟩ := hr.errors
  obtain ⟨hresult, hrest⟩ := h r.errors r'.errors r r' ⟨hr.tokens, hr.endLine, [], by simp⟩
  rcases hs : statement r with ⟨_ | n, s⟩ <;> rcases hs' : statement r' with ⟨_ | n', s'⟩ <;>
    rw [hs, hs'] at hresult hrest <;> cases hresult <;>
    obtain ⟨new, hnew, hnew'⟩ := hrest.errors
  all_goals
    replace hnew : s.errors = r.errors ++ new := hnew
    replace hnew' : s'.errors = r'.errors ++ new.map (Diagnostic.relined f) := hnew'
    have hrest : Reading.Relined f before before' s s' := by
      refine ⟨hrest.tokens, hrest.endLine, ds ++ new, ?_, ?_⟩
      · rw [hnew, hds, List.append_assoc]
      · rw [hnew', hds', List.append_assoc, List.map_append]
  · -- as many diagnostics are new on either side, so both recover or neither does
    by_cases hnone : new = []
    · subst hnone
      rw [orRecover_of_silent hs (by simp [hnew]), orRecover_of_silent hs' (by simp [hnew'])]
      exact ⟨rfl, hrest⟩
    · have hlength : 0 < new.length := List.length_pos_iff.mpr hnone
      rw [orRecover_of_reported hs (by simp [hnew, hlength]),
        orRecover_of_reported hs' (by simp [hnew', hlength])]
      exact ⟨rfl, (Relines.recover .statement before before' s s' hrest).2⟩
  · rw [orRecover_of_some hs, orRecover_of_some hs']
    exact ⟨rfl, hrest⟩

end Rules
end Grammar

/-! ## Levels of the grammar -/

namespace Rules

open Grammar

/-- The `rules` pass lines on: each is one that `Parser.Relines`. -/
structure Relines (f : Nat → Nat) (rules : Rules) : Prop where
  statement : Relining f rules.statement
  statements : ∀ inBlock, Parser.Relines f (List.map (Node.relined f))
    (rules.statements inBlock) (rules.statements inBlock)
  expression : ∀ ending left, Parser.Relines f (Node.relined f) (rules.expression ending left)
    (rules.expression ending (left.map (Node.relined f)))
  operand : Relining f rules.operand
  arguments : Parser.Relines f (List.map (Node.relined f)) rules.arguments rules.arguments
  parameters : Parser.Relines f (List.map (Binder.relined f)) rules.parameters rules.parameters

section Level

variable {f : Nat → Nat} {rules : Rules} (h : Relines f rules)

include h

/-- One `level` up: a statement relines if the rules below do. -/
theorem statement_relines : Relining f rules.level.statement := by
  have hblock := block_relines (h.statements true)
  have hparams :
      Parser.Relines f (List.map (Binder.relined f)) (parameterList rules)
        (parameterList rules) :=
    .bind .peek fun _ => .ite (.bind .advance fun _ => .pure_of rfl) h.parameters
  refine .bind .current fun ⟨kind, line, literal⟩ => ?_
  dsimp only [Token.relined]
  split
  · exact declaration_relines (h.expression _)
  · exact .bind hblock fun b => .pure_of rfl
  · exact conditional_relines (h.expression _ none) hblock
  · exact loop_relines h.statement (h.expression _ none) (h.expression _ none) hblock
  · exact function_relines hparams hblock
  · exact returning_relines (h.expression _ none)
  · exact breaking_relines
  · exact h.expression _ none

/-- One `level` up: a row of statements, with errors recovered from. -/
theorem statements_relines (inBlock : Bool) :
    Parser.Relines f (List.map (Node.relined f)) (rules.level.statements inBlock)
      (rules.level.statements inBlock) := by
  refine .bind .current fun _ => .ite (.pure_of rfl) ?_
  refine .bind (orRecover_relines h.statement) fun n => .bind .advance fun _ => ?_
  exact .bind (h.statements inBlock) fun ns => .pure_of (by cases n <;> simp)

theorem expression_relines (ending : Ending) (left : Option Node) :
    Parser.Relines f (Node.relined f) (rules.level.expression ending left)
      (rules.level.expression ending (left.map (Node.relined f))) := by
  refine .bind .current fun _ => .ite ?_ (.ite (.reject _) (.ite ?_ ?_))
  · cases left with
    | none => exact .fail
    | some n => exact .pure
  · exact assign_relines left (h.expression ending none)
  · refine .bind (.attempt (fold_relines left h.operand)) fun folded => ?_
    cases folded with
    | none => exact .bind (.recover _) fun _ => .fail
    | some n =>
      exact .bind .peek fun _ =>
        .ite (unended_relines _) (.bind .advance fun _ => h.expression _ (some n))

/-- One `level` up: an operand. -/
theorem operand_relines : Relining f rules.level.operand := by
  refine .bind .current fun ⟨kind, line, literal⟩ => ?_
  dsimp only [Token.relined]
  split
  case h_1 =>
    exact .bind .peek fun _ =>
      .ite (.bind .advance fun _ => call_relines ⟨_, line, literal⟩ h.arguments) (.pure_of rfl)
  case h_2 =>
    split
    · exact .pure_of rfl
    · exact .reject _
  case h_6 => exact group_relines (h.expression _ none)
  case h_7 | h_8 | h_9 => exact prefixed_relines h.operand
  all_goals first | exact .pure_of rfl | exact .reject _

theorem arguments_relines :
    Parser.Relines f (List.map (Node.relined f)) rules.level.arguments
      rules.level.arguments := by
  refine .bind .advance fun _ => .bind (required_relines (h.expression _ none)) fun n => ?_
  exact .bind .current fun _ => .ite (.pure_of rfl) (.bind h.arguments fun ns => .pure_of rfl)

/-- One `level` up: the parameters of a function. -/
theorem parameters_relines :
    Parser.Relines f (List.map (Binder.relined f)) rules.level.parameters
      rules.level.parameters := by
  refine .bind .advance fun ⟨kind, line, literal⟩ => ?_
  dsimp only [Token.relined]
  split
  · refine .bind .advance fun ⟨kind, _, literal⟩ => ?_
    dsimp only [Token.relined]
    split
    · exact .bind h.parameters fun bs => .pure_of rfl
    · exact .pure_of rfl
    · exact .reject _
    · exact .reject _
  · exact .reject _
  · exact .reject _

/-- If the rules reline, so do the rules one `level` up. -/
theorem level_relines : Relines f rules.level :=
  ⟨statement_relines h, statements_relines h, expression_relines h, operand_relines h,
    arguments_relines h, parameters_relines h⟩

end Level
end Rules

namespace Grammar

variable {f : Nat → Nat}

/-- `Grammar.rules` pass lines on, at any depth. -/
theorem rules_relines (depth : Nat) : (rules depth).Relines f := by
  induction depth with
  | zero => exact ⟨.fail, fun _ => .fail, fun _ _ => .fail, .fail, .fail, .fail⟩
  | succ depth ih => exact Rules.level_relines ih

/-- `Rules.statements` on the tokens of a source on other lines, with other diagnostics
`before`. -/
theorem statements_relined (f : Nat → Nat) (depth : Nat) (inBlock : Bool) (ts : List Token)
    (e : Nat) (before : List Diagnostic) (journal journal' : Journal) :
    let run := (rules depth).statements inBlock ⟨ts, e, [], journal⟩
    let run' :=
      (rules depth).statements inBlock ⟨ts.map (Token.relined f), f e, before, journal'⟩
    run'.1 = run.1.map (List.map (Node.relined f)) ∧
      run'.2.errors = before ++ run.2.errors.map (Diagnostic.relined f) := by
  intro run run'
  obtain ⟨hnodes, hrest⟩ := (rules_relines depth).statements inBlock [] before _ _
    (⟨rfl, rfl, [], rfl, by simp⟩ : Reading.Relined f [] before ⟨ts, e, [], journal⟩
      ⟨ts.map (Token.relined f), f e, before, journal'⟩)
  obtain ⟨ds, hds, hds'⟩ := hrest.errors
  refine ⟨hnodes, hds'.trans ?_⟩
  rw [show run.2.errors = ds from hds]

end Grammar
end ScriptLang
