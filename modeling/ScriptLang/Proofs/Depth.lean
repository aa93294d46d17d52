import ScriptLang.Proofs.Advance

/-!
# Depth enough

The recursive rules are cut off at a depth, beyond which nothing is parsed. The cut is never
reached: a rule is only used on fewer tokens than the rule that uses it, or else on the same
tokens by a rule that stands higher, and at the end of the source no rule goes on. So it does
not matter what would be parsed beyond the cut, nor where the cut is, as long as it leaves four
levels for each token.

To say so, the parsers beyond the cut are left open: `Rules.nest` puts levels of the grammar
over any rules, and `Grammar.rules` are levels over rules that fail.

- `Parser.Agree`: parsers that come to the same on so many tokens, with a rule for each way to
  build a parser.
- `Rules.level_agree`: a level makes more rules agree.
- `Package.parse_terminates`: what a source parses into is what any depth beyond some amount
  comes to.
-/

namespace ScriptLang

open Reading ScriptLang.Parser

/-! ## Parsers that agree -/

namespace Parser

/-- `p` and `p'` come to the same wherever at most `n` tokens are left, and only go on from
there. -/
def Agree {α : Type} (n : Nat) (p p' : Parser α) : Prop :=
  ∀ r : Reading, r.tokens.length ≤ n → p r = p' r ∧ Later r (p r).2

/-- The parser `p` fails wherever at most `n` tokens are left. -/
def Fails {α : Type} (n : Nat) (p : Parser α) : Prop :=
  ∀ r : Reading, r.tokens.length ≤ n → (p r).1 = none

/-- The parser `p` succeeds wherever at most `n` tokens are left. -/
def Succeeds {α : Type} (n : Nat) (p : Parser α) : Prop :=
  ∀ r : Reading, r.tokens.length ≤ n → (p r).1.isSome

theorem tokens_eq_nil {r : Reading} (hr : r.tokens.length ≤ 0) : r.tokens = [] :=
  List.length_eq_zero_iff.mp (Nat.le_zero.mp hr)

/-- With no tokens left, `current` is the end of the source. -/
theorem current_of_nil {r : Reading} (hr : r.tokens.length ≤ 0) :
    r.current = .eof r.endLine := by
  rw [Reading.current, tokens_eq_nil hr]
  rfl

theorem ahead_of_nil {r : Reading} (hr : r.tokens.length ≤ 0) : r.ahead = .eof r.endLine := by
  rw [Reading.ahead, tokens_eq_nil hr]
  rfl

/-- `advance` leaves a token fewer, if there is one. -/
theorem length_advance_le {r : Reading} {n m : Nat} (hr : r.tokens.length ≤ n)
    (hn : n ≤ m + 1) : (advance r).2.tokens.length ≤ m := by
  show r.tokens.tail.length ≤ m
  rw [List.length_tail]
  omega

section Agreement

variable {α β : Type} {n m : Nat} {p p' q q' : Parser α} {f f' : α → Parser β}

namespace Agree

/-- A parser that `Advances` agrees with itself. -/
protected theorem refl (h : Advances p) : Agree n p p := fun r _ => ⟨rfl, h r⟩

theorem pure {a : α} : Agree n (pure a : Parser α) (pure a) := .refl .pure

theorem fail : Agree n (fail : Parser α) fail := .refl .fail

theorem reject {cause : Cause} : Agree n (reject cause : Parser α) (reject cause) :=
  .refl advancing.reject

/-- Parsers in a row agree, as `f` and `f'` are run where no more tokens are left than for
`p`. -/
theorem bind (hp : Agree n p p') (hf : ∀ a, Agree n (f a) (f' a)) :
    Agree n (p >>= f) (p' >>= f') := by
  intro r hr
  obtain ⟨heq, hlater⟩ := hp r hr
  rcases h : p r with ⟨_ | a, s⟩ <;> rw [h] at heq hlater
  · rw [bind_of_none h, bind_of_none heq.symm]
    exact ⟨rfl, hlater⟩
  · rw [bind_of_some h, bind_of_some heq.symm]
    obtain ⟨hf, hs⟩ := hf a s (Nat.le_trans hlater.tokens.length_le hr)
    exact ⟨hf, hlater.trans hs⟩

/-- What would come behind a `p` that fails does not matter, so `f` and `f'` need not agree. -/
theorem bind_of_fails (hp : Agree n p p') (h : Fails n p) : Agree n (p >>= f) (p' >>= f') := by
  intro r hr
  obtain ⟨heq, hlater⟩ := hp r hr
  have hnone : p r = (none, (p r).2) := Prod.ext (h r hr) rfl
  rw [bind_of_none hnone, bind_of_none (heq ▸ hnone)]
  exact ⟨heq ▸ rfl, hlater⟩

theorem bind_current {f f' : Token → Parser β} (h : ∀ t, Agree n (f t) (f' t)) :
    Agree n (current >>= f) (current >>= f') :=
  bind (.refl .current) h

theorem bind_peek {f f' : Token → Parser β} (h : ∀ t, Agree n (f t) (f' t)) :
    Agree n (peek >>= f) (peek >>= f') :=
  bind (.refl .peek) h

/-- Behind `advance` there is one token less. -/
theorem bind_advance {f f' : Token → Parser β} (hn : n ≤ m + 1)
    (h : ∀ t, Agree m (f t) (f' t)) : Agree n (advance >>= f) (advance >>= f') := by
  intro r hr
  obtain ⟨hf, hs⟩ := h r.ahead (advance r).2 (length_advance_le hr hn)
  exact ⟨hf, (Advances.advance r).trans hs⟩

/-- With no tokens left, all that `current` gives is the end of the source. -/
theorem bind_current_of_nil {f f' : Token → Parser β}
    (h : ∀ line, Agree 0 (f (.eof line)) (f' (.eof line))) :
    Agree 0 (current >>= f) (current >>= f') := by
  intro r hr
  show f r.current r = f' r.current r ∧ Later r (f r.current r).2
  rw [current_of_nil hr]
  exact h _ r hr

/-- With no tokens left, `advance` leads to the end of the source again. -/
theorem bind_advance_of_nil {f f' : Token → Parser β}
    (h : ∀ line, Agree 0 (f (.eof line)) (f' (.eof line))) :
    Agree 0 (advance >>= f) (advance >>= f') := by
  intro r hr
  obtain ⟨hf, hs⟩ := h r.endLine (advance r).2 (length_advance_le hr (Nat.zero_le _))
  rw [← ahead_of_nil hr] at hf hs
  exact ⟨hf, (Advances.advance r).trans hs⟩

theorem ite {c : Prop} [Decidable c] (hp : Agree n p p') (hq : Agree n q q') :
    Agree n (if c then p else q) (if c then p' else q') := by
  split
  · exact hp
  · exact hq

/-- The attempts at `p` and `p'` agree if `p` and `p'` do. -/
theorem attempt (hp : Agree n p p') : Agree n p.attempt p'.attempt := by
  intro r hr
  obtain ⟨heq, hlater⟩ := hp r hr
  refine ⟨?_, hlater⟩
  rw [Parser.attempt, Parser.attempt, heq]

end Agree

namespace Succeeds

/-- If `p` agrees with any parser it leaves no more tokens than it finds, so `f`, which succeeds
on as many, succeeds behind it. -/
theorem bind (ha : Agree n p p') (hp : Succeeds n p) (hf : ∀ a, Succeeds n (f a)) :
    Succeeds n (p >>= f) := by
  intro r hr
  obtain ⟨a, h⟩ := Option.isSome_iff_exists.mp (hp r hr)
  rw [bind_of_some (Prod.ext h rfl)]
  exact hf a _ (Nat.le_trans (ha r hr).2.tokens.length_le hr)

theorem bind_advance {f : Token → Parser β} (hn : n ≤ m + 1) (h : ∀ t, Succeeds m (f t)) :
    Succeeds n (advance >>= f) :=
  fun r hr => h r.ahead (advance r).2 (length_advance_le hr hn)

theorem ite {c : Prop} [Decidable c] (hp : Succeeds n p) (hq : Succeeds n q) :
    Succeeds n (if c then p else q) := by
  split
  · exact hp
  · exact hq

end Succeeds
end Agreement
end Parser

namespace Grammar

/-! ### Rules over the parsers of their parts -/

section Agreement

variable {n m : Nat}
  {expression expression' operand operand' statement statement' step step' : Parser Node}
  {block block' : Parser Block} {ending : Ending}

theorem required_agree (h : Agree n expression expression') :
    Agree n (required ending expression) (required ending expression') :=
  .bind_current fun _ => .ite .reject h

/-- Behind its parenthesis a group has a token fewer, so its expression has to agree on `m`
tokens only. So it is with every rule below that passes on first. -/
theorem group_agree (h : Agree m expression expression') (hn : n ≤ m + 1) :
    Agree n (group expression) (group expression') :=
  .bind_advance hn fun _ => required_agree h

theorem call_agree {callee : Token} {arguments arguments' : Parser (List Node)}
    (h : Agree n arguments arguments') :
    Agree n (call callee arguments) (call callee arguments') :=
  .bind_current fun _ => .bind_peek fun _ =>
    .ite (.bind (.refl .advance) fun _ => .pure) (.bind h fun _ => .pure)

theorem prefixed_agree (h : Agree m operand operand') (hn : n ≤ m + 1) :
    Agree n (prefixed operand) (prefixed operand') :=
  .bind_current fun _ => .bind_advance hn fun _ => .bind h fun _ => .pure

/-- `fold` reads an operand, either at once or behind an operator. -/
theorem fold_agree {left : Option Node} (h : Agree n operand operand') :
    Agree n (fold operand left) (fold operand' left) := by
  refine .bind_current fun token => ?_
  split
  · refine .ite (.bind_current fun _ => ?_) (.ite .reject h)
    exact .bind (.refl .advance) fun _ => .bind h fun _ => .pure
  · exact h

/-- The value of an assignment is behind its equals sign, so `expression` is run with one token
less. -/
theorem assign_agree {left : Option Node} (h : Agree m expression expression')
    (hn : n ≤ m + 1) :
    Agree n (assign ending expression left) (assign ending expression' left) := by
  refine .bind_current fun token => ?_
  split
  · exact .bind_advance hn fun _ => .bind (required_agree h) fun _ => .pure
  · exact .refl advancing.giveUp

/-- The statements of a block are behind its brace. -/
theorem block_agree {statements statements' : Parser (List Node)}
    (h : Agree m statements statements') (hn : n ≤ m + 1) :
    Agree n (Grammar.block statements) (Grammar.block statements') :=
  .bind_current fun _ => .bind_advance hn fun _ => .bind h fun _ => .bind_current fun _ =>
    .ite .reject .pure

theorem blockAhead_agree (h : Agree n block block') :
    Agree n (blockAhead block) (blockAhead block') :=
  .bind (.refl .advance) fun _ => .ite h .reject

theorem branches_agree (h : Agree n block block') :
    Agree n (branches block) (branches block') :=
  .bind (blockAhead_agree h) fun _ => .bind_peek fun _ =>
    .ite (.bind (.refl .advance) fun _ => .bind (blockAhead_agree h) fun _ => .pure) .pure

/-- The parts of a `conditional` are behind its keyword. -/
theorem conditional_agree (h : Agree m expression expression') (hb : Agree m block block')
    (hn : n ≤ m + 1) :
    Agree n (conditional expression block) (conditional expression' block') := by
  refine .bind_current fun _ => .bind_advance hn fun _ => .ite ?_ .reject
  exact .bind (group_agree h (Nat.le_succ m)) fun _ => .bind (branches_agree hb) fun _ => .pure

/-- A part of a head for which `expression` fails is reported and recovered from alike. -/
theorem headerPart_agree {accepts : Node → Bool} {cause : Cause}
    (h : Agree n expression expression') :
    Agree n (headerPart expression accepts cause) (headerPart expression' accepts cause) := by
  refine .bind (.attempt h) fun part => ?_
  split
  · exact .pure
  · exact .refl advancing.giveUp

theorem loopRest_agree (h : Agree n step step') (hb : Agree n block block') (line : Nat)
    (init test : Node) :
    Agree n (loopRest step block line init test) (loopRest step' block' line init test) := by
  have hblock : Agree n (blockAhead block) (blockAhead block') := blockAhead_agree hb
  exact .bind_current fun _ => .ite (.bind hblock fun _ => .pure)
    (.bind h fun _ => .bind hblock fun _ => .pure)

/-- The parts of a `loop` are behind its keyword. -/
theorem loop_agree (h : Agree m statement statement') (he : Agree m expression expression')
    (hs : Agree m step step') (hb : Agree m block block') (hn : n ≤ m + 1) :
    Agree n (loop statement expression step block)
      (loop statement' expression' step' block') := by
  refine .bind_current fun token => .bind_peek fun _ => .ite ?_ ?_
  · refine .bind_advance hn fun _ => .bind (.refl .advance) fun _ => ?_
    refine .bind (headerPart_agree h) fun _ => .bind (.refl .advance) fun _ => ?_
    refine .bind (headerPart_agree he) fun _ => .bind (.refl .advance) fun _ => ?_
    exact loopRest_agree hs hb _ _ _
  · exact .bind (.bind_advance hn fun _ => .ite hb .reject) fun _ => .pure

/-- The parts of a `function` are behind its keyword. -/
theorem function_agree {params params' : Parser (List Binder)} (hp : Agree m params params')
    (hb : Agree m block block') (hn : n ≤ m + 1) :
    Agree n (function params block) (function params' block') := by
  refine .bind_current fun _ => .bind_advance hn fun _ => .ite ?_ .reject
  refine .bind (.refl .advance) fun _ => .ite ?_ .reject
  exact .bind hp fun _ => .bind (blockAhead_agree hb) fun _ =>
    .bind (.refl .note) fun _ => .pure

/-- What follows the name in a `declaration` is behind its keyword. -/
theorem declaration_agree {rest rest' : Option Node → Parser Node}
    (h : ∀ left, Agree m (rest left) (rest' left)) (hn : n ≤ m + 1) :
    Agree n (declaration rest) (declaration rest') :=
  .bind_current fun _ => .bind_advance hn fun _ =>
    .ite (.bind (.refl .advance) fun _ => h _) (.refl advancing.giveUp)

theorem returning_agree (h : Agree m expression expression') (hn : n ≤ m + 1) :
    Agree n (returning expression) (returning expression') :=
  .bind_current fun _ => .bind_advance hn fun _ => .bind (required_agree h) fun _ => .pure

/-- A `statement` that fails is recovered from alike. -/
theorem orRecover_agree (h : Agree n statement statement') :
    Agree n (orRecover statement) (orRecover statement') :=
  .bind (.refl .reported) fun _ => .bind (.attempt h) fun _ => .bind (.refl .reported) fun _ =>
    .ite (.bind (.refl .recover) fun _ => .pure) .pure

/-- A `required` expression is found missing at once, or fails like `expression`. -/
theorem required_fails (h : Fails n expression) : Fails n (required ending expression) := by
  intro r hr
  show ((if ending.closes r.current.kind then _ else _ : Parser Node) r).1 = none
  split
  · rfl
  · exact h r hr

end Agreement

/-- Where `statement` fails, `orRecover` gives no node, but does not fail. -/
theorem orRecover_succeeds {n : Nat} (statement : Parser Node) :
    Succeeds n (orRecover statement) := by
  intro r hr
  rcases h : statement r with ⟨_ | node, r'⟩
  · by_cases he : r.errors.length < r'.errors.length
    · rw [orRecover_of_reported h he]
      rfl
    · rw [orRecover_of_silent h (Nat.not_lt.mp he)]
      rfl
  · rw [orRecover_of_some h]
    rfl

end Grammar

/-! ## Rules that agree -/

namespace Rules

open Grammar

/-- Two sets of `Rules` that come to the same wherever there is `weight` enough. Each token
weighs four, and the rules that begin on a token weigh the more the more of the others they use
on it. At the end of the source expressions fail, and with weight enough statements do not. -/
structure Agree (weight : Nat) (rules rules' : Rules) : Prop where
  operand : ∀ n, 4 * n + 1 ≤ weight → Parser.Agree n rules.operand rules'.operand
  expression : ∀ n ending left, 4 * n + 2 ≤ weight →
    Parser.Agree n (rules.expression ending left) (rules'.expression ending left)
  parameters : ∀ n, 4 * n + 2 ≤ weight → Parser.Agree n rules.parameters rules'.parameters
  arguments : ∀ n, 4 * n + 3 ≤ weight → Parser.Agree n rules.arguments rules'.arguments
  statement : ∀ n, 4 * n + 3 ≤ weight → Parser.Agree n rules.statement rules'.statement
  statements : ∀ n inBlock, 4 * n + 4 ≤ weight →
    Parser.Agree n (rules.statements inBlock) (rules'.statements inBlock)
  ends : 0 < weight → ∀ ending left, Fails 0 (rules.expression ending left)
  succeeds : ∀ n inBlock, 4 * n + 4 ≤ weight → Succeeds n (rules.statements inBlock)

section Level

variable {weight n : Nat} {rules rules' : Rules} (h : Agree weight rules rules')

include h

/-- One `level` up: an operand that begins with any kind of token. -/
theorem operand_agree (hn : 4 * n + 1 ≤ weight + 1) :
    Parser.Agree n rules.level.operand rules'.level.operand := by
  cases n with
  | zero => exact .bind_current_of_nil fun line => .reject
  | succ n =>
    refine .bind_current fun token => ?_
    split
    case h_1 =>
      refine .bind_peek fun _ => .ite ?_ .pure
      exact .bind_advance (Nat.le_refl _) fun _ => call_agree (h.arguments n (by omega))
    case h_2 =>
      split
      · exact .pure
      · exact .reject
    case h_6 => exact group_agree (h.expression n _ _ (by omega)) (Nat.le_refl _)
    case h_7 | h_8 | h_9 => exact prefixed_agree (h.operand n (by omega)) (Nat.le_refl _)
    all_goals first | exact .pure | exact .reject

/-- One `level` up: an expression, whose ending is looked for behind each part of it. -/
theorem expression_agree (ending : Ending) (left : Option Node) (hn : 4 * n + 2 ≤ weight + 1) :
    Parser.Agree n (rules.level.expression ending left)
      (rules'.level.expression ending left) := by
  cases n with
  | zero =>
    refine .bind_current_of_nil fun line => .ite ?_ ?_
    · split
      · exact .pure
      · exact .fail
    · rw [if_pos (Token.kind_eof line), if_pos (Token.kind_eof line)]
      exact .reject
  | succ n =>
    have hinner :
        ∀ left, Parser.Agree n (rules.expression ending left) (rules'.expression ending left) :=
      fun left => h.expression n ending left (by omega)
    refine .bind_current fun token => .ite ?_ (.ite .reject (.ite ?_ ?_))
    · split
      · exact .pure
      · exact .fail
    · exact assign_agree (hinner none) (Nat.le_refl _)
    · refine .bind (.attempt (fold_agree (h.operand (n + 1) (by omega)))) fun folded => ?_
      split
      · exact .bind (.refl .recover) fun _ => .fail
      · exact .bind_peek fun _ =>
          .ite (.refl advancing.unended) (.bind_advance (Nat.le_refl _) fun _ => hinner _)

omit h in
/-- No expression begins or goes on at the end of the source, whatever `rules` a level is
over. -/
theorem expression_fails (rules : Rules) (ending : Ending) (left : Option Node) :
    Fails 0 (rules.level.expression ending left) := by
  intro r hr
  have hcloses : ending.closes (Token.eof r.endLine).kind = false := by cases ending <;> rfl
  show ((if ending.closes r.current.kind then _ else _ : Parser Node) r).1 = none
  rw [current_of_nil hr, hcloses, if_neg Bool.false_ne_true, if_pos (Token.kind_eof _)]
  rfl

/-- One `level` up: an argument, and the others behind a comma. -/
theorem arguments_agree (hn : 4 * n + 3 ≤ weight + 1) :
    Parser.Agree n rules.level.arguments rules'.level.arguments := by
  cases n with
  | zero =>
    have hfails : Fails 0 (rules.expression .argument none) := h.ends (by omega) _ _
    exact .bind (.refl .advance) fun _ =>
      .bind_of_fails (required_agree (h.expression 0 _ _ (by omega))) (required_fails hfails)
  | succ n =>
    refine .bind_advance (Nat.le_refl _) fun _ =>
      .bind (required_agree (h.expression n _ _ (by omega))) ?_
    exact fun _ => .bind_current fun _ =>
      .ite .pure (.bind (h.arguments n (by omega)) fun _ => .pure)

/-- One `level` up: a parameter, and the others behind a comma. -/
theorem parameters_agree (hn : 4 * n + 2 ≤ weight + 1) :
    Parser.Agree n rules.level.parameters rules'.level.parameters := by
  cases n with
  | zero => exact .bind_advance_of_nil fun line => .reject
  | succ n =>
    refine .bind_advance (Nat.le_refl _) fun name => ?_
    split
    · refine .bind (.refl .advance) fun separator => ?_
      split
      · exact .bind (h.parameters n (by omega)) fun _ => .pure
      · exact .pure
      · exact .reject
      · exact .reject
    · exact .reject
    · exact .reject

/-- One `level` up: a statement that begins with any kind of token. -/
theorem statement_agree (hn : 4 * n + 3 ≤ weight + 1) :
    Parser.Agree n rules.level.statement rules'.level.statement := by
  -- at the end of the tokens a statement is read as an expression
  cases n with
  | zero => exact .bind_current_of_nil fun line => h.expression 0 _ _ (by omega)
  | succ n =>
    have hle : n + 1 ≤ n + 1 := Nat.le_refl _
    have hexpression : ∀ ending left,
        Parser.Agree n (rules.expression ending left) (rules'.expression ending left) :=
      fun ending left => h.expression n ending left (by omega)
    have hstatements : Parser.Agree n (rules.statements true) (rules'.statements true) :=
      h.statements n true (by omega)
    have hblock :
        Parser.Agree n (block (rules.statements true)) (block (rules'.statements true)) :=
      block_agree hstatements (Nat.le_succ n)
    have hparams : Parser.Agree n (parameterList rules) (parameterList rules') :=
      .bind_peek fun _ => .ite (.bind (.refl .advance) fun _ => .pure)
        (h.parameters n (by omega))
    refine .bind_current fun token => ?_
    split
    · exact declaration_agree (hexpression _) hle
    · exact .bind (block_agree hstatements hle) fun _ => .pure
    · exact conditional_agree (hexpression _ _) hblock hle
    · exact loop_agree (h.statement n (by omega)) (hexpression _ _) (hexpression _ _) hblock hle
    · exact function_agree hparams hblock hle
    · exact returning_agree (hexpression _ _) hle
    · exact .refl advancing.breaking
    · exact h.expression (n + 1) _ _ (by omega)

/-- One `level` up: a statement, and the others behind it. -/
theorem statements_agree (inBlock : Bool) (hn : 4 * n + 4 ≤ weight + 1) :
    Parser.Agree n (rules.level.statements inBlock) (rules'.level.statements inBlock) := by
  cases n with
  | zero =>
    refine .bind_current_of_nil fun line => ?_
    rw [if_pos (.inl rfl), if_pos (.inl rfl)]
    exact .pure
  | succ n =>
    refine .bind_current fun token => .ite .pure ?_
    refine .bind (orRecover_agree (h.statement (n + 1) (by omega))) fun node => ?_
    exact .bind_advance (Nat.le_refl _) fun _ =>
      .bind (h.statements n inBlock (by omega)) fun _ => .pure

/-- `Rules.statements` reads one statement after the other up to the end of the source or of a
block, and with weight enough for `n` tokens it does not fail. -/
theorem statements_succeed (inBlock : Bool) (hn : 4 * n + 4 ≤ weight + 1) :
    Succeeds n (rules.level.statements inBlock) := by
  cases n with
  | zero =>
    intro r hr
    show ((if r.current.kind = .eof ∨ _ then _ else _ : Parser (List Node)) r).1.isSome
    rw [current_of_nil hr, if_pos (.inl rfl)]
    rfl
  | succ n =>
    refine .bind (.refl .current) (fun _ _ => rfl) fun token => .ite (fun _ _ => rfl) ?_
    refine .bind (orRecover_agree (h.statement (n + 1) (by omega))) (orRecover_succeeds _)
      fun node => ?_
    refine .bind_advance (Nat.le_refl _) fun _ => ?_
    exact .bind (h.statements n inBlock (by omega)) (h.succeeds n inBlock (by omega))
      fun _ _ _ => rfl

/-- If `rules` and `rules'` agree at a weight, their levels do at the next one: what a rule uses
on the same token weighs less. -/
theorem level_agree : Agree (weight + 1) rules.level rules'.level where
  operand _ hn := operand_agree h hn
  expression _ ending left hn := expression_agree h ending left hn
  parameters _ hn := parameters_agree h hn
  arguments _ hn := arguments_agree h hn
  statement _ hn := statement_agree h hn
  statements _ inBlock hn := statements_agree h inBlock hn
  ends _ ending left := expression_fails rules ending left
  succeeds _ inBlock hn := statements_succeed h inBlock hn

end Level

/-- So many levels make rules agree, whatever `inner` and `inner'` they are built on. -/
theorem nest_agree (depth : Nat) (inner inner' : Rules) :
    Agree depth (inner.nest depth) (inner'.nest depth) := by
  induction depth with
  | zero =>
    constructor
    all_goals intros; omega
  | succ depth ih => exact level_agree ih

/-- `Rules.nest` puts levels over levels. -/
theorem nest_add (inner : Rules) (depth more : Nat) :
    inner.nest (more + depth) = (inner.nest more).nest depth := by
  induction depth with
  | zero => rfl
  | succ depth ih => rw [← Nat.add_assoc, nest, ih, nest]

/-- Rules that are cut off at `depth` and at `depth'` agree up to the lesser one. -/
theorem nest_agree_of_le {depth depth' : Nat} (h : depth ≤ depth') (inner inner' : Rules) :
    Agree depth (inner.nest depth) (inner'.nest depth') := by
  obtain ⟨more, rfl⟩ := Nat.exists_eq_add_of_le' h
  rw [nest_add]
  exact nest_agree depth _ _

section Enough

variable {r : Reading} {depth depth' : Nat}

/-- Beyond `depthFor` the tokens that are left, `Rules.statements` comes to the same at every
depth, over `inner` or over `inner'`. -/
theorem statements_nest_eq (h : depthFor r.tokens.length ≤ depth) (h' : depth ≤ depth')
    (inner inner' : Rules) (inBlock : Bool) :
    (inner.nest depth).statements inBlock r = (inner'.nest depth').statements inBlock r :=
  ((nest_agree_of_le h' inner inner').statements r.tokens.length inBlock h r (Nat.le_refl _)).1

/-- So does `Rules.program`, which is `Rules.statements` behind the note of the first token. -/
theorem program_nest_eq (h : depthFor r.tokens.length ≤ depth) (h' : depth ≤ depth')
    (inner inner' : Rules) : (inner.nest depth).program r = (inner'.nest depth').program r :=
  statements_nest_eq (r := r.note (.scanned r.current)) h h' inner inner' false

/-- At a depth of `depthFor` the tokens that are left, `Rules.statements` does not fail. -/
theorem statements_nest_isSome (h : depthFor r.tokens.length ≤ depth) (inner : Rules)
    (inBlock : Bool) : ((inner.nest depth).statements inBlock r).1.isSome :=
  (nest_agree depth inner inner).succeeds r.tokens.length inBlock h r (Nat.le_refl _)

/-- With `depthFor` levels a whole source is read, whatever rules there are below. -/
theorem program_nest_isSome (h : depthFor r.tokens.length ≤ depth) (inner : Rules) :
    ((inner.nest depth).program r).1.isSome :=
  statements_nest_isSome (r := r.note (.scanned r.current)) h inner false

end Enough
end Rules

/-! ## Sources -/

open Grammar

section Source

variable (name source : String) (journal : Journal) (beyond : Rules)

/-- `Package.parse` is read off the run of `Grammar.program` from `Reading.start`. -/
theorem Package.parse_eq :
    Package.parse name source journal =
      let start := Reading.start source journal
      let run := program (depthFor start.tokens.length) start
      (⟨⟨name, run.1.getD []⟩, run.2.errors⟩,
        run.2.journal.note (.parsedPackage name (run.1.getD []).length run.2.errors.length)) :=
  rfl

/-- `Package.parse` is read off `Rules.program` at any depth that is enough, whatever rules are
`beyond` it. -/
theorem Package.parse_eq_nest {depth : Nat}
    (h : depthFor (start source journal).tokens.length ≤ depth) :
    ∃ nodes reading,
      (beyond.nest depth).program (start source journal) = (some nodes, reading) ∧
      Package.parse name source journal =
        (⟨⟨name, nodes⟩, reading.errors⟩,
          reading.journal.note (.parsedPackage name nodes.length reading.errors.length)) := by
  have hprogram : program (depthFor (start source journal).tokens.length)
      (start source journal) = (beyond.nest depth).program (start source journal) := by
    show (rules _).program _ = _
    exact Rules.program_nest_eq (Nat.le_refl _) h .failing beyond
  obtain ⟨nodes, hnodes⟩ := Option.isSome_iff_exists.mp (Rules.program_nest_isSome h beyond)
  have hsome : (beyond.nest depth).program (start source journal) = (some nodes, _) :=
    Prod.ext hnodes rfl
  refine ⟨nodes, _, hsome, ?_⟩
  rw [parse_eq]
  dsimp only
  rw [hprogram, hsome]
  rfl

/-- `Package.parse` is read off `Rules.statements` at any depth that is enough, behind a journal
that has a note of the first token. -/
theorem Package.parse_of_statements {ts : List Token} {e : Nat}
    (ht : (Cursor.start source).tokens = (ts, e)) (depth : Nat)
    (hdepth : depthFor ts.length ≤ depth) :
    ∃ journal', let run := (beyond.nest depth).statements false ⟨ts, e, [], journal'⟩
      run.1 = some (Package.parse name source journal).1.package.nodes ∧
        run.2.errors = (Package.parse name source journal).1.errors := by
  have hstart : Reading.start source journal = ⟨ts, e, [], journal⟩ := by rw [Reading.start, ht]
  have henough : depthFor (Reading.start source journal).tokens.length ≤ depth := by
    rwa [hstart]
  obtain ⟨nodes, reading, hrun, hparse⟩ := parse_eq_nest name source journal beyond henough
  rw [hstart] at hrun
  have hrun : (beyond.nest depth).statements false
      ⟨ts, e, [], journal.note (.scanned (Reading.headOf ts e))⟩ = (some nodes, reading) := hrun
  exact ⟨_, by rw [hrun, hparse], by rw [hrun, hparse]⟩

/-- `Package.parse` ends on every source. `Rules.nest` puts the rules of the grammar on top of
others, which stand for what is beyond the depth. Whatever these are, and however far `depth` is
beyond `depthFor`, the program is read to the end and comes to what `Grammar.program` comes to,
and that is the package. -/
theorem Package.parse_terminates (more : Nat) :
    let start := Reading.start source journal
    let depth := depthFor start.tokens.length + more
    ∃ nodes reading,
      (beyond.nest depth).program start = (some nodes, reading) ∧
      Grammar.program depth start = (some nodes, reading) ∧
      Package.parse name source journal =
        (⟨⟨name, nodes⟩, reading.errors⟩,
          reading.journal.note (.parsedPackage name nodes.length reading.errors.length)) := by
  intro start depth
  have henough : depthFor start.tokens.length ≤ depth := Nat.le_add_right _ more
  obtain ⟨nodes, reading, hprogram, hparse⟩ := parse_eq_nest name source journal beyond henough
  refine ⟨nodes, reading, hprogram, ?_, hparse⟩
  show (rules _).program _ = _
  rw [← hprogram]
  exact Rules.program_nest_eq henough (Nat.le_refl _) .failing beyond

end Source

end ScriptLang
