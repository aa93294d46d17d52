import ScriptLang.Proofs.Derivation

/-!
# The parser accepts what the grammar derives

Each rule of the parser reads whatever its form derives, reports nothing, and gives the trees of
the derivation. The parser looks ahead, so this holds only where the token behind a form does
not continue it: no parenthesis may follow a name, and no `else` a conditional. In a source
nothing else ever follows them.

- `Parser.Reaches`: a run of a parser that succeeds and reports nothing.
- `Grammar.Accepted`: what is to be shown of each form, with the depth of recursion that is
  enough.
- `Grammar.Derives.accepted`: every derivation is accepted.
-/

namespace ScriptLang

namespace Parser

/-- On a source whose last line is `e`, the parser gets from some tokens to others and gives a
result. Nothing is reported, and it does not matter what has been reported before. -/
def Reaches {α : Type} (e : Nat) (p : Parser α) (a : α) (ts us : List Token) : Prop :=
  ∀ errors journal, ∃ journal', p ⟨ts, e, errors, journal⟩ = (some a, ⟨us, e, errors, journal'⟩)

namespace Reaches

variable {α β : Type} {e : Nat} {p : Parser α} {f : α → Parser β} {a : α} {b : β}
  {t : Token} {ts us vs : List Token}

theorem pure : Reaches e (pure a : Parser α) a ts ts := fun _ j => ⟨j, rfl⟩

/-- Runs of `p` and of `f a` that report nothing follow on each other. -/
theorem bind (hp : Reaches e p a ts us) (hf : Reaches e (f a) b us vs) :
    Reaches e (p >>= f) b ts vs := by
  intro errors journal
  obtain ⟨journal', hp⟩ := hp errors journal
  obtain ⟨journal'', hf⟩ := hf errors journal'
  refine ⟨journal'', ?_⟩
  show Parser.bind p f _ = _
  rw [Parser.bind, hp]
  exact hf

theorem current : Reaches e Parser.current (Reading.headOf ts e) ts ts := fun _ j => ⟨j, rfl⟩

theorem advance : Reaches e Parser.advance (Reading.headOf ts e) (t :: ts) ts :=
  fun _ _ => ⟨_, rfl⟩

theorem peek : Reaches e Parser.peek (Reading.headOf ts e) (t :: ts) (t :: ts) :=
  fun _ _ => ⟨_, rfl⟩

theorem note {event : Event} : Reaches e (Parser.note event) () ts ts := fun _ _ => ⟨_, rfl⟩

/-- A run of `p` that succeeds is one of `p.attempt`. -/
theorem attempt (hp : Reaches e p a ts us) : Reaches e p.attempt (some a) ts us := by
  intro errors journal
  obtain ⟨journal', hp⟩ := hp errors journal
  exact ⟨journal', by rw [Parser.attempt, hp]⟩

end Reaches
end Parser

namespace Reading

@[simp] theorem headOf_cons (t : Token) (ts : List Token) (e : Nat) : headOf (t :: ts) e = t :=
  rfl

@[simp] theorem headOf_nil (e : Nat) : headOf [] e = .eof e := rfl

end Reading

namespace Grammar

open Reading ScriptLang.Parser

variable {e : Nat}

/-- What acceptance says of each `Form`: the rule of the form, with enough depth, reads the
tokens that the form derives and gives its trees. A rule ends on its last token, and an
expression on the token behind it; a call and a branch look at the token behind them, which must
not continue them. -/
def Accepted (e : Nat) : Form → List Token → List Node → Prop
  | .operand, ts, ns => ∀ n depth rest, ns = [n] → 4 * ts.length + 1 ≤ depth →
      (headOf rest e).kind ≠ .leftParen →
      ∃ t, Reaches e (rules depth).operand n (ts ++ rest) (t :: rest)
  | .tail left, ts, ns => ∀ n depth (ending : Ending) (c : Token) rest, ns = [n] →
      4 * ts.length + 1 ≤ depth → ending.closes c.kind →
      Reaches e ((rules depth).expression ending (some left)) n (ts ++ c :: rest) (c :: rest)
  | .expression, ts, ns => ∀ n depth (ending : Ending) (c : Token) rest, ns = [n] →
      4 * ts.length + 2 ≤ depth → ending.closes c.kind →
      Reaches e ((rules depth).expression ending none) n (ts ++ c :: rest) (c :: rest)
  | .arguments, ts, ns => ∀ depth (o c : Token) rest, 4 * ts.length + 3 ≤ depth →
      c.kind = .rightParen → Reaches e (rules depth).arguments ns (o :: ts ++ c :: rest)
        (c :: rest)
  | .block, ts, ns => ∀ b depth rest, ns = [.block b] → 4 * ts.length ≤ depth →
      ∃ t, Reaches e (Grammar.block ((rules depth).statements true)) b (ts ++ rest) (t :: rest)
  | .statement, ts, ns => ∀ depth rest, 4 * ts.length + 3 ≤ depth →
      (headOf rest e).kind ≠ .kwElse → (ns = [] ∧ ∃ s : Token, ts = [s] ∧ s.kind = .semicolon) ∨
        ∃ n t, ns = [n] ∧ Reaches e (rules depth).statement n (ts ++ rest) (t :: rest)
  | .statements, ts, ns => ∀ depth inBlock rest, 4 * ts.length + 4 ≤ depth →
      ((headOf rest e).kind = .eof ∨ inBlock = true ∧ (headOf rest e).kind = .rightBrace) →
      Reaches e ((rules depth).statements inBlock) ns (ts ++ rest) rest

/-! ## Rules over the parsers of their parts -/

section Rules

variable {t : Token} {ts us : List Token} {n : Node} {expression operand : Parser Node}

/-- A `required` expression is there if its first token does not close the ending. -/
theorem required_reaches {ending : Ending} (ht : ending.closes t.kind = false)
    (h : Reaches e expression n (t :: ts) us) :
    Reaches e (required ending expression) n (t :: ts) us := by
  refine .bind .current ?_
  simpa [ht] using h

/-- `prefixed` reads on from its operator to where its operand ends. -/
theorem prefixed_reaches (h : Reaches e operand n ts us) :
    Reaches e (prefixed operand) (.prefixed t n) (t :: ts) us :=
  .bind .current (.bind .advance (.bind h .pure))

/-- So does `infixed`, with the left side given. -/
theorem infixed_reaches {left : Node} (h : Reaches e operand n ts us) :
    Reaches e (infixed operand left) (.infixed t left n) (t :: ts) us :=
  .bind .current (.bind .advance (.bind h .pure))

/-- `blockAhead` finds the brace behind the current token, and reads the block. -/
theorem blockAhead_reaches {block : Parser Block} {b : Block} {l : Token}
    (hl : l.kind = .leftBrace) (h : Reaches e block b (l :: ts) us) :
    Reaches e (blockAhead block) b (t :: l :: ts) us := by
  refine .bind .advance ?_
  rw [headOf_cons, if_pos hl]
  exact h

end Rules

/-! ## Operands -/

section Operands

variable {t l r o : Token} {ts us : List Token} {n left right : Node} {args : List Node}

/-- The rule `Derives.integer`, for a literal that `Text.readInt?` reads. -/
theorem accepted_integer {v : Int64} (ht : t.kind = .integer)
    (hv : Text.readInt? t.literal.toList = some v) :
    Accepted e .operand [t] [.integer t v] := by
  rintro _ (_ | depth) rest ⟨⟩ hd -
  · simp at hd
  refine ⟨t, ?_⟩
  rw [operand_succ, operand]
  refine .bind .current ?_
  simp only [List.cons_append, List.nil_append, headOf_cons, ht, hv]
  exact .pure

/-- A string literal is an operand, and so are the words `true` and `false`. -/
theorem accepted_literal
    (hn : t.kind = .string ∧ n = .string t.line t.literal ∨
      t.kind = .kwTrue ∧ n = .boolean t.line true ∨
      t.kind = .kwFalse ∧ n = .boolean t.line false) :
    Accepted e .operand [t] [n] := by
  rintro _ (_ | depth) rest ⟨⟩ hd -
  · simp at hd
  refine ⟨t, ?_⟩
  rw [operand_succ, operand]
  refine .bind .current ?_
  obtain ⟨ht, rfl⟩ | ⟨ht, rfl⟩ | ⟨ht, rfl⟩ := hn <;>
  · simp only [List.cons_append, List.nil_append, headOf_cons, ht]
    exact .pure

/-- A name is an operand; as no parenthesis follows, `Rules.operand` does not take it for a
call. -/
theorem accepted_name (ht : t.kind = .ident) :
    Accepted e .operand [t] [.ident t.line t.literal] := by
  rintro _ (_ | depth) rest ⟨⟩ hd hrest
  · simp at hd
  refine ⟨t, ?_⟩
  rw [operand_succ, operand]
  refine .bind .current ?_
  simp only [List.cons_append, List.nil_append, headOf_cons, ht]
  refine .bind .peek ?_
  rw [if_neg hrest]
  exact .pure

/-- A name and two parentheses are a call without arguments. -/
theorem accepted_emptyCall (ht : t.kind = .ident) (hl : l.kind = .leftParen)
    (hr : r.kind = .rightParen) :
    Accepted e .operand [t, l, r] [.call l.line (.ident t.line t.literal) []] := by
  rintro _ (_ | depth) rest ⟨⟩ hd hrest
  · simp at hd
  refine ⟨r, ?_⟩
  rw [operand_succ, operand]
  refine .bind .current ?_
  simp only [List.cons_append, List.nil_append, headOf_cons, ht]
  refine .bind .peek ?_
  rw [headOf_cons, if_pos hl]
  refine .bind .advance ?_
  refine .bind .current (.bind .peek ?_)
  rw [headOf_cons, if_pos hr]
  exact .bind .advance .pure

/-- A call with arguments, which `Derives.opening` shows to start with an operand. -/
theorem accepted_call (ht : t.kind = .ident) (hl : l.kind = .leftParen)
    (h : Derives .arguments ts args) (ih : Accepted e .arguments ts args)
    (hr : r.kind = .rightParen) :
    Accepted e .operand (t :: l :: ts ++ [r])
      [.call l.line (.ident t.line t.literal) args] := by
  rintro _ (_ | depth) rest ⟨⟩ hd hrest
  · simp at hd
  refine ⟨r, ?_⟩
  obtain ⟨-, ⟨⟩⟩ | ⟨u, us, rfl, hu⟩ := h.opening
  have hu : u.kind ≠ .rightParen := by
    intro hk
    rw [hk] at hu
    cases hu
  have harg := ih depth l r rest (by simp at hd ⊢; omega) hr
  rw [operand_succ, operand]
  refine .bind .current ?_
  simp only [List.cons_append, List.append_assoc, List.nil_append, headOf_cons, ht] at harg ⊢
  refine .bind .peek ?_
  rw [headOf_cons, if_pos hl]
  refine .bind .advance ?_
  refine .bind .current (.bind .peek ?_)
  rw [headOf_cons, if_neg hu]
  exact .bind harg .pure

/-- What stands between parentheses is read by `group`. -/
theorem group_reaches {depth : Nat} {rest : List Token}
    (hopen : ∃ t us, ts = t :: us ∧ opensOperand t.kind) (ih : Accepted e .expression ts [n])
    (hr : r.kind = .rightParen) (hd : 4 * ts.length + 2 ≤ depth) :
    Reaches e (group ((rules depth).expression .group none)) n (l :: ts ++ r :: rest)
      (r :: rest) := by
  have hexp := ih n depth .group r rest rfl hd (by simp [Ending.closes, hr])
  obtain ⟨u, us, rfl, hu⟩ := hopen
  have hu : Ending.group.closes u.kind = false := by
    revert hu
    cases u.kind <;> decide
  exact .bind .advance (required_reaches hu hexp)

/-- A `group` gives the tree of what is in it, and adds nothing. -/
theorem accepted_group (hl : l.kind = .leftParen)
    (hopen : ∃ t us, ts = t :: us ∧ opensOperand t.kind) (ih : Accepted e .expression ts [n])
    (hr : r.kind = .rightParen) : Accepted e .operand (l :: ts ++ [r]) [n] := by
  rintro _ (_ | depth) rest ⟨⟩ hd hrest
  · simp at hd
  refine ⟨r, ?_⟩
  have hgroup : Reaches e (group ((rules depth).expression .group none)) n
      (l :: ts ++ r :: rest) (r :: rest) := group_reaches hopen ih hr (by simp at hd; omega)
  rw [operand_succ, operand]
  refine .bind .current ?_
  simp only [List.cons_append, List.append_assoc, List.nil_append, headOf_cons, hl] at hgroup ⊢
  exact hgroup

/-- The rule `Derives.prefixed`: the operand is read one `level` down. -/
theorem accepted_prefixed (ho : o.kind.isPrefix) (ih : Accepted e .operand ts [n]) :
    Accepted e .operand (o :: ts) [.prefixed o n] := by
  rintro _ (_ | depth) rest ⟨⟩ hd hrest
  · simp at hd
  obtain ⟨t, h⟩ := ih n depth rest rfl (by simp at hd ⊢; omega) hrest
  refine ⟨t, ?_⟩
  rw [operand_succ, operand]
  refine .bind .current ?_
  have hk : o.kind = .bang ∨ o.kind = .plus ∨ o.kind = .minus := by
    revert ho
    cases o.kind <;> decide
  obtain hk | hk | hk := hk <;>
  · simp only [List.cons_append, headOf_cons, hk]
    exact prefixed_reaches h

end Operands

/-! ## Expressions -/

section Expressions

variable {c o q : Token} {ts us : List Token} {n left right target value : Node}
  {ns : List Node}

/-- A token that `opensOperand` ends no expression and is no equals sign. -/
theorem closes_of_opensOperand {ending : Ending} {kind : TokenKind} (h : opensOperand kind) :
    ending.closes kind = false ∧ kind ≠ .eof ∧ kind ≠ .equal := by
  revert h
  cases ending <;> cases kind <;> decide

/-- A token that is an infix operator ends no expression and is no equals sign. -/
theorem closes_of_isInfix {ending : Ending} {kind : TokenKind} (h : kind.isInfix) :
    ending.closes kind = false ∧ kind ≠ .eof ∧ kind ≠ .equal := by
  revert h
  cases ending <;> cases kind <;> decide

/-- One turn of `Rules.expression`: `fold` takes the operand at hand, and the expression goes on
behind it. -/
theorem expression_step {depth : Nat} {ending : Ending} {before : Option Node} {node : Node}
    {t u : Token} (ht : ending.closes t.kind = false ∧ t.kind ≠ .eof ∧ t.kind ≠ .equal)
    (hf : Reaches e (fold (rules depth).operand before) node (t :: ts) (u :: us))
    (hb : (headOf us e).kind ≠ .rightBrace)
    (h : Reaches e ((rules depth).expression ending (some node)) n us vs) :
    Reaches e ((rules (depth + 1)).expression ending before) n (t :: ts) vs := by
  obtain ⟨hc, he, hq⟩ := ht
  rw [expression_succ, expression.eq_def]
  refine .bind .current ?_
  rw [headOf_cons, hc, if_neg Bool.false_ne_true, if_neg he, if_neg hq]
  refine .bind (.attempt hf) (.bind .peek ?_)
  rw [if_neg hb]
  exact .bind .advance h

/-- A tail may be empty: the closing token is there, and `left` is the result. -/
theorem accepted_noTail : Accepted e (.tail left) [] [left] := by
  rintro _ (_ | depth) ending c rest ⟨⟩ hd hc
  · simp at hd
  rw [expression_succ, expression.eq_def]
  refine .bind .current ?_
  simp only [List.nil_append, headOf_cons, hc, if_true]
  exact .pure

/-- The token behind an operand neither opens the arguments of a call nor closes a block,
whether a tail follows or the closing token `c`. -/
theorem headOf_tail {ending : Ending} (rest : List Token) (h : Derives (.tail left) us ns)
    (hc : ending.closes c.kind) :
    (headOf (us ++ c :: rest) e).kind ≠ .leftParen ∧
      (headOf (us ++ c :: rest) e).kind ≠ .rightBrace := by
  obtain ⟨rfl, -⟩ | ⟨t, us, rfl, ht⟩ := h.opening
  · revert hc
    rw [List.nil_append, headOf_cons]
    cases ending <;> cases c.kind <;> decide
  · revert ht
    rw [List.cons_append, headOf_cons, Form.opensWith]
    cases t.kind <;> decide

/-- The tail goes on behind an operator and its right side, whose tree `infixed` puts on the
left. -/
theorem accepted_infixed (ho : o.kind.isInfix) (ih : Accepted e .operand ts [right])
    (h : Derives (.tail (.infixed o left right)) us [n])
    (iht : Accepted e (.tail (.infixed o left right)) us [n]) :
    Accepted e (.tail left) (o :: ts ++ us) [n] := by
  rintro _ (_ | depth) ending c rest ⟨⟩ hd hc
  · simp at hd
  obtain ⟨hcall, hbrace⟩ := headOf_tail (e := e) rest h hc
  obtain ⟨t, hop⟩ := ih right depth (us ++ c :: rest) rfl (by simp at hd; omega) hcall
  have htail := iht n depth ending c rest rfl (by simp at hd; omega) hc
  rw [List.append_assoc, List.cons_append]
  refine expression_step (u := t) (closes_of_isInfix ho) ?_ hbrace htail
  refine .bind .current ?_
  simp only [headOf_cons, ho, if_true]
  exact infixed_reaches hop

/-- An expression is an operand and its tail, read by one call of `expression` and the next. -/
theorem accepted_chain (hopen : ∃ t us, ts = t :: us ∧ opensOperand t.kind)
    (ih : Accepted e .operand ts [left]) (h : Derives (.tail left) us [n])
    (iht : Accepted e (.tail left) us [n]) :
    Accepted e .expression (ts ++ us) [n] := by
  rintro _ (_ | depth) ending c rest ⟨⟩ hd hc
  · simp at hd
  obtain ⟨hcall, hbrace⟩ := headOf_tail (e := e) rest h hc
  obtain ⟨t, hop⟩ := ih left depth (us ++ c :: rest) rfl (by simp at hd; omega) hcall
  obtain ⟨o, ts, rfl, ho⟩ := hopen
  have htail := iht n depth ending c rest rfl (by simp at hd; omega) hc
  rw [List.append_assoc]
  refine expression_step (u := t) (closes_of_opensOperand ho) ?_ hbrace htail
  exact .bind .current hop

/-- A `Target` is read like any other operand. -/
theorem accepted_target (h : Target ts target) : Accepted e .operand ts [target] := by
  induction h with
  | name ht => exact accepted_name ht
  | group hl h hr ih =>
    refine accepted_group hl h.opening ?_ hr
    simpa using accepted_chain h.opening ih .noTail accepted_noTail

/-- What derives as a target passes the test of `assign`. -/
theorem isTarget_of_target (h : Target ts target) : isTarget target := by
  induction h with
  | name => rfl
  | group _ _ _ ih => exact ih

/-- `Rules.expression` reads an assignment from its equals sign on, with the `target` already
read. -/
theorem assign_reaches {depth : Nat} {ending : Ending} {rest : List Token}
    (hn : isTarget target) (hq : q.kind = .equal) (h : Derives .expression us [value])
    (ih : Accepted e .expression us [value]) (hd : 4 * us.length + 3 ≤ depth)
    (hc : ending.closes c.kind) :
    Reaches e ((rules depth).expression ending (some target)) (.assign q.line target value)
      (q :: us ++ c :: rest) (c :: rest) := by
  obtain ⟨depth, rfl⟩ : ∃ d, depth = d + 1 := ⟨depth - 1, by omega⟩
  have hval := ih value depth ending c rest rfl (by omega) hc
  obtain ⟨-, ⟨⟩⟩ | ⟨t, us, rfl, ht⟩ := h.opening
  have hk : ending.closes q.kind = false := by
    rw [hq]
    cases ending <;> rfl
  rw [expression_succ, expression.eq_def]
  refine .bind .current ?_
  rw [List.cons_append, headOf_cons, hk, if_neg Bool.false_ne_true, if_neg (by simp [hq]),
    if_pos hq]
  refine .bind .current ?_
  simp only [headOf_cons, Option.filter, hn, if_true]
  exact .bind .advance (.bind (required_reaches (closes_of_opensOperand ht).1 hval) .pure)

/-- `expression` reads the target, and called again with it meets the equals sign and goes on to
`assign`. -/
theorem accepted_assign (ht : Target ts target) (hq : q.kind = .equal)
    (h : Derives .expression us [value]) (ih : Accepted e .expression us [value]) :
    Accepted e .expression (ts ++ q :: us) [.assign q.line target value] := by
  rintro _ (_ | depth) ending c rest ⟨⟩ hd hc
  · simp at hd
  obtain ⟨t, hop⟩ := accepted_target (e := e) ht target depth (q :: us ++ c :: rest) rfl
    (by simp at hd; omega) (by simp [hq])
  have hassign : Reaches e ((rules depth).expression ending (some target))
      (.assign q.line target value) (q :: us ++ c :: rest) (c :: rest) :=
    assign_reaches (isTarget_of_target ht) hq h ih (by simp at hd; omega) hc
  obtain ⟨o, ts, rfl, ho⟩ := ht.opening
  rw [List.append_assoc]
  refine expression_step (u := t) (closes_of_opensOperand ho) ?_ (by simp [hq]) hassign
  exact .bind .current hop

end Expressions

/-! ## Lists between parentheses -/

section Lists

variable {c o r : Token} {ts us : List Token} {n : Node} {ns : List Node} {bs : List Binder}

/-- The last of some arguments ends in front of the closing parenthesis. -/
theorem accepted_lastArgument (hopen : ∃ t us, ts = t :: us ∧ opensOperand t.kind)
    (ih : Accepted e .expression ts [n]) : Accepted e .arguments ts [n] := by
  rintro (_ | depth) o c rest hd hc
  · simp at hd
  have harg := ih n depth .argument c rest rfl (by omega) (by simp [Ending.closes, hc])
  obtain ⟨t, ts, rfl, ht⟩ := hopen
  rw [arguments_succ, arguments]
  refine .bind .advance (.bind (required_reaches (closes_of_opensOperand ht).1 harg) ?_)
  refine .bind .current ?_
  rw [headOf_cons, if_pos hc]
  exact .pure

/-- An argument in front of a comma is followed by further `arguments`. -/
theorem accepted_moreArguments (hopen : ∃ t us, ts = t :: us ∧ opensOperand t.kind)
    (ih : Accepted e .expression ts [n]) (hc : c.kind = .comma)
    (iha : Accepted e .arguments us ns) : Accepted e .arguments (ts ++ c :: us) (n :: ns) := by
  rintro (_ | depth) o r rest hd hr
  · simp at hd
  have harg := ih n depth .argument c (us ++ r :: rest) rfl (by simp at hd; omega)
    (by simp [Ending.closes, hc])
  have hargs := iha depth c r rest (by simp at hd; omega) hr
  obtain ⟨t, ts, rfl, ht⟩ := hopen
  rw [arguments_succ, arguments, List.cons_append, List.append_assoc]
  refine .bind .advance (.bind (required_reaches (closes_of_opensOperand ht).1 harg) ?_)
  refine .bind .current ?_
  rw [headOf_cons, if_neg (by simp [hc])]
  exact .bind hargs .pure

/-- `Rules.parameters` reads `Names` up to the parenthesis behind them. -/
theorem parameters_reaches (h : Names ts bs) (hr : r.kind = .rightParen) :
    ∀ {depth : Nat} {o : Token} {rest : List Token}, ts.length ≤ depth →
      Reaches e (rules depth).parameters bs (o :: ts ++ r :: rest) (r :: rest) := by
  induction h with
  | one ht =>
    rintro (_ | depth) o rest hd
    · simp at hd
    rw [parameters_succ, parameters, List.cons_append, List.cons_append, List.nil_append]
    refine .bind .advance ?_
    simp only [headOf_cons, ht]
    refine .bind .advance ?_
    simp only [headOf_cons, hr]
    exact .pure
  | more ht hc _ ih =>
    rintro (_ | depth) o rest hd
    · simp at hd
    rw [parameters_succ, parameters, List.cons_append, List.cons_append, List.cons_append]
    refine .bind .advance ?_
    simp only [headOf_cons, ht]
    refine .bind .advance ?_
    simp only [headOf_cons, hc]
    exact .bind (ih (by simp at hd; omega)) .pure

theorem Names.opening (h : Names ts bs) : ∃ t us, ts = t :: us ∧ t.kind = .ident := by
  cases h with
  | one ht | more ht => exact ⟨_, _, rfl, ht⟩

/-- `parameterList` reads the parameters of a function, of which there may be none. -/
theorem parameterList_reaches {depth : Nat} {rest : List Token} (h : Parameters ts bs)
    (hr : r.kind = .rightParen) (hd : ts.length ≤ depth) :
    Reaches e (parameterList (rules depth)) bs (o :: ts ++ r :: rest) (r :: rest) := by
  obtain ⟨rfl, rfl⟩ | h := h
  · rw [List.cons_append, List.nil_append]
    refine .bind .peek ?_
    rw [headOf_cons, if_pos hr]
    exact .bind .advance .pure
  · have hparams : Reaches e (rules depth).parameters bs (o :: ts ++ r :: rest) (r :: rest) :=
      parameters_reaches h hr hd
    obtain ⟨t, us, rfl, ht⟩ := h.opening
    refine .bind .peek ?_
    rw [List.append_eq, List.cons_append, headOf_cons, if_neg (by simp [ht])]
    exact hparams

end Lists

/-! ## Statements -/

section Statements

variable {i k l q r s t v : Token} {is ps ts us vs : List Token}
  {n init test step value : Node} {ns ms : List Node} {body thenBlock elseBlock : Block}
  {params : List Binder}

/-- `block` reads a block and ends on its closing brace. -/
theorem accepted_block (ih : Accepted e .statements ts ns) (hr : r.kind = .rightBrace) :
    Accepted e .block (l :: ts ++ [r]) [.block ⟨l.line, ns⟩] := by
  rintro _ depth rest ⟨⟩ hd
  have hbody := ih depth true (r :: rest) (by simp at hd; omega) (.inr ⟨rfl, hr⟩)
  refine ⟨r, ?_⟩
  rw [List.cons_append, List.cons_append, List.append_assoc]
  refine .bind .current (.bind .advance (.bind hbody (.bind .current ?_)))
  rw [headOf_cons, if_neg (by simp [hr])]
  exact .pure

/-- A block that has to follow is read by `blockAhead` from the token `t` in front of it. -/
theorem bodyAhead_reaches {depth : Nat} (t : Token) (rest : List Token)
    (h : Derives .block us [.block body]) (ih : Accepted e .block us [.block body])
    (hd : 4 * us.length ≤ depth) :
    ∃ u, Reaches e (blockAhead (block ((rules depth).statements true))) body (t :: us ++ rest)
      (u :: rest) := by
  obtain ⟨u, hbody⟩ := ih body depth rest rfl hd
  obtain ⟨-, ⟨⟩⟩ | ⟨l, us, rfl, hl⟩ := h.opening
  exact ⟨u, blockAhead_reaches (of_decide_eq_true hl) hbody⟩

/-- A semicolon alone has no tree, so nothing is said of `statement` there. -/
theorem accepted_empty (hs : s.kind = .semicolon) : Accepted e .statement [s] [] :=
  fun _ _ _ _ => .inl ⟨rfl, s, rfl, hs⟩

/-- A declaration and what follows it, a `tail` whose left side is the `declare` node. -/
theorem accepted_declaration (hv : v.kind = .kwVar) (ht : t.kind = .ident)
    (ih : Accepted e (.tail (.declare v ⟨t.line, t.literal⟩)) ts [n])
    (hs : s.kind = .semicolon) : Accepted e .statement (v :: t :: ts ++ [s]) [n] := by
  rintro (_ | depth) rest hd -
  · simp at hd
  have hexp :=
    ih n depth .statement s rest rfl (by simp at hd; omega) (by simp [Ending.closes, hs])
  refine .inr ⟨n, s, rfl, ?_⟩
  rw [statement_succ, statement]
  simp only [List.cons_append, List.append_assoc, List.nil_append]
  refine .bind .current ?_
  simp only [headOf_cons, hv]
  refine .bind .current (.bind .advance ?_)
  rw [headOf_cons, if_pos ht]
  exact .bind .advance hexp

/-- A declaration with a first value is an assignment to its `declare` node. -/
theorem accepted_initialized (hv : v.kind = .kwVar) (ht : t.kind = .ident)
    (hq : q.kind = .equal) (h : Derives .expression ts [value])
    (ih : Accepted e .expression ts [value]) (hs : s.kind = .semicolon) :
    Accepted e .statement (v :: t :: q :: ts ++ [s])
      [.assign q.line (.declare v ⟨t.line, t.literal⟩) value] := by
  rintro (_ | depth) rest hd -
  · simp at hd
  have hassign : Reaches e
      ((rules depth).expression .statement (some (.declare v ⟨t.line, t.literal⟩)))
      (.assign q.line (.declare v ⟨t.line, t.literal⟩) value)
      (q :: ts ++ s :: rest) (s :: rest) :=
    assign_reaches rfl hq h ih (by simp at hd; omega) (by simp [Ending.closes, hs])
  refine .inr ⟨_, s, rfl, ?_⟩
  rw [statement_succ, statement]
  simp only [List.cons_append, List.append_assoc, List.nil_append] at hassign ⊢
  refine .bind .current ?_
  simp only [headOf_cons, hv]
  refine .bind .current (.bind .advance ?_)
  rw [headOf_cons, if_pos ht]
  exact .bind .advance hassign

theorem accepted_blockStatement (h : Derives .block ts [.block body])
    (ih : Accepted e .block ts [.block body]) : Accepted e .statement ts [.block body] := by
  rintro (_ | depth) rest hd -
  · simp at hd
  obtain ⟨t, hblock⟩ := ih body depth rest rfl (by omega)
  obtain ⟨-, ⟨⟩⟩ | ⟨l, us, rfl, hl⟩ := h.opening
  refine .inr ⟨_, t, rfl, ?_⟩
  rw [statement_succ, statement]
  refine .bind .current ?_
  simp only [List.cons_append, headOf_cons, of_decide_eq_true hl] at hblock ⊢
  exact .bind hblock .pure

/-- `return`, an expression and a semicolon are a statement. -/
theorem accepted_returning (hk : k.kind = .kwReturn)
    (hopen : ∃ t us, ts = t :: us ∧ opensOperand t.kind)
    (ih : Accepted e .expression ts [value]) (hs : s.kind = .semicolon) :
    Accepted e .statement (k :: ts ++ [s]) [.returning k.line value] := by
  rintro (_ | depth) rest hd -
  · simp at hd
  have hval := ih value depth .statement s rest rfl (by simp at hd; omega)
    (by simp [Ending.closes, hs])
  obtain ⟨t, ts, rfl, ht⟩ := hopen
  refine .inr ⟨_, s, rfl, ?_⟩
  rw [statement_succ, statement]
  simp only [List.cons_append, List.append_assoc, List.nil_append] at hval ⊢
  refine .bind .current ?_
  simp only [headOf_cons, hk]
  refine .bind .current (.bind .advance ?_)
  exact .bind (required_reaches (closes_of_opensOperand ht).1 hval) .pure

theorem accepted_breaking (hk : k.kind = .kwBreak) (hs : s.kind = .semicolon) :
    Accepted e .statement [k, s] [.breaking k.line] := by
  rintro (_ | depth) rest hd -
  · simp at hd
  refine .inr ⟨_, s, rfl, ?_⟩
  rw [statement_succ, statement]
  simp only [List.cons_append, List.nil_append]
  refine .bind .current ?_
  simp only [headOf_cons, hk]
  refine .bind .current (.bind .peek ?_)
  rw [headOf_cons, if_pos hs]
  exact .bind .advance .pure

/-- An expression and a semicolon are a statement. -/
theorem accepted_expressionStatement (hopen : ∃ t us, ts = t :: us ∧ opensOperand t.kind)
    (ih : Accepted e .expression ts [n]) (hs : s.kind = .semicolon) :
    Accepted e .statement (ts ++ [s]) [n] := by
  rintro (_ | depth) rest hd -
  · simp at hd
  have hexp :=
    ih n depth .statement s rest rfl (by simp at hd; omega) (by simp [Ending.closes, hs])
  obtain ⟨t, ts, rfl, ht⟩ := hopen
  refine .inr ⟨_, s, rfl, ?_⟩
  rw [statement_succ, statement]
  simp only [List.cons_append, List.append_assoc, List.nil_append] at hexp ⊢
  refine .bind .current ?_
  rw [headOf_cons]
  -- none of the words that begin a statement of another kind opens an operand
  revert ht hexp
  cases t.kind <;> first | exact fun _ h => h | exact fun h => absurd h (by decide)

/-- A `conditional` ends where its `branches` end. -/
theorem conditional_reaches {depth : Nat} {branch : Option Block} {xs rest : List Token}
    (hi : i.kind = .kwIf) (hl : l.kind = .leftParen)
    (hopen : ∃ t us, ts = t :: us ∧ opensOperand t.kind)
    (iht : Accepted e .expression ts [test]) (hr : r.kind = .rightParen)
    (hd : 4 * ts.length + 2 ≤ depth)
    (h : Reaches e (branches (block ((rules depth).statements true))) (thenBlock, branch)
      (r :: xs) rest) :
    Reaches e (rules (depth + 1)).statement (.conditional i.line test thenBlock branch)
      (i :: l :: ts ++ r :: xs) rest := by
  have htest : Reaches e (group ((rules depth).expression .group none)) test
      (l :: ts ++ r :: xs) (r :: xs) :=
    group_reaches hopen iht hr hd
  rw [statement_succ, statement]
  simp only [List.cons_append] at htest ⊢
  refine .bind .current ?_
  simp only [headOf_cons, hi]
  refine .bind .current (.bind .advance ?_)
  rw [headOf_cons, if_pos hl]
  exact .bind htest (.bind h .pure)

/-- A conditional without `else`, which must not follow it. -/
theorem accepted_conditional (hi : i.kind = .kwIf) (hl : l.kind = .leftParen)
    (hopen : ∃ t us, ts = t :: us ∧ opensOperand t.kind)
    (iht : Accepted e .expression ts [test]) (hr : r.kind = .rightParen)
    (hb : Derives .block us [.block thenBlock])
    (ihb : Accepted e .block us [.block thenBlock]) :
    Accepted e .statement (i :: l :: ts ++ r :: us)
      [.conditional i.line test thenBlock none] := by
  rintro (_ | depth) rest hd helse
  · simp at hd
  obtain ⟨u, hthen⟩ := bodyAhead_reaches r rest hb ihb
    (show 4 * us.length ≤ depth by simp at hd; omega)
  have hbranches : Reaches e (branches (block ((rules depth).statements true)))
      (thenBlock, none) (r :: (us ++ rest)) (u :: rest) := by
    refine .bind hthen (.bind .peek ?_)
    rw [if_neg helse]
    exact .pure
  refine .inr ⟨_, u, rfl, ?_⟩
  rw [List.append_assoc, List.cons_append]
  exact conditional_reaches hi hl hopen iht hr (by simp at hd; omega) hbranches

/-- A conditional with both branches ends with the second block. -/
theorem accepted_conditionalElse (hi : i.kind = .kwIf) (hl : l.kind = .leftParen)
    (hopen : ∃ t us, ts = t :: us ∧ opensOperand t.kind)
    (iht : Accepted e .expression ts [test]) (hr : r.kind = .rightParen)
    (hb : Derives .block us [.block thenBlock])
    (ihb : Accepted e .block us [.block thenBlock]) (hk : k.kind = .kwElse)
    (he : Derives .block vs [.block elseBlock])
    (ihe : Accepted e .block vs [.block elseBlock]) :
    Accepted e .statement (i :: l :: ts ++ r :: us ++ k :: vs)
      [.conditional i.line test thenBlock (some elseBlock)] := by
  rintro (_ | depth) rest hd -
  · simp at hd
  obtain ⟨u, hthen⟩ := bodyAhead_reaches r (k :: (vs ++ rest)) hb ihb
    (show 4 * us.length ≤ depth by simp at hd; omega)
  obtain ⟨w, helse⟩ := bodyAhead_reaches k rest he ihe
    (show 4 * vs.length ≤ depth by simp at hd; omega)
  have hbranches : Reaches e (branches (block ((rules depth).statements true)))
      (thenBlock, some elseBlock) (r :: (us ++ k :: (vs ++ rest))) (w :: rest) := by
    refine .bind hthen (.bind .peek ?_)
    rw [headOf_cons, if_pos hk]
    exact .bind .advance (.bind helse .pure)
  refine .inr ⟨_, w, rfl, ?_⟩
  rw [List.append_assoc, List.append_assoc, List.cons_append, List.cons_append]
  exact conditional_reaches hi hl hopen iht hr (by simp at hd; omega) hbranches

/-- A loop without a head, whose condition is `true` on the line of its keyword. -/
theorem accepted_bareLoop (hk : k.kind = .kwLoop) (hb : Derives .block us [.block body])
    (ihb : Accepted e .block us [.block body]) :
    Accepted e .statement (k :: us)
      [.loop k.line none (.boolean k.line true) none body] := by
  rintro (_ | depth) rest hd -
  · simp at hd
  obtain ⟨u, hbody⟩ := bodyAhead_reaches k rest hb ihb
    (show 4 * us.length ≤ depth by simp at hd; omega)
  obtain ⟨-, ⟨⟩⟩ | ⟨l, us, rfl, hl⟩ := hb.opening
  refine .inr ⟨_, u, rfl, ?_⟩
  rw [statement_succ, statement]
  simp only [List.cons_append] at hbody ⊢
  refine .bind .current ?_
  simp only [headOf_cons, hk]
  refine .bind .current (.bind .peek ?_)
  rw [headOf_cons, if_neg (by simp [of_decide_eq_true hl])]
  exact .bind hbody .pure

/-- `headerPart` reads a part of a loop's head that `accepts` holds of. -/
theorem headerPart_reaches {part : Parser Node} {accepts : Node → Bool} {cause : Cause}
    (h : Reaches e part n ts us) (hn : accepts n) :
    Reaches e (headerPart part accepts cause) n ts us := by
  refine .bind (.attempt h) ?_
  simp only [Option.filter, hn, if_true]
  exact .pure

/-- The head of a loop is read up to the semicolon behind its condition, and `next` goes on from
there. -/
theorem header_reaches {α : Type} {depth : Nat} {rest zs : List Token} {a : α}
    {next : Node → Node → Parser α} (ihi : Accepted e .statement is [init])
    (hi : isLoopInit init) (hopen : ∃ t us, ts = t :: us ∧ opensOperand t.kind)
    (iht : Accepted e .expression ts [test]) (ht : isLoopCondition test)
    (hs : s.kind = .semicolon) (hd : 4 * is.length + 4 * ts.length + 3 ≤ depth)
    (h : Reaches e (next init test) a rest zs) :
    Reaches e (do
      let init ← headerPart (rules depth).statement isLoopInit .expectedLoopInit
      let _ ← advance
      let test ← headerPart ((rules depth).expression .statement none) isLoopCondition
        .expectedLoopCondition
      let _ ← advance
      next init test) a (is ++ ts ++ s :: rest) zs := by
  have htest := iht test depth .statement s rest rfl (by omega) (by simp [Ending.closes, hs])
  obtain ⟨t, ts, rfl, hopen⟩ := hopen
  obtain ⟨⟨⟩, -⟩ | ⟨_, u, ⟨⟩, hinit⟩ := ihi depth (t :: ts ++ s :: rest) (by omega) (by
    revert hopen
    rw [List.cons_append, headOf_cons]
    cases t.kind <;> decide)
  rw [List.append_assoc]
  refine .bind (headerPart_reaches hinit hi) (.bind .advance ?_)
  exact .bind (headerPart_reaches htest ht) (.bind .advance h)

/-- A loop with a head of two parts, for which `header_reaches` reads up to its closing
parenthesis. -/
theorem accepted_loop (hk : k.kind = .kwLoop) (hl : l.kind = .leftParen)
    (ihi : Accepted e .statement is [init]) (hi : isLoopInit init)
    (hopen : ∃ t us, ts = t :: us ∧ opensOperand t.kind)
    (iht : Accepted e .expression ts [test]) (ht : isLoopCondition test)
    (hs : s.kind = .semicolon) (hr : r.kind = .rightParen)
    (hb : Derives .block us [.block body]) (ihb : Accepted e .block us [.block body]) :
    Accepted e .statement (k :: l :: is ++ ts ++ s :: r :: us)
      [.loop k.line (some init) test none body] := by
  rintro (_ | depth) rest hd -
  · simp at hd
  obtain ⟨u, hbody⟩ := bodyAhead_reaches r rest hb ihb
    (show 4 * us.length ≤ depth by simp at hd; omega)
  refine .inr ⟨_, u, rfl, ?_⟩
  rw [statement_succ, statement]
  simp only [List.cons_append, List.append_assoc] at hbody ⊢
  refine .bind .current ?_
  simp only [headOf_cons, hk]
  refine .bind .current (.bind .peek ?_)
  rw [headOf_cons, if_pos hl]
  refine .bind .advance (.bind .advance ?_)
  rw [← List.append_assoc]
  refine header_reaches ihi hi hopen iht ht hs (by simp at hd; omega) (.bind .current ?_)
  rw [headOf_cons, if_pos hr]
  exact .bind hbody .pure

/-- A loop with a head of three parts, of which `loopRest` reads the last. -/
theorem accepted_loopStep (hk : k.kind = .kwLoop) (hl : l.kind = .leftParen)
    (ihi : Accepted e .statement is [init]) (hi : isLoopInit init)
    (hopen : ∃ t us, ts = t :: us ∧ opensOperand t.kind)
    (iht : Accepted e .expression ts [test]) (ht : isLoopCondition test)
    (hs : s.kind = .semicolon) (hopen' : ∃ t us, ps = t :: us ∧ opensOperand t.kind)
    (ihp : Accepted e .expression ps [step]) (hr : r.kind = .rightParen)
    (hb : Derives .block us [.block body]) (ihb : Accepted e .block us [.block body]) :
    Accepted e .statement (k :: l :: is ++ ts ++ s :: ps ++ r :: us)
      [.loop k.line (some init) test (some step) body] := by
  rintro (_ | depth) rest hd -
  · simp at hd
  have hstep := ihp step depth .group r (us ++ rest) rfl (by simp at hd; omega)
    (by simp [Ending.closes, hr])
  obtain ⟨u, hbody⟩ := bodyAhead_reaches r rest hb ihb
    (show 4 * us.length ≤ depth by simp at hd; omega)
  obtain ⟨p, ps, rfl, hp⟩ := hopen'
  refine .inr ⟨_, u, rfl, ?_⟩
  rw [statement_succ, statement]
  simp only [List.cons_append, List.append_assoc] at hbody hstep ⊢
  refine .bind .current ?_
  simp only [headOf_cons, hk]
  refine .bind .current (.bind .peek ?_)
  rw [headOf_cons, if_pos hl]
  refine .bind .advance (.bind .advance ?_)
  rw [← List.append_assoc]
  refine header_reaches ihi hi hopen iht ht hs (by simp at hd; omega) (.bind .current ?_)
  -- a closing parenthesis opens no operand, so the rule takes what is ahead as a step
  have hp : p.kind ≠ .rightParen := by
    revert hp
    cases p.kind <;> decide
  rw [headOf_cons, if_neg hp]
  exact .bind hstep (.bind hbody .pure)

/-- A function, with its parameters read by `parameterList_reaches`. -/
theorem accepted_function (hk : k.kind = .kwFun) (ht : t.kind = .ident)
    (hl : l.kind = .leftParen) (hp : Parameters ps params) (hr : r.kind = .rightParen)
    (hb : Derives .block us [.block body]) (ihb : Accepted e .block us [.block body]) :
    Accepted e .statement (k :: t :: l :: ps ++ r :: us)
      [.function k.line ⟨t.line, t.literal⟩ params body] := by
  rintro (_ | depth) rest hd -
  · simp at hd
  have hparams : Reaches e (parameterList (rules depth)) params (l :: ps ++ r :: (us ++ rest))
      (r :: (us ++ rest)) := parameterList_reaches hp hr (by simp at hd; omega)
  obtain ⟨u, hbody⟩ := bodyAhead_reaches r rest hb ihb
    (show 4 * us.length ≤ depth by simp at hd; omega)
  refine .inr ⟨_, u, rfl, ?_⟩
  rw [statement_succ, statement]
  simp only [List.cons_append, List.append_assoc] at hparams hbody ⊢
  refine .bind .current ?_
  simp only [headOf_cons, hk]
  refine .bind .current (.bind .advance ?_)
  rw [headOf_cons, if_pos ht]
  refine .bind .advance ?_
  rw [headOf_cons, if_pos hl]
  exact .bind hparams (.bind hbody (.bind .note .pure))

theorem accepted_noStatements : Accepted e .statements [] [] := by
  rintro (_ | depth) inBlock rest hd hend
  · simp at hd
  rw [statements_succ, statements]
  refine .bind .current ?_
  rw [List.nil_append, if_pos hend]
  exact .pure

/-- `orRecover` reads a statement, whether it comes to a node or not. -/
theorem orRecover_reaches {depth : Nat} {rest : List Token} (ih : Accepted e .statement ts ns)
    (hd : 4 * ts.length + 3 ≤ depth) (helse : (headOf rest e).kind ≠ .kwElse) :
    ∃ o t, o.toList = ns ∧
      Reaches e (orRecover (rules depth).statement) o (ts ++ rest) (t :: rest) := by
  obtain ⟨rfl, s, rfl, hs⟩ | ⟨n, t, rfl, h⟩ := ih depth rest hd helse
  · refine ⟨none, s, rfl, fun errors journal => ⟨journal, ?_⟩⟩
    obtain ⟨depth, rfl⟩ : ∃ d, depth = d + 2 := ⟨depth - 2, by omega⟩
    refine orRecover_of_silent ?_ (Nat.le_refl _)
    rw [statement_succ, statement, bind_of_some (p := Parser.current) rfl]
    simp only [Reading.current, List.cons_append, List.nil_append, headOf_cons, hs]
    rw [expression_succ, expression.eq_def, bind_of_some (p := Parser.current) rfl]
    simp only [Reading.current, headOf_cons, hs]
    rfl
  · refine ⟨some n, t, rfl, fun errors journal => ?_⟩
    obtain ⟨journal', h⟩ := h errors journal
    exact ⟨journal', orRecover_of_some h⟩

/-- `Rules.statements` reads a statement and those behind it: a tree is added, or none for a
semicolon alone. -/
theorem accepted_statements (h : Derives .statement ts ns) (ih : Accepted e .statement ts ns)
    (hs : Derives .statements us ms) (ihs : Accepted e .statements us ms) :
    Accepted e .statements (ts ++ us) (ns ++ ms) := by
  rintro (_ | depth) inBlock rest hd hend
  · simp at hd
  obtain ⟨-, ⟨⟩⟩ | ⟨t, ts, rfl, ht⟩ := h.opening
  have helse : (headOf (us ++ rest) e).kind ≠ .kwElse := by
    obtain ⟨rfl, -⟩ | ⟨u, us, rfl, hu⟩ := hs.opening
    · rcases hend with hend | ⟨-, hend⟩ <;> simp [hend]
    · revert hu
      rw [List.cons_append, headOf_cons, Form.opensWith]
      cases u.kind <;> decide
  obtain ⟨o, u, rfl, hone⟩ := orRecover_reaches (e := e) ih
    (show 4 * (t :: ts).length + 3 ≤ depth by simp at hd ⊢; omega) helse
  have hmore := ihs depth inBlock rest (by simp at hd; omega) hend
  rw [statements_succ, statements, List.append_assoc]
  refine .bind .current ?_
  have hgo : ¬(t.kind = .eof ∨ inBlock = true ∧ t.kind = .rightBrace) := by
    revert ht
    rw [Form.opensWith]
    cases t.kind <;> cases inBlock <;> decide
  rw [List.cons_append, headOf_cons, if_neg hgo]
  exact .bind hone (.bind .advance (.bind hmore .pure))

end Statements

/-- Whatever a form derives is `Accepted`: the rule of the form reads it and gives its trees. -/
theorem Derives.accepted {form : Form} {ts : List Token} {ns : List Node}
    (h : Derives form ts ns) : Accepted e form ts ns := by
  have opens {ts : List Token} {ns : List Node} (h : Derives .expression ts ns) :
      ∃ t us, ts = t :: us ∧ opensOperand t.kind := by
    obtain ⟨-, ⟨⟩⟩ | h := h.opening
    exact h
  induction h with
  | integer ht hv => exact accepted_integer ht hv
  | string ht => exact accepted_literal (.inl ⟨ht, rfl⟩)
  | kwTrue ht => exact accepted_literal (.inr (.inl ⟨ht, rfl⟩))
  | kwFalse ht => exact accepted_literal (.inr (.inr ⟨ht, rfl⟩))
  | name ht => exact accepted_name ht
  | emptyCall ht hl hr => exact accepted_emptyCall ht hl hr
  | call ht hl h hr ih => exact accepted_call ht hl h ih hr
  | group hl h hr ih => exact accepted_group hl (opens h) ih hr
  | prefixed ho _ ih => exact accepted_prefixed ho ih
  | noTail => exact accepted_noTail
  | infixed ho _ h ih iht => exact accepted_infixed ho ih h iht
  | assign ht hq h ih => exact accepted_assign ht hq h ih
  | chain h ht ih iht =>
    obtain ⟨-, ⟨⟩⟩ | hopen := h.opening
    exact accepted_chain hopen ih ht iht
  | lastArgument h ih => exact accepted_lastArgument (opens h) ih
  | moreArguments h hc _ ih iha => exact accepted_moreArguments (opens h) ih hc iha
  | block _ _ hr ih => exact accepted_block ih hr
  | empty hs => exact accepted_empty hs
  | declaration hv ht _ hs ih => exact accepted_declaration hv ht ih hs
  | initialized hv ht hq h hs ih => exact accepted_initialized hv ht hq h ih hs
  | @blockStatement ts n h ih =>
    obtain ⟨body, rfl⟩ : ∃ body, n = .block body := by
      cases h
      exact ⟨_, rfl⟩
    exact accepted_blockStatement h ih
  | conditional hi hl h hr hb iht ihb =>
    exact accepted_conditional hi hl (opens h) iht hr hb ihb
  | conditionalElse hi hl h hr hb hk he iht ihb ihe =>
    exact accepted_conditionalElse hi hl (opens h) iht hr hb ihb hk he ihe
  | bareLoop hk hb ihb => exact accepted_bareLoop hk hb ihb
  | loop hk hl _ hi h ht hs hr hb ihi iht ihb =>
    exact accepted_loop hk hl ihi hi (opens h) iht ht hs hr hb ihb
  | loopStep hk hl _ hi h ht hs hp hr hb ihi iht ihp ihb =>
    exact accepted_loopStep hk hl ihi hi (opens h) iht ht hs (opens hp) ihp hr hb ihb
  | function hk ht hl hp hr hb ihb => exact accepted_function hk ht hl hp hr hb ihb
  | returning hk h hs ih => exact accepted_returning hk (opens h) ih hs
  | breaking hk hs => exact accepted_breaking hk hs
  | expressionStatement h hs ih => exact accepted_expressionStatement (opens h) ih hs
  | noStatements => exact accepted_noStatements
  | statements h hs ih ihs => exact accepted_statements h ih hs ihs

end Grammar
end ScriptLang
