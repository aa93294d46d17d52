import ScriptLang.Proofs.Advance
import ScriptLang.Proofs.Canonical

/-!
# What the parser gives

Whatever the source and whatever is wrong with it, the trees that survive are formed as trees
from a parser are. A failed construct leaves no tree at all, so a tree in the package is whole
even if diagnostics were reported inside it.

- `Parser.Ensures`: what the results of a parser are like, if it is given tokens from a lexer.
- `Grammar.Forming`: what is to be shown of the recursive rules at one depth of recursion.
- `Package.formed_parse`: the trees of a package are formed.
-/

namespace ScriptLang

/-- The token `t` comes from a lexer, unless it is the end of the source. -/
def Token.Scanned (t : Token) : Prop := t.kind ≠ .eof → t.Lexed

namespace Parser

open Reading

/-- From `r` on, if its tokens come from a lexer, `p` has no results but those of which `Q`
holds. -/
def Ensures {α : Type} (p : Parser α) (r : Reading) (Q : α → Prop) : Prop :=
  (∀ t ∈ r.tokens, t.Lexed) → ∀ a r', p r = (some a, r') → Q a

namespace Ensures

variable {α β : Type} {p q : Parser α} {f : α → Parser β} {r : Reading} {P Q : α → Prop}
  {R : β → Prop}

/-- If a parser `Ensures` a property, it ensures any weaker one. -/
theorem imp (h : Ensures p r P) (hq : ∀ a, P a → Q a) : Ensures p r Q :=
  fun hr a r' hp => hq a (h hr a r' hp)

theorem pure {a : α} (h : Q a) : Ensures (pure a) r Q := by
  rintro - _ _ ⟨⟩
  exact h

theorem fail : Ensures fail r Q := by
  rintro - _ _ ⟨⟩

/-- What follows is run on tokens from the lexer again, as the first parser `Advances`. -/
theorem bind (ha : Advances p) (hp : Ensures p r P) (hf : ∀ a r', P a → Ensures (f a) r' R) :
    Ensures (p >>= f) r R := by
  intro hr b r' hb
  have hlater := ha r
  rcases h : p r with ⟨_ | a, r₁⟩ <;> rw [h] at hlater
  · rw [bind_of_none h] at hb
    cases hb
  · rw [bind_of_some h] at hb
    exact hf a r₁ (hp hr a r₁ h) (fun t ht => hr t (hlater.tokens.subset ht)) b r' hb

/-- `bind` where nothing need be known of the first result. -/
theorem bind_any (ha : Advances p) (hf : ∀ a r', Ensures (f a) r' R) : Ensures (p >>= f) r R :=
  bind ha (P := fun _ => True) (fun _ _ _ _ => trivial) fun a r' _ => hf a r'

/-- The branch that is taken may use the condition `c`. -/
theorem ite {c : Prop} [Decidable c] (hp : c → Ensures p r Q) (hq : ¬c → Ensures q r Q) :
    Ensures (if c then p else q) r Q := by
  split
  · rename_i h
    exact hp h
  · rename_i h
    exact hq h

/-- A result of `Parser.attempt` is one of the parser, if there is any. -/
theorem attempt (hp : Ensures p r P) : Ensures p.attempt r fun o => ∀ a ∈ o, P a := by
  rintro hr o r' ho a ⟨⟩
  rw [Parser.attempt] at ho
  rcases h : p r with ⟨_ | b, r₁⟩ <;> rw [h] at ho <;> cases ho
  exact hp hr _ _ h

/-- `headOf` tokens from a lexer is `Scanned`, also if there are none. -/
theorem scanned_headOf {ts : List Token} {e : Nat} (h : ∀ t ∈ ts, t.Lexed) :
    (headOf ts e).Scanned := by
  cases ts with
  | nil => exact fun hk => absurd rfl hk
  | cons t ts => exact fun _ => h t List.mem_cons_self

/-- The current token is `Scanned`. -/
theorem bind_current {f : Token → Parser β}
    (hf : r.current.Scanned → Ensures (f r.current) r R) : Ensures (current >>= f) r R :=
  fun hr => hf (scanned_headOf hr) hr

/-- The token that is passed on to is `Scanned`, whichever it is. -/
theorem bind_advance {f : Token → Parser β}
    (hf : ∀ r', r'.current.Scanned → Ensures (f r'.current) r' R) :
    Ensures (advance >>= f) r R := by
  intro hr
  have htail : ∀ t ∈ r.tokens.tail, t.Lexed := fun t ht => hr t (List.mem_of_mem_tail ht)
  exact hf { r with tokens := r.tokens.tail, journal := r.journal.note (.scanned r.ahead) }
    (scanned_headOf htail) htail

theorem bind_peek {f : Token → Parser β} (hf : ∀ t r', Ensures (f t) r' R) :
    Ensures (peek >>= f) r R :=
  bind_any .peek hf

theorem reject {cause : Cause} : Ensures (reject cause) r Q :=
  bind_any advancing.report fun _ _ => fail

/-- A parser that reports, recovers and fails has no results, so it `Ensures` anything. -/
theorem giveUp {cause : Cause} {how : Recovery} :
    Ensures (do report cause; recover how; Parser.fail) r Q :=
  bind_any advancing.report fun _ _ => bind_any .recover fun _ _ => fail

end Ensures
end Parser

namespace Grammar

open Reading ScriptLang.Parser

/-! ## What is to be shown -/

/-- What has been read of an expression: a value, or, if `b` allows it, a declaration. -/
def Stem (b : Prop) (d : Nat) (n : Node) : Prop :=
  Formed .parsed d .value n ∨ b ∧ Formed .parsed d .declared n

/-- What an expression comes to: what `Stem` holds of, or, if `b` allows it, an
initialization. -/
def Whole (b : Prop) (d : Nat) (n : Node) : Prop :=
  Stem b d n ∨ b ∧ Formed .parsed d .init n

/-- What the recursive rules `Ensures` at one depth of recursion: trees that are `Formed`,
inside any number `d` of blocks. -/
structure Forming (depth : Nat) : Prop where
  operand : ∀ d r, Ensures (rules depth).operand r (Formed .parsed d .value)
  expression : ∀ b d ending left r, (∀ l ∈ left, Stem b d l) →
    Ensures ((rules depth).expression ending left) r (Whole b d)
  arguments : ∀ d r, Ensures (rules depth).arguments r fun ns =>
    ∀ n ∈ ns, Formed .parsed d .value n
  statement : ∀ d r, Ensures (rules depth).statement r (Formed .parsed d .statement)
  statements : ∀ d inBlock r,
    Ensures ((rules depth).statements inBlock) r fun ns =>
      ∀ n ∈ ns, Formed .parsed d .statement n

/-! ## Names, operators and places -/

/-- The literal of a `Scanned` identifier passes `isName`. -/
theorem isName_of_ident {t : Token} (h : t.Scanned) (hk : t.kind = .ident) :
    isName t.literal.toList := by
  have hl := h (by rw [hk]; decide)
  rw [Token.Lexed, hk] at hl
  exact hl

/-- A value is formed in some place that `Rigor.parsed` allows as an operand. -/
theorem place_of_value {d : Nat} {n : Node} (h : Formed .parsed d .value n) :
    ∃ p, Rigor.parsed.Allows p ∧ Formed .parsed d p n := by
  cases h with
  | operandValue h => exact ⟨.operand, .inl rfl, h⟩
  | assignedValue h => exact ⟨.assigned, .inr ⟨rfl, rfl⟩, h⟩

/-- A value that passes `isTarget` is a name. -/
theorem ident_of_isTarget {d : Nat} {n : Node} (h : Formed .parsed d .value n)
    (ht : isTarget n) : ∃ line x, n = .ident line x ∧ isName x.toList := by
  cases h with
  | operandValue h =>
    cases h with
    | ident hx => exact ⟨_, _, rfl, hx⟩
    | _ => cases ht
  | assignedValue h =>
    cases h
    cases ht

/-- Of all `Formed` trees that are declared, only a `declare` node may be assigned to. -/
theorem declare_of_isTarget {d : Nat} {n : Node} (h : Formed .parsed d .declared n)
    (ht : isTarget n) :
    ∃ v b, n = .declare v b ∧ v.kind = .kwVar ∧ v.Lexed ∧ isName b.name.toList := by
  cases h with
  | declare hv hl hx => exact ⟨_, _, rfl, hv, hl, hx⟩
  | chain => cases ht

/-- A statement that passes `isLoopInit` is formed as the first part of a loop. -/
theorem init_of_isLoopInit {d : Nat} {n : Node} (h : Formed .parsed d .statement n)
    (hi : isLoopInit n) : Formed .parsed d .init n := by
  cases h with
  | initStatement h => exact h
  | operandStatement h => cases h <;> cases hi
  | declaredStatement h => cases h <;> cases hi
  | _ => cases hi

/-- Whatever an expression comes to may stand as a statement. -/
theorem Whole.statement {b : Prop} {d : Nat} {n : Node} (h : Whole b d n) :
    Formed .parsed d .statement n := by
  obtain (h | ⟨-, h⟩) | ⟨-, h⟩ := h
  · cases h with
    | operandValue h => exact .operandStatement h
    | assignedValue h => exact .initStatement (.assignedInit h)
  · exact .declaredStatement h
  · exact .initStatement h

/-! ## Expressions -/

section Expressions

variable {depth : Nat} {r : Reading}

/-- `Rules.expression` with nothing read so far gives a value. -/
theorem value_ensures (ih : Forming depth) (d : Nat) (ending : Ending) :
    Ensures ((rules depth).expression ending none) r (Formed .parsed d .value) := by
  refine (ih.expression False d ending none r nofun).imp ?_
  rintro n ((h | ⟨⟨⟩, -⟩) | ⟨⟨⟩, -⟩)
  exact h

theorem required_ensures (ih : Forming depth) (d : Nat) (ending : Ending) :
    Ensures (required ending ((rules depth).expression ending none)) r
      (Formed .parsed d .value) :=
  .bind_current fun _ => .ite (fun _ => .reject) fun _ => value_ensures ih d ending

theorem group_ensures (ih : Forming depth) (d : Nat) :
    Ensures (group ((rules depth).expression .group none)) r (Formed .parsed d .value) :=
  .bind_advance fun _ _ => required_ensures ih d .group

/-- `call` gives a value: its callee is a name, and its arguments are values. -/
theorem call_ensures (ih : Forming depth) (d : Nat) {callee : Token}
    (hx : isName callee.literal.toList) :
    Ensures (call callee (rules depth).arguments) r (Formed .parsed d .value) := by
  refine .bind_current fun _ => .bind_peek fun _ r₁ => .ite (fun _ => ?_) fun _ => ?_
  · exact .bind_advance fun _ _ => .pure (.operandValue (.call hx nofun))
  · exact .bind (rules_advance _).arguments (ih.arguments d r₁) fun args _ ha =>
      .pure (.operandValue (.call hx ha))

/-- The operand behind a prefix operator is read by `operand`, so it is a value. -/
theorem prefixed_ensures (ih : Forming depth) (d : Nat) (hk : r.current.kind.isPrefix) :
    Ensures (prefixed (rules depth).operand) r (Formed .parsed d .value) := by
  refine .bind_current fun ho => .bind_advance fun r₁ _ => ?_
  refine .bind (rules_advance _).operand (ih.operand d r₁) fun n _ hn => .pure ?_
  obtain ⟨p, hp, hn⟩ := place_of_value hn
  have hl := ho (by intro h; rw [h] at hk; cases hk)
  exact .operandValue (.prefixed hk hl hp hn)

/-- `Forming.operand`, one `level` up. -/
theorem operand_ensures (ih : Forming depth) (d : Nat) (r : Reading) :
    Ensures (rules (depth + 1)).operand r (Formed .parsed d .value) := by
  rw [operand_succ, operand]
  refine .bind_current fun ht => ?_
  split
  case h_1 hk =>
    have hx := isName_of_ident ht hk
    refine .bind_peek fun _ _ => .ite (fun _ => ?_) fun _ => .pure (.operandValue (.ident hx))
    exact .bind_advance fun _ _ => call_ensures ih d hx
  case h_2 hk =>
    split
    · rename_i value hv
      exact .pure (.operandValue (.integer hk (ht (by rw [hk]; decide)) hv))
    · exact .reject
  case h_3 hk =>
    have hl := ht (by rw [hk]; decide)
    rw [Token.Lexed, hk] at hl
    exact .pure (.operandValue (.string hl (by rintro ⟨⟩)))
  case h_4 | h_5 => exact .pure (.operandValue .boolean)
  case h_6 => exact group_ensures ih d
  case h_7 hk | h_8 hk | h_9 hk => exact prefixed_ensures ih d (by rw [hk]; rfl)
  all_goals exact .reject

/-- `fold` begins with an operand, or puts the left side and the one behind an infix operator
together. -/
theorem fold_ensures (ih : Forming depth) {b : Prop} {d : Nat} {left : Option Node}
    (hleft : ∀ l ∈ left, Stem b d l) :
    Ensures (fold (rules depth).operand left) r (Stem b d) := by
  have hoperand : Ensures (rules depth).operand r (Stem b d) :=
    (ih.operand d r).imp fun _ => .inl
  refine .bind_current fun ho => ?_
  split
  · rename_i left
    refine .ite (fun hk => ?_) fun _ => .ite (fun _ => .reject) fun _ => hoperand
    have hl := ho (by intro h; rw [h] at hk; cases hk)
    refine .bind_current fun _ => .bind_advance fun r₁ _ => ?_
    refine .bind (rules_advance _).operand (ih.operand d r₁) fun right _ hright => .pure ?_
    obtain ⟨q, hq, hright⟩ := place_of_value hright
    obtain hvalue | ⟨hb, hdeclared⟩ := hleft left rfl
    · obtain ⟨p, hp, hvalue⟩ := place_of_value hvalue
      exact .inl (.operandValue (.infixed hk hl hp hvalue hq hright))
    · exact .inr ⟨hb, .chain rfl hk hl hdeclared hq hright⟩
  · exact hoperand

/-- `assign` gives an assignment to a name or to a declaration. Nothing else `isTarget`, and
then it fails. -/
theorem assign_ensures (ih : Forming depth) {b : Prop} {d : Nat} {ending : Ending}
    {left : Option Node} (hleft : ∀ l ∈ left, Stem b d l) :
    Ensures (assign ending ((rules depth).expression ending none) left) r (Whole b d) := by
  refine .bind_current fun _ => ?_
  split
  · rename_i target htarget
    obtain ⟨hsome, htarget⟩ := Option.filter_eq_some_iff.mp htarget
    refine .bind_advance fun _ _ => ?_
    refine .bind (advancing.required ((rules_advance _).expression _ _))
      (required_ensures ih d ending) fun value _ hvalue => .pure ?_
    obtain htree | ⟨hb, htree⟩ := hleft target hsome
    · obtain ⟨line, x, rfl, hx⟩ := ident_of_isTarget htree htarget
      exact .inl (.inl (.assignedValue (.assign hx hvalue)))
    · obtain ⟨v, x, rfl, hv, hl, hx⟩ := declare_of_isTarget htree htarget
      exact .inr ⟨hb, .initialized hv hl hx hvalue⟩
  · exact .giveUp

/-- `Forming.expression`, one `level` up. -/
theorem expression_ensures (ih : Forming depth) (b : Prop) (d : Nat) (ending : Ending)
    (left : Option Node) (r : Reading) (hleft : ∀ l ∈ left, Stem b d l) :
    Ensures ((rules (depth + 1)).expression ending left) r (Whole b d) := by
  rw [expression_succ, expression.eq_def]
  refine .bind_current fun _ => .ite (fun _ => ?_) fun _ => .ite (fun _ => .reject) fun _ =>
    .ite (fun _ => assign_ensures ih hleft) fun _ => ?_
  · cases left with
    | none => exact .fail
    | some left => exact .pure (.inl (hleft left rfl))
  · refine .bind (.attempt (advancing.fold (rules_advance _).operand))
      (.attempt (fold_ensures ih hleft)) fun node _ hnode => ?_
    split
    · exact .bind_any .recover fun _ _ => .fail
    · refine .bind_peek fun _ _ => .ite (fun _ => ?_) fun _ => .bind_advance fun r₁ _ => ?_
      · exact .bind_any .reportAt fun _ _ => .fail
      · exact ih.expression b d ending _ r₁ hnode

/-- `Forming.arguments`, one `level` up. -/
theorem arguments_ensures (ih : Forming depth) (d : Nat) (r : Reading) :
    Ensures (rules (depth + 1)).arguments r fun ns => ∀ n ∈ ns, Formed .parsed d .value n := by
  rw [arguments_succ, arguments]
  refine .bind_advance fun _ _ => ?_
  refine .bind (advancing.required ((rules_advance _).expression _ _))
    (required_ensures ih d .argument) fun arg _ harg => ?_
  refine .bind_current fun _ => .ite (fun _ => .pure ?_) fun _ => ?_
  · rintro n hn
    rw [List.mem_singleton.mp hn]
    exact harg
  · refine .bind (rules_advance _).arguments (ih.arguments d _) fun args _ hargs => .pure ?_
    rintro n hn
    rcases List.mem_cons.mp hn with rfl | hn
    · exact harg
    · exact hargs n hn

end Expressions

/-! ## Statements -/

section Statements

variable {depth : Nat} {r : Reading}

/-- The nodes of the block `b` are formed statements, one block further in than `d`. -/
def Within (d : Nat) (b : Block) : Prop := ∀ n ∈ b.nodes, Formed .parsed (d + 1) .statement n

/-- A `block` is made of statements one block further in. -/
theorem block_ensures (ih : Forming depth) (d : Nat) :
    Ensures (block ((rules depth).statements true)) r (Within d) := by
  refine .bind_current fun _ => .bind_advance fun r₁ _ => ?_
  refine .bind ((rules_advance _).statements _) (ih.statements (d + 1) true r₁) fun ns _ hns =>
    ?_
  exact .bind_current fun _ => .ite (fun _ => .reject) fun _ => .pure hns

theorem blockAhead_ensures (ih : Forming depth) (d : Nat) :
    Ensures (blockAhead (block ((rules depth).statements true))) r (Within d) :=
  .bind_advance fun _ _ => .ite (fun _ => block_ensures ih d) fun _ => .reject

/-- So are both `branches` of a conditional. -/
theorem branches_ensures (ih : Forming depth) (d : Nat) :
    Ensures (branches (block ((rules depth).statements true))) r fun bs =>
      Within d bs.1 ∧ ∀ e ∈ bs.2, Within d e := by
  have hadv := advancing.blockAhead (advancing.block ((rules_advance depth).statements true))
  refine .bind hadv (blockAhead_ensures ih d) fun b _ hb => ?_
  refine .bind_peek fun _ _ => .ite (fun _ => ?_) fun _ => .pure ⟨hb, nofun⟩
  refine .bind_advance fun _ _ => .bind hadv (blockAhead_ensures ih d) fun c _ hc =>
    .pure ⟨hb, ?_⟩
  rintro e ⟨⟩
  exact hc

theorem conditional_ensures (ih : Forming depth) (d : Nat) :
    Ensures (conditional ((rules depth).expression .group none)
      (block ((rules depth).statements true))) r (Formed .parsed d .statement) := by
  refine .bind_current fun _ => .bind_advance fun _ _ => .ite (fun _ => ?_) fun _ => .reject
  refine .bind (advancing.group ((rules_advance _).expression _ _)) (group_ensures ih d)
    fun test _ ht => ?_
  refine .bind (advancing.branches (advancing.block ((rules_advance _).statements _)))
    (branches_ensures ih d) ?_
  rintro ⟨b, c⟩ _ ⟨hb, hc⟩
  exact .pure (.conditional ht hb hc)

/-- A part of a loop's head is as `part` gives it, and passes the test `accepts`. -/
theorem headerPart_ensures {part : Parser Node} {accepts : Node → Bool} {cause : Cause}
    {P : Node → Prop} (ha : Advances part) (h : Ensures part r P) :
    Ensures (headerPart part accepts cause) r fun n => P n ∧ accepts n := by
  refine .bind (.attempt ha) (.attempt h) fun n _ hn => ?_
  split
  · rename_i node hnode
    obtain ⟨hsome, hacc⟩ := Option.filter_eq_some_iff.mp hnode
    exact .pure ⟨hn node hsome, hacc⟩
  · exact .giveUp

/-- A `loop` has no head, or a first part that passes `isLoopInit` and a condition that passes
`isLoopCondition`, and perhaps a step. -/
theorem loop_ensures (ih : Forming depth) (d : Nat) :
    Ensures (loop (rules depth).statement ((rules depth).expression .statement none)
      ((rules depth).expression .group none) (block ((rules depth).statements true))) r
      (Formed .parsed d .statement) := by
  have hadv := advancing.blockAhead (advancing.block ((rules_advance depth).statements true))
  refine .bind_current fun _ => .bind_peek fun _ _ => .ite (fun _ => ?_) fun _ => ?_
  · refine .bind_advance fun _ _ => .bind_advance fun r₁ _ => ?_
    refine .bind (advancing.headerPart (rules_advance _).statement)
      (headerPart_ensures (rules_advance _).statement (ih.statement d r₁)) ?_
    rintro init _ ⟨hinit, hi⟩
    have hinit := init_of_isLoopInit hinit hi
    refine .bind_advance fun r₂ _ => ?_
    refine .bind (advancing.headerPart ((rules_advance _).expression _ _))
      (headerPart_ensures ((rules_advance _).expression _ _) (value_ensures ih d .statement)) ?_
    rintro test _ ⟨htest, hc⟩
    -- the condition has been found to be an infix node, which is formed in one way only
    cases htest with
    | assignedValue htest =>
      cases htest
      cases hc
    | operandValue htest =>
      cases htest with
      | infixed ho hl hp hleft hq hright =>
        refine .bind_advance fun r₃ _ => .bind_current fun _ => .ite (fun _ => ?_) fun _ => ?_
        · exact .bind hadv (blockAhead_ensures ih d) fun b _ hb =>
            .pure (.loop hinit ho hl hp hleft hq hright nofun hb)
        · refine .bind ((rules_advance _).expression _ _) (value_ensures ih d .group)
            fun step _ hstep => ?_
          refine .bind hadv (blockAhead_ensures ih d) fun b _ hb => .pure ?_
          refine .loop hinit ho hl hp hleft hq hright ?_ hb
          rintro n ⟨⟩
          exact hstep
      | _ => cases hc
  · exact .bind hadv (blockAhead_ensures ih d) fun b _ hb => .pure (.bareLoop hb)

/-- The names that `Rules.parameters` gives pass `isName`. -/
theorem parameters_ensures (depth : Nat) (r : Reading) :
    Ensures (rules depth).parameters r fun bs => ∀ x ∈ bs, isName x.name.toList := by
  induction depth generalizing r with
  | zero => exact .fail
  | succ depth ih =>
    refine .bind_advance fun r₁ ht => ?_
    split
    · rename_i hk
      have hx := isName_of_ident ht hk
      refine .bind_advance fun r₂ _ => ?_
      split
      · refine .bind (rules_advance _).parameters (ih r₂) fun bs _ hbs => .pure ?_
        rintro x hm
        rcases List.mem_cons.mp hm with rfl | hm
        · exact hx
        · exact hbs x hm
      · refine .pure ?_
        rintro x hm
        rw [List.mem_singleton.mp hm]
        exact hx
      · exact .reject
      · exact .reject
    · exact .reject
    · exact .reject

/-- A `function` has a name, parameters that are names, and a body one block further in. -/
theorem function_ensures (ih : Forming depth) (d : Nat) :
    Ensures (function (parameterList (rules depth)) (block ((rules depth).statements true))) r
      (Formed .parsed d .statement) := by
  have hadv := advancing.blockAhead (advancing.block ((rules_advance depth).statements true))
  refine .bind_current fun _ => .bind_advance fun r₁ ht => .ite (fun hk => ?_) fun _ => .reject
  refine .bind_advance fun r₂ _ => .ite (fun _ => ?_) fun _ => .reject
  have hparams : Ensures (parameterList (rules depth)) r₂ fun bs =>
      ∀ x ∈ bs, isName x.name.toList := by
    refine .bind_peek fun _ r₃ => .ite (fun _ => ?_) fun _ => parameters_ensures depth r₃
    exact .bind_advance fun _ _ => .pure nofun
  refine .bind (advancing.parameterList (rules_advance _)) hparams fun params _ hparams => ?_
  refine .bind hadv (blockAhead_ensures ih d) fun b _ hb => ?_
  exact .bind_any .note fun _ _ => .pure (.function (isName_of_ident ht hk) hparams hb)

/-- A declaration is its `declare` node or an assignment to it. -/
theorem declaration_ensures (ih : Forming depth) (d : Nat) (hk : r.current.kind = .kwVar) :
    Ensures (declaration ((rules depth).expression .statement)) r
      (Formed .parsed d .statement) := by
  refine .bind_current fun hv => .bind_advance fun r₁ ht =>
    .ite (fun hname => ?_) fun _ => .giveUp
  have hdeclare := Formed.declare (r := .parsed) (d := d)
    (b := ⟨r₁.current.line, r₁.current.literal⟩) hk (hv (by rw [hk]; decide))
    (isName_of_ident ht hname)
  refine .bind_advance fun r₂ _ => (ih.expression True d .statement _ r₂ ?_).imp ?_
  · rintro l ⟨⟩
    exact .inr ⟨trivial, hdeclare⟩
  · exact fun _ => Whole.statement

theorem breaking_ensures (d : Nat) : Ensures breaking r (Formed .parsed d .statement) := by
  refine .bind_current fun _ => .bind_peek fun _ _ => .ite (fun _ => ?_) fun _ => ?_
  · exact .bind_advance fun _ _ => .pure .breaking
  · exact .bind_any .reportAt fun _ _ => .fail

/-- `Forming.statement`, one `level` up: one case for each kind that a statement may start
with. -/
theorem statement_ensures (ih : Forming depth) (d : Nat) (r : Reading) :
    Ensures (rules (depth + 1)).statement r (Formed .parsed d .statement) := by
  rw [statement_succ, statement]
  refine .bind_current fun _ => ?_
  split
  case h_1 hk => exact declaration_ensures ih d hk
  case h_2 =>
    exact .bind (advancing.block ((rules_advance _).statements _)) (block_ensures ih d)
      fun b _ hb => .pure (.block hb)
  case h_3 => exact conditional_ensures ih d
  case h_4 => exact loop_ensures ih d
  case h_5 => exact function_ensures ih d
  case h_6 =>
    refine .bind_current fun _ => .bind_advance fun _ _ => ?_
    exact .bind (advancing.required ((rules_advance _).expression _ _))
      (required_ensures ih d .statement) fun n _ hn => .pure (.returning hn)
  case h_7 => exact breaking_ensures d
  case h_8 =>
    refine (value_ensures ih d .statement).imp fun n hn => ?_
    exact Whole.statement (b := False) (.inl (.inl hn))

theorem orRecover_ensures (ih : Forming depth) (d : Nat) :
    Ensures (orRecover (rules depth).statement) r fun o =>
      ∀ n ∈ o, Formed .parsed d .statement n := by
  refine .bind_any .reported fun _ r₁ => ?_
  refine .bind (.attempt (rules_advance _).statement) (.attempt (ih.statement d r₁))
    fun o _ ho => ?_
  refine .bind_any .reported fun _ _ => .ite (fun _ => ?_) fun _ => .pure ho
  exact .bind_any .recover fun _ _ => .pure nofun

/-- `Forming.statements`, one `level` up. -/
theorem statements_ensures (ih : Forming depth) (d : Nat) (inBlock : Bool) (r : Reading) :
    Ensures ((rules (depth + 1)).statements inBlock) r fun ns =>
      ∀ n ∈ ns, Formed .parsed d .statement n := by
  rw [statements_succ, statements]
  refine .bind_current fun _ => .ite (fun _ => .pure (List.forall_mem_nil _)) fun _ => ?_
  refine .bind (advancing.orRecover (rules_advance _).statement) (orRecover_ensures ih d)
    fun o _ ho => ?_
  refine .bind_advance fun r₁ _ => ?_
  refine .bind ((rules_advance _).statements _) (ih.statements d inBlock r₁) fun ns _ hns =>
    .pure ?_
  rintro n hn
  rcases List.mem_append.mp hn with hn | hn
  · exact ho n (Option.mem_toList.mp hn)
  · exact hns n hn

end Statements

/-- `Grammar.rules` are `Forming` at every depth of recursion. -/
theorem forming (depth : Nat) : Forming depth := by
  induction depth with
  | zero =>
    exact ⟨fun _ _ => .fail, fun _ _ _ _ _ _ => .fail, fun _ _ => .fail, fun _ _ => .fail,
      fun _ _ _ => .fail⟩
  | succ depth ih =>
    exact {
      operand := operand_ensures ih
      expression := expression_ensures ih
      arguments := arguments_ensures ih
      statement := statement_ensures ih
      statements := statements_ensures ih }

end Grammar

/-- The nodes of a package that `Package.parse` gives are `Formed` by `Rigor.parsed`, whatever
diagnostics there are. -/
theorem Package.formed_parse (name source : String) (journal : Journal) :
    ∀ n ∈ (Package.parse name source journal).1.package.nodes,
      Formed .parsed 0 .statement n := by
  let start := Reading.start source journal
  let depth := Grammar.depthFor start.tokens.length
  have hlexed : ∀ t ∈ start.tokens, t.Lexed := Cursor.tokens_lexed source.toList 1
  have hprogram : Parser.Ensures (Grammar.program depth) start
      fun ns => ∀ n ∈ ns, Formed .parsed 0 .statement n :=
    .bind_current fun _ => .bind_any .note fun _ r => (Grammar.forming _).statements 0 false r
  show ∀ n ∈ (Grammar.program depth start).1.getD [], Formed .parsed 0 .statement n
  rcases hp : Grammar.program depth start with ⟨_ | ns, r⟩
  · rintro n ⟨⟩
  · exact hprogram hlexed ns r hp

end ScriptLang
