import ScriptLang.Proofs.Advance
import ScriptLang.Proofs.Derivation

/-!
# The parser gives what the grammar derives

If a rule of the parser reports nothing, then it gives a tree, and its form derives the tokens
it has passed and gives the same tree. Two constructs fail in silence, the empty statement and
the empty expression; whoever tries them looks at the token they begin on.

- `Parser.Quiet`: what a parser comes to if it reports nothing.
- `Grammar.Sound`: what is to be shown of the recursive rules at one depth of recursion.
- `Grammar.sound`: the rules are sound at every depth, as long as there is depth enough for the
  tokens that are left.
-/

namespace ScriptLang

namespace Reading

/-- If `headOf` some tokens is not the end of the source, it is the first of them. -/
theorem eq_headOf_cons {ts : List Token} {e : Nat} (h : (headOf ts e).kind ≠ .eof) :
    ts = headOf ts e :: ts.tail := by
  cases ts with
  | nil => exact absurd rfl h
  | cons t ts => rfl

/-- If `current` is not the end of the source, it is the first of the tokens left. -/
theorem tokens_eq_cons {r : Reading} (h : r.current.kind ≠ .eof) :
    r.tokens = r.current :: r.tokens.tail :=
  eq_headOf_cons h

/-- If `ahead` is not the end of the source, it is the second of the tokens left. -/
theorem tail_eq_cons {r : Reading} (h : r.ahead.kind ≠ .eof) :
    r.tokens.tail = r.ahead :: r.tokens.tail.tail :=
  eq_headOf_cons h

/-- If `current` is not the end of the source, there is one token less behind it. -/
theorem length_tail_lt {r : Reading} (h : r.current.kind ≠ .eof) :
    r.tokens.tail.length < r.tokens.length := by
  rw [tokens_eq_cons h]
  exact Nat.lt_succ_self _

theorem current_of_cons {r : Reading} {t : Token} {ts : List Token} (h : r.tokens = t :: ts) :
    r.current = t := by
  rw [current, h]
  rfl

end Reading

namespace Parser

open Reading

variable {α β : Type} {p : Parser α} {f : α → Parser β} {r : Reading} {a : α}
  {P Q : α → Reading → Prop} {R : β → Reading → Prop}

/-- If `p` reports nothing from `r` on, then it has a result, and `Q` holds of the result and
the reading it ends on. -/
def Quiet (p : Parser α) (r : Reading) (Q : α → Reading → Prop) : Prop :=
  (p r).2.errors = r.errors → ∃ a r', p r = (some a, r') ∧ Q a r'

namespace Quiet

/-- What is known of a `Quiet` run may be weakened. -/
theorem imp (h : Quiet p r P) (hq : ∀ a r', P a r' → Q a r') : Quiet p r Q := by
  intro he
  obtain ⟨a, r', hr, hp⟩ := h he
  exact ⟨a, r', hr, hq a r' hp⟩

theorem pure (h : Q a r) : Quiet (pure a : Parser α) r Q := fun _ => ⟨a, r, rfl, h⟩

/-- `Quiet` says nothing of a parser that reports something. -/
theorem of_lt (h : r.errors.length < (p r).2.errors.length) : Quiet p r Q := by
  intro he
  rw [he] at h
  exact absurd h (Nat.lt_irrefl _)

/-- If nothing is reported in the end, then nothing has been on the way, by `Advances`. -/
theorem bind (hp : Advances p) (hf : ∀ a, Advances (f a))
    (h : Quiet p r fun a r' => Quiet (f a) r' R) : Quiet (p >>= f) r R := by
  intro he
  have hlater := hp r
  rcases hpr : p r with ⟨_ | a, r₁⟩
  · rw [bind_of_none hpr] at he
    obtain ⟨_, _, hnone, -⟩ := h (by rw [hpr]; exact he)
    rw [hpr] at hnone
    cases hnone
  · rw [bind_of_some hpr] at he ⊢
    rw [hpr] at hlater
    have he₁ := hlater.errors_eq (hf a r₁) he
    obtain ⟨_, _, hsome, hq⟩ := h (by rw [hpr]; exact he₁)
    rw [hpr] at hsome
    cases hsome
    exact hq (by rw [he, he₁])

theorem bind_current {f : Token → Parser β} (h : Quiet (f r.current) r R) :
    Quiet (current >>= f) r R := h

/-- `advance` leaves the tail of the tokens. -/
theorem bind_advance {f : Token → Parser β}
    (h : ∀ r', r'.tokens = r.tokens.tail → Quiet (f r'.current) r' R) :
    Quiet (advance >>= f) r R :=
  h { r with tokens := r.tokens.tail, journal := r.journal.note (.scanned r.ahead) } rfl

theorem bind_peek {f : Token → Parser β}
    (h : ∀ r', r'.tokens = r.tokens → Quiet (f r'.ahead) r' R) : Quiet (peek >>= f) r R :=
  h (r.note (.scanned r.ahead)) rfl

theorem bind_note {event : Event} {f : Unit → Parser β}
    (h : ∀ r', r'.tokens = r.tokens → Quiet (f ()) r' R) : Quiet (note event >>= f) r R :=
  h (r.note event) rfl

/-- The branch that is taken may use the condition `c`. -/
theorem ite {c : Prop} [Decidable c] {q : Parser α} (hp : c → Quiet p r Q)
    (hq : ¬c → Quiet q r Q) : Quiet (if c then p else q) r Q := by
  split
  · rename_i h
    exact hp h
  · rename_i h
    exact hq h

/-- Behind a `report` there is nothing to show. -/
theorem bind_report {cause : Cause} {f : Unit → Parser β} (hf : ∀ a, Advances (f a)) :
    Quiet (report cause >>= f) r R := by
  refine of_lt ?_
  have hl := (hf () (report cause r).2).errors.length_le
  refine Nat.lt_of_lt_of_le ?_ hl
  show r.errors.length < (r.errors ++ [_]).length
  rw [List.length_append]
  exact Nat.lt_succ_self _

/-- A run of `reject` reports its token, so it is `Quiet` for any `Q`. -/
theorem reject {cause : Cause} : Quiet (reject cause : Parser α) r Q :=
  bind_report fun _ => .fail

/-- So is one that reports and recovers. -/
theorem giveUp {cause : Cause} {how : Recovery} :
    Quiet (do report cause; recover how; fail : Parser α) r Q :=
  bind_report fun _ => .bind .recover fun _ => .fail

/-- An attempt at `p` may also fail in silence, with no result. -/
theorem attempt {Q : Option α → Reading → Prop}
    (hnone : ∀ r', p r = (none, r') → r'.errors = r.errors → Q none r')
    (hsome : ∀ a r', p r = (some a, r') → r'.errors = r.errors → Q (some a) r') :
    Quiet p.attempt r Q := by
  intro he
  rcases hp : p r with ⟨_ | a, r'⟩
  · have hr : p.attempt r = (some none, r') := by rw [Parser.attempt, hp]
    rw [hr] at he
    exact ⟨none, r', hr, hnone r' hp he⟩
  · have hr : p.attempt r = (some (some a), r') := by rw [Parser.attempt, hp]
    rw [hr] at he
    exact ⟨some a, r', hr, hsome a r' hp he⟩

/-- What `Quiet` says of a run that has the result `a` and reports nothing. -/
theorem result {r' : Reading} (h : Quiet p r Q) (hp : p r = (some a, r'))
    (he : r'.errors = r.errors) : Q a r' := by
  obtain ⟨_, _, hr, hq⟩ := h (by rw [hp]; exact he)
  rw [hp] at hr
  cases hr
  exact hq

/-- A `Quiet` parser that fails has reported something. -/
theorem errors_ne {r' : Reading} (h : Quiet p r Q) (hp : p r = (none, r')) :
    r'.errors ≠ r.errors := by
  intro he
  obtain ⟨_, _, hr, -⟩ := h (by rw [hp]; exact he)
  rw [hp] at hr
  cases hr

end Quiet
end Parser

namespace Grammar

open Reading ScriptLang.Parser

/-! ## What is to be shown -/

/-- The `form` derives `n` from the tokens of `r` up to the one on which `r'` stands, and with
it. -/
def Gives (form : Form) (r : Reading) (n : Node) (r' : Reading) : Prop :=
  ∃ us, Derives form us [n] ∧ r.tokens = us ++ r'.tokens.tail

/-- What may stand behind the part `left` of an expression that has been read, if there is one,
and the tree of the whole. -/
def Rest : Option Node → List Token → Node → Prop
  | none, us, n => Derives .expression us [n]
  | some left, us, n => Derives (.tail left) us [n] ∨ isTarget left ∧
      ∃ e vs value, us = e :: vs ∧ e.kind = .equal ∧ Derives .expression vs [value] ∧
        n = .assign e.line left value

/-- Soundness of the recursive rules at a `depth` that is enough for the tokens that are left:
each is `Quiet`, for what its form derives. -/
structure Sound (depth : Nat) : Prop where
  operand : ∀ r : Reading, 4 * r.tokens.length + 1 ≤ depth →
    Quiet (rules depth).operand r (Gives .operand r)
  expression : ∀ (r : Reading) ending left, 4 * r.tokens.length + 2 ≤ depth →
    (left = none → ¬ending.closes r.current.kind) →
    Quiet ((rules depth).expression ending left) r fun n r' =>
      ∃ us, Rest left us n ∧ r.tokens = us ++ r'.tokens ∧ ending.closes r'.current.kind
  arguments : ∀ r : Reading, 4 * r.tokens.length + 3 ≤ depth →
    Quiet (rules depth).arguments r fun args r' => ∃ us, Derives .arguments us args ∧
      r.tokens.tail = us ++ r'.tokens ∧ r'.current.kind = .rightParen
  statement : ∀ r : Reading, 4 * r.tokens.length + 3 ≤ depth → r.current.kind ≠ .semicolon →
    Quiet (rules depth).statement r (Gives .statement r)
  statements : ∀ (r : Reading) inBlock, 4 * r.tokens.length + 4 ≤ depth →
    Quiet ((rules depth).statements inBlock) r fun ns r' => ∃ us, Derives .statements us ns ∧
      r.tokens = us ++ r'.tokens ∧
        (r'.current.kind = .eof ∨ inBlock ∧ r'.current.kind = .rightBrace)

/-! ## Facts about derivations -/

/-- Operands and expressions that pass `isTarget` are a `Target`, and a tail that gives such a
tree is empty. -/
theorem Derives.target {form : Form} {ts : List Token} {ns : List Node}
    (h : Derives form ts ns) :
    match form with
    | .operand | .expression => ∀ n, ns = [n] → isTarget n → Target ts n
    | .tail left => ∀ n, ns = [n] → isTarget n → ts = [] ∧ n = left
    | _ => True := by
  induction h with
  | name ht =>
    rintro _ ⟨⟩ -
    exact .name ht
  | group hl _ hr ih =>
    rintro _ ⟨⟩ hn
    exact .group hl (ih _ rfl hn) hr
  | noTail =>
    rintro _ ⟨⟩ -
    exact ⟨rfl, rfl⟩
  -- an operator makes an infix node, which is no target
  | infixed _ _ _ _ iht =>
    rintro _ ⟨⟩ hn
    obtain ⟨-, rfl⟩ := iht _ rfl hn
    cases hn
  | chain _ _ ih iht =>
    rintro _ ⟨⟩ hn
    obtain ⟨rfl, rfl⟩ := iht _ rfl hn
    rw [List.append_nil]
    exact ih _ rfl hn
  | integer | string | kwTrue | kwFalse | emptyCall | call | prefixed | assign =>
    rintro _ ⟨⟩ ⟨⟩
  | _ => trivial

/-- Unless `Form.mayBeEmpty`, a form derives at least one token. -/
theorem Derives.length_pos {form : Form} {ts : List Token} {ns : List Node}
    (h : Derives form ts ns) (hf : form.mayBeEmpty = false) : 0 < ts.length := by
  obtain ⟨rfl, he⟩ | ⟨t, us, rfl, -⟩ := h.opening
  · rw [hf] at he
    cases he
  · exact Nat.succ_pos _

/-! ## Operands -/

section Operands

variable {depth : Nat} {r : Reading}

/-- A run of `unended` reports its ending, so it is `Quiet` for any `Q`. -/
theorem unended_quiet {α : Type} {ending : Ending} {next : Token} {Q : α → Reading → Prop} :
    Quiet (unended ending next : Parser α) r Q := by
  refine .of_lt ?_
  show r.errors.length < (r.errors ++ [_]).length
  rw [List.length_append]
  exact Nat.lt_succ_self _

/-- A quiet `required` expression is derived from the tokens up to its ending. -/
theorem required_quiet {ending : Ending} (ih : Sound depth)
    (hd : 4 * r.tokens.length + 2 ≤ depth) :
    Quiet (required ending ((rules depth).expression ending none)) r fun n r' =>
      ∃ us, Derives .expression us [n] ∧ r.tokens = us ++ r'.tokens ∧
        ending.closes r'.current.kind := by
  refine .bind_current ?_
  refine .ite (fun _ => .reject) fun hc => ?_
  exact ih.expression r ending none hd fun _ => hc

/-- A quiet `group` is an expression and a closing parenthesis, behind the parenthesis it begins
on. -/
theorem group_quiet (ih : Sound depth) (hd : 4 * r.tokens.tail.length + 2 ≤ depth) :
    Quiet (group ((rules depth).expression .group none)) r fun n r' =>
      ∃ us c, Derives .expression us [n] ∧ c.kind = .rightParen ∧
        r.tokens.tail = us ++ c :: r'.tokens.tail := by
  refine .bind_advance fun r₁ h₁ => ?_
  refine (required_quiet ih (by rwa [h₁])).imp ?_
  rintro n r' ⟨us, hus, ht, hc⟩
  have hk : r'.current.kind = .rightParen := of_decide_eq_true hc
  have hr' := tokens_eq_cons (r := r') (by rw [hk]; decide)
  exact ⟨us, r'.current, hus, hk, by rw [← h₁, ht, ← hr']⟩

/-- A quiet `call` has a list of arguments between its parentheses, or nothing. -/
theorem call_quiet (ih : Sound depth) {callee : Token} (hcallee : callee.kind = .ident)
    (hopen : r.current.kind = .leftParen) (hd : 4 * r.tokens.length + 3 ≤ depth) :
    Quiet (call callee (rules depth).arguments) r fun n r' =>
      ∃ us, Derives .operand (callee :: us) [n] ∧ r.tokens = us ++ r'.tokens.tail := by
  have hr := tokens_eq_cons (r := r) (by rw [hopen]; decide)
  refine .bind_current (.bind_peek fun r₁ h₁ => ?_)
  refine .ite (fun hk => ?_) fun _ => ?_
  · refine .bind_advance fun r₂ h₂ => .pure ?_
    have ht := tail_eq_cons (r := r₁) (by rw [hk]; decide)
    refine ⟨[r.current, r₁.ahead], .emptyCall hcallee hopen hk, ?_⟩
    rw [hr, ← h₁, h₂, ht]
    rfl
  · refine .bind (rules_advance _).arguments (fun _ => .pure) ?_
    refine (ih.arguments r₁ (by rwa [h₁])).imp ?_
    rintro args r' ⟨us, hus, ht, hc⟩
    have hr' := tokens_eq_cons (r := r') (by rw [hc]; decide)
    refine .pure ⟨r.current :: us ++ [r'.current], .call hcallee hopen hus hc, ?_⟩
    rw [hr, ← h₁, ht, hr']
    simp

/-- A quiet `prefixed` expression has an operand behind its operator. -/
theorem prefixed_quiet (ih : Sound depth) (ho : r.current.kind.isPrefix)
    (hd : 4 * r.tokens.tail.length + 1 ≤ depth) :
    Quiet (prefixed (rules depth).operand) r (Gives .operand r) := by
  have hr := tokens_eq_cons (r := r) (by intro hk; rw [hk] at ho; cases ho)
  refine .bind_current (.bind_advance fun r₁ h₁ => ?_)
  refine .bind (rules_advance _).operand (fun _ => .pure) ?_
  refine (ih.operand r₁ (by rwa [h₁])).imp ?_
  rintro n r' ⟨us, hus, ht⟩
  refine .pure ⟨r.current :: us, .prefixed ho hus, ?_⟩
  rw [hr, ← h₁, ht]
  rfl

/-- `Sound.operand`, one `level` up: one case for each kind that an operand may start with. -/
theorem operand_quiet (ih : Sound depth) (hd : 4 * r.tokens.length + 1 ≤ depth + 1) :
    Quiet (rules (depth + 1)).operand r (Gives .operand r) := by
  have hone {n : Node} (hk : r.current.kind ≠ .eof) (h : Derives .operand [r.current] [n]) :
      Gives .operand r n r := ⟨[r.current], h, tokens_eq_cons hk⟩
  -- behind the first token there is less to read
  have hless (hk : r.current.kind ≠ .eof) : 4 * r.tokens.tail.length + 3 ≤ depth := by
    have := length_tail_lt hk
    omega
  rw [operand_succ, operand]
  refine .bind_current ?_
  split
  case h_1 hk =>
    have heof : r.current.kind ≠ .eof := by rw [hk]; decide
    refine .bind_peek fun r₁ h₁ => ?_
    refine .ite (fun hopen => ?_) fun _ => ?_
    · refine .bind_advance fun r₂ h₂ => ?_
      have ht := tail_eq_cons (r := r₁) (by rw [hopen]; decide)
      rw [← h₂] at ht
      refine (call_quiet ih hk (by rw [current_of_cons ht, hopen]) ?_).imp ?_
      · rw [h₂, h₁]
        exact hless heof
      · rintro n r' ⟨us, hus, hr'⟩
        refine ⟨r.current :: us, hus, ?_⟩
        rw [tokens_eq_cons heof, ← h₁, ← h₂, hr']
        rfl
    · exact .pure ⟨[r.current], .name hk, by rw [h₁]; exact tokens_eq_cons heof⟩
  case h_2 hk =>
    split
    · rename_i value hv
      exact .pure (hone (by rw [hk]; decide) (.integer hk hv))
    · exact .reject
  case h_3 hk => exact .pure (hone (by rw [hk]; decide) (.string hk))
  case h_4 hk => exact .pure (hone (by rw [hk]; decide) (.kwTrue hk))
  case h_5 hk => exact .pure (hone (by rw [hk]; decide) (.kwFalse hk))
  case h_6 hk =>
    have heof : r.current.kind ≠ .eof := by rw [hk]; decide
    refine (group_quiet ih (by have := hless heof; omega)).imp ?_
    rintro n r' ⟨us, c, hus, hc, ht⟩
    refine ⟨r.current :: us ++ [c], .group hk hus hc, ?_⟩
    rw [tokens_eq_cons heof, ht]
    simp
  case h_7 hk | h_8 hk | h_9 hk =>
    have heof : r.current.kind ≠ .eof := by rw [hk]; decide
    exact prefixed_quiet ih (by rw [hk]; rfl) (by have := hless heof; omega)
  all_goals exact .reject

end Operands

/-! ## Expressions -/

section Expressions

variable {depth : Nat} {r : Reading} {ending : Ending}

/-- An expression that is over is the part of it that has been read. -/
theorem rest_nil (left : Node) : Rest (some left) [] left := .inl .noTail

/-- What is a `Rest` behind an operand makes an expression with the operand in front. -/
theorem rest_of_operand {ts us : List Token} {first n : Node} (h : Derives .operand ts [first])
    (hrest : Rest (some first) us n) : Rest none (ts ++ us) n := by
  obtain hrest | ⟨ht, e, vs, value, rfl, he, hv, rfl⟩ := hrest
  · exact .chain h hrest
  · exact .assign (h.target _ rfl ht) he hv

/-- What is behind an operator and its right side is behind the left side too. -/
theorem rest_of_infixed {o : Token} {ts us : List Token} {left right n : Node}
    (ho : o.kind.isInfix) (h : Derives .operand ts [right])
    (hrest : Rest (some (.infixed o left right)) us n) :
    Rest (some left) (o :: ts ++ us) n := by
  obtain hrest | ⟨ht, -⟩ := hrest
  · exact .inl (.infixed ho h hrest)
  · cases ht

/-- A quiet `infixed` expression has an operand on its right side, and ends on its last
token. -/
theorem infixed_quiet (ih : Sound depth) {left : Node} (ho : r.current.kind.isInfix)
    (hd : 4 * r.tokens.tail.length + 1 ≤ depth) :
    Quiet (infixed (rules depth).operand left) r fun n r' => ∃ us right,
      n = .infixed r.current left right ∧ Derives .operand us [right] ∧
        r.tokens = r.current :: us ++ r'.tokens.tail := by
  have hr := tokens_eq_cons (r := r) (by intro hk; rw [hk] at ho; cases ho)
  refine .bind_current (.bind_advance fun r₁ h₁ => ?_)
  refine .bind (rules_advance _).operand (fun _ => .pure) ?_
  refine (ih.operand r₁ (by rwa [h₁])).imp ?_
  rintro right r' ⟨us, hus, ht⟩
  refine .pure ⟨us, right, rfl, hus, ?_⟩
  rw [List.cons_append, ← ht, h₁, ← hr]

/-- The tokens that `fold` takes into an expression leave a `Rest` of it behind them. -/
theorem fold_quiet (ih : Sound depth) {left : Option Node} (hk : r.current.kind ≠ .eof)
    (hd : 4 * r.tokens.length + 1 ≤ depth) :
    Quiet (fold (rules depth).operand left) r fun node r' => ∃ us, us ≠ [] ∧
      r.tokens = us ++ r'.tokens.tail ∧
        ∀ vs n, Rest (some node) vs n → Rest left (us ++ vs) n := by
  have hfirst : Quiet (rules depth).operand r fun node r' => ∃ us, us ≠ [] ∧
      r.tokens = us ++ r'.tokens.tail ∧ opensOperand r.current.kind ∧
        ∀ vs n, Rest (some node) vs n → Rest none (us ++ vs) n := by
    refine (ih.operand r hd).imp ?_
    rintro node r' ⟨us, hus, ht⟩
    obtain ⟨-, ⟨⟩⟩ | ⟨t, us, rfl, hopen⟩ := hus.opening
    rw [List.cons_append] at ht
    rw [current_of_cons ht]
    exact ⟨t :: us, List.cons_ne_nil _ _, ht, hopen, fun vs n => rest_of_operand hus⟩
  refine .bind_current ?_
  split
  · rename_i left
    refine .ite (fun ho => ?_) fun ho => .ite (fun _ => .reject) fun hs => ?_
    · have hlen := congrArg List.length (tokens_eq_cons hk)
      rw [List.length_cons] at hlen
      refine (infixed_quiet ih ho (by omega)).imp ?_
      rintro node r' ⟨us, right, rfl, hus, ht⟩
      exact ⟨_, List.cons_ne_nil _ _, ht, fun vs n => rest_of_infixed ho hus⟩
    · -- no other token may stand here, for an operand begins with none
      refine hfirst.imp ?_
      rintro node r' ⟨us, -, -, hopen, -⟩
      exfalso
      revert ho hs hopen
      cases r.current.kind <;> decide
  · refine hfirst.imp ?_
    rintro node r' ⟨us, hne, ht, -, hrest⟩
    exact ⟨us, hne, ht, hrest⟩

/-- A quiet `assign` has a target in `left` and an expression on its right. -/
theorem assign_quiet (ih : Sound depth) {left : Option Node} (hk : r.current.kind = .equal)
    (hd : 4 * r.tokens.tail.length + 2 ≤ depth) :
    Quiet (assign ending ((rules depth).expression ending none) left) r fun n r' =>
      ∃ us, Rest left us n ∧ r.tokens = us ++ r'.tokens ∧ ending.closes r'.current.kind := by
  have hr := tokens_eq_cons (r := r) (by rw [hk]; decide)
  refine .bind_current ?_
  split
  · rename_i target hleft
    obtain ⟨rfl, htarget⟩ := Option.filter_eq_some_iff.mp hleft
    refine .bind_advance fun r₁ h₁ => ?_
    refine .bind (advancing.required ((rules_advance _).expression _ _)) (fun _ => .pure) ?_
    refine (required_quiet ih (by rwa [h₁])).imp ?_
    rintro value r' ⟨us, hus, ht, hc⟩
    refine .pure ⟨r.current :: us, .inr ⟨htarget, _, _, value, rfl, hk, hus, rfl⟩, ?_, hc⟩
    rw [List.cons_append, ← ht, h₁, ← hr]
  · exact .giveUp

/-- `Sound.expression`, one `level` up: an operand and the rest, up to a token that closes the
ending. -/
theorem expression_quiet (ih : Sound depth) {left : Option Node}
    (hd : 4 * r.tokens.length + 2 ≤ depth + 1)
    (hleft : left = none → ¬ending.closes r.current.kind) :
    Quiet ((rules (depth + 1)).expression ending left) r fun n r' =>
      ∃ us, Rest left us n ∧ r.tokens = us ++ r'.tokens ∧ ending.closes r'.current.kind := by
  rw [expression_succ, expression.eq_def]
  refine .bind_current (.ite (fun hc => ?_) fun hc => .ite (fun _ => .reject) fun heof =>
    .ite (fun hq => ?_) fun hq => ?_)
  · cases left with
    | none => exact absurd hc (hleft rfl)
    | some left => exact .pure ⟨[], rest_nil left, rfl, hc⟩
  · have hlen := congrArg List.length (tokens_eq_cons heof)
    rw [List.length_cons] at hlen
    exact assign_quiet ih hq (by omega)
  · have hfold : Quiet (fold (rules depth).operand left) _ _ := fold_quiet ih heof (by omega)
    refine .bind (.attempt (advancing.fold (rules_advance _).operand)) ?_ (.attempt ?_ ?_)
    · rintro (_ | node)
      · exact .bind .recover fun _ => .fail
      · exact .bind .peek fun _ => .ite advancing.unended (.bind .advance fun _ =>
          (rules_advance _).expression _ _)
    · -- a fold that fails has reported it
      rintro r₁ hf he
      exact absurd he (hfold.errors_ne hf)
    · rintro node r₁ hf he
      obtain ⟨us, hne, ht, hrest⟩ := hfold.result hf he
      refine .bind_peek fun r₂ h₂ => .ite (fun _ => ?_) fun _ => ?_
      · exact unended_quiet
      · refine .bind_advance fun r₃ h₃ => ?_
        have hlen : r.tokens.length = us.length + r₃.tokens.length := by
          rw [ht, List.length_append, h₃, h₂]
        have hpos := List.length_pos_iff.mpr hne
        refine (ih.expression r₃ ending (some node) (by omega) nofun).imp ?_
        rintro n r' ⟨vs, hvs, hr', hc'⟩
        refine ⟨us ++ vs, hrest vs n hvs, ?_, hc'⟩
        rw [ht, ← h₂, ← h₃, hr', List.append_assoc]

/-- `Sound.arguments`, one `level` up. -/
theorem arguments_quiet (ih : Sound depth) (hd : 4 * r.tokens.length + 3 ≤ depth + 1) :
    Quiet (rules (depth + 1)).arguments r fun args r' => ∃ us, Derives .arguments us args ∧
      r.tokens.tail = us ++ r'.tokens ∧ r'.current.kind = .rightParen := by
  rw [arguments_succ, arguments]
  refine .bind_advance fun r₁ h₁ => ?_
  have hlen : r₁.tokens.length = r.tokens.length - 1 := by rw [h₁, List.length_tail]
  refine .bind (advancing.required ((rules_advance _).expression _ _)) ?_ ?_
  · exact fun _ => .bind .current fun _ =>
      .ite .pure (.bind (rules_advance _).arguments fun _ => .pure)
  refine (required_quiet ih (by omega)).imp ?_
  rintro arg r₂ ⟨us, hus, ht, hc⟩
  refine .bind_current (.ite (fun hk => ?_) fun hk => ?_)
  · exact .pure ⟨us, .lastArgument hus, by rw [← h₁, ht], hk⟩
  · have hcomma : r₂.current.kind = .comma := by
      revert hc hk
      cases r₂.current.kind <;> decide
    have hr₂ := tokens_eq_cons (r := r₂) (by rw [hcomma]; decide)
    have hlen₂ : r₁.tokens.length = us.length + r₂.tokens.length := by
      rw [ht, List.length_append]
    -- an argument takes a token at least, so the others have fewer to read
    have hpos := hus.length_pos rfl
    refine .bind (rules_advance _).arguments (fun _ => .pure) ?_
    refine (ih.arguments r₂ (by omega)).imp ?_
    rintro args r' ⟨vs, hvs, hr', hk'⟩
    refine .pure ⟨us ++ r₂.current :: vs, .moreArguments hus hcomma hvs, ?_, hk'⟩
    rw [← h₁, ht, hr₂, hr', List.append_assoc, List.cons_append]

end Expressions

/-! ## Statements -/

section Statements

variable {depth : Nat} {r : Reading}

/-- A quiet `Rules.expression` that begins on no closing token is derived from the tokens up to
the one that ends it. -/
theorem ended_quiet (ih : Sound depth) {ending : Ending}
    (hd : 4 * r.tokens.length + 2 ≤ depth) (hc : ¬ending.closes r.current.kind) :
    Quiet ((rules depth).expression ending none) r fun n r' =>
      ∃ us c, Derives .expression us [n] ∧
      ending.closes c.kind ∧ r.tokens = us ++ c :: r'.tokens.tail ∧ r'.current = c := by
  refine (ih.expression r ending none hd fun _ => hc).imp ?_
  rintro n r' ⟨us, hus, ht, hc'⟩
  have hk : r'.current.kind ≠ .eof := by
    intro hk
    rw [hk] at hc'
    cases ending <;> cases hc'
  exact ⟨us, r'.current, hus, hc', by rw [ht, ← tokens_eq_cons hk], rfl⟩

/-- A quiet `block` has statements up to its closing brace. -/
theorem block_quiet (ih : Sound depth) (hk : r.current.kind = .leftBrace)
    (hd : 4 * r.tokens.length ≤ depth) :
    Quiet (block ((rules depth).statements true)) r fun b r' =>
      Gives .block r (.block b) r' := by
  have hr := tokens_eq_cons (r := r) (by rw [hk]; decide)
  have hlen := length_tail_lt (r := r) (by rw [hk]; decide)
  refine .bind_current (.bind_advance fun r₁ h₁ => ?_)
  refine .bind ((rules_advance _).statements _)
    (fun _ => .bind .current fun _ => .ite advancing.reject .pure) ?_
  refine (ih.statements r₁ true (by rw [h₁]; omega)).imp ?_
  rintro ns r' ⟨us, hus, ht, hend⟩
  refine .bind_current (.ite (fun _ => .reject) fun heof => .pure ?_)
  obtain heof' | ⟨-, hbrace⟩ := hend
  · exact absurd heof' heof
  · refine ⟨r.current :: us ++ [r'.current], .block hk hus hbrace, ?_⟩
    rw [hr, ← h₁, ht, tokens_eq_cons heof]
    simp

/-- A quiet `blockAhead` has a block behind the current token. -/
theorem blockAhead_quiet (ih : Sound depth) (hd : 4 * r.tokens.tail.length ≤ depth) :
    Quiet (blockAhead (block ((rules depth).statements true))) r fun b r' =>
      ∃ us, Derives .block us [.block b] ∧ r.tokens.tail = us ++ r'.tokens.tail := by
  refine .bind_advance fun r₁ h₁ => .ite (fun hk => ?_) fun _ => .reject
  refine (block_quiet ih hk (by rwa [h₁])).imp ?_
  rintro b r' ⟨us, hus, ht⟩
  exact ⟨us, hus, by rw [← h₁, ht]⟩

/-- A quiet `conditional` has a condition in parentheses, and a block or two. -/
theorem conditional_quiet (ih : Sound depth) (hk : r.current.kind = .kwIf)
    (hd : 4 * r.tokens.tail.length + 2 ≤ depth) :
    Quiet (conditional ((rules depth).expression .group none)
      (block ((rules depth).statements true))) r (Gives .statement r) := by
  have hr := tokens_eq_cons (r := r) (by rw [hk]; decide)
  have hblock := advancing.block ((rules_advance depth).statements true)
  refine .bind_current (.bind_advance fun r₁ h₁ => .ite (fun hopen => ?_) fun _ => .reject)
  have hr₁ := tokens_eq_cons (r := r₁) (by rw [hopen]; decide)
  have hlen₁ := length_tail_lt (r := r₁) (by rw [hopen]; decide)
  rw [congrArg List.length h₁] at hlen₁
  refine .bind (advancing.group ((rules_advance _).expression _ _))
    (fun _ => .bind (advancing.branches hblock) fun _ => .pure) ?_
  refine (group_quiet ih (by omega)).imp ?_
  rintro test r₂ ⟨us, c, hus, hc, ht₂⟩
  have hlen₂ := congrArg List.length ht₂
  rw [List.length_append, List.length_cons] at hlen₂
  refine .bind (advancing.branches hblock) (fun _ => .pure) ?_
  refine .bind (advancing.blockAhead hblock) (fun _ => .bind .peek fun _ =>
    .ite (.bind .advance fun _ => .bind (advancing.blockAhead hblock) fun _ => .pure) .pure) ?_
  refine (blockAhead_quiet ih (by omega)).imp ?_
  rintro thenBlock r₃ ⟨vs, hvs, ht₃⟩
  have hlen₃ := congrArg List.length ht₃
  rw [List.length_append] at hlen₃
  -- the else is seen ahead, while the brace is still the current token
  refine .bind_peek fun r₄ h₄ => .ite (fun helse => ?_) fun _ => ?_
  · refine .bind_advance fun r₅ h₅ => ?_
    have hr₄ := tail_eq_cons (r := r₄) (by rw [helse]; decide)
    have hlen₅ : r₅.tokens.tail.length ≤ r₃.tokens.tail.length := by
      rw [h₅, h₄, List.length_tail]
      exact Nat.sub_le _ _
    refine .bind (advancing.blockAhead hblock) (fun _ => .pure) ?_
    refine (blockAhead_quiet ih (by omega)).imp ?_
    rintro elseBlock r₆ ⟨ws, hws, ht₆⟩
    refine .pure (.pure ⟨r.current :: r₁.current :: us ++ c :: vs ++ r₄.ahead :: ws,
      .conditionalElse hk hopen hus hc hvs helse hws, ?_⟩)
    rw [hr, ← h₁, hr₁, ht₂, ht₃, ← h₄, hr₄, ← h₅, ht₆]
    simp
  · refine .pure (.pure ⟨r.current :: r₁.current :: us ++ c :: vs,
      .conditional hk hopen hus hc hvs, ?_⟩)
    rw [hr, ← h₁, hr₁, ht₂, ht₃, h₄]
    simp

/-- `Rules.expression` on a token that closes it fails in silence. -/
theorem expression_closing {ending : Ending} (hc : ending.closes r.current.kind) :
    (rules depth).expression ending none r = (none, r) := by
  cases depth with
  | zero => rfl
  | succ depth =>
    rw [expression_succ, expression.eq_def, bind_of_some (p := Parser.current) rfl, if_pos hc]
    rfl

/-- `Rules.statement` on a semicolon fails in silence. -/
theorem statement_semicolon (hk : r.current.kind = .semicolon) :
    (rules depth).statement r = (none, r) := by
  cases depth with
  | zero => rfl
  | succ depth =>
    rw [statement_succ, statement, bind_of_some (p := Parser.current) rfl]
    simp only [hk]
    exact expression_closing (by rw [hk]; rfl)

/-- A quiet part of a head passes the test `accepts`. -/
theorem headerPart_quiet {part : Parser Node} {accepts : Node → Bool} {cause : Cause}
    {Q : Node → Reading → Prop} (hp : Advances part)
    (h : ∀ n r', part r = (some n, r') → r'.errors = r.errors → accepts n → Q n r') :
    Quiet (headerPart part accepts cause) r Q := by
  refine .bind (.attempt hp) (fun n => ?_) (.attempt (fun _ _ _ => .giveUp) fun n r' hn he =>
    ?_)
  · split
    · exact .pure
    · exact advancing.giveUp
  · split
    · rename_i node hnode
      obtain ⟨hsome, hacc⟩ := Option.filter_eq_some_iff.mp hnode
      cases hsome
      exact .pure (h _ r' hn he hacc)
    · exact .giveUp

/-- A quiet first part of a loop's head is a statement that passes `isLoopInit`. -/
theorem init_quiet (ih : Sound depth) (hd : 4 * r.tokens.length + 3 ≤ depth) :
    Quiet (headerPart (rules depth).statement isLoopInit .expectedLoopInit) r fun n r' =>
      isLoopInit n ∧ Gives .statement r n r' := by
  refine headerPart_quiet (rules_advance _).statement fun n r' hn he hinit => ⟨hinit, ?_⟩
  by_cases hk : r.current.kind = .semicolon
  · rw [statement_semicolon hk] at hn
    cases hn
  · exact (ih.statement r hd hk).result hn he

/-- A quiet condition of a loop is an expression that passes `isLoopCondition`, with a semicolon
behind it. -/
theorem condition_quiet (ih : Sound depth) (hd : 4 * r.tokens.length + 2 ≤ depth) :
    Quiet (headerPart ((rules depth).expression .statement none) isLoopCondition
      .expectedLoopCondition) r
      fun n r' => isLoopCondition n ∧ ∃ us c, Derives .expression us [n] ∧ c.kind = .semicolon ∧
        r.tokens = us ++ c :: r'.tokens.tail := by
  refine headerPart_quiet ((rules_advance _).expression _ _) fun n r' hn he hcond => ⟨hcond, ?_⟩
  by_cases hk : Ending.statement.closes r.current.kind
  · rw [expression_closing hk] at hn
    cases hn
  · obtain ⟨us, c, hus, hc, ht, -⟩ := (ended_quiet ih hd hk).result hn he
    exact ⟨us, c, hus, of_decide_eq_true hc, ht⟩

/-- What `loopRest` reads behind the condition of a loop: a closing parenthesis, or a step in
front of it, and the body. -/
theorem loopRest_quiet (ih : Sound depth) (hd : 4 * r.tokens.length + 2 ≤ depth) (line : Nat)
    (init test : Node) :
    Quiet (loopRest ((rules depth).expression .group none)
      (block ((rules depth).statements true)) line init test) r fun n r' =>
      ∃ (q : Token) (us : List Token) (body : Block),
      q.kind = .rightParen ∧ Derives .block us [.block body] ∧
      (r.tokens = q :: us ++ r'.tokens.tail ∧ n = .loop line (some init) test none body ∨
      ∃ ps step, Derives .expression ps [step] ∧ r.tokens = ps ++ q :: us ++ r'.tokens.tail ∧
        n = .loop line (some init) test (some step) body) := by
  have hblock := advancing.blockAhead (advancing.block ((rules_advance depth).statements true))
  -- a parenthesis in place of the step closes the header
  refine .bind_current (.ite (fun hclose => ?_) fun hclose => ?_)
  · have hr := tokens_eq_cons (r := r) (by rw [hclose]; decide)
    have hlen := length_tail_lt (r := r) (by rw [hclose]; decide)
    refine .bind hblock (fun _ => .pure) ((blockAhead_quiet ih (by omega)).imp ?_)
    rintro body r' ⟨us, hus, ht⟩
    refine .pure ⟨r.current, us, body, hclose, hus, .inl ⟨?_, rfl⟩⟩
    rw [hr, ht]
    rfl
  · refine .bind ((rules_advance depth).expression .group none)
      (fun _ => .bind hblock fun _ => .pure) ?_
    refine (ended_quiet ih hd (by simpa [Ending.closes] using hclose)).imp ?_
    rintro step r₁ ⟨ps, q, hps, hq, ht₁, -⟩
    have hlen := congrArg List.length ht₁
    rw [List.length_append, List.length_cons] at hlen
    refine .bind hblock (fun _ => .pure) ((blockAhead_quiet ih (by omega)).imp ?_)
    rintro body r' ⟨us, hus, ht⟩
    refine .pure ⟨q, us, body, of_decide_eq_true hq, hus, .inr ⟨ps, step, hps, ?_, rfl⟩⟩
    rw [ht₁, ht]
    simp

/-- A quiet `loop` is bare, or has a head of two or three parts. -/
theorem loop_quiet (ih : Sound depth) (hk : r.current.kind = .kwLoop)
    (hd : 4 * r.tokens.length ≤ depth) :
    Quiet (loop (rules depth).statement ((rules depth).expression .statement none)
      ((rules depth).expression .group none) (block ((rules depth).statements true))) r
      (Gives .statement r) := by
  have hr := tokens_eq_cons (r := r) (by rw [hk]; decide)
  have hlen := length_tail_lt (r := r) (by rw [hk]; decide)
  have hblock := advancing.blockAhead (advancing.block ((rules_advance depth).statements true))
  have hinit : Advances (headerPart (rules depth).statement isLoopInit .expectedLoopInit) :=
    advancing.headerPart (rules_advance depth).statement
  have htest : Advances (headerPart ((rules depth).expression .statement none) isLoopCondition
      .expectedLoopCondition) :=
    advancing.headerPart ((rules_advance depth).expression .statement none)
  have hrest := advancing.loopRest ((rules_advance depth).expression .group none)
    (advancing.block ((rules_advance depth).statements true))
  refine .bind_current (.bind_peek fun r₁ h₁ => .ite (fun hopen => ?_) fun _ => ?_)
  · -- a header of three parts, of which the last may be missing
    have hr₁ := tail_eq_cons (r := r₁) (by rw [hopen]; decide)
    refine .bind_advance fun r₂ h₂ => .bind_advance fun r₃ h₃ => ?_
    have hr₃ : r.tokens = r.current :: r₁.ahead :: r₃.tokens := by
      rw [hr, ← h₁, hr₁, h₃, h₂]
    have hlen₃ := congrArg List.length hr₃
    rw [List.length_cons, List.length_cons] at hlen₃
    refine .bind hinit (fun _ => .bind .advance fun _ => .bind htest fun _ => .bind .advance
      fun _ => hrest _ _ _) ((init_quiet ih (by omega)).imp ?_)
    rintro init r₄ ⟨hinit, is, his, ht₄⟩
    -- a part of the header ends on its semicolon, and the next begins behind it
    refine .bind_advance fun r₅ h₅ => ?_
    rw [← h₅] at ht₄
    have hlen₅ := congrArg List.length ht₄
    rw [List.length_append] at hlen₅
    refine .bind htest (fun _ => .bind .advance fun _ => hrest _ _ _)
      ((condition_quiet ih (by omega)).imp ?_)
    rintro test r₆ ⟨htest, us, c, hus, hc, ht₆⟩
    refine .bind_advance fun r₇ h₇ => ?_
    rw [← h₇] at ht₆
    have hlen₇ := congrArg List.length ht₆
    rw [List.length_append, List.length_cons] at hlen₇
    refine (loopRest_quiet ih (by omega) r.current.line init test).imp ?_
    rintro n r₈ ⟨q, vs, body, hq, hvs, ⟨ht₈, rfl⟩ | ⟨ps, step, hps, ht₈, rfl⟩⟩
    · refine ⟨r.current :: r₁.ahead :: is ++ us ++ c :: q :: vs,
        .loop hk hopen his hinit hus htest hc hq hvs, ?_⟩
      rw [hr₃, ht₄, ht₆, ht₈]
      simp
    · refine ⟨r.current :: r₁.ahead :: is ++ us ++ c :: ps ++ q :: vs,
        .loopStep hk hopen his hinit hus htest hc hps hq hvs, ?_⟩
      rw [hr₃, ht₄, ht₆, ht₈]
      simp
  · refine .bind hblock (fun _ => .pure) ((blockAhead_quiet ih (by rw [h₁]; omega)).imp ?_)
    rintro body r' ⟨us, hus, ht⟩
    refine .pure ⟨r.current :: us, .bareLoop hk hus, ?_⟩
    rw [hr, ← h₁, ht]
    rfl

/-- Quiet parameters are `Names` with commas in between, up to a closing parenthesis. -/
theorem parameters_quiet (hd : r.tokens.length < depth) :
    Quiet (rules depth).parameters r fun bs r' => ∃ us c, Names us bs ∧ c.kind = .rightParen ∧
      r.tokens.tail = us ++ c :: r'.tokens.tail := by
  induction depth generalizing r with
  | zero => omega
  | succ depth ih =>
    refine .bind_advance fun r₁ h₁ => ?_
    split
    · rename_i hname
      have hr₁ := tokens_eq_cons (r := r₁) (by rw [hname]; decide)
      have hlen₁ := length_tail_lt (r := r₁) (by rw [hname]; decide)
      rw [congrArg List.length h₁] at hlen₁
      have hle : r.tokens.tail.length ≤ r.tokens.length := by
        rw [List.length_tail]
        exact Nat.sub_le _ _
      refine .bind_advance fun r₂ h₂ => ?_
      rw [← h₂] at hr₁ hlen₁
      split
      · rename_i hcomma
        have hr₂ := tokens_eq_cons (r := r₂) (by rw [hcomma]; decide)
        refine .bind (rules_advance _).parameters (fun _ => .pure) ?_
        refine (ih (by omega)).imp ?_
        rintro bs r' ⟨us, c, hus, hc, ht⟩
        refine .pure ⟨r₁.current :: r₂.current :: us, c, .more hname hcomma hus, hc, ?_⟩
        rw [← h₁, hr₁, hr₂, ht]
        simp
      · rename_i hclose
        have hr₂ := tokens_eq_cons (r := r₂) (by rw [hclose]; decide)
        refine .pure ⟨[r₁.current], r₂.current, .one hname, hclose, ?_⟩
        rw [← h₁, hr₁, List.singleton_append, ← hr₂]
      · exact .reject
      · exact .reject
    · exact .reject
    · exact .reject

theorem parameterList_quiet (hd : r.tokens.length < depth) :
    Quiet (parameterList (rules depth)) r fun bs r' =>
      ∃ us c, Parameters us bs ∧ c.kind = .rightParen ∧
        r.tokens.tail = us ++ c :: r'.tokens.tail := by
  refine .bind_peek fun r₁ h₁ => .ite (fun hclose => ?_) fun _ => ?_
  · have hr₁ := tail_eq_cons (r := r₁) (by rw [hclose]; decide)
    refine .bind_advance fun r₂ h₂ => .pure ⟨[], r₁.ahead, .inl ⟨rfl, rfl⟩, hclose, ?_⟩
    rw [← h₁, h₂]
    exact hr₁
  · refine (parameters_quiet (by rwa [h₁])).imp ?_
    rintro bs r' ⟨us, c, hus, hc, ht⟩
    exact ⟨us, c, .inr hus, hc, by rw [← h₁, ht]⟩

/-- A quiet `function` has a name, parameters and a body. -/
theorem function_quiet (ih : Sound depth) (hk : r.current.kind = .kwFun)
    (hd : 4 * r.tokens.length ≤ depth) :
    Quiet (function (parameterList (rules depth)) (block ((rules depth).statements true))) r
      (Gives .statement r) := by
  have hr := tokens_eq_cons (r := r) (by rw [hk]; decide)
  have hlen := length_tail_lt (r := r) (by rw [hk]; decide)
  have hblock := advancing.blockAhead (advancing.block ((rules_advance depth).statements true))
  refine .bind_current (.bind_advance fun r₁ h₁ => .ite (fun hname => ?_) fun _ => .reject)
  have hr₁ := tokens_eq_cons (r := r₁) (by rw [hname]; decide)
  refine .bind_advance fun r₂ h₂ => .ite (fun hopen => ?_) fun _ => .reject
  have hr₂ := tokens_eq_cons (r := r₂) (by rw [hopen]; decide)
  have hlen₂ : r₂.tokens.length ≤ r.tokens.tail.length := by
    rw [h₂, h₁, List.length_tail]
    exact Nat.sub_le _ _
  refine .bind (advancing.parameterList (rules_advance _))
    (fun _ => .bind hblock fun _ => .bind .note fun _ => .pure) ?_
  refine (parameterList_quiet (by omega)).imp ?_
  rintro params r₃ ⟨ps, c, hps, hc, ht₃⟩
  have hlen₃ := congrArg List.length ht₃
  rw [List.length_append, List.length_cons, List.length_tail] at hlen₃
  refine .bind hblock (fun _ => .bind .note fun _ => .pure) ?_
  refine (blockAhead_quiet ih (by omega)).imp ?_
  rintro body r₄ ⟨us, hus, ht₄⟩
  refine .bind_note fun r₅ h₅ => .pure ⟨r.current :: r₁.current :: r₂.current :: ps ++ c :: us,
    .function hk hname hopen hps hc hus, ?_⟩
  rw [hr, ← h₁, hr₁, ← h₂, hr₂, ht₃, ht₄, h₅]
  simp

/-- A quiet `declaration` has a name, and a value if an equals sign follows. -/
theorem declaration_quiet (ih : Sound depth) (hk : r.current.kind = .kwVar)
    (hd : 4 * r.tokens.length ≤ depth) :
    Quiet (declaration ((rules depth).expression .statement)) r (Gives .statement r) := by
  have hr := tokens_eq_cons (r := r) (by rw [hk]; decide)
  have hlen := length_tail_lt (r := r) (by rw [hk]; decide)
  refine .bind_current (.bind_advance fun r₁ h₁ => .ite (fun hname => ?_) fun _ => .giveUp)
  have hr₁ := tokens_eq_cons (r := r₁) (by rw [hname]; decide)
  have hlen₁ := length_tail_lt (r := r₁) (by rw [hname]; decide)
  rw [congrArg List.length h₁] at hlen₁
  refine .bind_advance fun r₂ h₂ => ?_
  rw [← h₂] at hlen₁ hr₁
  refine (ih.expression r₂ .statement (some _) (by omega) nofun).imp ?_
  rintro n r' ⟨us, hus, ht, hc⟩
  have hsemi : r'.current.kind = .semicolon := of_decide_eq_true hc
  have hr' := tokens_eq_cons (r := r') (by rw [hsemi]; decide)
  obtain hus | ⟨-, e, vs, value, rfl, he, hvs, rfl⟩ := hus
  · refine ⟨r.current :: r₁.current :: us ++ [r'.current], .declaration hk hname hus hsemi, ?_⟩
    rw [hr, ← h₁, hr₁, ht, hr']
    simp
  · refine ⟨r.current :: r₁.current :: e :: vs ++ [r'.current],
      .initialized hk hname he hvs hsemi, ?_⟩
    rw [hr, ← h₁, hr₁, ht, hr']
    simp

theorem returning_quiet (ih : Sound depth) (hk : r.current.kind = .kwReturn)
    (hd : 4 * r.tokens.length ≤ depth) :
    Quiet (returning ((rules depth).expression .statement none)) r (Gives .statement r) := by
  have hr := tokens_eq_cons (r := r) (by rw [hk]; decide)
  have hlen := length_tail_lt (r := r) (by rw [hk]; decide)
  refine .bind_current (.bind_advance fun r₁ h₁ => ?_)
  refine .bind (advancing.required ((rules_advance _).expression _ _)) (fun _ => .pure) ?_
  refine (required_quiet ih (by rw [h₁]; omega)).imp ?_
  rintro value r' ⟨us, hus, ht, hc⟩
  have hsemi : r'.current.kind = .semicolon := of_decide_eq_true hc
  have hr' := tokens_eq_cons (r := r') (by rw [hsemi]; decide)
  refine .pure ⟨r.current :: us ++ [r'.current], .returning hk hus hsemi, ?_⟩
  rw [hr, ← h₁, ht, hr']
  simp

theorem breaking_quiet (hk : r.current.kind = .kwBreak) :
    Quiet breaking r (Gives .statement r) := by
  have hr := tokens_eq_cons (r := r) (by rw [hk]; decide)
  refine .bind_current (.bind_peek fun r₁ h₁ => .ite (fun hsemi => ?_) fun _ => unended_quiet)
  have hr₁ := tail_eq_cons (r := r₁) (by rw [hsemi]; decide)
  refine .bind_advance fun r₂ h₂ => .pure ⟨[r.current, r₁.ahead], .breaking hk hsemi, ?_⟩
  rw [hr, ← h₁, hr₁, h₂]
  rfl

/-- `Sound.statement`, one `level` up: one case for each kind that a statement may start
with. -/
theorem statement_quiet (ih : Sound depth) (hd : 4 * r.tokens.length + 3 ≤ depth + 1)
    (hsemi : r.current.kind ≠ .semicolon) :
    Quiet (rules (depth + 1)).statement r (Gives .statement r) := by
  rw [statement_succ, statement]
  refine .bind_current ?_
  split
  case h_1 hk => exact declaration_quiet ih hk (by omega)
  case h_2 hk =>
    refine .bind (advancing.block ((rules_advance _).statements _)) (fun _ => .pure) ?_
    refine (block_quiet ih hk (by omega)).imp ?_
    rintro b r' ⟨us, hus, ht⟩
    exact .pure ⟨us, .blockStatement hus, ht⟩
  case h_3 hk =>
    have hlen := length_tail_lt (r := r) (by rw [hk]; decide)
    exact conditional_quiet ih hk (by omega)
  case h_4 hk => exact loop_quiet ih hk (by omega)
  case h_5 hk => exact function_quiet ih hk (by omega)
  case h_6 hk => exact returning_quiet ih hk (by omega)
  case h_7 hk => exact breaking_quiet hk
  case h_8 =>
    refine (ended_quiet ih (by omega) (by simpa [Ending.closes] using hsemi)).imp ?_
    rintro n r' ⟨us, c, hus, hc, ht, -⟩
    exact ⟨us ++ [c], .expressionStatement hus (of_decide_eq_true hc), by rw [ht]; simp⟩

/-- A quiet `orRecover` takes the tokens of a statement, which may come to no node. -/
theorem orRecover_quiet (ih : Sound depth) (hd : 4 * r.tokens.length + 3 ≤ depth)
    (heof : r.current.kind ≠ .eof) :
    Quiet (orRecover (rules depth).statement) r fun node r' => ∃ us, us ≠ [] ∧
      Derives .statement us node.toList ∧ r.tokens = us ++ r'.tokens.tail := by
  intro he
  by_cases hsemi : r.current.kind = .semicolon
  · have hempty : (rules depth).statement r = (none, r) := statement_semicolon hsemi
    have hsilent := orRecover_of_silent hempty (Nat.le_refl _)
    exact ⟨none, r, hsilent, [r.current], List.cons_ne_nil _ _, .empty hsemi,
      tokens_eq_cons heof⟩
  · have hquiet := ih.statement r hd hsemi
    have hlater := (rules_advance depth).statement r
    rcases hs : (rules depth).statement r with ⟨_ | n, r'⟩ <;> rw [hs] at hlater
    · -- a failure has been reported, and is left by recovery
      have hne := hquiet.errors_ne hs
      have hlt : r.errors.length < r'.errors.length := by
        refine Nat.lt_of_le_of_ne hlater.errors.length_le fun hl => hne ?_
        exact (hlater.errors.eq_of_length hl).symm
      rw [orRecover_of_reported hs hlt] at he
      exact absurd he hne
    · rw [orRecover_of_some hs] at he
      obtain ⟨us, hus, ht⟩ := hquiet.result hs he
      exact ⟨some n, r', orRecover_of_some hs, us, List.length_pos_iff.mp (hus.length_pos rfl),
        hus, ht⟩

/-- `Sound.statements`, one `level` up. -/
theorem statements_quiet (ih : Sound depth) {inBlock : Bool}
    (hd : 4 * r.tokens.length + 4 ≤ depth + 1) :
    Quiet ((rules (depth + 1)).statements inBlock) r fun ns r' =>
      ∃ us, Derives .statements us ns ∧
      r.tokens = us ++ r'.tokens ∧
        (r'.current.kind = .eof ∨ inBlock ∧ r'.current.kind = .rightBrace) := by
  rw [statements_succ, statements]
  refine .bind_current (.ite (fun hend => .pure ⟨[], .noStatements, rfl, hend⟩) fun hgo => ?_)
  refine .bind (advancing.orRecover (rules_advance _).statement)
    (fun _ => .bind .advance fun _ => .bind ((rules_advance _).statements _) fun _ => .pure) ?_
  refine (orRecover_quiet ih (by omega) fun heof => hgo (.inl heof)).imp ?_
  rintro node r₁ ⟨us, hne, hus, ht⟩
  refine .bind_advance fun r₂ h₂ => .bind ((rules_advance _).statements _) (fun _ => .pure) ?_
  rw [← h₂] at ht
  have hlen := congrArg List.length ht
  have hpos := List.length_pos_iff.mpr hne
  rw [List.length_append] at hlen
  refine (ih.statements r₂ inBlock (by omega)).imp ?_
  rintro ns r' ⟨vs, hvs, hr', hend⟩
  exact .pure ⟨us ++ vs, .statements hus hvs, by rw [ht, hr', List.append_assoc], hend⟩

end Statements

/-- `Grammar.rules` are `Sound` at every depth. -/
theorem sound (depth : Nat) : Sound depth := by
  induction depth with
  | zero =>
    refine ⟨?_, ?_, ?_, ?_, ?_⟩ <;> intros <;> omega
  | succ depth ih =>
    exact {
      operand := fun _ hd => operand_quiet ih hd
      expression := fun _ _ _ hd hleft => expression_quiet ih hd hleft
      arguments := fun _ hd => arguments_quiet ih hd
      statement := fun _ hd hsemi => statement_quiet ih hd hsemi
      statements := fun _ _ hd => statements_quiet ih hd }

end Grammar
end ScriptLang
