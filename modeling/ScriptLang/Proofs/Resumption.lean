import ScriptLang.Proofs.Concatenation

/-!
# Parsing resumes behind a bad statement

However a statement is malformed, its recovery ends on the semicolon behind it, as long as the
tokens in front of the semicolon close the parentheses that they open. Rules that have met a
parenthesis have others inside of them, each with a recovery of its own, so what is kept is
this: whenever a rule gives up inside of so many parentheses, the tokens that are left still
close that many. Then no recovery inside of parentheses can get to the semicolon, and the last
one, outside of them all, does not pass it.

A rule that fails at the depth where the recursion is cut off reports nothing. But nothing
depends on what is there, so here rules are put there that do report.

- `opens`, `ClosesParens`: the parentheses that tokens leave open, and tokens that leave none
  open.
- `Parser.Stays`: a parser that stays in front of a semicolon, with a rule for each way to build
  a parser.
- `Rules.Staying`, `Rules.level_staying`: the rules of the grammar do.
- `Package.parse_append_of_bad`: a statement, however bad, and whatever source behind it.
-/

namespace ScriptLang

open ScriptLang.Parser Grammar

/-! ## Parentheses -/

/-- The number of parentheses that are open behind some tokens, if so many were open in front of
them. A `rightParen` that closes none does not count. -/
def opens : Nat → List Token → Nat
  | d, [] => d
  | d, t :: ts =>
    opens (if t.kind = .leftParen then d + 1 else if t.kind = .rightParen then d - 1 else d) ts

/-- `opens` is monotone in how many parentheses were open in front. -/
theorem opens_mono {d d' : Nat} (h : d ≤ d') (ts : List Token) : opens d ts ≤ opens d' ts := by
  induction ts generalizing d d' with
  | nil => exact h
  | cons t ts ih =>
    rw [opens, opens]
    split
    · exact ih (Nat.succ_le_succ h)
    · split
      · exact ih (Nat.sub_le_sub_right h 1)
      · exact ih h

/-- A token that is neither a semicolon nor a brace. -/
def Token.Plain (t : Token) : Prop :=
  t.kind ≠ .semicolon ∧ t.kind ≠ .leftBrace ∧ t.kind ≠ .rightBrace

/-- Tokens that are `Token.Plain`, close `d` parentheses and all that they open. -/
structure ClosesParens (d : Nat) (w : List Token) : Prop where
  plain : ∀ t ∈ w, t.Plain
  opens : opens d w = 0

namespace ClosesParens

variable {d d' : Nat} {t : Token} {w : List Token}

/-- No tokens close no parentheses. -/
theorem nil : ClosesParens 0 [] := ⟨List.forall_mem_nil _, rfl⟩

/-- `ClosesParens` holds of fewer parentheses as well, since one too many does not count in
`opens`. -/
theorem lower (h : ClosesParens d' w) (hd : d ≤ d') : ClosesParens d w :=
  ⟨h.plain, Nat.le_zero.mp ((opens_mono hd w).trans h.opens.le)⟩

/-- The first token is `Token.Plain`. -/
theorem head (h : ClosesParens d (t :: w)) : t.Plain := h.plain t List.mem_cons_self

/-- Behind a `leftParen` there is one more to close. -/
theorem of_left (h : ClosesParens d (t :: w)) (ht : t.kind = .leftParen) :
    ClosesParens (d + 1) w := by
  refine ⟨fun u hu => h.plain u (List.mem_cons_of_mem t hu), ?_⟩
  have hopens := h.opens
  rwa [ScriptLang.opens, if_pos ht] at hopens

/-- Behind a `rightParen` there is one fewer to close. -/
theorem of_right (h : ClosesParens d (t :: w)) (ht : t.kind = .rightParen) :
    ClosesParens (d - 1) w := by
  refine ⟨fun u hu => h.plain u (List.mem_cons_of_mem t hu), ?_⟩
  have hopens := h.opens
  rwa [ScriptLang.opens, if_neg (by rw [ht]; decide), if_pos ht] at hopens

/-- Behind any other token there are as many to close. -/
theorem of_other (h : ClosesParens d (t :: w)) (hl : t.kind ≠ .leftParen)
    (hr : t.kind ≠ .rightParen) : ClosesParens d w := by
  refine ⟨fun u hu => h.plain u (List.mem_cons_of_mem t hu), ?_⟩
  have hopens := h.opens
  rwa [ScriptLang.opens, if_neg hl, if_neg hr] at hopens

/-- Behind a token of a kind that is no parenthesis. -/
theorem of_kind {kind : TokenKind} (h : ClosesParens d (t :: w)) (ht : t.kind = kind)
    (hkind : kind ≠ .leftParen ∧ kind ≠ .rightParen) : ClosesParens d w :=
  h.of_other (ht ▸ hkind.1) (ht ▸ hkind.2)

/-- Behind an operator. -/
theorem of_operator (h : ClosesParens d (t :: w)) (ht : t.kind.isPrefix ∨ t.kind.isInfix) :
    ClosesParens d w := by
  refine h.of_other (fun hk => ?_) fun hk => ?_ <;>
  · rw [hk] at ht
    exact absurd ht (by decide)

end ClosesParens

/-! ## Parsers that stay in front of a semicolon -/

/-- `Ending.statement` is the ending of an expression outside of all parentheses, and of no
other. -/
def Ending.Fits (ending : Ending) (d : Nat) : Prop := d = 0 ↔ ending = .statement

/-- What is left of some tokens where an operand ends: its last token, and tokens that
`ClosesParens`. -/
def EndsOperand (d : Nat) (v : List Token) : Prop := ∃ t u, v = t :: u ∧ ClosesParens d u

namespace Parser

/-- With the tokens `w` in front of the semicolon `s`, the parser `Goes` no further than `s`,
and does the same whatever is behind it. Either it succeeds, and `Q` holds of the tokens that
are left; or it reports something and fails, and the tokens that are left close the `d`
parentheses that it is inside of. -/
def Stays {α : Type} (s : Token) (d : Nat) (p : Parser α) (Q : List Token → Prop)
    (w : List Token) : Prop :=
  (∃ a ds v, Goes s p w (some a) ds v ∧ Q v) ∨
    ∃ ds v, ds ≠ [] ∧ Goes s p w none ds v ∧ ClosesParens d v

namespace Stays

variable {s t : Token} {d d' : Nat} {α β : Type} {p q : Parser α} {f : α → Parser β}
  {Q Q' : List Token → Prop} {R : List Token → Prop} {w : List Token}

/-- A parser that reads nothing leaves the tokens as they are, so `Q` has to hold of them. -/
theorem pure {a : α} (h : Q w) : Stays s d (pure a) Q w := .inl ⟨a, [], w, .pure, h⟩

/-- The property `Q` of the tokens that are left may be weakened. -/
theorem imp (h : Stays s d p Q w) (hQ : ∀ v, Q v → Q' v) : Stays s d p Q' w :=
  h.imp_left fun ⟨a, ds, v, hgoes, hv⟩ => ⟨a, ds, v, hgoes, hQ v hv⟩

/-- A parser may be inside of fewer parentheses than told: `ClosesParens.lower`. -/
theorem lower (h : Stays s d' p Q w) (hd : d ≤ d') : Stays s d p Q w :=
  h.imp_right fun ⟨ds, v, hds, hgoes, hv⟩ => ⟨ds, v, hds, hgoes, hv.lower hd⟩

/-- `Stays` is kept by the monad: the second parser is run on tokens of which `Q` holds. -/
theorem bind (hp : Stays s d p Q w) (hf : ∀ a v, Q v → Stays s d (f a) R v) :
    Stays s d (p >>= f) R w := by
  obtain ⟨a, ds, v, hgoes, hv⟩ | ⟨ds, v, hds, hgoes, hv⟩ := hp
  · obtain ⟨b, ds', u, hgoes', hu⟩ | ⟨ds', u, hds', hgoes', hu⟩ := hf a v hv
    · exact .inl ⟨b, _, u, hgoes.bind hgoes', hu⟩
    · exact .inr ⟨_, u, by simp [hds'], hgoes.bind hgoes', hu⟩
  · exact .inr ⟨ds, v, hds, hgoes.bind_of_fails, hv⟩

/-- A parser that `Goes` on without a report, and one that stays from where it leads to. -/
theorem of_goes {a : α} {v : List Token} (hp : Goes s p w (some a) [] v)
    (hf : Stays s d (f a) R v) : Stays s d (p >>= f) R w := by
  obtain ⟨b, ds, u, hgoes, hu⟩ | ⟨ds, u, hds, hgoes, hu⟩ := hf
  · exact .inl ⟨b, _, u, hp.bind hgoes, hu⟩
  · exact .inr ⟨_, u, by simpa using hds, hp.bind hgoes, hu⟩

/-- `current` is the first token of `w`, or `s` itself. -/
theorem bind_current {f : Token → Parser β} (h : Stays s d (f (w.headD s)) R w) :
    Stays s d (current >>= f) R w := of_goes .current h

theorem bind_peek {f : Token → Parser β} (h : Stays s d (f (w.headD s)) R (t :: w)) :
    Stays s d (peek >>= f) R (t :: w) := of_goes .peek h

theorem bind_advance {f : Token → Parser β} (h : Stays s d (f (w.headD s)) R w) :
    Stays s d (advance >>= f) R (t :: w) := of_goes .advance h

/-- The branch taken may use the condition. -/
theorem ite {c : Prop} [Decidable c] (hp : c → Stays s d p Q w) (hq : ¬c → Stays s d q Q w) :
    Stays s d (if c then p else q) Q w := by
  split
  · exact hp ‹c›
  · exact hq ‹¬c›

/-- `reject` reports once and leaves the tokens as they are. -/
theorem reject {cause : Cause} (h : ClosesParens d w) :
    Stays s d (reject cause : Parser α) Q w :=
  .inr ⟨_, w, List.cons_ne_nil _ _, .reject, h⟩

/-- A parser that stays may be tried by `Parser.attempt`, if its failure is followed by a
recovery. -/
theorem bind_attempt {f : Option α → Parser β} (hp : Stays s d p Q w)
    (hsome : ∀ a v, Q v → Stays s d (f (some a)) R v)
    (hnone : ∀ v, ClosesParens d v → ∃ ds u, Goes s (f none) v none ds u ∧ ClosesParens d u) :
    Stays s d (p.attempt >>= f) R w := by
  obtain ⟨a, ds, v, hgoes, hv⟩ | ⟨ds, v, hds, hgoes, hv⟩ := hp
  · obtain ⟨b, ds', u, hgoes', hu⟩ | ⟨ds', u, hds', hgoes', hu⟩ := hsome a v hv
    · exact .inl ⟨b, _, u, hgoes.attempt.bind hgoes', hu⟩
    · exact .inr ⟨_, u, by simp [hds'], hgoes.attempt.bind hgoes', hu⟩
  · obtain ⟨ds', u, hgoes', hu⟩ := hnone v hv
    exact .inr ⟨_, u, by simp [hds], hgoes.attempt.bind hgoes', hu⟩

end Stays

/-! ## Recovery -/

section Recovery

variable {s : Token} (hs : s.kind = .semicolon) {d : Nat} {w : List Token}

include hs

/-- Neither a token that is `Token.Plain` nor the semicolon is a closing brace. -/
theorem kind_headD_ne_rightBrace (h : ∀ t ∈ w, t.Plain) : (w.headD s).kind ≠ .rightBrace := by
  cases w with
  | nil => rw [List.headD_nil, hs]; decide
  | cons t w => exact (h t List.mem_cons_self).2.2

omit hs in
theorem skip_of_none {how : Recovery} {k e : Nat} {t : Token} {ts : List Token}
    {journal : Journal} (hstep : how.step k t.kind = none) :
    how.skip e k (t :: ts) journal = (t :: ts, journal) := by
  rw [Recovery.skip, hstep]

omit hs in
/-- `Recovery.skip` passes a token that it does not end on, unless a `rightBrace` is next. -/
theorem skip_of_some {how : Recovery} {k k' e : Nat} {t : Token} {ts : List Token}
    (hstep : how.step k t.kind = some k') (hnext : (Reading.headOf ts e).kind ≠ .rightBrace)
    (journal : Journal) :
    ∃ journal', how.skip e k (t :: ts) journal = how.skip e k' ts journal' := by
  simp only [Recovery.skip, hstep, if_neg hnext]
  split
  · exact ⟨_, rfl⟩
  · exact ⟨_, rfl⟩

/-- Where `Recovery.skip` of an expression ends, the tokens still close the parentheses that it
is inside of. -/
theorem skip_expression {ending : Ending} (hfits : ending.Fits d) (k : Nat)
    (h : ClosesParens (d + k) w) :
    ∃ v, ClosesParens d v ∧ ∀ rest e journal, ∃ journal',
      (Recovery.expression ending).skip e k (w ++ s :: rest) journal =
        (v ++ s :: rest, journal') := by
  induction w generalizing k with
  | nil =>
    obtain ⟨rfl, rfl⟩ : d = 0 ∧ k = 0 := Nat.add_eq_zero_iff.mp h.opens
    cases hfits.mp rfl
    refine ⟨[], .nil, fun rest e journal => ⟨journal, skip_of_none ?_⟩⟩
    rw [hs]
    rfl
  | cons t w ih =>
    -- behind the token there are as many parentheses to be closed as recovery counts
    have hmove (k' : Nat) (hstep : (Recovery.expression ending).step k t.kind = some k')
        (hw : ClosesParens (d + k') w) :
        ∃ v, ClosesParens d v ∧ ∀ rest e journal, ∃ journal',
          (Recovery.expression ending).skip e k (t :: w ++ s :: rest) journal =
            (v ++ s :: rest, journal') := by
      obtain ⟨v, hv, hskip⟩ := ih k' hw
      refine ⟨v, hv, fun rest e journal => ?_⟩
      have hnext : (Reading.headOf (w ++ s :: rest) e).kind ≠ .rightBrace := by
        rw [headOf_append]
        exact kind_headD_ne_rightBrace hs hw.plain
      obtain ⟨journal', hstep⟩ := skip_of_some hstep hnext journal
      rw [List.cons_append, hstep]
      exact hskip rest e journal'
    by_cases hl : t.kind = .leftParen
    · exact hmove (k + 1) (if_pos hl) (h.of_left hl)
    · by_cases hr : t.kind = .rightParen ∧ 0 < k
      · refine hmove (k - 1) ((if_neg hl).trans (if_pos hr)) ?_
        rw [← Nat.add_sub_assoc hr.2]
        exact h.of_right hr.1
      · by_cases hc : k = 0 ∧ ending.closes t.kind
        · refine ⟨t :: w, h.lower (Nat.le_add_right d k), fun rest e journal =>
            ⟨journal, skip_of_none ?_⟩⟩
          exact (if_neg hl).trans ((if_neg hr).trans (if_pos hc))
        · refine hmove k ((if_neg hl).trans ((if_neg hr).trans (if_neg hc))) ?_
          by_cases hright : t.kind = .rightParen
          · -- a closing parenthesis is passed only outside of all
            obtain rfl : k = 0 := Nat.eq_zero_of_not_pos fun hk => hr ⟨hright, hk⟩
            have hending : ending = .statement := by
              cases ending with
              | statement => rfl
              | group | argument => exact absurd ⟨rfl, by rw [hright]; rfl⟩ hc
            obtain rfl := hfits.mpr hending
            exact h.of_right hright
          · exact h.of_other hl hright

/-- So `recover` of an expression goes to a place where `ClosesParens` holds again, in front of
the semicolon or on it. -/
theorem recover_expression {ending : Ending} (hfits : ending.Fits d) (h : ClosesParens d w) :
    ∃ v, Goes s (recover (.expression ending)) w (some ()) [] v ∧ ClosesParens d v := by
  obtain ⟨v, hv, hskip⟩ := skip_expression hs hfits 0 h
  refine ⟨v, fun rest e errors journal => ?_, hv⟩
  obtain ⟨journal', hskip⟩ := hskip rest e journal
  exact ⟨journal', by rw [recover, hskip, List.append_nil]⟩

/-- `recover` of a statement goes to the semicolon, since no token in front of it is a brace. -/
theorem recover_statement (h : ClosesParens d w) :
    Goes s (recover .statement) w (some ()) [] [] := by
  have hskip : ∀ rest e journal, ∃ journal',
      Recovery.statement.skip e 0 (w ++ s :: rest) journal = (s :: rest, journal') := by
    intro rest e journal
    replace h := h.plain
    induction w generalizing journal with
    | nil => exact ⟨journal, skip_of_none (by rw [hs]; rfl)⟩
    | cons t w ih =>
      obtain ⟨ht, hw⟩ := List.forall_mem_cons.mp h
      have hstep : Recovery.statement.step 0 t.kind = some 0 := by
        simp [Recovery.statement, ht.1, ht.2.1]
      have hnext : (Reading.headOf (w ++ s :: rest) e).kind ≠ .rightBrace := by
        rw [headOf_append]
        exact kind_headD_ne_rightBrace hs hw
      obtain ⟨journal', hstep⟩ := skip_of_some hstep hnext journal
      rw [List.cons_append, hstep]
      exact ih journal' hw
  intro rest e errors journal
  obtain ⟨journal', hskip⟩ := hskip rest e journal
  exact ⟨journal', by rw [recover, hskip, List.append_nil]; rfl⟩

end Recovery
end Parser

/-! ## Rules over the parsers of their parts -/

namespace Grammar

section Rules

variable {s t : Token} (hs : s.kind = .semicolon) {d : Nat} {w : List Token}
  {expression operand : Parser Node} {block : Parser Block} {ending : Ending}
  {Q : List Token → Prop}

/-- What is left of some tokens where an expression ends: tokens that `ClosesParens`, and the
first of them, or `s` behind them, closes the ending. -/
def EndsExpression (s : Token) (d : Nat) (ending : Ending) (v : List Token) : Prop :=
  ClosesParens d v ∧ ending.closes (v.headD s).kind

/-- `required` reads an expression, or rejects its first token. -/
theorem required_stays (hw : ClosesParens d w)
    (h : ending.closes (w.headD s).kind = false → Stays s d expression Q w) :
    Stays s d (required ending expression) Q w :=
  .bind_current (.ite (fun _ => .reject hw) fun hc => h (by simpa using hc))

include hs

/-- If a property of kinds holds of the current token and not of a semicolon, then the token is
one of `w`. -/
theorem exists_cons (p : TokenKind → Prop) (hp : ¬p .semicolon) (h : p (w.headD s).kind) :
    ∃ t u, w = t :: u ∧ p t.kind := by
  cases w with
  | nil =>
    rw [List.headD_nil, hs] at h
    exact absurd h hp
  | cons t u => exact ⟨t, u, rfl, h⟩

/-- `group` is inside of one more parenthesis, whose closing one ends it. -/
theorem group_stays (ht : t.kind = .leftParen) (hw : ClosesParens d (t :: w))
    (h : ClosesParens (d + 1) w → Ending.group.closes (w.headD s).kind = false →
      Stays s (d + 1) expression (EndsExpression s (d + 1) .group) w) :
    Stays s d (group expression) (EndsOperand d) (t :: w) := by
  have hw := hw.of_left ht
  refine .bind_advance (.lower (.imp (required_stays hw (h hw)) ?_) (Nat.le_succ d))
  rintro v ⟨hv, hc⟩
  obtain ⟨u, v, rfl, hu⟩ := exists_cons hs (fun kind => Ending.group.closes kind) (by decide) hc
  exact ⟨u, v, rfl, hv.of_right (by simpa [Ending.closes] using hu)⟩

/-- So are the arguments of `call`. -/
theorem call_stays {callee : Token} {arguments : Parser (List Node)} (ht : t.kind = .leftParen)
    (hw : ClosesParens d (t :: w))
    (h : ClosesParens (d + 1) w → Stays s d arguments (EndsOperand d) (t :: w)) :
    Stays s d (call callee arguments) (EndsOperand d) (t :: w) := by
  have hw := hw.of_left ht
  refine .bind_current (.bind_peek (.ite (fun hr => ?_) fun _ => ?_))
  · obtain ⟨u, w, rfl, hu⟩ := exists_cons hs (· = .rightParen) (by decide) hr
    exact .bind_advance (.pure ⟨u, w, rfl, hw.of_right hu⟩)
  · exact .bind (h hw) fun _ _ hv => .pure hv

omit hs in
/-- The operand of `prefixed` ends where the whole does. -/
theorem prefixed_stays (ht : t.kind.isPrefix) (hw : ClosesParens d (t :: w))
    (h : ClosesParens d w → Stays s d operand (EndsOperand d) w) :
    Stays s d (prefixed operand) (EndsOperand d) (t :: w) :=
  .bind_current (.bind_advance (.bind (h (hw.of_operator (.inl ht))) fun _ _ hv => .pure hv))

/-- So does the operand that `fold` reads. -/
theorem fold_stays {left : Option Node} (hw : ClosesParens d w)
    (h : ∀ {w}, ClosesParens d w → Stays s d operand (EndsOperand d) w) :
    Stays s d (fold operand left) (EndsOperand d) w := by
  refine .bind_current ?_
  cases left with
  | none => exact h hw
  | some left =>
    refine .ite (fun hi => ?_) fun _ => .ite (fun _ => .reject hw) fun _ => h hw
    obtain ⟨t, w, rfl, ht⟩ := exists_cons hs (fun kind => kind.isInfix) (by decide) hi
    have hw := hw.of_operator (.inr ht)
    exact .bind_current (.bind_advance (.bind (h hw) fun _ _ hv => .pure hv))

/-- A `recover` of an expression with a failure behind it stays in front of the semicolon. -/
theorem recover_fails (hfits : ending.Fits d) (hw : ClosesParens d w) :
    ∃ ds u, Goes s (do recover (.expression ending); fail : Parser Node) w none ds u ∧
      ClosesParens d u := by
  obtain ⟨v, hgoes, hv⟩ := recover_expression hs hfits hw
  exact ⟨_, v, hgoes.bind .fail, hv⟩

/-- So does a report with both behind it. -/
theorem giveUp_stays {cause : Cause} (hfits : ending.Fits d) (hw : ClosesParens d w) :
    Stays s d (do report cause; recover (.expression ending); fail : Parser Node) Q w := by
  obtain ⟨ds, u, hgoes, hu⟩ := recover_fails hs hfits hw
  exact .inr ⟨_, u, List.cons_ne_nil _ _, Goes.report.bind hgoes, hu⟩

/-- The value that `assign` reads is an expression with the same ending. -/
theorem assign_stays {left : Option Node} (hfits : ending.Fits d) (ht : t.kind = .equal)
    (hw : ClosesParens d (t :: w))
    (h : ClosesParens d w → ending.closes (w.headD s).kind = false →
      Stays s d expression (EndsExpression s d ending) w) :
    Stays s d (assign ending expression left) (EndsExpression s d ending) (t :: w) := by
  refine .bind_current ?_
  split
  · have hw := hw.of_kind ht (by decide)
    exact .bind_advance (.bind (required_stays hw (h hw)) fun _ _ hv => .pure hv)
  · exact giveUp_stays hs hfits hw

/-- `blockAhead` fails, as no token in front of the semicolon is a brace. -/
theorem blockAhead_stays (hw : ClosesParens d w) : Stays s d (blockAhead block) Q (t :: w) := by
  refine .bind_advance (.ite (fun hl => ?_) fun _ => .reject hw)
  obtain ⟨u, w, rfl, hu⟩ := exists_cons hs (· = .leftBrace) (by decide) hl
  exact absurd hu hw.head.2.1

/-- `conditional` fails at its condition, or for want of a block. -/
theorem conditional_stays (ht : t.kind = .kwIf) (hw : ClosesParens 0 (t :: w))
    (h : ∀ {w}, ClosesParens 1 w → Ending.group.closes (w.headD s).kind = false →
      Stays s 1 expression (EndsExpression s 1 .group) w) :
    Stays s 0 (conditional expression block) Q (t :: w) := by
  have hw := hw.of_kind ht (by decide)
  refine .bind_current (.bind_advance (.ite (fun hl => ?_) fun _ => .reject hw))
  obtain ⟨u, w, rfl, hu⟩ := exists_cons hs (· = .leftParen) (by decide) hl
  -- the condition may be a good one, but no block is behind it
  refine .bind (group_stays hs hu hw h) ?_
  rintro _ _ ⟨u, v, rfl, hv⟩
  exact .bind (Q := fun _ => False) (.bind (blockAhead_stays hs hv) fun _ _ => False.elim)
    fun _ _ => False.elim

/-- `function` fails at its name or its parameters, or for want of a block. -/
theorem function_stays {params : Parser (List Binder)} (ht : t.kind = .kwFun)
    (hw : ClosesParens 0 (t :: w))
    (h : ∀ {t w}, t.kind = .leftParen → ClosesParens 0 (t :: w) →
      Stays s 0 params (EndsOperand 0) (t :: w)) :
    Stays s 0 (function params block) Q (t :: w) := by
  have hw := hw.of_kind ht (by decide)
  refine .bind_current (.bind_advance (.ite (fun hn => ?_) fun _ => .reject hw))
  obtain ⟨n, w, rfl, hn⟩ := exists_cons hs (· = .ident) (by decide) hn
  have hw := hw.of_kind hn (by decide)
  refine .bind_advance (.ite (fun hl => ?_) fun _ => .reject hw)
  obtain ⟨l, w, rfl, hl⟩ := exists_cons hs (· = .leftParen) (by decide) hl
  refine .bind (h hl hw) ?_
  rintro _ _ ⟨u, v, rfl, hv⟩
  exact .bind (blockAhead_stays hs hv) fun _ _ => False.elim

/-- `declaration` fails at its name, or goes on with `rest`. -/
theorem declaration_stays {rest : Option Node → Parser Node} (ht : t.kind = .kwVar)
    (hw : ClosesParens 0 (t :: w))
    (h : ∀ {w} n, ClosesParens 0 w → Stays s 0 (rest (some n)) Q w) :
    Stays s 0 (declaration rest) Q (t :: w) := by
  have hw := hw.of_kind ht (by decide)
  refine .bind_current (.bind_advance (.ite (fun hn => ?_) fun _ => ?_))
  · obtain ⟨n, w, rfl, hn⟩ := exists_cons hs (· = .ident) (by decide) hn
    exact .bind_advance (h _ (hw.of_kind hn (by decide)))
  · exact giveUp_stays hs ⟨fun _ => rfl, fun _ => rfl⟩ hw

omit hs in
/-- `returning` reads an expression up to the semicolon. -/
theorem returning_stays (ht : t.kind = .kwReturn) (hw : ClosesParens 0 (t :: w))
    (h : ClosesParens 0 w → Ending.statement.closes (w.headD s).kind = false →
      Stays s 0 expression Q w) :
    Stays s 0 (returning expression) Q (t :: w) := by
  have hw := hw.of_kind ht (by decide)
  exact .bind_current (.bind_advance (.bind (required_stays hw (h hw)) fun _ _ hv => .pure hv))

omit hs in
theorem unended_stays {α : Type} {next : Token} (hw : ClosesParens d w) :
    Stays s d (unended ending next : Parser α) Q w :=
  .inr ⟨_, w, List.cons_ne_nil _ _, Goes.reportAt.bind .fail, hw⟩

omit hs in
/-- `breaking` is in front of the semicolon, or reports what is there instead. -/
theorem breaking_stays (ht : t.kind = .kwBreak) (hw : ClosesParens 0 (t :: w)) :
    Stays s 0 breaking (EndsExpression s 0 .statement) (t :: w) := by
  refine .bind_current (.bind_peek (.ite (fun hk => ?_) fun _ => unended_stays hw))
  exact .bind_advance (.pure ⟨hw.of_kind ht (by decide), by simpa [Ending.closes] using hk⟩)

/-- A statement that stays is followed by `recover` if it has reported, so `orRecover` leaves it
on the semicolon in any case. -/
theorem orRecover_goes {statement : Parser Node}
    (h : Stays s 0 statement (EndsExpression s 0 .statement) w) :
    ∃ o ds, Goes s (orRecover statement) w (some o) ds [] := by
  obtain ⟨n, ds, v, hgoes, hv, hc⟩ | ⟨ds, v, hds, hgoes, hv⟩ := h
  · cases v with
    | nil => exact ⟨some n, ds, hgoes.orRecover⟩
    | cons t v => exact absurd (by simpa [Ending.closes] using hc) hv.head.1
  · exact ⟨none, ds, hgoes.orRecover_of_reported hds (recover_statement hs hv)⟩

end Rules
end Grammar

/-! ## Levels of the grammar -/

namespace Rules

open Grammar

/-- Each of the rules `Stays` in front of the semicolon, inside of any parentheses that are
closed there. -/
structure Staying (s : Token) (rules : Rules) : Prop where
  operand : ∀ {d w}, ClosesParens d w → Stays s d rules.operand (EndsOperand d) w
  expression : ∀ {d ending left w}, ending.Fits d → ClosesParens d w →
    (left = none → ending.closes (w.headD s).kind = false) →
    Stays s d (rules.expression ending left) (EndsExpression s d ending) w
  arguments : ∀ {d t w}, ClosesParens (d + 1) w →
    Stays s d rules.arguments (EndsOperand d) (t :: w)
  parameters : ∀ {d t w}, ClosesParens (d + 1) w →
    Stays s d rules.parameters (EndsOperand d) (t :: w)

section Level

variable {s t : Token} (hs : s.kind = .semicolon) {rules : Rules}
  (h : Staying s rules) {d : Nat}
  {w : List Token}

theorem fits_statement : Ending.statement.Fits 0 := ⟨fun _ => rfl, fun _ => rfl⟩

theorem fits_group (d : Nat) : Ending.group.Fits (d + 1) := ⟨nofun, nofun⟩

theorem fits_argument (d : Nat) : Ending.argument.Fits (d + 1) := ⟨nofun, nofun⟩

include hs in
/-- A token that is an operand by itself `EndsOperand`. -/
theorem endsOperand_of_kind {kind : TokenKind} (hw : ClosesParens d w)
    (hk : (w.headD s).kind = kind)
    (hkind : kind ≠ .semicolon ∧ kind ≠ .leftParen ∧ kind ≠ .rightParen) : EndsOperand d w := by
  obtain ⟨t, w, rfl, ht⟩ := exists_cons hs (· = kind) (Ne.symm hkind.1) hk
  exact ⟨t, w, rfl, hw.of_kind ht hkind.2⟩

include hs h

/-- One `level` up: an operand, by the kind of its first token. -/
theorem operand_stays (hw : ClosesParens d w) :
    Stays s d rules.level.operand (EndsOperand d) w := by
  refine .bind_current ?_
  split
  case h_1 hk =>
    obtain ⟨t, w, rfl, ht⟩ := exists_cons hs (· = .ident) (by decide) hk
    have hbehind := hw.of_kind ht (by decide)
    refine .bind_peek (.ite (fun hl => ?_) fun _ => .pure ⟨t, w, rfl, hbehind⟩)
    obtain ⟨l, w, rfl, hl⟩ := exists_cons hs (· = .leftParen) (by decide) hl
    exact .bind_advance (call_stays hs hl hbehind h.arguments)
  case h_2 hk =>
    split
    · exact .pure (endsOperand_of_kind hs hw hk (by decide))
    · exact .reject hw
  case h_3 hk | h_4 hk | h_5 hk => exact .pure (endsOperand_of_kind hs hw hk (by decide))
  case h_6 hk =>
    obtain ⟨l, w, rfl, hl⟩ := exists_cons hs (· = .leftParen) (by decide) hk
    exact group_stays hs hl hw fun hw hc => h.expression (fits_group d) hw fun _ => hc
  case h_7 hk | h_8 hk | h_9 hk =>
    obtain ⟨t, w, rfl, ht⟩ := exists_cons hs (fun kind => kind.isPrefix) (by decide)
      (show (w.headD s).kind.isPrefix by rw [hk]; rfl)
    exact prefixed_stays ht hw h.operand
  all_goals exact .reject hw

/-- One `level` up: an expression goes on with what is left, until its ending is there. -/
theorem expression_stays {ending : Ending} {left : Option Node} (hfits : ending.Fits d)
    (hw : ClosesParens d w)
    (hleft : left = none → ending.closes (w.headD s).kind = false) :
    Stays s d (rules.level.expression ending left) (EndsExpression s d ending) w := by
  refine .bind_current (.ite (fun hc => ?_) fun _ => .ite (fun _ => .reject hw) fun _ =>
    .ite (fun he => ?_) fun _ => ?_)
  · cases left with
    | none => exact absurd hc (by rw [hleft rfl]; decide)
    | some n => exact .pure ⟨hw, hc⟩
  · obtain ⟨t, w, rfl, ht⟩ := exists_cons hs (· = .equal) (by decide) he
    exact assign_stays hs hfits ht hw fun hw hc => h.expression hfits hw fun _ => hc
  · refine .bind_attempt (fold_stays hs hw h.operand) ?_ fun v hv => recover_fails hs hfits hv
    rintro n _ ⟨t, v, rfl, hv⟩
    refine .bind_peek (.ite (fun hb => ?_) fun _ => .bind_advance (h.expression hfits hv nofun))
    exact absurd hb (kind_headD_ne_rightBrace hs hv.plain)

/-- One `level` up: arguments, up to the parenthesis that closes them. -/
theorem arguments_stays (hw : ClosesParens (d + 1) w) :
    Stays s d rules.level.arguments (EndsOperand d) (t :: w) := by
  have harg : Stays s (d + 1) (required .argument (rules.expression .argument none))
      (EndsExpression s (d + 1) .argument) w :=
    required_stays hw fun hc => h.expression (fits_argument d) hw fun _ => hc
  -- an argument that fails leaves the call's parenthesis
  -- to be closed, which is one more than is asked for
  refine .bind_advance (.bind (harg.lower (Nat.le_succ d)) ?_)
  rintro _ v ⟨hv, hc⟩
  obtain ⟨u, v, rfl, hu⟩ :=
    exists_cons hs (fun kind => Ending.argument.closes kind) (by decide) hc
  refine .bind_current (.ite (fun hr => .pure ⟨u, v, rfl, hv.of_right hr⟩) fun hr => ?_)
  have hcomma : u.kind = .comma := by
    simpa [Ending.closes, show u.kind ≠ .rightParen from hr] using hu
  exact .bind (h.arguments (hv.of_kind hcomma (by decide))) fun _ _ hv => .pure hv

/-- One `level` up: parameters, likewise. -/
theorem parameters_stays (hw : ClosesParens (d + 1) w) :
    Stays s d rules.level.parameters (EndsOperand d) (t :: w) := by
  refine .bind_advance ?_
  split
  case h_1 hk =>
    obtain ⟨n, w, rfl, hn⟩ := exists_cons hs (· = .ident) (by decide) hk
    have hw := hw.of_kind hn (by decide)
    refine .bind_advance ?_
    split
    case h_1 hk =>
      obtain ⟨u, w, rfl, hu⟩ := exists_cons hs (· = .comma) (by decide) hk
      exact .bind (h.parameters (hw.of_kind hu (by decide))) fun _ _ hv => .pure hv
    case h_2 hk =>
      obtain ⟨u, w, rfl, hu⟩ := exists_cons hs (· = .rightParen) (by decide) hk
      exact .pure ⟨u, w, rfl, hw.of_right hu⟩
    all_goals exact .reject (hw.lower (Nat.le_succ d))
  all_goals exact .reject (hw.lower (Nat.le_succ d))

/-- `Staying` is kept from one level of the rules to the next. -/
theorem level_staying : Staying s rules.level :=
  ⟨operand_stays hs h, expression_stays hs h, arguments_stays hs h, parameters_stays hs h⟩

theorem parameterList_stays (ht : t.kind = .leftParen) (hw : ClosesParens d (t :: w)) :
    Stays s d (parameterList rules) (EndsOperand d) (t :: w) := by
  have hw := hw.of_left ht
  refine .bind_peek (.ite (fun hr => ?_) fun _ => h.parameters hw)
  obtain ⟨u, w, rfl, hu⟩ := exists_cons hs (· = .rightParen) (by decide) hr
  exact .bind_advance (.pure ⟨u, w, rfl, hw.of_right hu⟩)

/-- A statement stays in front of its first semicolon, unless it is a loop, which may have
semicolons in its head. -/
theorem statement_stays (hw : ClosesParens 0 w) (hne : w ≠ [])
    (hloop : (w.headD s).kind ≠ .kwLoop) :
    Stays s 0 rules.level.statement (EndsExpression s 0 .statement) w := by
  obtain ⟨t, w, rfl⟩ := List.exists_cons_of_ne_nil hne
  refine .bind_current ?_
  split
  case h_1 hk =>
    exact declaration_stays hs hk hw fun n hw => h.expression fits_statement hw nofun
  case h_2 hk => exact absurd hk hw.head.2.1
  case h_3 hk =>
    exact conditional_stays hs hk hw fun hw hc => h.expression (fits_group 0) hw fun _ => hc
  -- a loop has semicolons in its header, so it need not be left on the one behind it
  case h_4 hk => exact absurd hk hloop
  case h_5 hk => exact function_stays hs hk hw fun ht hw => parameterList_stays hs h ht hw
  case h_6 hk =>
    exact returning_stays hk hw fun hw hc => h.expression fits_statement hw fun _ => hc
  case h_7 hk => exact breaking_stays hk hw
  case h_8 =>
    exact h.expression fits_statement hw fun _ => by simpa [Ending.closes] using hw.head.1

end Level

/-- Rules that report something and fail, for `Rules.nest` to begin with: they are `Staying`. -/
def rejecting : Rules where
  statement := reject .eofInExpression
  statements _ := reject .eofInExpression
  expression _ _ := reject .eofInExpression
  operand := reject .eofInExpression
  arguments := do let _ ← advance; reject .eofInExpression
  parameters := do let _ ← advance; reject .eofInExpression

/-- So any number of levels over `rejecting` are `Staying`. -/
theorem nest_staying {s : Token} (hs : s.kind = .semicolon) (depth : Nat) :
    Staying s (rejecting.nest depth) := by
  induction depth with
  | zero =>
    exact {
      operand := fun hw => .reject hw
      expression := fun _ hw _ => .reject hw
      arguments := fun hw => .bind_advance (.reject (hw.lower (Nat.le_succ _)))
      parameters := fun hw => .bind_advance (.reject (hw.lower (Nat.le_succ _))) }
  | succ depth ih => exact level_staying hs ih

/-- However bad a statement is, `orRecover` leaves it on the semicolon behind it. -/
theorem orRecover_statement_goes {s : Token} (hs : s.kind = .semicolon) {w : List Token}
    (hw : ClosesParens 0 w) (hloop : (w.headD s).kind ≠ .kwLoop) (depth : Nat) :
    ∃ o ds, Goes s (orRecover (rejecting.nest (depth + 2)).statement) w (some o) ds [] := by
  have hstaying := nest_staying hs (depth + 1)
  cases w with
  | nil =>
    have hcloses : Ending.statement.closes (List.headD [] s).kind = true := by
      rw [List.headD_nil, hs]
      rfl
    have hexpression : Goes s ((rejecting.nest (depth + 1)).expression .statement none) [] none
        [] [] := by
      refine Goes.current.bind ?_
      rw [if_pos hcloses]
      exact .fail
    have hstatement : Goes s (rejecting.nest (depth + 2)).statement [] none [] [] := by
      refine Goes.current.bind ?_
      simp only [List.headD_nil, hs]
      exact hexpression
    exact ⟨none, [], hstatement.orRecover_of_silent⟩
  | cons t w =>
    exact orRecover_goes hs (statement_stays hs hstaying hw (List.cons_ne_nil t w) hloop)

end Rules

/-! ## Sources -/

open Source

/-- A bad statement never damages its successors. Let `first` end on a semicolon, with tokens in
front of it that have no semicolon, brace or open string among them, do not start a loop, and by
`opens` leave no parenthesis open. Then `Package.parse` gives one tree for it or none, and
whatever source is put behind it, gives for both the trees and the diagnostics of the one and,
on later lines, those of the other. -/
theorem Package.parse_append_of_bad {first : String} {us : List Token} {s : Token}
    (h : EndsOn first us ';' s)
    (hplain : ∀ t ∈ us, t.kind ≠ .semicolon ∧ t.kind ≠ .leftBrace ∧ t.kind ≠ .rightBrace ∧
      t.kind ≠ .unterminatedString)
    (hloop : ∀ t ∈ us.head?, t.kind ≠ .kwLoop) (hcloses : opens 0 us = 0)
    (name second : String) (journal : Journal) :
    let one := (Package.parse name first journal).1
    let two := (Package.parse name second journal).1
    let both := (Package.parse name (first ++ second) journal).1
    one.package.nodes.length ≤ 1 ∧
      both.package.nodes = one.package.nodes ++
        two.package.nodes.map (Node.relined (· + lineFeeds first)) ∧
      both.errors = one.errors ++
        two.errors.map (Diagnostic.relined (· + lineFeeds first)) := by
  have hs : s.kind = .semicolon := h.kind
  -- a rule that is cut off without a word would start
  -- no recovery, so rules that report are put there
  refine parse_append h Cursor.standsAlone_semicolon (fun t ht => (hplain t ht).2.2.2)
    Rules.rejecting ?_ name second journal
  intro depth hdepth
  obtain ⟨depth, rfl⟩ : ∃ k, depth = k + 2 :=
    Nat.exists_eq_add_of_le' (by rw [depthFor] at hdepth; omega)
  have hw : ClosesParens 0 us :=
    ⟨fun t ht => ⟨(hplain t ht).1, (hplain t ht).2.1, (hplain t ht).2.2.1⟩, hcloses⟩
  refine Rules.orRecover_statement_goes hs hw ?_ depth
  cases us with
  | nil => rw [List.headD_nil, hs]; decide
  | cons t us => exact hloop t rfl

/-- A declaration without a name and with an operator too many, on two lines, in front of a lost
brace. -/
theorem Package.parse_append_of_declaration :
    let first := "var (1\n2) * ;"
    let second := "x; \x7d"
    let us : List Token :=
      [⟨.kwVar, 1, "var"⟩, ⟨.leftParen, 1, "("⟩, ⟨.integer, 1, "1"⟩, ⟨.integer, 2, "2"⟩,
      ⟨.rightParen, 2, ")"⟩, ⟨.star, 2, "*"⟩]
    let one := (Package.parse "main" first {}).1
    let two := (Package.parse "main" second {}).1
    let both := (Package.parse "main" (first ++ second) {}).1
    EndsOn first us ';' ⟨.semicolon, 2, ";"⟩ ∧ opens 0 us = 0 ∧
      one.package.nodes.length ≤ 1 ∧
      both.package.nodes = one.package.nodes ++
        two.package.nodes.map (Node.relined (· + lineFeeds first)) ∧
      both.errors = one.errors ++
        two.errors.map (Diagnostic.relined (· + lineFeeds first)) := by
  intro first second us
  have h : EndsOn first us ';' ⟨.semicolon, 2, ";"⟩ :=
    ⟨rfl, by decide +kernel, "var (1\n2) * ".toList, by decide, by decide +kernel⟩
  exact ⟨h, rfl, parse_append_of_bad h (by decide) (by decide) rfl "main" second {}⟩

end ScriptLang
