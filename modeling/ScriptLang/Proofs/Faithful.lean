import ScriptLang.Proofs.Grouping

/-!
# Trees that are read back as themselves

If the spelling of a tree is derived as that very tree, then the tree is canonical. The tree
tells what its derivation looks like inside of all parentheses, and the weight of its parts
tells where they end, so the derivation of a tree from its own spelling falls apart as the
spelling does.

- `Chain`, `Core`: what an expression is derived from inside of its parentheses, by its tree.
- `Grammar.Derives.wraps`: an expression is its core in some parentheses.
- `StatementSpec`: what a statement is derived from, by its first token.
- `Formed.faithful`: whatever is derived from its own spelling is canonical.
-/

namespace ScriptLang

open Grammar Text

/-! ## Expressions in their parentheses -/

/-- The tokens `ts` are an operand with a tail behind it, from which `n` is derived. -/
def Chain (ts : List Token) (n : Node) : Prop :=
  ∃ us vs first, ts = us ++ vs ∧ Derives .operand us [first] ∧ Derives (.tail first) vs [n]

/-- What an expression is derived from inside of its parentheses, for each constructor of
`Node`. -/
def Core : List Token → Node → Prop
  | ts, .string _ s => ∃ t : Token, ts = [t] ∧ t.literal = s
  | ts, .call _ _ args => ∃ (t l r : Token) (us : List Token), ts = t :: l :: us ++ [r] ∧
      (us = [] ∧ args = [] ∨ Derives .arguments us args)
  | ts, .prefixed o n => ∃ us, ts = o :: us ∧ Derives .operand us [n]
  | ts, .infixed o left right => ∃ us vs, ts = us ++ o :: vs ∧ Chain us left ∧
      Derives .operand vs [right]
  | ts, .assign _ target value => ∃ (us vs : List Token) (e : Token), ts = us ++ e :: vs ∧
      Target us target ∧ Derives .expression vs [value]
  | _, _ => True

/-- The tokens `ts` are the `Core` of `n`, in any number of parentheses. -/
def Wraps (ts : List Token) (n : Node) : Prop :=
  ∃ ls core rs, ts = ls ++ core ++ rs ∧ (∀ t ∈ ls, t.kind = .leftParen) ∧
    (∀ t ∈ rs, t.kind = .rightParen) ∧ ls.length = rs.length ∧ Core core n

/-- A `Core` in no parentheses. -/
theorem Wraps.of_core {ts : List Token} {n : Node} (h : Core ts n) : Wraps ts n :=
  ⟨[], ts, [], by simp, nofun, nofun, rfl, h⟩

namespace Grammar

section Inversion

variable {ts us vs : List Token} {ns : List Node} {n left : Node}

/-- A tail that `Derives` is empty, or ends on an operator and an operand. -/
theorem Derives.tail_inv (h : Derives (.tail left) ts [n]) :
    ts = [] ∧ n = left ∨ ∃ us o vs l r, n = .infixed o l r ∧ ts = us ++ o :: vs ∧
      Derives (.tail left) us [l] ∧ Derives .operand vs [r] := by
  generalize hform : Form.tail left = form at h
  generalize hns : [n] = ns at h
  induction h generalizing left n with
  | noTail =>
    cases hform
    cases hns
    exact .inl ⟨rfl, rfl⟩
  | @infixed o ts us first right m ho hts hus _ ih =>
    cases hform
    cases hns
    refine .inr ?_
    obtain ⟨rfl, rfl⟩ | ⟨us', o', vs', l, r, rfl, rfl, hl, hr⟩ := ih rfl rfl
    · exact ⟨[], o, ts, first, right, rfl, by simp, .noTail, hts⟩
    · exact ⟨o :: ts ++ us', o', vs', l, r, rfl, by simp, .infixed ho hts hl, hr⟩
  | _ => cases hform

/-- An operand or an expression that is derived is a `Core` in some parentheses. -/
theorem Derives.wraps {form : Form} (h : Derives form ts ns)
    (hform : form = .operand ∨ form = .expression) (hns : ns = [n]) : Wraps ts n := by
  induction h generalizing n with
  | integer | kwTrue | kwFalse | name =>
    cases hns
    exact .of_core trivial
  | @string t =>
    cases hns
    exact .of_core ⟨t, rfl, rfl⟩
  | @emptyCall t l r =>
    cases hns
    exact .of_core ⟨t, l, r, [], rfl, .inl ⟨rfl, rfl⟩⟩
  | @call t l r ts args _ _ hargs =>
    cases hns
    exact .of_core ⟨t, l, r, ts, rfl, .inr hargs⟩
  | @group l r ts m hl _ hr ih =>
    -- one pair of parentheses more around those of the expression
    obtain ⟨ls, core, rs, rfl, hls, hrs, hlen, hcore⟩ := ih (.inr rfl) hns
    refine ⟨l :: ls, core, rs ++ [r], by simp, ?_, ?_, by simp [hlen], hcore⟩
    · simpa [hl] using hls
    · rintro t ht
      rcases List.mem_append.mp ht with ht | ht
      · exact hrs t ht
      · rw [List.mem_singleton.mp ht, hr]
  | @prefixed o ts m _ hts =>
    cases hns
    exact .of_core ⟨ts, rfl, hts⟩
  | @assign e ts us target value ht _ hus =>
    cases hns
    exact .of_core ⟨ts, us, e, rfl, ht, hus⟩
  | @chain ts us first m hts hus ih =>
    cases hns
    -- without an operator the chain is its operand; otherwise the last operator splits the core
    obtain ⟨rfl, rfl⟩ | ⟨us', o, vs, l, r, rfl, rfl, hl, hr⟩ := hus.tail_inv
    · rw [List.append_nil]
      exact ih (.inl rfl) rfl
    · exact .of_core ⟨ts ++ us', vs, by simp, ⟨ts, us', first, rfl, hts, hl⟩, hr⟩
  | _ => simp at hform

/-- An operand that begins with an identifier is a name alone, or a call. -/
theorem Derives.operand_of_name {t : Token} (h : Derives .operand us ns)
    (hus : us ++ vs = t :: ts) (ht : t.kind = .ident) :
    us = [t] ∨ ∃ l us', us = t :: l :: us' ∧ l.kind = .leftParen := by
  generalize hform : Form.operand = form at h
  cases h with
  | integer hk | string hk | kwTrue hk | kwFalse hk | name hk =>
    obtain ⟨rfl, -⟩ := List.cons.inj hus
    exact .inl rfl
  | @emptyCall x l r _ hl =>
    obtain ⟨rfl, -⟩ := List.cons.inj hus
    exact .inr ⟨l, [r], rfl, hl⟩
  | @call x l r ts args _ hl =>
    obtain ⟨rfl, -⟩ := List.cons.inj hus
    exact .inr ⟨l, ts ++ [r], rfl, hl⟩
  | group hl =>
    obtain ⟨rfl, -⟩ := List.cons.inj hus
    rw [ht] at hl
    cases hl
  | prefixed ho =>
    obtain ⟨rfl, -⟩ := List.cons.inj hus
    rw [ht] at ho
    cases ho
  | _ => cases hform

/-- A name and an equals sign begin no operand. -/
theorem not_operand_of_equal {t e : Token} (ht : t.kind = .ident) (he : e.kind = .equal) :
    ¬Derives .operand (t :: e :: ts) ns := by
  intro h
  obtain hus | ⟨l, us', hus, hl⟩ := h.operand_of_name (List.append_nil (t :: e :: ts)) ht
  · simp at hus
  · obtain ⟨rfl, -⟩ := List.cons.inj (List.cons.inj hus).2
    rw [he] at hl
    cases hl

/-- A name and an equals sign begin no `Chain`. -/
theorem not_chain_of_equal {t e : Token} (ht : t.kind = .ident) (he : e.kind = .equal) :
    ¬Chain (t :: e :: ts) n := by
  rintro ⟨us, vs, first, hts, hus, hvs⟩
  obtain rfl | ⟨l, us', rfl, hl⟩ := hus.operand_of_name hts.symm ht
  · obtain rfl := (List.cons.inj hts).2
    obtain ⟨hnil, -⟩ | ⟨o, os, ho, hinfix⟩ := hvs.opening
    · cases hnil
    · obtain ⟨rfl, -⟩ := List.cons.inj ho
      rw [Form.opensWith, he] at hinfix
      cases hinfix
  · obtain ⟨rfl, -⟩ := List.cons.inj (List.cons.inj hts).2
    rw [he] at hl
    cases hl

end Inversion
end Grammar

/-! ## Expressions that are derived from their own spelling -/

section Expressions

variable {d : Nat} {ts : List Token} {n left right : Node} {o : Token}

theorem Chain.expression (h : Chain ts n) : Derives .expression ts [n] := by
  obtain ⟨us, vs, first, rfl, hus, hvs⟩ := h
  exact .chain hus hvs

/-- The tokens of an expression have the `weight` of the spelling of its tree. -/
theorem weight_of_expression (h : Derives .expression ts [n.bare]) (d : Nat) :
    weight ts = weight (n.spell d) := by
  have hw := h.weighs d
  simpa [Weighs] using hw

/-- What begins with no parenthesis is a `Core` in none. -/
theorem Wraps.core (h : Wraps ts n) (hts : ∀ t ∈ ts.head?, t.kind ≠ .leftParen) :
    Core ts n := by
  obtain ⟨ls, core, rs, rfl, hls, -, hlen, hcore⟩ := h
  cases ls with
  | nil =>
    obtain rfl := List.length_eq_zero_iff.mp hlen.symm
    rwa [List.nil_append, List.append_nil]
  | cons l ls => exact absurd (hls l List.mem_cons_self) (hts l rfl)

theorem weight_of_leftParen {ls : List Token} (h : ∀ t ∈ ls, t.kind = .leftParen) :
    weight ls = 0 := by
  rw [weight, List.countP_eq_zero]
  rintro t ht
  simp [Token.isParen, h t ht]

theorem nest_of_leftParen {ls : List Token} (h : ∀ t ∈ ls, t.kind = .leftParen) (k : Nat) :
    nest k ls = some (k + ls.length) := by
  induction ls generalizing k with
  | nil => rfl
  | cons l ls ih =>
    rw [nest_leftParen (h l List.mem_cons_self), ih fun t ht => h t (List.mem_cons_of_mem _ ht),
      List.length_cons, Nat.add_right_comm, Nat.add_assoc]

/-- If an infix node is derived from its own `Node.spell`, then its left side is a `Chain` and
its right side an operand. -/
theorem infixed_inv (ho : o.kind.isInfix) (hleft : Balanced (left.spell d))
    (h : Derives .expression ((Node.infixed o left right).spell d)
      [(Node.infixed o left right).bare]) :
    Chain (left.spell d) left.bare ∧ Derives .operand (right.spell d) [right.bare] := by
  rw [Node.bare_infixed] at h
  obtain ⟨ls, core, rs, hts, hls, -, hlen, us, vs, rfl, hus, hvs⟩ := h.wraps (.inr rfl) rfl
  have hparen : o.bare.isParen = false := isParen_of_isInfix ho
  -- the operator is found behind the same weight on either side
  have hw : weight (ls ++ us) = weight (.ofKind .leftParen 0 :: left.spell d) := by
    rw [weight_append, weight_of_leftParen hls, weight_of_expression hus.expression d,
      Nat.zero_add, weight_cons_of_paren rfl]
  have hts' : .ofKind .leftParen 0 :: left.spell d ++ o.bare :: (right.spell d ++
      [.ofKind .rightParen 0]) = (ls ++ us) ++ o.bare :: (vs ++ rs) := by
    simpa using hts
  obtain ⟨hl, -, hr⟩ := eq_of_weight hts' hw.symm hparen hparen
  -- and as many groups are open in front of it
  have hnest := congrArg (nest 0) hl
  have hbalanced : Balanced us := hus.expression.closes
  rw [nest_leftParen rfl, hleft, nest_append, nest_of_leftParen hls, Option.bind_some,
    hbalanced, Nat.zero_add, Nat.zero_add, Option.some_inj] at hnest
  obtain ⟨l, rfl⟩ := List.length_eq_one_iff.mp hnest.symm
  obtain ⟨hr, -⟩ := List.append_inj' hr (by rw [← hlen, ← hnest, List.length_singleton])
  rw [(List.cons.inj hl).2, hr]
  exact ⟨hus, hvs⟩

/-- If the spelling of a prefix node is derived as the node, then its operand is derived from
its own spelling. The next lemmas say so of the other nodes, by `Wraps` and the balance of their
spellings. -/
theorem prefixed_inv (ho : o.kind.isPrefix)
    (h : Derives .expression ((Node.prefixed o n).spell d) [(Node.prefixed o n).bare]) :
    Derives .operand (n.spell d) [n.bare] := by
  rw [Node.bare_prefixed] at h
  obtain ⟨ls, core, rs, hts, hls, -, hlen, us, rfl, hus⟩ := h.wraps (.inr rfl) rfl
  have hparen : o.bare.isParen = false := isParen_of_isPrefix ho
  have hts' : [.ofKind .leftParen 0] ++ o.bare :: (n.spell d ++ [.ofKind .rightParen 0]) =
      ls ++ o.bare :: (us ++ rs) := by
    simpa using hts
  have hw : weight [.ofKind .leftParen 0] = weight ls := (weight_of_leftParen hls).symm
  obtain ⟨rfl, -, hr⟩ := eq_of_weight hts' hw hparen hparen
  obtain ⟨hr, -⟩ := List.append_inj' hr hlen
  rwa [hr]

theorem assign_inv {line l : Nat} {x : String}
    (h : Derives .expression ((Node.assign line (.ident l x) n).spell d)
      [(Node.assign line (.ident l x) n).bare]) :
    Derives .expression (n.spell d) [n.bare] := by
  rw [Node.bare_assign, Node.bare_ident] at h
  obtain ⟨us, vs, e, hts, htarget, hvs⟩ := (h.wraps (.inr rfl) rfl).core (by simp)
  generalize Node.ident 0 x = target at htarget
  cases htarget with
  | name =>
    obtain rfl := (List.cons.inj (List.cons.inj hts).2).2
    exact hvs
  | group hl =>
    obtain ⟨rfl, -⟩ := List.cons.inj hts
    cases hl

/-- A string that is derived from its spelling has lost nothing to `sink`. -/
theorem string_inv {line : Nat} {s : String}
    (h : Derives .expression ((Node.string line s).spell d) [(Node.string line s).bare]) :
    sink d s.toList = s.toList := by
  obtain ⟨t, hts, ht⟩ := (h.wraps (.inr rfl) rfl).core (by simp)
  obtain rfl := List.singleton_inj.mp hts
  have hs := congrArg String.toList ht
  rwa [String.toList_ofList] at hs

theorem call_inv {line l : Nat} {x : String} {args : List Node}
    (h : Derives .expression ((Node.call line (.ident l x) args).spell d)
      [(Node.call line (.ident l x) args).bare]) :
    args = [] ∨
      Derives .arguments ([Token.ofKind .comma 0].intercalate (args.map (Node.spell d)))
        (args.map Node.bare) := by
  rw [Node.bare_call, Node.spell_call, spellAll_eq_map] at h
  obtain ⟨t, l, r, us, hts, hargs⟩ := (h.wraps (.inr rfl) rfl).core (by simp)
  obtain ⟨-, hargs⟩ | hargs := hargs
  · exact .inl (List.map_eq_nil_iff.mp hargs)
  · have hts := (List.cons.inj (List.cons.inj hts).2).2
    obtain ⟨rfl, -⟩ := List.append_inj' hts rfl
    exact .inr hargs

/-- If arguments are derived from their own `Node.spell`, with commas in between, then each of
them is. -/
theorem arguments_inv {args : List Node}
    (h : Derives .arguments ([Token.ofKind .comma 0].intercalate (args.map (Node.spell d)))
      (args.map Node.bare)) : ∀ n ∈ args, Derives .expression (n.spell d) [n.bare] := by
  induction args with
  | nil => rintro n ⟨⟩
  | cons a as ih =>
    generalize hts :
      [Token.ofKind .comma 0].intercalate ((a :: as).map (Node.spell d)) = ts at h
    generalize hns : (a :: as).map Node.bare = ns at h
    generalize hform : Form.arguments = form at h
    cases h with
    | lastArgument h =>
      obtain ⟨ha, has⟩ := List.cons.inj hns
      obtain rfl := List.map_eq_nil_iff.mp has
      rw [List.map_singleton, List.intercalate_singleton] at hts
      rintro n hn
      rw [List.mem_singleton.mp hn, ha, hts]
      exact h
    | @moreArguments c ts us m ms h hc hms =>
      obtain ⟨rfl, rfl⟩ := List.cons.inj hns
      have hw := weight_of_expression h d
      have hcomma := isParen_of_kind hc
      cases as with
      | nil =>
        -- a comma is too much for a single argument
        rw [List.map_singleton, List.intercalate_singleton] at hts
        rw [hts, weight_append, weight_cons hcomma] at hw
        omega
      | cons b bs =>
        rw [List.map_cons, List.map_cons, List.intercalate_cons_cons, List.append_assoc] at hts
        obtain ⟨rfl, -, rfl⟩ := eq_of_weight hts hw.symm rfl hcomma
        rintro n hn
        rcases List.mem_cons.mp hn with rfl | hn
        · exact h
        · exact ih hms n hn
    | _ => cases hform

end Expressions

/-! ## Statements by their first token -/

/-- What the rest `ts` of a statement looks like and which nodes it gives, by the kind of its
first token `t`. -/
def StatementSpec (t : Token) (ts : List Token) (ns : List Node) : Prop :=
  match t.kind with
  | .semicolon => ts = [] ∧ ns = []
  | .kwVar => ∃ (x : Token) (us vs : List Token), ts = x :: us ∧
      ((∃ s n, us = vs ++ [s] ∧ Derives (.tail (.declare t ⟨x.line, x.literal⟩)) vs [n] ∧
        s.kind = .semicolon ∧ ns = [n]) ∨
      ∃ e s value, us = e :: vs ++ [s] ∧ e.kind = .equal ∧ Derives .expression vs [value] ∧
        s.kind = .semicolon ∧ ns = [.assign e.line (.declare t ⟨x.line, x.literal⟩) value])
  | .leftBrace => ∃ b, Derives .block (t :: ts) [.block b] ∧ ns = [.block b]
  | .kwIf => ∃ (l r : Token) (us vs : List Token) (test : Node) (b : Block),
      Derives .expression us [test] ∧ r.kind = .rightParen ∧ Derives .block vs [.block b] ∧
      (ts = l :: us ++ r :: vs ∧ ns = [.conditional t.line test b none] ∨
      ∃ e ws c, Derives .block ws [.block c] ∧ ts = l :: us ++ r :: vs ++ e :: ws ∧
        ns = [.conditional t.line test b (some c)])
  | .kwLoop => (∃ b, Derives .block ts [.block b] ∧
        ns = [.loop t.line none (.boolean t.line true) none b]) ∨
      ∃ (l s r : Token) (is us vs : List Token) (init test : Node) (b : Block),
        Derives .statement is [init] ∧ Derives .expression us [test] ∧ s.kind = .semicolon ∧
        r.kind = .rightParen ∧ Derives .block vs [.block b] ∧
        (ts = l :: is ++ us ++ s :: r :: vs ∧ ns = [.loop t.line (some init) test none b] ∨
        ∃ ps step, Derives .expression ps [step] ∧ ts = l :: is ++ us ++ s :: ps ++ r :: vs ∧
          ns = [.loop t.line (some init) test (some step) b])
  | .kwFun => ∃ (x l r : Token) (ps us : List Token) (params : List Binder) (b : Block),
      Parameters ps params ∧ r.kind = .rightParen ∧ Derives .block us [.block b] ∧
      ts = x :: l :: ps ++ r :: us ∧ ns = [.function t.line ⟨x.line, x.literal⟩ params b]
  | .kwReturn => ∃ (us : List Token) (s : Token) (value : Node), ts = us ++ [s] ∧
      Derives .expression us [value] ∧ s.kind = .semicolon ∧ ns = [.returning t.line value]
  | .kwBreak => ∃ s : Token, ts = [s] ∧ ns = [.breaking t.line]
  | _ => ∃ (us : List Token) (s : Token) (n : Node), t :: ts = us ++ [s] ∧
      Derives .expression us [n] ∧ s.kind = .semicolon ∧ ns = [n]

section Spec

variable {t : Token} {ts us vs : List Token} {ns : List Node}

/-- A statement that is derived is as `StatementSpec` says. -/
theorem Grammar.Derives.statement_spec (h : Derives .statement (t :: ts) ns) :
    StatementSpec t ts ns := by
  generalize hform : Form.statement = form at h
  generalize hts : t :: ts = us at h
  -- but for expressions, the first token tells which rule it is
  cases h with
  | empty hk =>
    obtain ⟨rfl, rfl⟩ := List.cons.inj hts
    rw [StatementSpec, hk]
    exact ⟨rfl, rfl⟩
  | @declaration v x s us n hk _ hus hs =>
    obtain ⟨rfl, rfl⟩ := List.cons.inj hts
    rw [StatementSpec, hk]
    exact ⟨x, us ++ [s], us, rfl, .inl ⟨s, n, rfl, hus, hs, rfl⟩⟩
  | @initialized v x e s us value hk _ he hus hs =>
    obtain ⟨rfl, rfl⟩ := List.cons.inj hts
    rw [StatementSpec, hk]
    exact ⟨x, e :: us ++ [s], us, rfl, .inr ⟨e, s, value, rfl, he, hus, hs, rfl⟩⟩
  | @blockStatement us n hblock =>
    generalize hform' : Form.block = form' at hblock
    generalize hns : [n] = ns at hblock
    cases hblock with
    | block hk hms hr =>
      obtain ⟨rfl, rfl⟩ := List.cons.inj hts
      cases hns
      rw [StatementSpec, hk]
      exact ⟨_, .block hk hms hr, rfl⟩
    | _ => cases hform'
  | @conditional i l r us vs test b hk _ htest hr hb =>
    obtain ⟨rfl, rfl⟩ := List.cons.inj hts
    rw [StatementSpec, hk]
    exact ⟨l, r, us, vs, test, b, htest, hr, hb, .inl ⟨rfl, rfl⟩⟩
  | @conditionalElse i l r e us vs ws test b c hk _ htest hr hb _ hc =>
    obtain ⟨rfl, rfl⟩ := List.cons.inj hts
    rw [StatementSpec, hk]
    exact ⟨l, r, us, vs, test, b, htest, hr, hb, .inr ⟨e, ws, c, hc, rfl, rfl⟩⟩
  | @bareLoop k us b hk hb =>
    obtain ⟨rfl, rfl⟩ := List.cons.inj hts
    rw [StatementSpec, hk]
    exact .inl ⟨b, hb, rfl⟩
  | @loop k l s r is us vs init test b hk _ hi _ ht _ hs hr hb =>
    obtain ⟨rfl, rfl⟩ := List.cons.inj hts
    rw [StatementSpec, hk]
    exact .inr ⟨l, s, r, is, us, vs, init, test, b, hi, ht, hs, hr, hb, .inl ⟨by simp, rfl⟩⟩
  | @loopStep k l s r is us ps vs init test step b hk _ hi _ ht _ hs hp hr hb =>
    obtain ⟨rfl, rfl⟩ := List.cons.inj hts
    rw [StatementSpec, hk]
    exact .inr ⟨l, s, r, is, us, vs, init, test, b, hi, ht, hs, hr, hb,
      .inr ⟨ps, step, hp, by simp, rfl⟩⟩
  | @function k x l r ps us params b hk _ _ hps hr hb =>
    obtain ⟨rfl, rfl⟩ := List.cons.inj hts
    rw [StatementSpec, hk]
    exact ⟨x, l, r, ps, us, params, b, hps, hr, hb, rfl, rfl⟩
  | @returning k s us value hk hv hs =>
    obtain ⟨rfl, rfl⟩ := List.cons.inj hts
    rw [StatementSpec, hk]
    exact ⟨us, s, value, rfl, hv, hs, rfl⟩
  | @breaking k s hk =>
    obtain ⟨rfl, rfl⟩ := List.cons.inj hts
    rw [StatementSpec, hk]
    exact ⟨s, rfl, rfl⟩
  | @expressionStatement s us n hn hs =>
    obtain ⟨-, ⟨⟩⟩ | ⟨x, xs, rfl, hx⟩ := hn.opening
    obtain ⟨rfl, htail⟩ := List.cons.inj hts
    have hspec : ∃ (us : List Token) (s : Token) (m : Node), t :: ts = us ++ [s] ∧
        Derives .expression us [m] ∧ s.kind = .semicolon ∧ [n] = [m] :=
      ⟨t :: xs, s, n, by rw [htail]; rfl, hn, hs, rfl⟩
    have hx : opensOperand t.kind := hx
    rw [StatementSpec]
    -- none of the tokens that begin another statement opens an operand
    split <;> first | exact hspec | (rename_i hk; rw [hk] at hx; cases hx)
  | _ => cases hform

/-- A statement whose first token `opensOperand` is an expression and a semicolon. -/
theorem StatementSpec.expression (h : StatementSpec t ts ns) (ht : opensOperand t.kind) :
    ∃ (us : List Token) (s : Token) (n : Node),
      t :: ts = us ++ [s] ∧ Derives .expression us [n] ∧ s.kind = .semicolon ∧ ns = [n] := by
  rw [StatementSpec] at h
  split at h <;> first | exact h | (rename_i hk; rw [hk] at ht; cases ht)

/-- The `StatementSpec` of a statement in front of other tokens, by the first of them all. -/
theorem Grammar.Derives.spec_of_append (h : Derives .statement ts ns)
    (hts : ts ++ us = t :: vs) :
    ∃ ws, ts = t :: ws ∧ ws ++ us = vs ∧ StatementSpec t ws ns := by
  obtain ⟨-, ⟨⟩⟩ | ⟨x, xs, rfl, -⟩ := h.opening
  obtain ⟨rfl, rfl⟩ := List.cons.inj hts
  exact ⟨xs, rfl, rfl, h.statement_spec⟩

end Spec

/-! ## Statements that are derived from their own spelling -/

/-- If a tree is derived from its own `Node.spell`, then it is canonical, at each `Place`. A
declaration with operators behind it is no expression. Statements are found in front of a
semicolon, which is a statement of its own if it is not their end. -/
def Faithful (d : Nat) : Place → Node → Prop
  | .operand, n => Derives .expression (n.spell d) [n.bare] → Formed .canonical d .operand n
  | .assigned, n => Derives .expression (n.spell d) [n.bare] → Formed .canonical d .assigned n
  | .value, n => Derives .expression (n.spell d) [n.bare] → Formed .canonical d .value n
  | .declared, n => ¬Derives .expression (n.spell d) [n.bare] ∧
      ∀ ts us vs, Derives .statement ts [n.bare] →
        ts ++ us = n.spell d ++ .ofKind .semicolon 0 :: vs →
        Formed .canonical d .declared n ∧ us = vs
  | .init, n => ∀ ts us vs, Derives .statement ts [n.bare] →
      ts ++ us = n.spell d ++ .ofKind .semicolon 0 :: vs → Formed .canonical d .init n ∧ us = vs
  | .statement, n => ∀ ts us vs, Derives .statement ts [n.bare] →
      ts ++ us = n.spell d ++ .ofKind .semicolon 0 :: vs →
      Formed .canonical d .statement n ∧ (us = vs ∨ us = .ofKind .semicolon 0 :: vs)

section Faithful

variable {d : Nat} {ts us vs : List Token} {n : Node} {ns : List Node} {b : Block}

/-- An expression ends where the spelling of its tree ends, if no parenthesis opens behind
either. -/
theorem expression_align (hn : Balanced (n.spell d)) (h : Derives .expression ts [n.bare])
    (hts : ts ++ us = n.spell d ++ vs) (hu : ∀ t ∈ us.head?, t.kind ≠ .leftParen)
    (hv : ∀ t ∈ vs.head?, t.kind ≠ .leftParen) : ts = n.spell d ∧ us = vs :=
  Balanced.align h.closes hn hts (weight_of_expression h d) hu hv

/-- A statement whose `Node.headKind` `opensOperand` is derived from its own spelling as an
expression. -/
theorem expression_of_statement (hn : Balanced (n.spell d)) (hp : Formed .parsed d .statement n)
    (hk : opensOperand n.headKind) (h : Derives .statement ts [n.bare])
    (hts : ts ++ us = n.spell d ++ .ofKind .semicolon 0 :: vs) :
    Derives .expression (n.spell d) [n.bare] ∧ us = vs := by
  obtain ⟨t, xs, hspell, ht⟩ := hp.spell_head
  rw [hspell, List.cons_append] at hts
  obtain ⟨ws, rfl, hws, hspec⟩ := h.spec_of_append hts
  obtain ⟨es, s, m, hes, hm, hs, hnm⟩ := hspec.expression (by rwa [ht])
  obtain rfl := List.singleton_inj.mp hnm
  rw [← List.cons_append, ← hspell, hes, List.append_assoc] at hts
  obtain ⟨rfl, hus⟩ := expression_align hn hm hts (by simp [hs]) (by simp)
  exact ⟨hm, (List.cons.inj hus).2⟩

/-- A statement that does not begin with a semicolon gives exactly one node. -/
theorem nodes_of_head {t : Token} (h : Derives .statement ts ns) (hts : ts ++ us = t :: vs)
    (ht : t.kind ≠ .semicolon) : ∃ n, ns = [n] := by
  generalize hform : Form.statement = form at h
  cases h with
  | empty hs =>
    obtain ⟨rfl, -⟩ := List.cons.inj hts
    exact absurd hs ht
  | _ => first | exact ⟨_, rfl⟩ | cases hform

/-- Tokens derived as `statements` are none, or a statement and more `statements`. -/
theorem statements_inv (h : Derives .statements ts ns) : ts = [] ∧ ns = [] ∨
    ∃ xs ys ks ms, ts = xs ++ ys ∧ ns = ks ++ ms ∧ Derives .statement xs ks ∧
      Derives .statements ys ms := by
  generalize hform : Form.statements = form at h
  cases h with
  | noStatements => exact .inl ⟨rfl, rfl⟩
  | statements h h' => exact .inr ⟨_, _, _, _, rfl, rfl, h, h'⟩
  | _ => cases hform

/-- A semicolon in front of `statements` is an empty statement, and may be left out. -/
theorem statements_of_semicolon {t : Token} (ht : t.kind = .semicolon)
    (h : Derives .statements (t :: ts) ns) : Derives .statements ts ns := by
  obtain ⟨⟨⟩, -⟩ | ⟨xs, ys, ks, ms, hts, rfl, hxs, hys⟩ := statements_inv h
  obtain ⟨ws, rfl, rfl, hspec⟩ := hxs.spec_of_append hts.symm
  rw [StatementSpec, ht] at hspec
  obtain ⟨rfl, rfl⟩ := hspec
  exact hys

/-- Statements that are derived from `spellStatements` are canonical, if each of them is
`Faithful`. -/
theorem statements_faithful (hp : ∀ n ∈ ns, Formed .parsed d .statement n)
    (ih : ∀ n ∈ ns, Faithful d .statement n) (h : Derives .statements ts (ns.map Node.bare))
    (hts : ts ++ us = spellStatements d ns ++ vs) (hu : ∀ t ∈ us.head?, t.kind ≠ .semicolon)
    (hv : ∀ t ∈ vs.head?, t.kind ≠ .semicolon) :
    (∀ n ∈ ns, Formed .canonical d .statement n) ∧ us = vs := by
  induction ns generalizing ts with
  | nil =>
    obtain ⟨rfl, -⟩ | ⟨xs, ys, ks, ms, rfl, hns, hxs, -⟩ := statements_inv h
    · exact ⟨nofun, hts⟩
    · -- there is a tree for whatever is no semicolon
      obtain ⟨-, ⟨⟩⟩ | ⟨t, xs, rfl, -⟩ := hxs.opening
      have hvs : t :: (xs ++ ys ++ us) = vs := hts
      obtain ⟨n, rfl⟩ := nodes_of_head hxs (List.append_nil (t :: xs))
        (hv t (by rw [← hvs]; rfl))
      cases hns
  | cons n ns ihns =>
    have hn := hp n List.mem_cons_self
    obtain ⟨rfl, ⟨⟩⟩ | ⟨xs, ys, ks, ms, rfl, hns, hxs, hys⟩ := statements_inv h
    rw [spellStatements, List.append_assoc, List.append_assoc, List.cons_append] at hts
    obtain ⟨t, zs, hspell, ht⟩ := hn.spell_head
    obtain ⟨m, rfl⟩ := nodes_of_head (t := t) hxs (by rw [hts, hspell]; rfl)
      (by rw [ht]; exact n.headKind_ne_semicolon)
    obtain ⟨rfl, rfl⟩ := List.cons.inj hns
    obtain ⟨hcanonical, hrest⟩ := ih n List.mem_cons_self _ _ _ hxs hts
    have hall {ys : List Token} (hys : Derives .statements ys (ns.map Node.bare))
        (hrest : ys ++ us = spellStatements d ns ++ vs) :
        (∀ m ∈ n :: ns, Formed .canonical d .statement m) ∧ us = vs := by
      obtain ⟨hns, hus⟩ := ihns (fun m hm => hp m (List.mem_cons_of_mem _ hm))
        (fun m hm => ih m (List.mem_cons_of_mem _ hm)) hys hrest
      refine ⟨fun m hm => ?_, hus⟩
      rcases List.mem_cons.mp hm with rfl | hm
      · exact hcanonical
      · exact hns m hm
    obtain hrest | hrest := hrest
    · exact hall hys hrest
    · -- the semicolon behind a compound statement is an empty one
      cases ys with
      | nil =>
        rw [List.nil_append] at hrest
        subst hrest
        exact absurd rfl (hu _ rfl)
      | cons y ys =>
        obtain ⟨rfl, htail⟩ := List.cons.inj hrest
        exact hall (statements_of_semicolon rfl hys) htail

/-- The statements of a block that is derived from `Block.spell` are canonical, if each of them
is `Faithful`. -/
theorem block_faithful (hp : ∀ n ∈ b.nodes, Formed .parsed (d + 1) .statement n)
    (ih : ∀ n ∈ b.nodes, Faithful (d + 1) .statement n) (h : Derives .block ts [.block b.bare])
    (hts : ts ++ us = b.spell d ++ vs) :
    (∀ n ∈ b.nodes, Formed .canonical (d + 1) .statement n) ∧ us = vs := by
  generalize hform : Form.block = form at h
  generalize hns : [Node.block b.bare] = ns at h
  cases h with
  | @block l r ts ns _ hts' hr =>
    have hnodes : ns = b.nodes.map Node.bare := by
      have hblock : b.bare.nodes = ns := congrArg Block.nodes
        (Node.block.inj (List.singleton_inj.mp hns))
      rw [← hblock, Block.bare, Block.nodes_relined]
      rfl
    rw [Block.spell_cons, List.cons_append, List.cons_append, List.cons_append,
      List.append_assoc, List.append_assoc] at hts
    obtain ⟨hall, hus⟩ := statements_faithful hp ih (hnodes ▸ hts') (List.cons.inj hts).2
      (by simp [hr]) (by simp)
    exact ⟨hall, (List.cons.inj hus).2⟩
  | _ => cases hform

/-- A call is `Faithful`, if each of its arguments is. -/
theorem call_faithful {d line l : Nat} {x : String} {args : List Node} (hx : isName x.toList)
    (ih : ∀ n ∈ args, Faithful d .value n) :
    Faithful d .operand (.call line (.ident l x) args) := by
  intro h
  obtain rfl | hargs := call_inv h
  · exact .call hx nofun
  · exact .call hx fun n hn => ih n hn (arguments_inv hargs n hn)

theorem prefixed_faithful {o : Token} {p : Place} (ho : o.kind.isPrefix) (hl : o.Lexed)
    (hp : Rigor.parsed.Allows p) (hn : Formed .parsed d p n) (ih : Faithful d p n) :
    Faithful d .operand (.prefixed o n) := by
  intro h
  have hoperand := prefixed_inv ho h
  obtain rfl | ⟨rfl, -⟩ := hp
  · exact .prefixed ho hl (.inl rfl) (ih hoperand.lone)
  · cases hn
    exact absurd hoperand (not_operand_of_equal rfl rfl)

/-- An infix node is `Faithful`: an assignment on either side would not have been derived as
one. -/
theorem infixed_faithful {o : Token} {left right : Node} {p q : Place} (ho : o.kind.isInfix)
    (hl : o.Lexed) (hp : Rigor.parsed.Allows p) (hleft : Formed .parsed d p left)
    (ihl : Faithful d p left) (hq : Rigor.parsed.Allows q) (hright : Formed .parsed d q right)
    (ihr : Faithful d q right) : Faithful d .operand (.infixed o left right) := by
  intro h
  obtain ⟨hchain, hoperand⟩ := infixed_inv ho
    (hleft.balanced (hp.imp_right fun hp => .inl hp.1)) h
  obtain rfl | ⟨rfl, -⟩ := hp
  · obtain rfl | ⟨rfl, -⟩ := hq
    · exact .infixed ho hl (.inl rfl) (ihl hchain.expression) (.inl rfl) (ihr hoperand.lone)
    · cases hright
      exact absurd hoperand (not_operand_of_equal rfl rfl)
  · -- what stands behind an equals sign is all of it assigned
    cases hleft
    exact absurd hchain (not_chain_of_equal rfl rfl)

/-- A declaration is `Faithful`: it is no expression, and as a statement it ends on the
semicolon. -/
theorem declare_faithful {v : Token} {x : Binder} (hv : v.kind = .kwVar) (hl : v.Lexed)
    (hx : isName x.name.toList) : Faithful d .declared (.declare v x) := by
  have hn := Formed.declare (r := .canonical) (d := d) hv hl hx
  refine ⟨fun h => ?_, fun ts us vs h hts => ⟨hn, ?_⟩⟩
  · obtain ⟨-, ⟨⟩⟩ | ⟨t, xs, hxs, ht⟩ := h.opening
    obtain ⟨rfl, -⟩ := List.cons.inj hxs
    have ht : opensOperand v.kind := ht
    rw [hv] at ht
    cases ht
  · obtain ⟨ws, rfl, hws, hspec⟩ := h.spec_of_append hts
    have hk : v.bare.kind = .kwVar := hv
    rw [StatementSpec, hk] at hspec
    obtain ⟨y, es, cs, rfl, ⟨s, m, rfl, hm, -, -⟩ | ⟨e, s, value, rfl, he, -⟩⟩ := hspec
    · obtain ⟨-, hws⟩ := List.cons.inj hws
      obtain ⟨rfl, -⟩ | ⟨o, os, rfl, ho⟩ := hm.opening
      · exact (List.cons.inj hws).2
      · obtain ⟨rfl, -⟩ := List.cons.inj hws
        cases ho
    · obtain ⟨rfl, -⟩ := List.cons.inj (List.cons.inj hws).2
      cases he

/-- A declaration with a value is `Faithful`: it is one statement, up to the semicolon behind
the value. -/
theorem initialized_faithful {v : Token} {x : Binder} {line : Nat} (hv : v.kind = .kwVar)
    (hl : v.Lexed) (hx : isName x.name.toList) (hn : Formed .parsed d .value n)
    (ih : Faithful d .value n) : Faithful d .init (.assign line (.declare v x) n) := by
  intro ts us vs h hts
  obtain ⟨ws, rfl, hws, hspec⟩ := h.spec_of_append hts
  have hk : v.bare.kind = .kwVar := hv
  rw [StatementSpec, hk] at hspec
  obtain ⟨y, es, cs, rfl, ⟨s, m, rfl, hm, hs, -⟩ | ⟨e, s, value, rfl, he, hvalue, hs, hnode⟩⟩ :=
    hspec
  · obtain ⟨-, hws⟩ := List.cons.inj hws
    obtain ⟨rfl, -⟩ | ⟨o, os, rfl, ho⟩ := hm.opening
    · obtain ⟨rfl, -⟩ := List.cons.inj hws
      cases hs
    · obtain ⟨rfl, -⟩ := List.cons.inj hws
      cases ho
  · have hws : cs ++ s :: us = n.spell d ++ .ofKind .semicolon 0 :: vs := by
      simpa using (List.cons.inj (List.cons.inj hws).2).2
    obtain ⟨-, -, rfl⟩ := Node.assign.inj (List.singleton_inj.mp hnode)
    obtain ⟨rfl, hus⟩ := expression_align (hn.balanced (by simp)) hvalue hws (by simp [hs])
      (by simp)
    exact ⟨.initialized hv hl hx (ih hvalue), (List.cons.inj hus).2⟩

theorem returning_faithful {line : Nat} (hn : Formed .parsed d .value n)
    (ih : Faithful d .value n) : Faithful d .statement (.returning line n) := by
  intro ts us vs h hts
  obtain ⟨ws, rfl, hws, cs, s, value, rfl, hvalue, hs, hnode⟩ := h.spec_of_append hts
  obtain ⟨-, rfl⟩ := Node.returning.inj (List.singleton_inj.mp hnode)
  rw [List.append_assoc] at hws
  obtain ⟨rfl, hus⟩ :=
    expression_align (hn.balanced (by simp)) hvalue hws (by simp [hs]) (by simp)
  exact ⟨.returning (ih hvalue), .inl (List.cons.inj hus).2⟩

/-- A conditional ends behind its last block, and no `else` is behind it. -/
theorem conditional_faithful {line : Nat} {test : Node} {c : Option Block}
    (ht : Formed .parsed d .value test) (iht : Faithful d .value test)
    (hb : ∀ n ∈ b.nodes, Formed .parsed (d + 1) .statement n)
    (ihb : ∀ n ∈ b.nodes, Faithful (d + 1) .statement n)
    (hc : ∀ e ∈ c, ∀ n ∈ e.nodes, Formed .parsed (d + 1) .statement n)
    (ihc : ∀ e ∈ c, ∀ n ∈ e.nodes, Faithful (d + 1) .statement n) :
    Faithful d .statement (.conditional line test b c) := by
  intro ts us vs h hts
  rw [Node.bare_conditional] at h
  -- one of the two rules has an else, so the tree tells them apart
  cases c with
  | none =>
    obtain ⟨ws, rfl, hws, l, r, es, bs, test', b', htest, hr, hblock, hspec⟩ :=
      h.spec_of_append hts
    obtain ⟨rfl, hnode⟩ | ⟨e, fs, c', hc', rfl, hnode⟩ := hspec
    · obtain ⟨-, rfl, rfl, -⟩ := Node.conditional.inj (List.singleton_inj.mp hnode)
      have hws : es ++ r :: (bs ++ us) =
          test.spell d ++ .ofKind .rightParen 0 ::
            (b.spell d ++ .ofKind .semicolon 0 :: vs) := by
        simpa using (List.cons.inj hws).2
      -- the condition and then the block are cut off both lists of tokens
      obtain ⟨rfl, hrest⟩ := expression_align (ht.balanced (by simp)) htest hws (by simp [hr])
        (by simp)
      obtain ⟨hb', hus⟩ := block_faithful hb ihb hblock (List.cons.inj hrest).2
      exact ⟨.conditional (iht htest) hb' nofun, .inr hus⟩
    · cases hnode
  | some c =>
    obtain ⟨ws, rfl, hws, l, r, es, bs, test', b', htest, hr, hblock, hspec⟩ :=
      h.spec_of_append hts
    obtain ⟨rfl, hnode⟩ | ⟨e, fs, c', hc', rfl, hnode⟩ := hspec
    · cases hnode
    · obtain ⟨-, rfl, rfl, hsome⟩ := Node.conditional.inj (List.singleton_inj.mp hnode)
      obtain rfl := Option.some_inj.mp hsome
      have hws : es ++ r :: (bs ++ e :: (fs ++ us)) = test.spell d ++ .ofKind .rightParen 0 ::
          (b.spell d ++ .ofKind .kwElse 0 :: (c.spell d ++ .ofKind .semicolon 0 :: vs)) := by
        simpa using (List.cons.inj hws).2
      obtain ⟨rfl, hrest⟩ := expression_align (ht.balanced (by simp)) htest hws (by simp [hr])
        (by simp)
      obtain ⟨hb', hrest⟩ := block_faithful hb ihb hblock (List.cons.inj hrest).2
      obtain ⟨hc', hus⟩ := block_faithful (hc c rfl) (ihc c rfl) hc' (List.cons.inj hrest).2
      refine ⟨.conditional (iht htest) hb' ?_, .inr hus⟩
      rintro _ ⟨⟩
      exact hc'

theorem bareLoop_faithful {line l : Nat}
    (hb : ∀ n ∈ b.nodes, Formed .parsed (d + 1) .statement n)
    (ihb : ∀ n ∈ b.nodes, Faithful (d + 1) .statement n) :
    Faithful d .statement (.loop line none (.boolean l true) none b) := by
  intro ts us vs h hts
  rw [Node.bare_loop] at h
  obtain ⟨ws, rfl, hws, hspec⟩ := h.spec_of_append hts
  obtain ⟨b', hblock, hnode⟩ | ⟨l, s, r, is, es, bs, init, test, b', -, -, -, -, -, hnode⟩ :=
    hspec
  · obtain ⟨-, -, -, -, rfl⟩ := Node.loop.inj (List.singleton_inj.mp hnode)
    obtain ⟨hb', hus⟩ := block_faithful hb ihb hblock hws
    exact ⟨.bareLoop hb', .inr hus⟩
  · obtain ⟨-, hnode⟩ | ⟨ps, step, -, -, hnode⟩ := hnode <;> cases hnode

/-- The first part of a loop and its condition end where their spellings end, and both are
canonical, if they are `Faithful`. -/
theorem loopHead_align {init test : Node} {s : Token} {is es : List Token}
    (ihi : Faithful d .init init) (ht : Formed .parsed d .operand test)
    (iht : Faithful d .operand test) (hinit : Derives .statement is [init.bare])
    (htest : Derives .expression es [test.bare]) (hs : s.kind = .semicolon)
    (hts : is ++ (es ++ s :: us) = init.spell d ++ .ofKind .semicolon 0 ::
      (test.spell d ++ .ofKind .semicolon 0 :: vs)) :
    Formed .canonical d .init init ∧ Formed .canonical d .operand test ∧ us = vs := by
  obtain ⟨hinit, hrest⟩ := ihi _ _ _ hinit hts
  obtain ⟨rfl, htail⟩ :=
    expression_align (ht.balanced (by simp)) htest hrest (by simp [hs]) (by simp)
  exact ⟨hinit, iht htest, (List.cons.inj htail).2⟩

/-- The parts of a loop's head end where they are spelled to end, by `loopHead_align`. -/
theorem loop_faithful {line : Nat} {init test : Node} {step : Option Node}
    (ihi : Faithful d .init init) (ht : Formed .parsed d .operand test)
    (iht : Faithful d .operand test) (hs : ∀ n ∈ step, Formed .parsed d .value n)
    (ihs : ∀ n ∈ step, Faithful d .value n)
    (hb : ∀ n ∈ b.nodes, Formed .parsed (d + 1) .statement n)
    (ihb : ∀ n ∈ b.nodes, Faithful (d + 1) .statement n)
    (h : Derives .statement ts [(Node.loop line (some init) test step b).bare])
    (hts : ts ++ us = (Node.loop line (some init) test step b).spell d ++
      .ofKind .semicolon 0 :: vs) :
    Formed .canonical d .init init ∧ Formed .canonical d .operand test ∧
      (∀ n ∈ step, Formed .canonical d .value n) ∧
      (∀ n ∈ b.nodes, Formed .canonical (d + 1) .statement n) ∧
      us = .ofKind .semicolon 0 :: vs := by
  rw [Node.bare_loop] at h
  -- one of the two rules has a step, so the tree tells them apart
  cases step with
  | none =>
    obtain ⟨ws, rfl, hws, hspec⟩ := h.spec_of_append hts
    obtain ⟨b', -, hnode⟩ | ⟨l, s, r, is, es, bs, init', test', b', hinit, htest, hs',
      hr, hblock, ⟨rfl, hnode⟩ | ⟨ps, step, -, -, hnode⟩⟩ := hspec
    · cases hnode
    · obtain ⟨-, hsome, rfl, -, rfl⟩ := Node.loop.inj (List.singleton_inj.mp hnode)
      obtain rfl := Option.some_inj.mp hsome
      have hws : is ++ (es ++ s :: r :: (bs ++ us)) = init.spell d ++ .ofKind .semicolon 0 ::
          (test.spell d ++ .ofKind .semicolon 0 :: .ofKind .rightParen 0 :: (b.spell d ++
            .ofKind .semicolon 0 :: vs)) := by
        simpa using (List.cons.inj hws).2
      obtain ⟨hinit, htest, hrest⟩ := loopHead_align ihi ht iht hinit htest hs' hws
      obtain ⟨hb', hus⟩ := block_faithful hb ihb hblock (List.cons.inj hrest).2
      exact ⟨hinit, htest, nofun, hb', hus⟩
    · cases hnode
  | some step =>
    obtain ⟨ws, rfl, hws, hspec⟩ := h.spec_of_append hts
    obtain ⟨b', -, hnode⟩ | ⟨l, s, r, is, es, bs, init', test', b', hinit, htest, hs',
      hr, hblock, ⟨rfl, hnode⟩ | ⟨ps, step', hstep, rfl, hnode⟩⟩ := hspec
    · cases hnode
    · cases hnode
    · obtain ⟨-, hsome, rfl, hsome', rfl⟩ := Node.loop.inj (List.singleton_inj.mp hnode)
      obtain rfl := Option.some_inj.mp hsome
      obtain rfl := Option.some_inj.mp hsome'
      have hws : is ++ (es ++ s :: (ps ++ r :: (bs ++ us))) = init.spell d ++
          .ofKind .semicolon 0 :: (test.spell d ++ .ofKind .semicolon 0 :: (step.spell d ++
            .ofKind .rightParen 0 :: (b.spell d ++ .ofKind .semicolon 0 :: vs))) := by
        simpa using (List.cons.inj hws).2
      obtain ⟨hinit, htest, hrest⟩ := loopHead_align ihi ht iht hinit htest hs' hws
      obtain ⟨rfl, hend⟩ := expression_align ((hs step rfl).balanced (by simp)) hstep hrest
        (by simp [hr]) (by simp)
      obtain ⟨hb', hus⟩ := block_faithful hb ihb hblock (List.cons.inj hend).2
      refine ⟨hinit, htest, ?_, hb', hus⟩
      rintro _ ⟨⟩
      exact ihs step rfl hstep

/-- A function is `Faithful`, and ends behind its body. -/
theorem function_faithful {line : Nat} {f : Binder} {params : List Binder}
    (hf : isName f.name.toList) (hparams : ∀ x ∈ params, isName x.name.toList)
    (hb : ∀ n ∈ b.nodes, Formed .parsed (d + 1) .statement n)
    (ihb : ∀ n ∈ b.nodes, Faithful (d + 1) .statement n) :
    Faithful d .statement (.function line f params b) := by
  intro ts us vs h hts
  obtain ⟨ws, rfl, hws, x, l, r, ps, bs, params', b', hps, hr, hblock, rfl, hnode⟩ :=
    h.spec_of_append hts
  obtain ⟨-, -, hbinders, rfl⟩ := Node.function.inj (List.singleton_inj.mp hnode)
  have hbinders : params' = params.map Binder.bare := hbinders.symm
  have hws : ps ++ r :: (bs ++ us) =
      [Token.ofKind .comma 0].intercalate (params.map fun x => [⟨.ident, 0, x.name⟩]) ++
        .ofKind .rightParen 0 :: (b.spell d ++ .ofKind .semicolon 0 :: vs) := by
    simpa using (List.cons.inj (List.cons.inj hws).2).2
  have hspell : Balanced ([Token.ofKind .comma 0].intercalate
      (params.map fun x => [⟨.ident, 0, x.name⟩])) := by
    refine .intercalate ?_
    rintro _ hx
    obtain ⟨x, -, rfl⟩ := List.mem_map.mp hx
    exact .singleton rfl
  -- as many names weigh the same, so both lists end at the same parenthesis
  have hnames : Balanced ps ∧ weight ps = weight ([Token.ofKind .comma 0].intercalate
      (params.map fun x => [⟨.ident, 0, x.name⟩])) := by
    obtain ⟨rfl, rfl⟩ | hps := hps
    · rw [List.map_eq_nil_iff.mp hbinders.symm]
      exact ⟨.nil, rfl⟩
    · refine ⟨hps.balanced, ?_⟩
      rw [hps.weighs, hbinders, List.map_map]
      rfl
  obtain ⟨-, hrest⟩ := Balanced.align hnames.1 hspell hws hnames.2 (by simp [hr]) (by simp)
  obtain ⟨hb', hus⟩ := block_faithful hb ihb hblock (List.cons.inj hrest).2
  exact ⟨.function hf hparams hb', .inr hus⟩

/-- A declaration that operators go on behind is `Faithful`, as it is derived from no spelling
of its own: it would have to be an operand. -/
theorem chain_faithful {o : Token} {left right : Node} (ho : o.kind.isInfix)
    (hn : Formed .parsed d .declared (.infixed o left right))
    (hleft : Formed .parsed d .declared left) (ihl : Faithful d .declared left) :
    Faithful d .declared (.infixed o left right) := by
  have hno : ¬Derives .expression ((Node.infixed o left right).spell d)
      [(Node.infixed o left right).bare] := fun h =>
    ihl.1 (infixed_inv ho (hleft.balanced (by simp)) h).1.expression
  refine ⟨hno, fun ts us vs h hts => ?_⟩
  exact absurd
    (expression_of_statement (hn.balanced (by simp)) (.declaredStatement hn) rfl h hts).1 hno

theorem assignedInit_faithful (hn : Formed .parsed d .assigned n)
    (ih : Faithful d .assigned n) : Faithful d .init n := by
  intro ts us vs h hts
  have hk : opensOperand n.headKind := by
    cases hn
    rfl
  obtain ⟨h, hus⟩ :=
    expression_of_statement (hn.balanced (by simp)) (.initStatement (.assignedInit hn)) hk h hts
  exact ⟨.assignedInit (ih h), hus⟩

theorem operandStatement_faithful (hn : Formed .parsed d .operand n)
    (ih : Faithful d .operand n) : Faithful d .statement n := by
  intro ts us vs h hts
  have hk : opensOperand n.headKind := by
    cases hn with
    | @boolean _ _ b => cases b <;> rfl
    | _ => rfl
  obtain ⟨h, hus⟩ :=
    expression_of_statement (hn.balanced (by simp)) (.operandStatement hn) hk h hts
  exact ⟨.operandStatement (ih h), .inl hus⟩

/-- A block ends on its brace, by `block_faithful`. -/
theorem blockStatement_faithful (hb : ∀ n ∈ b.nodes, Formed .parsed (d + 1) .statement n)
    (ih : ∀ n ∈ b.nodes, Faithful (d + 1) .statement n) : Faithful d .statement (.block b) := by
  intro ts us vs h hts
  have hts' := hts
  rw [Node.spell_block, Block.spell_cons] at hts'
  obtain ⟨ws, rfl, -, b', hblock, hnode⟩ := h.spec_of_append hts'
  obtain rfl := Node.block.inj (List.singleton_inj.mp hnode)
  obtain ⟨hb', hus⟩ := block_faithful hb ih hblock hts
  exact ⟨.block hb', .inr hus⟩

/-- Every tree that is `Formed` by `Rigor.parsed` is `Faithful`. -/
theorem Formed.faithful {p : Place} (h : Formed .parsed d p n) : Faithful d p n := by
  induction h with
  | integer ht hl hv => exact fun _ => .integer ht hl hv
  | string hq =>
    intro h
    exact .string hq fun _ hd hn => sink_ne hd hn (string_inv h)
  | boolean => exact fun _ => .boolean
  | ident hx => exact fun _ => .ident hx
  | call hx _ ih => exact call_faithful hx ih
  | prefixed ho hl hp hn ih => exact prefixed_faithful ho hl hp hn ih
  | infixed ho hl hp hleft hq hright ihl ihr =>
    exact infixed_faithful ho hl hp hleft ihl hq hright ihr
  | assign hx _ ih => exact fun h => .assign hx (ih (assign_inv h))
  | operandValue _ ih => exact fun h => .operandValue (ih h)
  | assignedValue _ ih => exact fun h => .assignedValue (ih h)
  | declare hv hl hx => exact declare_faithful hv hl hx
  | chain hr ho hl hleft hq hright ihl _ =>
    exact chain_faithful ho (.chain hr ho hl hleft hq hright) hleft ihl
  | assignedInit hn ih => exact assignedInit_faithful hn ih
  | initialized hv hl hx hn ih => exact initialized_faithful hv hl hx hn ih
  | operandStatement hn ih => exact operandStatement_faithful hn ih
  | declaredStatement _ ih =>
    intro ts us vs h hts
    obtain ⟨hn, hus⟩ := ih.2 ts us vs h hts
    exact ⟨.declaredStatement hn, .inl hus⟩
  | initStatement _ ih =>
    intro ts us vs h hts
    obtain ⟨hn, hus⟩ := ih ts us vs h hts
    exact ⟨.initStatement hn, .inl hus⟩
  | block hb ih => exact blockStatement_faithful hb ih
  | conditional ht hb hc iht ihb ihc => exact conditional_faithful ht iht hb ihb hc ihc
  | bareLoop hb ih => exact bareLoop_faithful hb ih
  | loop _ ho hl hp hleft hq hright hs hb ihi ihl ihr ihs ihb =>
    intro ts us vs h hts
    -- the condition is no operand of anything, but it is formed like one
    have ht := Formed.infixed ho hl hp hleft hq hright
    obtain ⟨hi, ht, hs, hb, hus⟩ := loop_faithful ihi ht
      (infixed_faithful ho hl hp hleft ihl hq hright ihr) hs ihs hb ihb h hts
    cases ht with
    | infixed ho hl hp hleft hq hright =>
      exact ⟨.loop hi ho hl hp hleft hq hright hs hb, .inr hus⟩
  | function hf hx hb ih => exact function_faithful hf hx hb ih
  | returning hn ih => exact returning_faithful hn ih
  | breaking =>
    intro ts us vs h hts
    obtain ⟨ws, rfl, hws, s, rfl, -⟩ := h.spec_of_append hts
    exact ⟨.breaking, .inl (List.cons.inj hws).2⟩

end Faithful

end ScriptLang
