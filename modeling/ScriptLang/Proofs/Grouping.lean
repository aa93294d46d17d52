import Mathlib.Tactic.Ring
import ScriptLang.Proofs.Spelling
import ScriptLang.Proofs.Derivation

/-!
# Parentheses

A tree does not tell which parentheses it has been derived from, but it tells all other tokens.
So whatever an expression is derived from has the *weight* of its tree, which is the number of
tokens that are not parentheses; and its parentheses are balanced. Two texts of one weight that
are balanced end at the same place, unless a parenthesis opens there.

- `weight`, `nest`, `Balanced`: tokens that are not parentheses, and those that are.
- `eq_of_weight`, `Balanced.align`: where two texts of the same weight end.
- `Grammar.Derives.weighs`, `Derives.balanced`: what an expression is derived from.
- `Formed.balanced`: the spelling of an expression.
-/

namespace ScriptLang

/-! ## Weight -/

/-- The token `t` is a parenthesis. -/
def Token.isParen (t : Token) : Bool := t.kind = .leftParen || t.kind = .rightParen

@[simp] theorem Token.isParen_bare (t : Token) : t.bare.isParen = t.isParen := rfl

@[simp] theorem Token.isParen_ofKind (kind : TokenKind) (line : Nat) :
    (ofKind kind line).isParen = (kind = .leftParen || kind = .rightParen : Bool) := rfl

/-- The number of tokens that are not `Token.isParen`. -/
def weight (ts : List Token) : Nat := ts.countP fun t => !t.isParen

section Weight

variable {t u : Token} {xs ys us vs : List Token}

@[simp] theorem weight_nil : weight [] = 0 := rfl

@[simp] theorem weight_append (xs ys : List Token) :
    weight (xs ++ ys) = weight xs + weight ys :=
  List.countP_append

/-- A token in front adds its own `weight`. -/
theorem weight_cons_eq (t : Token) (ts : List Token) :
    weight (t :: ts) = weight ts + if t.isParen then 0 else 1 := by
  rw [weight, List.countP_cons]
  cases t.isParen <;> rfl

theorem weight_cons_of_paren (h : t.isParen) (ts : List Token) :
    weight (t :: ts) = weight ts := by
  rw [weight, List.countP_cons_of_neg (by simp [h])]
  rfl

theorem weight_cons (h : t.isParen = false) (ts : List Token) :
    weight (t :: ts) = weight ts + 1 := by
  rw [weight, List.countP_cons_of_pos (by simp [h])]
  rfl

theorem isParen_of_kind {kind : TokenKind} (h : t.kind = kind) :
    t.isParen = (kind = .leftParen || kind = .rightParen : Bool) := by
  rw [Token.isParen, h]

/-- Commas have a `weight` of one each, so with one more a list weighs one more than each
member. -/
theorem weight_intercalate {xss : List (List Token)} (h : xss ≠ []) :
    weight ([Token.ofKind .comma 0].intercalate xss) + 1 = (xss.map (weight · + 1)).sum := by
  induction xss with
  | nil => exact absurd rfl h
  | cons xs xss ih =>
    cases xss with
    | nil => simp
    | cons ys yss =>
      have ih := ih (by simp)
      rw [List.intercalate_cons_cons, List.map_cons, List.sum_cons, ← ih, weight_append,
        weight_append, weight_cons rfl, weight_nil]
      ring

/-- Lists of one `weight` in front of tokens that are not parentheses are the same. -/
theorem eq_of_weight (h : xs ++ t :: us = ys ++ u :: vs) (hw : weight xs = weight ys)
    (ht : t.isParen = false) (hu : u.isParen = false) : xs = ys ∧ t = u ∧ us = vs := by
  rcases List.append_eq_append_iff.mp h with ⟨ds, hy, hd⟩ | ⟨ds, hx, hd⟩
  · cases ds with
    | nil => simp_all
    | cons d ds =>
      obtain ⟨rfl, -⟩ := List.cons.inj hd
      rw [hy, weight_append, weight_cons ht] at hw
      omega
  · cases ds with
    | nil => simp_all
    | cons d ds =>
      obtain ⟨rfl, -⟩ := List.cons.inj hd
      rw [hx, weight_append, weight_cons hu] at hw
      omega

end Weight

/-! ## Balance -/

/-- The number of groups that are open behind some tokens, with `k` open in front of them, if
none is closed that is not open. -/
def nest : Nat → List Token → Option Nat
  | k, [] => some k
  | k, t :: ts =>
    if t.kind = .leftParen then nest (k + 1) ts
    else if t.kind = .rightParen then
      if k = 0 then none else nest (k - 1) ts
    else nest k ts

/-- The tokens `ts` close all groups they open, and no others. -/
def Balanced (ts : List Token) : Prop := ∀ k, nest k ts = some k

section Balance

variable {k : Nat} {t u : Token} {xs ys us vs : List Token}

theorem nest_leftParen (h : t.kind = .leftParen) (ts : List Token) :
    nest k (t :: ts) = nest (k + 1) ts := by
  rw [nest, if_pos h]

theorem nest_rightParen (h : t.kind = .rightParen) (ts : List Token) :
    nest (k + 1) (t :: ts) = nest k ts := by
  rw [nest, if_neg (by rw [h]; decide), if_pos h, if_neg (Nat.succ_ne_zero k),
    Nat.add_sub_cancel]

theorem nest_zero_rightParen (h : t.kind = .rightParen) (ts : List Token) :
    nest 0 (t :: ts) = none := by
  rw [nest, if_neg (by rw [h]; decide), if_pos h, if_pos rfl]

theorem nest_cons (h : t.isParen = false) (ts : List Token) : nest k (t :: ts) = nest k ts := by
  simp only [Token.isParen, Bool.or_eq_false_iff, decide_eq_false_iff_not] at h
  rw [nest, if_neg h.1, if_neg h.2]

/-- What `nest` counts behind the first part is open in front of the second. -/
theorem nest_append (k : Nat) (xs ys : List Token) :
    nest k (xs ++ ys) = (nest k xs).bind fun j => nest j ys := by
  induction xs generalizing k with
  | nil => rfl
  | cons t ts ih =>
    by_cases hl : t.kind = .leftParen
    · rw [List.cons_append, nest_leftParen hl, nest_leftParen hl, ih]
    · by_cases hr : t.kind = .rightParen
      · cases k with
        | zero =>
          rw [List.cons_append, nest_zero_rightParen hr, nest_zero_rightParen hr]
          rfl
        | succ k => rw [List.cons_append, nest_rightParen hr, nest_rightParen hr, ih]
      · have ht : t.isParen = false := by simp [Token.isParen, hl, hr]
        rw [List.cons_append, nest_cons ht, nest_cons ht, ih]

namespace Balanced

theorem nil : Balanced [] := fun _ => rfl

/-- `Balanced` texts behind each other are balanced. -/
theorem append (hx : Balanced xs) (hy : Balanced ys) : Balanced (xs ++ ys) := by
  intro k
  rw [nest_append, hx, Option.bind_some, hy]

theorem cons (ht : t.isParen = false) (hx : Balanced xs) : Balanced (t :: xs) := by
  intro k
  rw [nest_cons ht, hx]

theorem singleton (ht : t.isParen = false) : Balanced [t] := cons ht nil

/-- What is `Balanced` is so in parentheses. -/
theorem group (ht : t.kind = .leftParen) (hx : Balanced xs) (hu : u.kind = .rightParen) :
    Balanced (t :: xs ++ [u]) := by
  intro k
  rw [List.cons_append, nest_leftParen ht, nest_append, hx, Option.bind_some,
    nest_rightParen hu]
  rfl

/-- Lists that are `Balanced` are so with commas in between. -/
theorem intercalate {xss : List (List Token)} (h : ∀ xs ∈ xss, Balanced xs) :
    Balanced ([Token.ofKind .comma 0].intercalate xss) := by
  induction xss with
  | nil => exact nil
  | cons xs xss ih =>
    have hxs := h xs List.mem_cons_self
    have ih := ih fun ys hys => h ys (List.mem_cons_of_mem _ hys)
    cases xss with
    | nil => rwa [List.intercalate_singleton]
    | cons ys yss =>
      rw [List.intercalate_cons_cons]
      exact (hxs.append (singleton rfl)).append ih

/-- Nothing but an opening parenthesis may stand where a `Balanced` list goes on with no
`weight`. -/
theorem eq_nil_of_weight (hx : Balanced xs) (h : Balanced (xs ++ us)) (hw : weight us = 0)
    (hu : ∀ t ∈ us.head?, t.kind ≠ .leftParen) : us = [] := by
  cases us with
  | nil => rfl
  | cons t ts =>
    have hl := hu t rfl
    by_cases hr : t.kind = .rightParen
    · have hnest := h 0
      rw [nest_append, hx, Option.bind_some, nest_zero_rightParen hr] at hnest
      cases hnest
    · rw [weight_cons (by simp [Token.isParen, hl, hr])] at hw
      cases hw

/-- Lists that are `Balanced` and of one `weight` are the same, unless a parenthesis opens
behind them. -/
theorem align (hx : Balanced xs) (hy : Balanced ys) (h : xs ++ us = ys ++ vs)
    (hw : weight xs = weight ys) (hu : ∀ t ∈ us.head?, t.kind ≠ .leftParen)
    (hv : ∀ t ∈ vs.head?, t.kind ≠ .leftParen) : xs = ys ∧ us = vs := by
  have head {ds es : List Token} (h : ∀ t ∈ (ds ++ es).head?, t.kind ≠ .leftParen) :
      ∀ t ∈ ds.head?, t.kind ≠ .leftParen := by
    cases ds with
    | nil => rintro t ⟨⟩
    | cons d ds => exact h
  rcases List.append_eq_append_iff.mp h with ⟨ds, rfl, rfl⟩ | ⟨ds, rfl, rfl⟩
  · rw [weight_append] at hw
    rw [hx.eq_nil_of_weight hy (by omega) (head hu)]
    simp
  · rw [weight_append] at hw
    rw [hy.eq_nil_of_weight hx (by omega) (head hv)]
    simp

end Balanced
end Balance

/-! ## Derivations -/

namespace Grammar

variable {form : Form} {ts : List Token} {ns : List Node}

/-- An infix operator is not `Token.isParen`. -/
theorem isParen_of_isInfix {t : Token} (h : t.kind.isInfix) : t.isParen = false := by
  rw [Token.isParen]
  revert h
  cases t.kind <;> decide

theorem isParen_of_isPrefix {t : Token} (h : t.kind.isPrefix) : t.isParen = false := by
  rw [Token.isParen]
  revert h
  cases t.kind <;> decide

/-- What the `weight` of tokens is, by the nodes that the form derives from them. -/
def Weighs (d : Nat) : Form → List Token → List Node → Prop
  | .operand, ts, ns | .expression, ts, ns =>
    weight ts = (ns.map fun n => weight (n.spell d)).sum
  | .tail left, ts, ns =>
    weight (left.spell d) + weight ts = (ns.map fun n => weight (n.spell d)).sum
  | .arguments, ts, ns => weight ts + 1 = (ns.map fun n => weight (n.spell d) + 1).sum
  | _, _, _ => True

/-- A `Target` has all the tokens of its name, but for parentheses. -/
theorem Target.weighs {n : Node} (h : Target ts n) (d : Nat) :
    weight ts = weight (n.spell d) := by
  induction h with
  | name ht => rw [weight_cons (isParen_of_kind ht)]; rfl
  | group hl _ hr ih =>
    rw [weight_append, weight_cons_of_paren (isParen_of_kind hl), ih,
      weight_cons_of_paren (isParen_of_kind hr)]
    rfl

/-- What `Derives` a node has the `weight` of its spelling. -/
theorem Derives.weighs (h : Derives form ts ns) (d : Nat) : Weighs d form ts ns := by
  induction h with
  | @integer t v => exact (Nat.add_zero (weight [t])).symm
  | string ht | kwTrue ht | kwFalse ht | name ht =>
    simp [Weighs, weight_cons_eq, Token.isParen, ht]
  | emptyCall ht hl hr => simp [Weighs, weight_cons_eq, Token.isParen, ht, hl, hr]
  | @call t l r ts args ht hl _ hr ih =>
    -- a call without arguments is derived by another rule
    have hargs : args.map (Node.spell d) ≠ [] := by
      rintro hnil
      rw [List.map_eq_nil_iff] at hnil
      subst hnil
      simp [Weighs] at ih
    have hw := weight_intercalate hargs
    simp [Weighs, weight_cons_eq, Token.isParen, ht, hl, hr, Function.comp_def] at ih hw ⊢
    omega
  | group hl _ hr ih => simpa [Weighs, weight_cons_eq, Token.isParen, hl, hr] using ih
  | prefixed ho _ ih =>
    simpa [Weighs, weight_cons_eq, isParen_of_isPrefix ho] using ih
  | noTail => simp [Weighs]
  | infixed ho _ _ ih iht =>
    simp [Weighs, weight_cons_eq, isParen_of_isInfix ho] at ih iht ⊢
    omega
  | assign ht he _ ih =>
    simp [Weighs, weight_cons_eq, Token.isParen, he, ht.weighs d] at ih ⊢
    omega
  | chain _ _ ih iht =>
    simp [Weighs] at ih iht ⊢
    omega
  | lastArgument _ ih => simpa [Weighs] using ih
  | moreArguments _ hc _ ih iha =>
    simp [Weighs, weight_cons_eq, Token.isParen, hc] at ih iha ⊢
    omega
  | _ => trivial

/-- The tokens of an expression are `Balanced`; of other forms nothing is said. -/
def Closes : Form → List Token → Prop
  | .operand, ts | .expression, ts | .tail _, ts | .arguments, ts => Balanced ts
  | _, _ => True

/-- The tokens of a `Target` are `Balanced`. -/
theorem Target.balanced {n : Node} (h : Target ts n) : Balanced ts := by
  induction h with
  | name ht => exact .singleton (isParen_of_kind ht)
  | group hl _ hr ih => exact .group hl ih hr

/-- What an operand, an expression or a list of arguments is derived from is `Balanced`. -/
theorem Derives.closes (h : Derives form ts ns) : Closes form ts := by
  induction h with
  | integer ht | string ht | kwTrue ht | kwFalse ht | name ht =>
    exact .singleton (isParen_of_kind ht)
  | emptyCall ht hl hr => exact .cons (isParen_of_kind ht) (Balanced.nil.group hl hr)
  | call ht hl _ hr ih => exact .cons (isParen_of_kind ht) (.group hl ih hr)
  | group hl _ hr ih => exact .group hl ih hr
  | prefixed ho _ ih => exact .cons (isParen_of_isPrefix ho) ih
  | noTail => exact .nil
  | infixed ho _ _ ih iht => exact .append (.cons (isParen_of_isInfix ho) ih) iht
  | assign ht he _ ih => exact .append ht.balanced (.cons (isParen_of_kind he) ih)
  | chain _ _ ih iht => exact .append ih iht
  | lastArgument _ ih => exact ih
  | moreArguments _ hc _ ih iha => exact .append ih (.cons (isParen_of_kind hc) iha)
  | _ => trivial

/-- The tokens of `Names` are `Balanced`, as there are no parentheses among them. -/
theorem Names.balanced {bs : List Binder} (h : Names ts bs) : Balanced ts := by
  induction h with
  | one ht => exact .singleton (isParen_of_kind ht)
  | more ht hc _ ih => exact .cons (isParen_of_kind ht) (.cons (isParen_of_kind hc) ih)

/-- `Names` have the `weight` of the names with commas in between. -/
theorem Names.weighs {bs : List Binder} (h : Names ts bs) :
    weight ts = weight ([Token.ofKind .comma 0].intercalate
      (bs.map fun x => [⟨.ident, 0, x.name⟩])) := by
  induction h with
  | one ht => simp [weight_cons_eq, Token.isParen, ht]
  | @more t c ts bs ht hc hbs ih =>
    cases hbs <;> simp_all [weight_cons_eq, Token.isParen, List.intercalate_cons_cons]

end Grammar

/-! ## Spellings -/

open Grammar in
/-- The `Node.spell` of an expression is `Balanced`. -/
theorem Formed.balanced {d : Nat} {p : Place} {n : Node} (h : Formed .parsed d p n)
    (hplace : p = .operand ∨ p = .assigned ∨ p = .value ∨ p = .declared) :
    Balanced (n.spell d) := by
  -- parentheses are around operators and arguments only, and both put a pair of them
  induction h with
  | integer ht => exact .singleton (isParen_of_kind ht)
  | string => exact .singleton rfl
  | @boolean d line b => cases b <;> exact .singleton rfl
  | ident => exact .singleton rfl
  | @call d line l x args _ _ ih =>
    have hargs : ∀ ts ∈ args.map (Node.spell d), Balanced ts := by
      rintro ts hts
      obtain ⟨n, hn, rfl⟩ := List.mem_map.mp hts
      exact ih n hn (by simp)
    rw [Node.spell_call, spellAll_eq_map]
    exact .cons (t := ⟨.ident, 0, x⟩) rfl
      (.group (t := .ofKind .leftParen 0) rfl (.intercalate hargs) rfl)
  | @prefixed d o n p ho _ hp _ ih =>
    have hn := ih (hp.imp_right fun hp => .inl hp.1)
    rw [Node.spell_prefixed]
    exact .group rfl (.cons (t := o.bare) (isParen_of_isPrefix ho) hn) rfl
  | @infixed d o left right p q ho _ hp _ hq _ ihl ihr =>
    have hl := ihl (hp.imp_right fun hp => .inl hp.1)
    have hr := ihr (hq.imp_right fun hq => .inl hq.1)
    rw [Node.spell_infixed]
    exact .group rfl (.append hl (.cons (t := o.bare) (isParen_of_isInfix ho) hr)) rfl
  | @chain d o left right q _ ho _ _ hq _ ihl ihr =>
    have hl := ihl (by simp)
    have hr := ihr (hq.imp_right fun hq => .inl hq.1)
    rw [Node.spell_infixed]
    exact .group rfl (.append hl (.cons (t := o.bare) (isParen_of_isInfix ho) hr)) rfl
  | assign _ _ ih => exact .cons rfl (.cons rfl (ih (by simp)))
  | operandValue _ ih | assignedValue _ ih => exact ih (by simp)
  | declare hv => exact .cons (isParen_of_kind hv) (.singleton rfl)
  | _ => simp at hplace

end ScriptLang
