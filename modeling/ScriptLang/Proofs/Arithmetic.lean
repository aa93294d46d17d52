import Mathlib.Algebra.Group.Int.Defs
import ScriptLang.Proofs.Inside

/-!
# Arithmetic is exact or reported

Calculated on paper, an expression of integer literals, signs and the four operations has a
value whatever the size of the numbers, and each of its operations either can be carried out in
words or cannot: its divisor may be zero, and its result may not fit. Evaluation carries the
operations out from left to right, the operands first. So it gives the value on paper if all of
them can be carried out, and otherwise reports the first one that cannot.

The values on paper are taken of operands that may have failed themselves. What is said of such
an operation does not matter, because the operand has failed before it.

- `Node.IsArithmetic`: the expressions of arithmetic.
- `Node.exactValue`: the value on paper.
- `Node.operations`, `Node.offence?`: the operations in the order in which they are carried out,
  and what is wrong with one.
- `Eval.arithmetic_exact_or_reported`: what evaluation makes of such an expression.
-/

namespace ScriptLang

namespace Node

/-- Integer literals under signs and the four operations of arithmetic. -/
inductive IsArithmetic : Node → Prop
  | literal (t : Token) (v : Int64) : IsArithmetic (.integer t v)
  | signed {o : Token} {n : Node} :
      o.kind = .plus ∨ o.kind = .minus → n.IsArithmetic → IsArithmetic (.prefixed o n)
  | combined {o : Token} {left right : Node} :
      o.kind = .plus ∨ o.kind = .minus ∨ o.kind = .star ∨ o.kind = .slash → left.IsArithmetic →
      right.IsArithmetic → IsArithmetic (.infixed o left right)

/-- The value of an expression of arithmetic on paper. Division drops the fraction. -/
def exactValue : Node → Int
  | .integer _ v => v.toInt
  | .prefixed o n => if o.kind = .minus then -n.exactValue else n.exactValue
  | .infixed o left right =>
    match o.kind with
    | .plus => left.exactValue + right.exactValue
    | .minus => left.exactValue - right.exactValue
    | .star => left.exactValue * right.exactValue
    | .slash => left.exactValue.tdiv right.exactValue
    | _ => 0
  | _ => 0

/-- The prefixed and infixed nodes of an expression, from left to right and operands first. -/
def operations : Node → List Node
  | .prefixed o n => n.operations ++ [.prefixed o n]
  | .infixed o left right => left.operations ++ right.operations ++ [.infixed o left right]
  | _ => []

/-- The number is one that a 64-bit word with a sign can have. -/
def FitsWord (k : Int) : Prop := -2 ^ 63 ≤ k ∧ k ≤ 2 ^ 63 - 1

instance (k : Int) : Decidable (FitsWord k) := inferInstanceAs (Decidable (_ ∧ _))

/-- What is reported of an operation that cannot be carried out on the values on paper of its
operands: a result that does not `FitsWord`, or a division by zero. -/
def offence? : Node → Option Diagnostic
  | .prefixed o n =>
    if FitsWord (prefixed o n).exactValue then none else some ⟨o.line, .integerOverflow⟩
  | .infixed o left right =>
    if o.kind = .slash ∧ right.exactValue = 0 then some ⟨o.line, .divisionByZero⟩
    else if FitsWord (infixed o left right).exactValue then none
    else some ⟨o.line, .integerOverflow⟩
  | _ => none

end Node

/-! ## One operation -/

/-- What an operator gives when `offence?` is this, and `exactValue` is `k`. -/
inductive Carried (o : Token) (k : Int) : Option Diagnostic → Except Cause Value → Prop
  | out {w : Int64} : w.toInt = k → Carried o k none (.ok (.integer w))
  | refused (cause : Cause) : Carried o k (some ⟨o.line, cause⟩) (.error cause)

theorem fitsWord_toInt (w : Int64) : Node.FitsWord w.toInt :=
  ⟨w.minValue_le_toInt, w.toInt_le⟩

/-- `exact` gives a result that `FitsWord`, and is an overflow otherwise. -/
theorem carried_exact (o : Token) (k : Int) :
    Carried o k (if Node.FitsWord k then none else some ⟨o.line, .integerOverflow⟩)
      (exact k) := by
  rw [exact]
  cases hword : Text.word? k with
  | some w =>
    have hw := Text.toInt_of_word? hword
    rw [if_pos (hw ▸ fitsWord_toInt w)]
    exact .out hw
  | none =>
    rw [if_neg]
    · exact .refused _
    · intro hfits
      have hbounds : Int64.minValue.toInt ≤ k ∧ k ≤ Int64.maxValue.toInt := hfits
      rw [Text.word?, if_pos hbounds] at hword
      cases hword

/-- `prefixValue` on an operand whose value is its `exactValue`. -/
theorem carried_prefixValue {o : Token} (ho : o.kind = .plus ∨ o.kind = .minus) {n : Node}
    {v : Int64} (hv : v.toInt = n.exactValue) :
    Carried o (Node.prefixed o n).exactValue (Node.prefixed o n).offence?
      (prefixValue o.kind (.integer v)) := by
  rw [Node.offence?, Node.exactValue, ← hv]
  rcases ho with ho | ho
  · rw [ho, if_neg (by decide), if_pos (fitsWord_toInt v)]
    exact .out rfl
  · rw [ho, if_pos rfl]
    exact carried_exact o (-v.toInt)

/-- `infixValue` on operands whose values are their `exactValue`s. -/
theorem carried_infixValue {o : Token}
    (ho : o.kind = .plus ∨ o.kind = .minus ∨ o.kind = .star ∨ o.kind = .slash)
    {left right : Node} {a b : Int64} (ha : a.toInt = left.exactValue)
    (hb : b.toInt = right.exactValue) :
    Carried o (Node.infixed o left right).exactValue (Node.infixed o left right).offence?
      (infixValue o.kind (.integer a) (.integer b)) := by
  rw [Node.offence?, Node.exactValue, ← ha, ← hb]
  rcases ho with ho | ho | ho | ho
  · rw [ho, if_neg fun h => nomatch h.1]
    exact carried_exact o (a.toInt + b.toInt)
  · rw [ho, if_neg fun h => nomatch h.1]
    exact carried_exact o (a.toInt - b.toInt)
  · rw [ho, if_neg fun h => nomatch h.1]
    exact carried_exact o (a.toInt * b.toInt)
  · rw [ho]
    show Carried o _ _
      (if b.toInt = 0 then .error .divisionByZero else exact (a.toInt.tdiv b.toInt))
    by_cases hzero : b.toInt = 0
    · rw [if_pos ⟨rfl, hzero⟩, if_pos hzero]
      exact .refused _
    · rw [if_neg fun h => hzero h.2, if_neg hzero]
      exact carried_exact o (a.toInt.tdiv b.toInt)

/-! ## Whole expressions -/

/-- The first `offence?` among the `operations`, if there is one. -/
def Node.firstOffence? (n : Node) : Option Diagnostic := n.operations.findSome? Node.offence?

theorem Node.firstOffence?_prefixed (o : Token) (n : Node) :
    (prefixed o n).firstOffence? = n.firstOffence?.or (prefixed o n).offence? := by
  rw [firstOffence?, operations, List.findSome?_append, List.findSome?_singleton]
  rfl

theorem Node.firstOffence?_infixed (o : Token) (left right : Node) :
    (infixed o left right).firstOffence? =
      (left.firstOffence?.or right.firstOffence?).or (infixed o left right).offence? := by
  rw [firstOffence?, operations, List.findSome?_append, List.findSome?_append,
    List.findSome?_singleton]
  rfl

namespace Eval

/-- An evaluation on the machine `m` comes to a value and leaves the machine as it is, or
reports a diagnostic and does nothing else. -/
inductive Calculates (m : Machine) (k : Int) :
    Option Diagnostic → Option (Flow (Option Value) × Machine) → Prop
  | value {w : Int64} : w.toInt = k → Calculates m k none (some (.done (some (.integer w)), m))
  | report (d : Diagnostic) : Calculates m k (some d) (some (.faulted, m.report d))

section Rules

variable {run : Evaluator} {m : Machine} {n left right : Node} {o : Token}

/-- What is `Carried` is the result of the operation, or is reported. -/
theorem calculates_of_carried {k : Int} {offence : Option Diagnostic}
    {reply : Except Cause Value} (h : Carried o k offence reply) :
    Calculates m k offence
      ((do return some (← orFault o.line reply) : Eval (Option Value)) m) := by
  cases h with
  | out hw => exact .value hw
  | refused cause => exact .report _

theorem calculates_prefixed (ho : o.kind = .plus ∨ o.kind = .minus)
    (hn : Calculates m n.exactValue n.firstOffence? (run n m)) :
    Calculates m (Node.prefixed o n).exactValue (Node.prefixed o n).firstOffence?
      (prefixed run o n m) := by
  rw [Node.firstOffence?_prefixed]
  generalize hoffence : n.firstOffence? = offence at hn ⊢
  generalize hanswer : run n m = answer at hn
  cases hn with
  | @value w hw =>
    have hoperand : operand run n m = some (.done (.integer w), m) := bind_of_done hanswer
    rw [prefixed, bind_of_done hoperand, Option.none_or]
    exact calculates_of_carried (carried_prefixValue ho hw)
  | report d =>
    have hoperand : operand run n m = some (.faulted, m.report d) := bind_of_faulted hanswer
    rw [prefixed, bind_of_faulted hoperand, Option.some_or]
    exact .report d

theorem calculates_infixed
    (ho : o.kind = .plus ∨ o.kind = .minus ∨ o.kind = .star ∨ o.kind = .slash)
    (hl : Calculates m left.exactValue left.firstOffence? (run left m))
    (hr : Calculates m right.exactValue right.firstOffence? (run right m)) :
    Calculates m (Node.infixed o left right).exactValue
      (Node.infixed o left right).firstOffence?
      (infixed run o left right m) := by
  rw [Node.firstOffence?_infixed]
  generalize left.firstOffence? = offence at hl ⊢
  generalize right.firstOffence? = offence' at hr ⊢
  generalize hanswer : run left m = answer at hl
  generalize hanswer' : run right m = answer' at hr
  cases hl with
  | report d =>
    have hoperand : operand run left m = some (.faulted, m.report d) := bind_of_faulted hanswer
    rw [infixed, bind_of_faulted hoperand]
    exact .report d
  | @value a ha =>
    have hoperand : operand run left m = some (.done (.integer a), m) := bind_of_done hanswer
    rw [infixed, bind_of_done hoperand, Option.none_or]
    -- the left operand has left the machine as it
    -- was, so the right one finds what is said of it
    cases hr with
    | report d =>
      have hoperand' : operand run right m = some (.faulted, m.report d) :=
        bind_of_faulted hanswer'
      rw [bind_of_faulted hoperand']
      exact .report d
    | @value b hb =>
      have hoperand' : operand run right m = some (.done (.integer b), m) :=
        bind_of_done hanswer'
      rw [bind_of_done hoperand']
      exact calculates_of_carried (carried_infixValue ho ha hb)

end Rules

/-- With fuel for all operations, `Eval.ofNode` of a node that `IsArithmetic` comes to its
`exactValue`, or `firstOffence?` is reported; the machine is left as it is in all else. -/
theorem ofNode_calculates {n : Node} (hn : n.IsArithmetic) (limit : Nat) {fuel : Nat}
    (hfuel : n.operations.length < fuel) (m : Machine) :
    Calculates m n.exactValue n.firstOffence? (ofNode limit fuel n m) := by
  induction hn generalizing fuel with
  | literal t v =>
    obtain ⟨fuel, rfl⟩ := Nat.exists_eq_add_of_lt hfuel
    exact .value rfl
  | @signed o n ho _ ih =>
    obtain ⟨fuel, rfl⟩ := Nat.exists_eq_succ_of_ne_zero (Nat.ne_zero_of_lt hfuel)
    rw [Node.operations, List.length_append, List.length_singleton] at hfuel
    exact calculates_prefixed ho (ih (by omega))
  | @combined o left right ho _ _ ihl ihr =>
    obtain ⟨fuel, rfl⟩ := Nat.exists_eq_succ_of_ne_zero (Nat.ne_zero_of_lt hfuel)
    rw [Node.operations, List.length_append, List.length_append, List.length_singleton] at hfuel
    exact calculates_infixed ho (ihl (by omega)) (ihr (by omega))

/-- A node that `IsArithmetic` comes to its `exactValue` if none of its `operations` has an
`offence?`. Otherwise the first offence among them, from left to right, is reported, and nothing
else is. In both cases the machine is left as it was in all else. -/
theorem arithmetic_exact_or_reported {n : Node} (hn : n.IsArithmetic) (limit : Nat)
    {fuel : Nat} (hfuel : n.operations.length < fuel) (m : Machine) :
    ((∀ o ∈ n.operations, o.offence? = none) → ∃ w : Int64, w.toInt = n.exactValue ∧
      ofNode limit fuel n m = some (.done (some (.integer w)), m)) ∧
    ∀ before o behind d, n.operations = before ++ o :: behind →
      (∀ p ∈ before, p.offence? = none) →
      o.offence? = some d → ofNode limit fuel n m = some (.faulted, m.report d) := by
  have hanswer := ofNode_calculates hn limit hfuel m
  constructor
  · intro hnone
    rw [Node.firstOffence?, List.findSome?_eq_none_iff.mpr hnone] at hanswer
    generalize ofNode limit fuel n m = answer at hanswer
    cases hanswer with
    | value hw => exact ⟨_, hw, rfl⟩
  · intro before o behind d hall hbefore ho
    have hfirst : n.firstOffence? = some d :=
      List.findSome?_eq_some_iff.mpr ⟨before, o, behind, hall, ho, hbefore⟩
    rw [hfirst] at hanswer
    generalize ofNode limit fuel n m = answer at hanswer
    cases hanswer with
    | report => rfl

/-- A sum that does not fit is reported before the zero that it is divided by. -/
theorem arithmetic_exact_or_reported_sum :
    let sum : Node :=
      .infixed (.ofKind .plus 1) (.integer ⟨.integer, 1, "9223372036854775807"⟩ Int64.maxValue)
        (.integer ⟨.integer, 1, "1"⟩ 1)
    let n : Node := .infixed (.ofKind .slash 2) sum (.integer ⟨.integer, 2, "0"⟩ 0)
    n.IsArithmetic ∧ n.operations.length < 3 ∧
      ofNode 200 3 n {} = some (.faulted, Machine.report ⟨1, .integerOverflow⟩ {}) := by
  intro sum n
  have hn : n.IsArithmetic :=
    .combined (by decide) (.combined (by decide) (.literal _ _) (.literal _ _)) (.literal _ _)
  have hfuel : n.operations.length < 3 := by decide
  refine ⟨hn, hfuel, (arithmetic_exact_or_reported hn 200 hfuel {}).2 [] sum [n] _ rfl ?_ ?_⟩
  · exact fun _ hp => nomatch hp
  · decide

end Eval
end ScriptLang
