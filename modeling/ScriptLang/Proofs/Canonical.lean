import ScriptLang.Proofs.Lexing
import ScriptLang.Text.Decimal

/-!
# Canonical trees

A tree is *canonical* if its printed form says all there is to it. Not every tree that the
parser gives is canonical, since parentheses leave no trace in a tree: an assignment in
parentheses may be an operand, and so may a declaration at the front of a statement, but neither
is printed with parentheses around it. And a string inside a block that spans lines is printed
with tabs in it.

What trees look like is told once, for trees from the parser and for canonical ones, and by the
place of a tree in its program.

- `Rigor`: what the parser gives, and what is canonical.
- `Place`: where a tree stands.
- `Formed`: the trees of each rigor that may stand at a place, inside a number of blocks.
- `Canonical`: the canonical statements of a program.
- `Formed.parsed`: a canonical tree is formed as the parser forms trees, inside of any number of
  blocks.
-/

namespace ScriptLang

/-- How far trees that are `Formed` may be from canonical form. -/
inductive Rigor where
  /-- Whatever the parser gives. -/
  | parsed
  | canonical
  deriving DecidableEq

/-- Where a tree that is `Formed` stands in its program. -/
inductive Place where
  /-- An operand of an operator: anything that is printed as a unit. -/
  | operand
  /-- An assignment to a name. -/
  | assigned
  /-- An argument, a condition, a right side, a returned value or the step of a loop. -/
  | value
  /-- A declaration, and what it may be the first operand of. -/
  | declared
  /-- An assignment at the beginning of a loop. -/
  | init
  | statement

/-- An operand of an operator may stand in the place `p`. -/
def Rigor.Allows (r : Rigor) (p : Place) : Prop :=
  p = .operand ∨ p = .assigned ∧ r = .parsed

/-- The trees that may stand at a `Place` inside the given number of blocks. -/
inductive Formed (r : Rigor) : Nat → Place → Node → Prop
  | integer {d : Nat} {t : Token} {v : Int64} :
      t.kind = .integer → t.Lexed → Text.readInt? t.literal.toList = some v →
      Formed r d .operand (.integer t v)
  | string {d line : Nat} {s : String} :
      '"' ∉ s.toList → (r = .canonical → 0 < d → '\n' ∉ s.toList) →
      Formed r d .operand (.string line s)
  | boolean {d line : Nat} {b : Bool} : Formed r d .operand (.boolean line b)
  | ident {d line : Nat} {x : String} : isName x.toList → Formed r d .operand (.ident line x)
  | call {d line l : Nat} {x : String} {args : List Node} :
      isName x.toList → (∀ n ∈ args, Formed r d .value n) →
      Formed r d .operand (.call line (.ident l x) args)
  | prefixed {d : Nat} {o : Token} {n : Node} {p : Place} :
      o.kind.isPrefix → o.Lexed → r.Allows p → Formed r d p n →
      Formed r d .operand (.prefixed o n)
  | infixed {d : Nat} {o : Token} {left right : Node} {p q : Place} :
      o.kind.isInfix → o.Lexed → r.Allows p → Formed r d p left → r.Allows q →
      Formed r d q right → Formed r d .operand (.infixed o left right)
  | assign {d line l : Nat} {x : String} {n : Node} :
      isName x.toList → Formed r d .value n → Formed r d .assigned (.assign line (.ident l x) n)
  | operandValue {d : Nat} {n : Node} : Formed r d .operand n → Formed r d .value n
  | assignedValue {d : Nat} {n : Node} : Formed r d .assigned n → Formed r d .value n
  | declare {d : Nat} {v : Token} {b : Binder} :
      v.kind = .kwVar → v.Lexed → isName b.name.toList → Formed r d .declared (.declare v b)
  | chain {d : Nat} {o : Token} {left right : Node} {q : Place} :
      r = .parsed → o.kind.isInfix → o.Lexed → Formed r d .declared left → r.Allows q →
      Formed r d q right → Formed r d .declared (.infixed o left right)
  | assignedInit {d : Nat} {n : Node} : Formed r d .assigned n → Formed r d .init n
  | initialized {d line : Nat} {v : Token} {b : Binder} {n : Node} :
      v.kind = .kwVar → v.Lexed → isName b.name.toList → Formed r d .value n →
      Formed r d .init (.assign line (.declare v b) n)
  | operandStatement {d : Nat} {n : Node} : Formed r d .operand n → Formed r d .statement n
  | declaredStatement {d : Nat} {n : Node} : Formed r d .declared n → Formed r d .statement n
  | initStatement {d : Nat} {n : Node} : Formed r d .init n → Formed r d .statement n
  | block {d : Nat} {b : Block} :
      (∀ n ∈ b.nodes, Formed r (d + 1) .statement n) → Formed r d .statement (.block b)
  | conditional {d line : Nat} {test : Node} {b : Block} {c : Option Block} :
      Formed r d .value test → (∀ n ∈ b.nodes, Formed r (d + 1) .statement n) →
      (∀ e ∈ c, ∀ n ∈ e.nodes, Formed r (d + 1) .statement n) →
      Formed r d .statement (.conditional line test b c)
  | bareLoop {d line l : Nat} {b : Block} :
      (∀ n ∈ b.nodes, Formed r (d + 1) .statement n) →
      Formed r d .statement (.loop line none (.boolean l true) none b)
  | loop {d line : Nat} {o : Token} {init left right : Node} {step : Option Node} {b : Block}
      {p q : Place} :
      Formed r d .init init → o.kind.isInfix → o.Lexed → r.Allows p → Formed r d p left →
      r.Allows q → Formed r d q right → (∀ n ∈ step, Formed r d .value n) →
      (∀ n ∈ b.nodes, Formed r (d + 1) .statement n) →
      Formed r d .statement (.loop line (some init) (.infixed o left right) step b)
  | function {d line : Nat} {f : Binder} {params : List Binder} {b : Block} :
      isName f.name.toList → (∀ x ∈ params, isName x.name.toList) →
      (∀ n ∈ b.nodes, Formed r (d + 1) .statement n) →
      Formed r d .statement (.function line f params b)
  | returning {d line : Nat} {n : Node} :
      Formed r d .value n → Formed r d .statement (.returning line n)
  | breaking {d line : Nat} : Formed r d .statement (.breaking line)

/-- A statement whose printed form says all there is to it: it is `Formed` by `Rigor.canonical`.
Tokens are written in the way of their kind, operands are units, declarations are not operands,
and a string that spans lines is in no block. -/
def Canonical (n : Node) : Prop := Formed .canonical 0 .statement n

theorem Rigor.allows_canonical {p : Place} : Rigor.canonical.Allows p ↔ p = .operand := by
  simp [Allows]

theorem Rigor.Allows.parsed {r : Rigor} {p : Place} (h : r.Allows p) : Rigor.parsed.Allows p :=
  h.imp_right fun h => ⟨h.1, rfl⟩

/-- Trees that are `Formed` by either rigor are so by `Rigor.parsed`, whatever blocks are around
them. -/
theorem Formed.parsed {r : Rigor} {d d' : Nat} {p : Place} {n : Node} (h : Formed r d p n) :
    Formed .parsed d' p n := by
  -- only the strings of canonical trees depend on how many blocks there are
  induction h generalizing d' with
  | integer ht hl hv => exact .integer ht hl hv
  | string hq => exact .string hq nofun
  | boolean => exact .boolean
  | ident hx => exact .ident hx
  | call hx _ ih => exact .call hx fun n hn => ih n hn
  | prefixed ho hl hp _ ih => exact .prefixed ho hl hp.parsed ih
  | infixed ho hl hp _ hq _ ihl ihr => exact .infixed ho hl hp.parsed ihl hq.parsed ihr
  | assign hx _ ih => exact .assign hx ih
  | operandValue _ ih => exact .operandValue ih
  | assignedValue _ ih => exact .assignedValue ih
  | declare hv hl hx => exact .declare hv hl hx
  | chain _ ho hl _ hq _ ihl ihr => exact .chain rfl ho hl ihl hq.parsed ihr
  | assignedInit _ ih => exact .assignedInit ih
  | initialized hv hl hx _ ih => exact .initialized hv hl hx ih
  | operandStatement _ ih => exact .operandStatement ih
  | declaredStatement _ ih => exact .declaredStatement ih
  | initStatement _ ih => exact .initStatement ih
  | block _ ih => exact .block fun n hn => ih n hn
  | conditional _ _ _ iht ihb ihc =>
    exact .conditional iht (fun n hn => ihb n hn) fun e he n hn => ihc e he n hn
  | bareLoop _ ih => exact .bareLoop fun n hn => ih n hn
  | loop _ ho hl hp _ hq _ _ _ ihi ihl ihr ihs ihb =>
    exact .loop ihi ho hl hp.parsed ihl hq.parsed ihr (fun n hn => ihs n hn) fun n hn =>
      ihb n hn
  | function hf hx _ ih => exact .function hf hx fun n hn => ih n hn
  | returning _ ih => exact .returning ih
  | breaking => exact .breaking

end ScriptLang
