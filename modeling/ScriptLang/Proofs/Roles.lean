import ScriptLang.Proofs.ScopeDiscipline
import ScriptLang.Proofs.Survivors

/-!
# The parts of a tree and their roles

What trees from the parser look like is told here node by node: every node of a package, at any
depth, has a role in the node around it, and fits that role. This is what the shape of whole
trees, `Formed`, comes to at each of their nodes, and it holds of every package, whatever is
wrong with its source.

- `Role`: what a node is to the node around it, with `Node.parts` as the nodes inside a node.
- `Occurs`: the nodes of a list of statements, at any depth, with their roles.
- `Node.Fits`: what a node may look like in its role.
- `Formed.fits`, `Occurs.fits`: formed trees fit, and so do the nodes inside of them.
-/

namespace ScriptLang

/-- What a node is to the node around it, as `Node.parts` has it. -/
inductive Role where
  /-- A node of a package, or of the body of a block. -/
  | statement
  | callee
  | argument
  /-- What a prefix operator stands before. -/
  | operand
  | left
  | right
  /-- What is assigned to. -/
  | target
  /-- What is assigned. -/
  | assigned
  | condition
  | init
  | step
  | returned
  deriving DecidableEq

namespace Block

/-- The nodes of a block are statements. -/
def parts (b : Block) : List (Role × Node) := b.nodes.map fun n => (.statement, n)

end Block

namespace Node

/-- The nodes directly inside a node, with their roles. -/
def parts : Node → List (Role × Node)
  | assign _ target value => [(.target, target), (.assigned, value)]
  | prefixed _ operand => [(.operand, operand)]
  | infixed _ left right => [(.left, left), (.right, right)]
  | call _ callee args => (.callee, callee) :: args.map fun n => (.argument, n)
  | block body => body.parts
  | conditional _ test thenBlock elseBlock =>
    (.condition, test) :: thenBlock.parts ++ elseBlock.toList.flatMap Block.parts
  | loop _ init test step body =>
    init.toList.map (fun n => (.init, n)) ++ (.condition, test) ::
      step.toList.map (fun n => (.step, n)) ++ body.parts
  | function _ _ _ body => body.parts
  | returning _ value => [(.returned, value)]
  | integer .. | string .. | boolean .. | ident .. | declare .. | breaking _ => []

/-- Whether the first leaf of a chain of infix operators is a declaration. -/
def opensDeclaring : Node → Bool
  | infixed _ left _ => left.opensDeclaring
  | declare .. => true
  | _ => false

/-- What a node may look like in its `role`. -/
def Fits (role : Role) : Node → Prop
  | integer token value => token.kind = .integer ∧ token.literal.toList.all Char.isDigit ∧
      value.toInt = Nat.ofDigitChars 10 token.literal.toList 0
  | string _ value => '"' ∉ value.toList
  | boolean .. => True
  | ident _ name => isName name.toList
  | declare token binder => token.kind = .kwVar ∧ isName binder.name.toList ∧
      (role = .statement ∨ role = .target ∨ role = .left)
  | assign _ target _ => (∃ line name, target = ident line name) ∨
      (∃ token binder, target = declare token binder) ∧ (role = .statement ∨ role = .init)
  | prefixed operator _ => operator.kind.isPrefix
  | infixed operator left _ => operator.kind.isInfix ∧
      (left.opensDeclaring → role = .statement ∨ role = .left)
  | call _ callee _ => ∃ line name, callee = ident line name
  | loop _ init test step _ => role = .statement ∧
      ((∃ line target value, init = some (assign line target value)) ∧
          (∃ operator left right, test = infixed operator left right) ∨
        init = none ∧ step = none ∧ ∃ line, test = boolean line true)
  | function _ binder params _ => role = .statement ∧ isName binder.name.toList ∧
      ∀ param ∈ params, isName param.name.toList
  | block _ | conditional .. | returning .. | breaking _ => role = .statement

end Node

/-- The nodes of a list of statements, at any depth of `Node.parts`, with their roles. -/
inductive Occurs (ns : List Node) : Role → Node → Prop
  | statement {n : Node} : n ∈ ns → Occurs ns .statement n
  | part {role role' : Role} {n part : Node} :
      Occurs ns role n → (role', part) ∈ n.parts → Occurs ns role' part

/-- The roles of a tree at a `Place`. Expressions without declarations may have any. -/
def Role.At (role : Role) : Place → Prop
  | .statement => role = .statement
  | .declared => role = .statement ∨ role = .left
  | .init => role = .statement ∨ role = .init
  | .operand | .assigned | .value => True

/-- A node that `Node.IsExpression` begins with no declaration. -/
theorem Node.IsExpression.not_opensDeclaring {n : Node} (h : n.IsExpression) :
    ¬n.opensDeclaring := by
  induction h with
  | infixed _ _ ihl => exact ihl
  | _ => exact Bool.false_ne_true

/-- The literal of an integer that is `Token.Lexed` is digits, which are those of its value. -/
theorem toInt_of_lexed {t : Token} {v : Int64} (hk : t.kind = .integer) (hl : t.Lexed)
    (hv : Text.readInt? t.literal.toList = some v) :
    t.literal.toList.all Char.isDigit ∧ v.toInt = Nat.ofDigitChars 10 t.literal.toList 0 := by
  rw [Token.Lexed, hk] at hl
  obtain ⟨hne, hdigits⟩ := hl
  rw [Text.readInt?_of_isDigit hdigits, Text.readNat?, if_pos ⟨hne, hdigits⟩,
    Option.bind_some] at hv
  exact ⟨hdigits, Text.toInt_of_word? hv⟩

section Formed

variable {d : Nat} {p : Place} {n : Node} {role : Role}

/-- A tree that is `Formed` at a place `Node.Fits` every role it has there. -/
theorem Formed.fits (h : Formed .parsed d p n) (hrole : role.At p) : n.Fits role := by
  have hplain : ∀ q, Rigor.parsed.Allows q → q = .operand ∨ q = .assigned ∨ q = .value := by
    rintro q (rfl | ⟨rfl, -⟩)
    · exact .inl rfl
    · exact .inr (.inl rfl)
  induction h with
  | integer hk hl hv => exact ⟨hk, toInt_of_lexed hk hl hv⟩
  | string hq => exact hq
  | boolean => trivial
  | ident hx => exact hx
  | call => exact ⟨_, _, rfl⟩
  | prefixed ho => exact ho
  | infixed ho _ hp hleft =>
    exact ⟨ho, fun hopens =>
      absurd hopens (hleft.isExpression (hplain _ hp)).not_opensDeclaring⟩
  | assign => exact .inl ⟨_, _, rfl⟩
  | operandValue _ ih | assignedValue _ ih | operandStatement _ ih => exact ih trivial
  | assignedInit _ ih => exact ih trivial
  | declare hk _ hx => exact ⟨hk, hx, hrole.imp_right .inr⟩
  | chain _ ho => exact ⟨ho, fun _ => hrole⟩
  | initialized => exact .inr ⟨⟨_, _, rfl⟩, hrole⟩
  | declaredStatement _ ih | initStatement _ ih => exact ih (.inl hrole)
  | block | conditional | returning | breaking => exact hrole
  | bareLoop => exact ⟨hrole, .inr ⟨rfl, rfl, _, rfl⟩⟩
  | loop hinit =>
    refine ⟨hrole, .inl ⟨?_, _, _, _, rfl⟩⟩
    cases hinit with
    | assignedInit hinit =>
      cases hinit
      exact ⟨_, _, _, rfl⟩
    | initialized => exact ⟨_, _, _, rfl⟩
  | function hf hx => exact ⟨hrole, hf, hx⟩

/-- The nodes in `Block.parts` are formed as statements. -/
theorem Formed.of_mem_parts {b : Block} (h : ∀ n ∈ b.nodes, Formed .parsed d .statement n)
    (hn : (role, n) ∈ b.parts) : role.At .statement ∧ Formed .parsed d .statement n := by
  obtain ⟨m, hm, he⟩ := List.mem_map.mp hn
  cases he
  exact ⟨rfl, h _ hm⟩

/-- The `Node.parts` of a tree that is `Formed` are formed, and fit their places. Only what is
assigned to is neither a statement nor an expression, and nothing is inside of it. -/
theorem Formed.part {part : Node} (h : Formed .parsed d p n) (hpart : (role, part) ∈ n.parts) :
    (role = .target ∧ part.Fits .target ∧ part.parts = []) ∨
      ∃ d' p', role.At p' ∧ Formed .parsed d' p' part := by
  -- an operand, or an assignment in parentheses, may have any role
  have hallows : ∀ q, Rigor.parsed.Allows q → role.At q := by
    rintro q (rfl | ⟨rfl, -⟩)
    · trivial
    · trivial
  -- a rule that takes a tree to another place leaves
  -- its parts as they are; the others name the parts
  induction h with
  | integer | string | boolean | ident | declare | breaking => cases hpart
  | call hx hargs =>
    rcases List.mem_cons.mp hpart with he | hpart
    · cases he
      exact .inr ⟨d, .operand, trivial, .ident hx⟩
    · obtain ⟨arg, harg, he⟩ := List.mem_map.mp hpart
      cases he
      exact .inr ⟨_, .value, trivial, hargs _ harg⟩
  | prefixed _ _ hp hn =>
    cases List.mem_singleton.mp hpart
    exact .inr ⟨_, _, hallows _ hp, hn⟩
  | infixed _ _ hp hl hq hr =>
    rcases List.mem_cons.mp hpart with he | hpart
    · cases he
      exact .inr ⟨_, _, hallows _ hp, hl⟩
    · cases List.mem_singleton.mp hpart
      exact .inr ⟨_, _, hallows _ hq, hr⟩
  | assign hx hv =>
    rcases List.mem_cons.mp hpart with he | hpart
    · cases he
      exact .inl ⟨rfl, hx, rfl⟩
    · cases List.mem_singleton.mp hpart
      exact .inr ⟨_, .value, trivial, hv⟩
  | chain _ _ _ hl hq hr =>
    rcases List.mem_cons.mp hpart with he | hpart
    · cases he
      exact .inr ⟨_, .declared, .inr rfl, hl⟩
    · cases List.mem_singleton.mp hpart
      exact .inr ⟨_, _, hallows _ hq, hr⟩
  | initialized hk _ hx hv =>
    rcases List.mem_cons.mp hpart with he | hpart
    · cases he
      exact .inl ⟨rfl, ⟨hk, hx, .inr (.inl rfl)⟩, rfl⟩
    · cases List.mem_singleton.mp hpart
      exact .inr ⟨_, .value, trivial, hv⟩
  | operandValue _ ih | assignedValue _ ih | assignedInit _ ih | operandStatement _ ih
  | declaredStatement _ ih | initStatement _ ih => exact ih hpart
  | block hb => exact .inr ⟨_, _, of_mem_parts hb hpart⟩
  | conditional ht hb hc =>
    rcases List.mem_cons.mp hpart with he | hpart
    · cases he
      exact .inr ⟨_, .value, trivial, ht⟩
    · rcases List.mem_append.mp hpart with hpart | hpart
      · exact .inr ⟨_, _, of_mem_parts hb hpart⟩
      · obtain ⟨c, hmem, hpart⟩ := List.mem_flatMap.mp hpart
        exact .inr ⟨_, _, of_mem_parts (hc c (Option.mem_toList.mp hmem)) hpart⟩
  | bareLoop hb =>
    rcases List.mem_cons.mp hpart with he | hpart
    · cases he
      exact .inr ⟨d, .operand, trivial, .boolean⟩
    · exact .inr ⟨_, _, of_mem_parts hb hpart⟩
  | loop hi ho hl hp hleft hq hright hs hb =>
    rcases List.mem_cons.mp hpart with he | hpart
    · cases he
      exact .inr ⟨_, .init, .inr rfl, hi⟩
    · rcases List.mem_cons.mp hpart with he | hpart
      · cases he
        exact .inr ⟨_, .operand, trivial, .infixed ho hl hp hleft hq hright⟩
      · rcases List.mem_append.mp hpart with hpart | hpart
        · obtain ⟨m, hm, he⟩ := List.mem_map.mp hpart
          cases he
          exact .inr ⟨_, .value, trivial, hs _ (Option.mem_toList.mp hm)⟩
        · exact .inr ⟨_, _, of_mem_parts hb hpart⟩
  | function _ _ hb => exact .inr ⟨_, _, of_mem_parts hb hpart⟩
  | returning hv =>
    cases List.mem_singleton.mp hpart
    exact .inr ⟨_, .value, trivial, hv⟩

end Formed

/-- Whatever `Occurs` in formed statements is formed, but for what is assigned to. -/
theorem Occurs.formed {d : Nat} {ns : List Node} {role : Role} {n : Node}
    (h : Occurs ns role n) (hns : ∀ n ∈ ns, Formed .parsed d .statement n) :
    (role = .target ∧ n.Fits .target ∧ n.parts = []) ∨
      ∃ d' p, role.At p ∧ Formed .parsed d' p n := by
  -- nothing is inside of what is assigned to, so formed
  -- trees are all that the induction goes on from
  induction h with
  | statement hn => exact .inr ⟨d, .statement, rfl, hns _ hn⟩
  | part _ hpart ih =>
    obtain ⟨-, -, hnone⟩ | ⟨d', p, -, hform⟩ := ih
    · rw [hnone] at hpart
      cases hpart
    · exact hform.part hpart

/-- Whatever `Occurs` in formed statements `Node.Fits` its role. -/
theorem Occurs.fits {d : Nat} {ns : List Node} {role : Role} {n : Node} (h : Occurs ns role n)
    (hns : ∀ n ∈ ns, Formed .parsed d .statement n) : n.Fits role := by
  obtain ⟨rfl, hfits, -⟩ | ⟨d', p, hrole, hform⟩ := h.formed hns
  · exact hfits
  · exact hform.fits hrole

end ScriptLang
