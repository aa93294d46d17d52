import ScriptLang.Syntax.Printed

/-!
# Trees with other lines

A tree keeps the lines of its source. Most of what is said about trees does not depend on them,
so trees are compared *up to lines*: two trees agree if they are equal once every line is
replaced by the same number.

- `Node.induct`: induction over a tree, with the nodes of its lists and blocks at hand.
- `Token.relined`, `Node.relined`, `Block.relined`: every line sent through a function.
- `Token.bare`, `Node.bare`: every line erased; `Node.bare_relined` says that lines may be
  changed before they are erased.
- `Node.print_relined`: the printed form does not depend on lines.
-/

namespace ScriptLang

/-! ## Induction over trees -/

section Induction

variable {P : Node → Prop}
  (integer : ∀ token value, P (.integer token value))
  (string : ∀ line value, P (.string line value))
  (boolean : ∀ line value, P (.boolean line value))
  (ident : ∀ line name, P (.ident line name))
  (declare : ∀ token binder, P (.declare token binder))
  (assign : ∀ line target value, P target → P value → P (.assign line target value))
  (prefixed : ∀ operator operand, P operand → P (.prefixed operator operand))
  (infixed : ∀ operator left right, P left → P right → P (.infixed operator left right))
  (call : ∀ line callee args, P callee → (∀ n ∈ args, P n) → P (.call line callee args))
  (block : ∀ body : Block, (∀ n ∈ body.nodes, P n) → P (.block body))
  (conditional : ∀ line test thenBlock elseBlock, P test → (∀ n ∈ thenBlock.nodes, P n) →
    (∀ b ∈ elseBlock, ∀ n ∈ b.nodes, P n) → P (.conditional line test thenBlock elseBlock))
  (loop : ∀ line init test step body, (∀ n ∈ init, P n) → P test → (∀ n ∈ step, P n) →
    (∀ n ∈ body.nodes, P n) → P (.loop line init test step body))
  (function : ∀ line binder params body, (∀ n ∈ body.nodes, P n) →
    P (.function line binder params body))
  (returning : ∀ line value, P value → P (.returning line value))
  (breaking : ∀ line, P (.breaking line))

include integer string boolean ident declare assign prefixed infixed call block conditional loop
  function returning breaking

/-- Induction over a tree. -/
@[elab_as_elim]
theorem Node.induct (n : Node) : P n := by
  -- the lists and blocks of a node carry the induction as facts about their members
  refine @Node.rec P (fun b => ∀ n ∈ b.nodes, P n) (fun ns => ∀ n ∈ ns, P n)
    (fun b => ∀ c ∈ b, ∀ n ∈ c.nodes, P n) (fun o => ∀ n ∈ o, P n)
    integer string boolean ident declare assign prefixed infixed call block conditional loop
    function returning breaking (fun _ _ ih => ih) ?_ ?_ ?_ ?_ ?_ ?_ n
  · rintro n ⟨⟩
  · intro m ms hm hms n hn
    rcases List.mem_cons.mp hn with rfl | hn
    · exact hm
    · exact hms n hn
  · rintro b ⟨⟩
  · rintro b ih c ⟨⟩
    exact ih
  · rintro n ⟨⟩
  · rintro m ih n ⟨⟩
    exact ih

end Induction

/-! ## Changing lines -/

section Lines

variable (f : Nat → Nat)

/-- The token `t` with `f` applied to its line. -/
def Token.relined (t : Token) : Token := { t with line := f t.line }

/-- The binder `b` with `f` applied to its line. -/
def Binder.relined (b : Binder) : Binder := { b with line := f b.line }

mutual

/-- The tree with `f` applied to every line in it. -/
def Node.relined : Node → Node
  | .integer token value => .integer (token.relined f) value
  | .string line value => .string (f line) value
  | .boolean line value => .boolean (f line) value
  | .ident line name => .ident (f line) name
  | .declare token binder => .declare (token.relined f) (binder.relined f)
  | .assign line target value => .assign (f line) target.relined value.relined
  | .prefixed operator operand => .prefixed (operator.relined f) operand.relined
  | .infixed operator left right => .infixed (operator.relined f) left.relined right.relined
  | .call line callee args => .call (f line) callee.relined (relinedAll args)
  | .block body => .block body.relined
  | .conditional line test thenBlock elseBlock =>
    .conditional (f line) test.relined thenBlock.relined (relinedBlock? elseBlock)
  | .loop line init test step body =>
    .loop (f line) (relined? init) test.relined (relined? step) body.relined
  | .function line binder params body =>
    .function (f line) (binder.relined f) (params.map (Binder.relined f)) body.relined
  | .returning line value => .returning (f line) value.relined
  | .breaking line => .breaking (f line)
  termination_by structural n => n

/-- The block with `f` applied to every line in it. -/
def Block.relined : Block → Block
  | ⟨line, nodes⟩ => ⟨f line, relinedAll nodes⟩
  termination_by structural b => b

/-- `Node.relined` for each tree of a list. -/
def relinedAll : List Node → List Node
  | [] => []
  | n :: ns => n.relined :: relinedAll ns
  termination_by structural ns => ns

/-- `Node.relined` for a tree, if there is one. -/
def relined? : Option Node → Option Node
  | none => none
  | some n => some n.relined
  termination_by structural n => n

/-- `Block.relined` for a block, if there is one. -/
def relinedBlock? : Option Block → Option Block
  | none => none
  | some b => some b.relined
  termination_by structural b => b

end

/-- What `Node.relined` does with lists and options of trees is to map over them. -/
@[simp] theorem relinedAll_eq_map (ns : List Node) :
    relinedAll f ns = ns.map (Node.relined f) := by
  induction ns with
  | nil => rfl
  | cons n ns ih => simp [relinedAll, ih]

@[simp] theorem relined?_eq_map (n : Option Node) : relined? f n = n.map (Node.relined f) := by
  cases n <;> rfl

@[simp] theorem relinedBlock?_eq_map (b : Option Block) :
    relinedBlock? f b = b.map (Block.relined f) := by
  cases b <;> rfl

/-- `Block.relined` relines the nodes of a block one by one. -/
@[simp] theorem Block.nodes_relined (b : Block) :
    (b.relined f).nodes = b.nodes.map (Node.relined f) := by
  obtain ⟨line, nodes⟩ := b
  simp [Block.relined]

@[simp] theorem Block.line_relined (b : Block) : (b.relined f).line = f b.line := by
  cases b
  rfl

end Lines

/-- Blocks are equal if they begin on one line and hold the same nodes. -/
theorem Block.eq_of {b c : Block} (hl : b.line = c.line) (hn : b.nodes = c.nodes) : b = c := by
  cases b
  cases c
  simp_all

/-- To reline by `f` and then by `g` is to reline by both at once. -/
@[simp] theorem Node.relined_relined (f g : Nat → Nat) (n : Node) :
    (n.relined f).relined g = n.relined (g ∘ f) := by
  have blocks : ∀ b : Block, (∀ n ∈ b.nodes, (n.relined f).relined g = n.relined (g ∘ f)) →
      (b.relined f).relined g = b.relined (g ∘ f) := by
    intro b ih
    exact Block.eq_of (by simp) (by simpa using ih)
  induction n using Node.induct with
  | call line callee args ihc iha => simpa [relined, ihc] using iha
  | block body ih => simpa [relined] using blocks body ih
  | conditional line test thenBlock elseBlock iht ihb ihe =>
    cases elseBlock with
    | none => simpa [relined, iht] using blocks thenBlock ihb
    | some elseBlock => simpa [relined, iht, blocks thenBlock ihb] using blocks _ (ihe _ rfl)
  | loop line init test step body ihi iht ihs ihb =>
    have hi : (init.map (relined f)).map (relined g) = init.map (relined (g ∘ f)) := by
      cases init with
      | none => rfl
      | some n => simpa using ihi n rfl
    have hs : (step.map (relined f)).map (relined g) = step.map (relined (g ∘ f)) := by
      cases step with
      | none => rfl
      | some n => simpa using ihs n rfl
    simp only [relined, relined?_eq_map, hi, hs, iht, blocks body ihb, Function.comp]
  | function line binder params body ih =>
    simp [relined, blocks body ih, Binder.relined, Function.comp_def]
  | integer => rfl
  | string => rfl
  | boolean => rfl
  | ident => rfl
  | declare => rfl
  | breaking => rfl
  | assign line target value iht ihv => simp [relined, iht, ihv]
  | prefixed operator operand ih => simp [relined, ih, Token.relined]
  | infixed operator left right ihl ihr => simp [relined, ihl, ihr, Token.relined]
  | returning line value ih => simp [relined, ih]

/-- `Node.print` does not depend on lines. -/
@[simp] theorem Node.print_relined (f : Nat → Nat) (n : Node) :
    (n.relined f).print = n.print := by
  have blocks : ∀ b : Block, (∀ n ∈ b.nodes, (n.relined f).print = n.print) →
      (b.relined f).print = b.print := by
    intro b ih
    have hs : b.nodes.map (fun n => indented (Text.lines (n.relined f).print)) =
        b.nodes.map (fun n => indented (Text.lines n.print)) :=
      List.map_congr_left fun n hn => by rw [ih n hn]
    rw [Block.print_eq, Block.print_eq, Block.nodes_relined, List.flatMap_map, List.flatMap_def,
      List.flatMap_def, hs]
  induction n using Node.induct with
  | call line callee args ihc iha =>
    have ha : (args.map (relined f)).map print = args.map print := by
      rw [List.map_map]
      exact List.map_congr_left iha
    simp only [relined, print_call, relinedAll_eq_map, printAll_eq_map, ihc, ha]
  | block body ih => simpa [relined] using blocks body ih
  | conditional line test thenBlock elseBlock iht ihb ihe =>
    cases elseBlock with
    | none => simp [relined, iht, blocks thenBlock ihb]
    | some elseBlock =>
      simp [relined, iht, blocks thenBlock ihb, blocks elseBlock (ihe _ rfl)]
  | loop line init test step body ihi iht ihs ihb =>
    cases init with
    | none => simp [relined, blocks body ihb]
    | some init =>
      cases step with
      | none => simp [relined, ihi init rfl, iht, blocks body ihb]
      | some step => simp [relined, ihi init rfl, iht, ihs step rfl, blocks body ihb]
  | function line binder params body ih =>
    simp [relined, blocks body ih, Binder.relined, Function.comp_def]
  | integer => rfl
  | string => rfl
  | boolean => rfl
  | ident => rfl
  | declare => rfl
  | breaking => rfl
  | assign line target value iht ihv => simp [relined, iht, ihv]
  | prefixed operator operand ih => simp [relined, ih, Token.relined]
  | infixed operator left right ihl ihr => simp [relined, ihl, ihr, Token.relined]
  | returning line value ih => simp [relined, ih]

/-! ## Erasing lines -/

/-- The token `t` on line 0. -/
def Token.bare (t : Token) : Token := t.relined fun _ => 0

/-- The binder `b` on line 0. -/
def Binder.bare (b : Binder) : Binder := b.relined fun _ => 0

/-- The tree `n` with all lines 0, so that trees that are bare alike differ by lines only. -/
def Node.bare (n : Node) : Node := n.relined fun _ => 0

/-- The block `b` with all lines 0. -/
def Block.bare (b : Block) : Block := b.relined fun _ => 0

@[simp] theorem Token.kind_relined (f : Nat → Nat) (t : Token) : (t.relined f).kind = t.kind :=
  rfl

@[simp] theorem Token.literal_relined (f : Nat → Nat) (t : Token) :
    (t.relined f).literal = t.literal := rfl

@[simp] theorem Token.line_relined (f : Nat → Nat) (t : Token) :
    (t.relined f).line = f t.line := rfl

/-- `Token.bare` takes back what `Token.relined` does. -/
@[simp] theorem Token.bare_relined (f : Nat → Nat) (t : Token) : (t.relined f).bare = t.bare :=
  rfl

/-- Tokens that are equal but for lines have the same kind. -/
theorem Token.kind_of_bare {t u : Token} {kind : TokenKind} (h : t.bare = u.bare)
    (hu : u.kind = kind) : t.kind = kind := by
  show t.bare.kind = kind
  rw [h]
  exact hu

section Bare

variable (line : Nat)

/-- What `Node.bare` does to each form of node: the lines in it are 0, and its parts are
bare. -/
@[simp] theorem Node.bare_integer (t : Token) (v : Int64) :
    (integer t v).bare = integer t.bare v := rfl

@[simp] theorem Node.bare_string (s : String) : (string line s).bare = string 0 s := rfl

@[simp] theorem Node.bare_boolean (b : Bool) : (boolean line b).bare = boolean 0 b := rfl

@[simp] theorem Node.bare_ident (x : String) : (ident line x).bare = ident 0 x := rfl

@[simp] theorem Node.bare_declare (v : Token) (b : Binder) :
    (declare v b).bare = declare v.bare b.bare := rfl

@[simp] theorem Node.bare_assign (target value : Node) :
    (assign line target value).bare = assign 0 target.bare value.bare := rfl

@[simp] theorem Node.bare_prefixed (o : Token) (n : Node) :
    (prefixed o n).bare = prefixed o.bare n.bare := rfl

@[simp] theorem Node.bare_infixed (o : Token) (left right : Node) :
    (infixed o left right).bare = infixed o.bare left.bare right.bare := rfl

/-- Arguments are bare one by one. -/
@[simp] theorem Node.bare_call (callee : Node) (args : List Node) :
    (call line callee args).bare = call 0 callee.bare (args.map bare) := by
  rw [bare, relined, relinedAll_eq_map]
  rfl

@[simp] theorem Node.bare_block (b : Block) : (block b).bare = block b.bare := rfl

/-- So are the branches of a conditional, of which the second may be missing. -/
@[simp] theorem Node.bare_conditional (test : Node) (b : Block) (c : Option Block) :
    (conditional line test b c).bare = conditional 0 test.bare b.bare (c.map Block.bare) := by
  rw [bare, relined, relinedBlock?_eq_map]
  rfl

/-- So are the parts of a loop's head that are there. -/
@[simp] theorem Node.bare_loop (init : Option Node) (test : Node) (step : Option Node)
    (b : Block) :
    (loop line init test step b).bare =
      loop 0 (init.map bare) test.bare (step.map bare) b.bare := by
  rw [bare, relined, relined?_eq_map, relined?_eq_map]
  rfl

@[simp] theorem Node.bare_function (f : Binder) (params : List Binder) (b : Block) :
    (function line f params b).bare = function 0 f.bare (params.map Binder.bare) b.bare := rfl

@[simp] theorem Node.bare_returning (n : Node) :
    (returning line n).bare = returning 0 n.bare := rfl

@[simp] theorem Node.bare_breaking : (breaking line).bare = breaking 0 := rfl

end Bare

/-- `Block.bare` is done node by node. -/
@[simp] theorem Block.bare_mk (line : Nat) (ns : List Node) :
    Block.bare ⟨line, ns⟩ = ⟨0, ns.map Node.bare⟩ :=
  Block.eq_of rfl (Block.nodes_relined _ _)

/-- The nodes of a bare block, for a block that is not taken apart. -/
theorem Block.nodes_bare (b : Block) : b.bare.nodes = b.nodes.map Node.bare := b.nodes_relined _

/-- `Node.bare` forgets any change of lines. -/
@[simp] theorem Node.bare_relined (f : Nat → Nat) (n : Node) : (n.relined f).bare = n.bare :=
  n.relined_relined f _

end ScriptLang
