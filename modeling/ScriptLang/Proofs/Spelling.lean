import ScriptLang.Proofs.Canonical
import ScriptLang.Proofs.Indent
import ScriptLang.Proofs.Lexeme

/-!
# The tokens of a printed tree

A printed tree is lexed into the tokens that it is spelled with: each node spells its own tokens
around those of its parts. So the characters of a printed form, with its blanks, tabs and line
feeds, need not be looked at again. Only the strings of a tree depend on the number of blocks
around them.

- `Node.spell`, `Block.spell`: the tokens that a tree is printed with, inside of some blocks.
- `Node.spell_relined`: they do not depend on lines.
- `Formed.lexemes_print`: the printed form of a tree is lexed into its spelling.
- `reprint`, `lexemes_reprint`: the same for the statements of a package.
-/

namespace ScriptLang

open Text

/-! ## Spellings -/

mutual

/-- The tokens that `Node.print` gives a tree, inside of the given number of blocks. They are
all on line 0. -/
def Node.spell : Nat → Node → List Token
  | _, .integer t _ => [t.bare]
  | d, .string _ s => [⟨.string, 0, String.ofList (sink d s.toList)⟩]
  | _, .boolean _ b => [.ofKind (if b then .kwTrue else .kwFalse) 0]
  | _, .ident _ x => [⟨.ident, 0, x⟩]
  | _, .declare v b => [v.bare, ⟨.ident, 0, b.name⟩]
  | d, .assign _ target value => target.spell d ++ .ofKind .equal 0 :: value.spell d
  | d, .prefixed o n => .ofKind .leftParen 0 :: o.bare :: n.spell d ++ [.ofKind .rightParen 0]
  | d, .infixed o left right =>
    .ofKind .leftParen 0 :: left.spell d ++ o.bare :: right.spell d ++ [.ofKind .rightParen 0]
  | d, .call _ callee args =>
    callee.spell d ++ .ofKind .leftParen 0 :: [.ofKind .comma 0].intercalate
      (spellAll d args) ++ [.ofKind .rightParen 0]
  | d, .block b => b.spell d
  | d, .conditional _ test b none =>
    .ofKind .kwIf 0 :: .ofKind .leftParen 0 :: test.spell d ++
      .ofKind .rightParen 0 :: b.spell d
  | d, .conditional _ test b (some c) =>
    .ofKind .kwIf 0 :: .ofKind .leftParen 0 :: test.spell d ++ .ofKind .rightParen 0 ::
      b.spell d ++ .ofKind .kwElse 0 :: c.spell d
  | d, .loop _ none _ _ b => .ofKind .kwLoop 0 :: b.spell d
  | d, .loop _ (some init) test none b =>
    .ofKind .kwLoop 0 :: .ofKind .leftParen 0 :: init.spell d ++ .ofKind .semicolon 0 ::
      test.spell d ++ .ofKind .semicolon 0 :: .ofKind .rightParen 0 :: b.spell d
  | d, .loop _ (some init) test (some step) b =>
    .ofKind .kwLoop 0 :: .ofKind .leftParen 0 :: init.spell d ++ .ofKind .semicolon 0 ::
      test.spell d ++ .ofKind .semicolon 0 :: step.spell d ++ .ofKind .rightParen 0 :: b.spell d
  | d, .function _ f params b =>
    .ofKind .kwFun 0 :: ⟨.ident, 0, f.name⟩ :: .ofKind .leftParen 0 ::
      [.ofKind .comma 0].intercalate (params.map fun x => [⟨.ident, 0, x.name⟩]) ++
        .ofKind .rightParen 0 :: b.spell d
  | d, .returning _ n => .ofKind .kwReturn 0 :: n.spell d
  | _, .breaking _ => [.ofKind .kwBreak 0]
  termination_by structural _ n => n

/-- The tokens that `Block.print` gives a block. -/
def Block.spell : Nat → Block → List Token
  | d, ⟨_, ns⟩ =>
    .ofKind .leftBrace 0 :: spellStatements (d + 1) ns ++ [.ofKind .rightBrace 0]
  termination_by structural _ b => b

/-- The spellings of the trees of a list, each by `Node.spell`. -/
def spellAll : Nat → List Node → List (List Token)
  | _, [] => []
  | d, n :: ns => n.spell d :: spellAll d ns
  termination_by structural _ ns => ns

/-- The tokens that `printStatements` gives statements. -/
def spellStatements : Nat → List Node → List Token
  | _, [] => []
  | d, n :: ns => n.spell d ++ .ofKind .semicolon 0 :: spellStatements d ns
  termination_by structural _ ns => ns

end

section Equations

variable (d line : Nat)

@[simp] theorem Node.spell_integer (t : Token) (v : Int64) :
    (integer t v).spell d = [t.bare] := rfl

/-- Behind the line feeds of a string stand the tabs of the blocks around it, by `Text.sink`. -/
@[simp] theorem Node.spell_string (s : String) :
    (string line s).spell d = [⟨.string, 0, String.ofList (sink d s.toList)⟩] := rfl

@[simp] theorem Node.spell_boolean (b : Bool) :
    (boolean line b).spell d = [.ofKind (if b then .kwTrue else .kwFalse) 0] := rfl

@[simp] theorem Node.spell_ident (x : String) : (ident line x).spell d = [⟨.ident, 0, x⟩] := rfl

@[simp] theorem Node.spell_declare (v : Token) (b : Binder) :
    (declare v b).spell d = [v.bare, ⟨.ident, 0, b.name⟩] := rfl

/-- As in `Node.print`, an assignment has no parentheses of its own. -/
@[simp] theorem Node.spell_assign (target value : Node) :
    (assign line target value).spell d = target.spell d ++ .ofKind .equal 0 :: value.spell d :=
  rfl

@[simp] theorem Node.spell_prefixed (o : Token) (n : Node) :
    (prefixed o n).spell d =
      .ofKind .leftParen 0 :: o.bare :: n.spell d ++ [.ofKind .rightParen 0] := rfl

@[simp] theorem Node.spell_infixed (o : Token) (left right : Node) :
    (infixed o left right).spell d =
      .ofKind .leftParen 0 :: left.spell d ++ o.bare :: right.spell d ++
        [.ofKind .rightParen 0] := rfl

@[simp] theorem Node.spell_call (callee : Node) (args : List Node) :
    (call line callee args).spell d =
      callee.spell d ++ .ofKind .leftParen 0 ::
        [.ofKind .comma 0].intercalate (spellAll d args) ++ [.ofKind .rightParen 0] := rfl

@[simp] theorem Node.spell_block (b : Block) : (block b).spell d = b.spell d := rfl

/-- A conditional without `else`. -/
@[simp] theorem Node.spell_conditional (test : Node) (b : Block) :
    (conditional line test b none).spell d =
      .ofKind .kwIf 0 :: .ofKind .leftParen 0 :: test.spell d ++
        .ofKind .rightParen 0 :: b.spell d := rfl

/-- A conditional with both branches. -/
@[simp] theorem Node.spell_conditional_else (test : Node) (b c : Block) :
    (conditional line test b (some c)).spell d =
      .ofKind .kwIf 0 :: .ofKind .leftParen 0 :: test.spell d ++ .ofKind .rightParen 0 ::
        b.spell d ++ .ofKind .kwElse 0 :: c.spell d := rfl

/-- A bare loop is spelled without its condition. -/
@[simp] theorem Node.spell_loop (test : Node) (step : Option Node) (b : Block) :
    (loop line none test step b).spell d = .ofKind .kwLoop 0 :: b.spell d := rfl

/-- A loop with a head of two parts. -/
@[simp] theorem Node.spell_loop_init (init test : Node) (b : Block) :
    (loop line (some init) test none b).spell d =
      .ofKind .kwLoop 0 :: .ofKind .leftParen 0 :: init.spell d ++ .ofKind .semicolon 0 ::
        test.spell d ++ .ofKind .semicolon 0 :: .ofKind .rightParen 0 :: b.spell d := rfl

/-- A loop with a head of three parts. -/
@[simp] theorem Node.spell_loop_step (init test step : Node) (b : Block) :
    (loop line (some init) test (some step) b).spell d =
      .ofKind .kwLoop 0 :: .ofKind .leftParen 0 :: init.spell d ++ .ofKind .semicolon 0 ::
        test.spell d ++ .ofKind .semicolon 0 :: step.spell d ++ .ofKind .rightParen 0 ::
          b.spell d := rfl

@[simp] theorem Node.spell_function (f : Binder) (params : List Binder) (b : Block) :
    (function line f params b).spell d =
      .ofKind .kwFun 0 :: ⟨.ident, 0, f.name⟩ :: .ofKind .leftParen 0 ::
        [.ofKind .comma 0].intercalate (params.map fun x => [⟨.ident, 0, x.name⟩]) ++
          .ofKind .rightParen 0 :: b.spell d := rfl

@[simp] theorem Node.spell_returning (n : Node) :
    (returning line n).spell d = .ofKind .kwReturn 0 :: n.spell d := rfl

@[simp] theorem Node.spell_breaking : (breaking line).spell d = [.ofKind .kwBreak 0] := rfl

end Equations

@[simp] theorem spellAll_eq_map (d : Nat) (ns : List Node) :
    spellAll d ns = ns.map (Node.spell d) := by
  induction ns with
  | nil => rfl
  | cons n ns ih => rw [spellAll, ih, List.map_cons]

/-- `spellStatements` puts a semicolon behind the spelling of every statement. -/
theorem spellStatements_eq_flatMap (d : Nat) (ns : List Node) :
    spellStatements d ns = ns.flatMap fun n => n.spell d ++ [.ofKind .semicolon 0] := by
  induction ns with
  | nil => rfl
  | cons n ns ih => rw [spellStatements, ih, List.flatMap_cons, List.append_assoc]; rfl

/-- `Block.spell` puts braces around the spellings of the statements, which are one block
further in. -/
theorem Block.spell_eq (d : Nat) (b : Block) :
    b.spell d = .ofKind .leftBrace 0 ::
      (b.nodes.flatMap fun n => n.spell (d + 1) ++ [.ofKind .semicolon 0]) ++
        [.ofKind .rightBrace 0] := by
  obtain ⟨line, ns⟩ := b
  rw [← spellStatements_eq_flatMap]
  rfl

/-- The same with `spellStatements`, by which the induction over a block goes. -/
theorem Block.spell_cons (d : Nat) (b : Block) :
    b.spell d = .ofKind .leftBrace 0 ::
      (spellStatements (d + 1) b.nodes ++ [.ofKind .rightBrace 0]) := by
  rw [spell_eq, spellStatements_eq_flatMap]
  rfl

/-- `Node.spell` does not depend on lines, so `Node.relined` leaves it as it is. -/
@[simp] theorem Node.spell_relined (f : Nat → Nat) (d : Nat) (n : Node) :
    (n.relined f).spell d = n.spell d := by
  -- statements of a block are one level further in, so the claim is for every level
  have blocks : ∀ (b : Block) (d : Nat),
      (∀ n ∈ b.nodes, ∀ d, (n.relined f).spell d = n.spell d) →
      (b.relined f).spell d = b.spell d := by
    intro b d ih
    have hs : b.nodes.map (fun n => (n.relined f).spell (d + 1) ++ [.ofKind .semicolon 0]) =
        b.nodes.map (fun n => n.spell (d + 1) ++ [.ofKind .semicolon 0]) :=
      List.map_congr_left fun n hn => by rw [ih n hn]
    rw [Block.spell_eq, Block.spell_eq, Block.nodes_relined, List.flatMap_map, List.flatMap_def,
      List.flatMap_def, hs]
  induction n using Node.induct generalizing d with
  | call line callee args ihc iha =>
    have ha : (args.map (relined f)).map (spell d) = args.map (spell d) := by
      rw [List.map_map]
      exact List.map_congr_left fun n hn => iha n hn d
    simp only [relined, spell_call, relinedAll_eq_map, spellAll_eq_map, ihc, ha]
  | block body ih => simpa [relined] using blocks body d ih
  | conditional line test thenBlock elseBlock iht ihb ihe =>
    cases elseBlock with
    | none => simp [relined, iht, blocks thenBlock d ihb]
    | some elseBlock =>
      simp [relined, iht, blocks thenBlock d ihb, blocks elseBlock d (ihe _ rfl)]
  | loop line init test step body ihi iht ihs ihb =>
    cases init with
    | none => simp [relined, blocks body d ihb]
    | some init =>
      cases step with
      | none => simp [relined, ihi init rfl, iht, blocks body d ihb]
      | some step => simp [relined, ihi init rfl, iht, ihs step rfl, blocks body d ihb]
  | function line binder params body ih =>
    simp [relined, blocks body d ih, Binder.relined, Function.comp_def]
  | integer => rfl
  | string => rfl
  | boolean => rfl
  | ident => rfl
  | declare => rfl
  | breaking => rfl
  | assign line target value iht ihv => simp [relined, iht, ihv]
  | prefixed operator operand ih => simp [relined, ih]
  | infixed operator left right ihl ihr => simp [relined, ihl, ihr]
  | returning line value ih => simp [relined, ih]

/-- `Node.bare` leaves a spelling as it is. -/
@[simp] theorem Node.spell_bare (d : Nat) (n : Node) : n.bare.spell d = n.spell d :=
  n.spell_relined _ d

/-! ## How printed forms begin and end -/

/-- The text `cs` begins with a character that ends no line and continues no symbol. -/
def Fresh (cs : List Char) : Prop :=
  ∃ c ds, cs = c :: ds ∧ (c ≠ '\r' ∧ c ≠ '\n') ∧ c ≠ '=' ∧ c ≠ '/'

/-- A text is `Fresh` by its first character. -/
theorem Fresh.append {cs : List Char} (h : Fresh cs) (ds : List Char) : Fresh (cs ++ ds) := by
  obtain ⟨c, cs, rfl, h⟩ := h
  exact ⟨c, cs ++ ds, rfl, h⟩

/-- A symbol may stand in front of text that is `Fresh`, inside of whatever blocks. -/
theorem Fresh.opens {cs : List Char} (h : Fresh cs) (d : Nat) (rest : List Char) :
    Opens (sink d cs ++ rest) := by
  obtain ⟨c, cs, rfl, hc, h⟩ := h
  rw [sink_cons hc]
  exact opens_cons h

/-- A character that `isNameContinue` ends no line and continues no symbol. -/
theorem ne_of_isNameContinue {c : Char} (h : isNameContinue c) :
    (c ≠ '\r' ∧ c ≠ '\n') ∧ c ≠ '=' ∧ c ≠ '/' := by
  refine ⟨⟨?_, ?_⟩, ?_, ?_⟩ <;>
  · rintro rfl
    exact absurd h (by decide)

section Words

variable {cs : List Char}

/-- A word, whose characters all pass `isNameContinue`, is `Fresh`. -/
theorem fresh_of_word (hne : cs ≠ []) (h : ∀ c ∈ cs, isNameContinue c) : Fresh cs := by
  obtain ⟨c, cs, rfl⟩ := List.exists_cons_of_ne_nil hne
  exact ⟨c, cs, rfl, ne_of_isNameContinue (h c List.mem_cons_self)⟩

theorem solid_of_word (hne : cs ≠ []) (h : ∀ c ∈ cs, isNameContinue c) : Solid cs := by
  refine ⟨cs.getLast hne, List.getLast?_eq_some_getLast hne, ?_⟩
  exact (ne_of_isNameContinue (h _ (List.getLast_mem hne))).1

theorem sink_word (d : Nat) (h : ∀ c ∈ cs, isNameContinue c) : sink d cs = cs :=
  sink_of_not_mem fun hn => (ne_of_isNameContinue (h _ hn)).1.2 rfl

/-- A text that passes `isName` is a word. -/
theorem word_of_isName (h : isName cs) : cs ≠ [] ∧ ∀ c ∈ cs, isNameContinue c := by
  cases cs with
  | nil => cases h
  | cons c cs =>
    rw [isName, Bool.and_eq_true, Bool.and_eq_true] at h
    refine ⟨List.cons_ne_nil _ _, fun x hx => ?_⟩
    rcases List.mem_cons.mp hx with rfl | hx
    · exact isNameContinue_of_isNameStart h.1.1
    · exact List.all_eq_true.mp h.1.2 x hx

end Words

/-- An operator that is `Token.Lexed` is written as its kind. -/
theorem Token.Lexed.operator {o : Token} (h : o.Lexed) (hk : o.kind.isPrefix ∨ o.kind.isInfix) :
    o.kind.isSymbol ∧ o.kind.text.toList = o.literal.toList := by
  rw [Token.Lexed] at h
  revert h hk
  cases o.kind <;> first | exact fun h _ => ⟨rfl, h⟩ | exact fun _ hk => absurd hk (by decide)

/-- A token whose literal is the text of its kind is bared to `Token.ofKind`. -/
theorem Token.bare_of_text {t : Token} (h : t.kind.text.toList = t.literal.toList) :
    t.bare = .ofKind t.kind 0 := by
  show Token.mk t.kind 0 t.literal = ⟨t.kind, 0, t.kind.text⟩
  rw [String.toList_inj.mp h]

/-- The text of a kind that passes `TokenKind.isSymbol` has no line feed and is `Firm`. -/
theorem plain_of_isSymbol {kind : TokenKind} (h : kind.isSymbol) :
    '\n' ∉ kind.text.toList ∧ Firm kind.text.toList := by
  revert h
  cases kind <;> exact fun _ => ⟨by decide, by unfold Firm; decide⟩

/-- The text of a keyword has no line feed and is `Firm`. -/
theorem plain_of_keyword {kind : TokenKind} (h : kind ∈ TokenKind.keywords) :
    '\n' ∉ kind.text.toList ∧ Firm kind.text.toList := by
  revert h
  cases kind <;> first
    | exact fun h => absurd h (by decide)
    | exact fun _ => ⟨by decide, by unfold Firm; decide⟩

section Print

variable {r : Rigor} {d : Nat} {p : Place} {n : Node}

/-- The literal of an integer that is `Token.Lexed` is digits, and at least one. -/
theorem digits_of_integer {t : Token} (hk : t.kind = .integer) (hl : t.Lexed) :
    t.literal.toList ≠ [] ∧ t.literal.toList.all Char.isDigit := by
  rw [Token.Lexed, hk] at hl
  exact hl

theorem word_of_integer {t : Token} (hk : t.kind = .integer) (hl : t.Lexed) :
    t.literal.toList ≠ [] ∧ ∀ c ∈ t.literal.toList, isNameContinue c := by
  obtain ⟨hne, hall⟩ := digits_of_integer hk hl
  exact ⟨hne, fun c hc => isNameContinue_of_isDigit (List.all_eq_true.mp hall c hc)⟩

/-- The printed form of an operand is `Fresh`. -/
theorem Formed.fresh_operand (h : Formed r d .operand n) : Fresh n.print := by
  cases h with
  | integer hk hl => exact fresh_of_word (word_of_integer hk hl).1 (word_of_integer hk hl).2
  | string => exact ⟨'"', _, rfl, by decide⟩
  | @boolean _ _ b =>
    cases b
    · exact ⟨'f', _, rfl, by decide⟩
    · exact ⟨'t', _, rfl, by decide⟩
  | ident hx => exact fresh_of_word (word_of_isName hx).1 (word_of_isName hx).2
  | call hx =>
    rw [Node.print_call, Node.print_ident, List.append_assoc]
    exact (fresh_of_word (word_of_isName hx).1 (word_of_isName hx).2).append _
  | prefixed => exact ⟨'(', _, rfl, by decide⟩
  | infixed => exact ⟨'(', _, rfl, by decide⟩

/-- An assignment is `Fresh`, as it starts with the name on its left side. -/
theorem Formed.fresh_assigned (h : Formed r d .assigned n) : Fresh n.print := by
  cases h with
  | assign hx =>
    rw [Node.print_assign, Node.print_ident, List.append_assoc]
    exact (fresh_of_word (word_of_isName hx).1 (word_of_isName hx).2).append _

/-- So is whatever may be an operand, at either `Place` that `Rigor.Allows`. -/
theorem Formed.fresh_of_allows (hp : r.Allows p) (h : Formed r d p n) :
    Fresh n.print := by
  obtain rfl | ⟨rfl, -⟩ := hp
  · exact h.fresh_operand
  · exact h.fresh_assigned

/-- The printed form of a block is `Solid`, as it ends on a brace. -/
theorem Block.solid_print (b : Block) : Solid b.print := by
  rw [Block.print_eq]
  exact .append _ ⟨'\x7d', rfl, by decide⟩

/-- The printed form of a tree is `Solid`. -/
theorem Formed.solid_print (h : Formed r d p n) : Solid n.print := by
  induction h with
  | integer hk hl => exact solid_of_word (word_of_integer hk hl).1 (word_of_integer hk hl).2
  | string => exact .append _ ⟨'"', rfl, by decide⟩
  | @boolean _ _ b => cases b <;> exact ⟨'e', rfl, by decide⟩
  | ident hx => exact solid_of_word (word_of_isName hx).1 (word_of_isName hx).2
  | call | prefixed | infixed | chain => exact .append _ ⟨')', rfl, by decide⟩
  | assign _ _ ih | initialized _ _ _ _ ih | returning _ ih => exact .append _ ih
  | declare _ _ hx =>
    exact .append _ (.append [' '] (solid_of_word (word_of_isName hx).1 (word_of_isName hx).2))
  | operandValue _ ih | assignedValue _ ih | assignedInit _ ih | operandStatement _ ih
  | declaredStatement _ ih | initStatement _ ih => exact ih
  | @block _ b => exact b.solid_print
  | @conditional _ _ _ b c =>
    cases c with
    | none => exact .append _ b.solid_print
    | some c => exact .append _ c.solid_print
  | @bareLoop _ _ _ b => exact .append _ b.solid_print
  | @loop _ _ _ _ _ _ step b =>
    cases step with
    | none => exact .append _ b.solid_print
    | some step => exact .append _ b.solid_print
  | @function _ _ _ _ b =>
    rw [Node.print_function]
    exact .append _ b.solid_print
  | breaking => exact ⟨'k', rfl, by decide⟩

end Print

/-! ## How spellings begin -/

/-- The kind of the first token of `Node.spell`. -/
def Node.headKind : Node → TokenKind
  | integer .. => .integer
  | string .. => .string
  | boolean _ b => if b then .kwTrue else .kwFalse
  | ident .. | call .. => .ident
  | declare .. | assign _ (declare ..) _ => .kwVar
  | assign .. => .ident
  | prefixed .. | infixed .. => .leftParen
  | block _ => .leftBrace
  | conditional .. => .kwIf
  | loop .. => .kwLoop
  | function .. => .kwFun
  | returning .. => .kwReturn
  | breaking _ => .kwBreak

/-- A spelling starts with a token of the kind `Node.headKind`. -/
theorem Formed.spell_head {r : Rigor} {d : Nat} {p : Place} {n : Node} (h : Formed r d p n) :
    ∃ t ts, n.spell d = t :: ts ∧ t.kind = n.headKind := by
  induction h with
  | integer ht => exact ⟨_, _, rfl, ht⟩
  | declare hv | initialized hv => exact ⟨_, _, rfl, hv⟩
  | operandValue _ ih | assignedValue _ ih | assignedInit _ ih | operandStatement _ ih
  | declaredStatement _ ih | initStatement _ ih => exact ih
  | @block _ b =>
    rw [Node.spell_block, Block.spell_cons]
    exact ⟨_, _, rfl, rfl⟩
  | @conditional _ _ _ _ c => cases c <;> exact ⟨_, _, rfl, rfl⟩
  | @loop _ _ _ _ _ _ step => cases step <;> exact ⟨_, _, rfl, rfl⟩
  | _ => exact ⟨_, _, rfl, rfl⟩

/-- By `Node.headKind`, no statement begins with a semicolon. -/
theorem Node.headKind_ne_semicolon (n : Node) : n.headKind ≠ .semicolon := by
  unfold headKind
  split <;> try decide
  split <;> decide

/-! ## Printed forms are lexed into spellings -/

section Lexemes

open Cursor

variable {d : Nat}

/-- Sunk into `d` blocks, the text `cs` is lexed into `ts`, in front of whatever may stand
behind a tree. -/
def Reads (d : Nat) (cs : List Char) (ts : List Token) : Prop :=
  ∀ rest, Ends rest → lexemes (sink d cs ++ rest) = ts ++ lexemes rest

/-- The text `cs` begins with a character that ends no line, but every token in front of it. -/
def Apart (cs : List Char) : Prop :=
  ∃ c ds, cs = c :: ds ∧ (c ≠ '\r' ∧ c ≠ '\n') ∧ isNameContinue c = false ∧ c ≠ '=' ∧ c ≠ '/'

/-- A text is `Apart` by its first character. -/
theorem apart_cons {c : Char} {cs : List Char} (h : (c ≠ '\r' ∧ c ≠ '\n') ∧
    isNameContinue c = false ∧ c ≠ '=' ∧ c ≠ '/') : Apart (c :: cs) := ⟨c, cs, rfl, h⟩

/-- A name, a number or a symbol ends in front of what is `Apart`, inside of blocks as well. -/
theorem Apart.ends {cs : List Char} (h : Apart cs) (d : Nat) (rest : List Char) :
    Ends (sink d cs ++ rest) := by
  obtain ⟨c, cs, rfl, hc, h⟩ := h
  rw [sink_cons hc]
  exact ends_cons h

/-- What is `Apart` is `Fresh` as well. -/
theorem Apart.fresh {cs : List Char} (h : Apart cs) : Fresh cs := by
  obtain ⟨c, cs, rfl, hc, -, h⟩ := h
  exact ⟨c, cs, rfl, hc, h⟩

/-- What printed forms put behind a tree is `Apart`: a space, and the brackets and separators
below. -/
theorem apart_space (cs : List Char) : Apart (' ' :: cs) := apart_cons (by decide)

theorem apart_leftParen (cs : List Char) : Apart ('(' :: cs) := apart_cons (by decide)

theorem apart_rightParen (cs : List Char) : Apart (')' :: cs) := apart_cons (by decide)

theorem apart_comma (cs : List Char) : Apart (',' :: cs) := apart_cons (by decide)

theorem apart_semicolon (cs : List Char) : Apart (';' :: cs) := apart_cons (by decide)

theorem ends_semicolon (cs : List Char) : Ends (';' :: cs) := ends_cons (by decide)

namespace Reads

variable {cs ds : List Char} {ts us : List Token}

theorem nil : Reads d [] [] := by
  intro rest _
  rw [sink_nil]
  rfl

/-- What a text `Reads` as and what another one does stand one behind the other, if the second
is `Apart`. -/
theorem append (h : Reads d cs ts) (hf : Firm cs) (ha : Apart ds) (h' : Reads d ds us) :
    Reads d (cs ++ ds) (ts ++ us) := by
  intro rest hrest
  rw [sink_append hf, List.append_assoc, h _ (ha.ends d rest), h' rest hrest, List.append_assoc]

/-- A space in front of a text adds no token to what it `Reads` as. -/
theorem space (h : Reads d cs ts) : Reads d (' ' :: cs) ts := by
  intro rest hrest
  rw [sink_cons (by decide), List.cons_append, lexemes_space, h rest hrest]

/-- A character `c` that is the token `t` whatever stands behind it. -/
theorem cons {c : Char} {t : Token} (hc : c ≠ '\r' ∧ c ≠ '\n')
    (ht : ∀ rest, lexemes (c :: rest) = t :: lexemes rest) (h : Reads d cs ts) :
    Reads d (c :: cs) (t :: ts) := by
  intro rest hrest
  rw [sink_cons hc, List.cons_append, ht, h rest hrest, List.cons_append]

/-- A parenthesis is read whatever is behind it; so are the characters of the next lemmas. -/
theorem leftParen (h : Reads d cs ts) : Reads d ('(' :: cs) (.ofKind .leftParen 0 :: ts) :=
  h.cons (by decide) fun _ => lexemes_leftParen

theorem rightParen (h : Reads d cs ts) : Reads d (')' :: cs) (.ofKind .rightParen 0 :: ts) :=
  h.cons (by decide) fun _ => lexemes_rightParen

theorem comma (h : Reads d cs ts) : Reads d (',' :: cs) (.ofKind .comma 0 :: ts) :=
  h.cons (by decide) fun _ => lexemes_comma

theorem semicolon (h : Reads d cs ts) : Reads d (';' :: cs) (.ofKind .semicolon 0 :: ts) :=
  h.cons (by decide) fun _ => lexemes_semicolon

/-- The symbol of a `kind` is read in front of text that is `Fresh`. -/
theorem symbol (h : Reads d cs ts) (hf : Fresh cs) {kind : TokenKind} (hk : kind.isSymbol) :
    Reads d (kind.text.toList ++ cs) (.ofKind kind 0 :: ts) := by
  intro rest hrest
  obtain ⟨hplain, hfirm⟩ := plain_of_isSymbol hk
  rw [sink_append hfirm, sink_of_not_mem hplain, List.append_assoc,
    lexemes_ofKind hk (hf.opens d rest), h rest hrest, List.cons_append]

/-- The keyword of a `kind` is read in front of a blank. -/
theorem keyword (h : Reads d cs ts) (kind : TokenKind) (hk : kind ∈ TokenKind.keywords) :
    Reads d (kind.text.toList ++ ' ' :: cs) (.ofKind kind 0 :: ts) := by
  intro rest hrest
  obtain ⟨hplain, hfirm⟩ := plain_of_keyword hk
  rw [sink_append hfirm, sink_of_not_mem hplain, List.append_assoc,
    lexemes_keyword hk ((apart_space cs).ends d rest), h.space rest hrest, List.cons_append]

end Reads

/-! ### What there is but for trees -/

/-- A text that passes `isName` is read as an identifier. -/
theorem reads_name {x : String} (hx : isName x.toList) :
    Reads d x.toList [⟨.ident, 0, x⟩] := by
  intro rest hrest
  rw [sink_word d (word_of_isName hx).2, lexemes_name hx hrest]
  rfl

/-- A text that passes `isName` is `Solid`. -/
theorem solid_name {x : String} (hx : isName x.toList) : Solid x.toList :=
  solid_of_word (word_of_isName hx).1 (word_of_isName hx).2

/-- A keyword that stands alone is read as `Token.ofKind`. -/
theorem reads_keyword (kind : TokenKind) (hk : kind ∈ TokenKind.keywords) :
    Reads d kind.text.toList [.ofKind kind 0] := by
  intro rest hrest
  rw [sink_of_not_mem (plain_of_keyword hk).1, lexemes_keyword hk hrest]
  rfl

/-- What `commaSeparated` gives, in front of a parenthesis, is read as the texts are, with
commas in between. -/
theorem reads_commaSeparated {α : Type} {f : α → List Char} {g : α → List Token} {xs : List α}
    (hs : ∀ x ∈ xs, Solid (f x)) (ih : ∀ x ∈ xs, Reads d (f x) (g x)) :
    Reads d (commaSeparated (xs.map f) ++ [')'])
      ([Token.ofKind .comma 0].intercalate (xs.map g) ++ [.ofKind .rightParen 0]) := by
  induction xs with
  | nil => exact Reads.nil.rightParen
  | cons x xs ihxs =>
    have ihxs := ihxs (fun y hy => hs y (List.mem_cons_of_mem _ hy))
      fun y hy => ih y (List.mem_cons_of_mem _ hy)
    have hx := ih x List.mem_cons_self
    have hfirm := (hs x List.mem_cons_self).firm
    cases xs with
    | nil =>
      rw [List.map_singleton, List.map_singleton, commaSeparated, List.intercalate_singleton,
        List.intercalate_singleton]
      exact hx.append hfirm (apart_rightParen _) Reads.nil.rightParen
    | cons y ys =>
      have h := hx.append hfirm (apart_comma _) ihxs.space.comma
      rw [commaSeparated, List.map_cons, List.map_cons, List.map_cons, List.map_cons,
        List.intercalate_cons_cons, List.intercalate_cons_cons]
      simpa [commaSeparated] using h

/-! ### Blocks -/

/-- How a statement that is `indented` in a block is sunk into the blocks around, with `ds`
behind it. -/
theorem sink_indented {cs : List Char} (h : Solid cs) (ds : List Char) :
    sink d (indented (lines cs) ++ ds) =
      '\t' :: (sink (d + 1) cs ++ ';' :: '\n' :: (List.replicate d '\t' ++ sink d ds)) := by
  rw [indented_lines h, List.cons_append, List.append_assoc, sink_cons (by decide),
    sink_append h.firm.tabbed]
  show '\t' :: (sink (d + 1) cs ++ sink d (';' :: '\n' :: ds)) = _
  rw [sink_cons (by decide), sink_newline]

/-- Printed statements are read one behind the other, with the tabs and line feeds that
`indented` puts between them. -/
theorem reads_statements {ns : List Node} (hs : ∀ n ∈ ns, Solid n.print)
    (ih : ∀ n ∈ ns, Reads (d + 1) n.print (n.spell (d + 1))) (rest : List Char) :
    lexemes (sink d ((ns.flatMap fun n => indented (lines n.print)) ++ ['\x7d']) ++ rest) =
      (ns.flatMap fun n => n.spell (d + 1) ++ [.ofKind .semicolon 0]) ++
        .ofKind .rightBrace 0 :: lexemes rest := by
  induction ns with
  | nil =>
    rw [List.flatMap_nil, List.nil_append, sink_of_not_mem (by decide)]
    exact lexemes_rightBrace
  | cons n ns ihns =>
    have ihns := ihns (fun m hm => hs m (List.mem_cons_of_mem _ hm))
      fun m hm => ih m (List.mem_cons_of_mem _ hm)
    have hn := ih n List.mem_cons_self
    rw [List.flatMap_cons, List.append_assoc, sink_indented (hs n List.mem_cons_self),
      List.cons_append, lexemes_tab, List.append_assoc, List.cons_append,
      hn _ (ends_semicolon _), lexemes_semicolon, List.cons_append, lexemes_newline,
      List.append_assoc, lexemes_tabs, ihns, List.flatMap_cons, List.append_assoc,
      List.append_assoc]
    rfl

/-- `Block.print` is read as `Block.spell` in front of anything, as a block closes itself. -/
theorem reads_block {b : Block} (hs : ∀ n ∈ b.nodes, Solid n.print)
    (ih : ∀ n ∈ b.nodes, Reads (d + 1) n.print (n.spell (d + 1))) :
    Reads d b.print (b.spell d) := by
  intro rest _
  have htext : sink d b.print = '\x7b' :: '\n' :: (List.replicate d '\t' ++
      sink d ((b.nodes.flatMap fun n => indented (lines n.print)) ++ ['\x7d'])) := by
    rw [Block.print_eq, List.append_assoc, ← sink_newline, ← sink_cons (by decide)]
    rfl
  rw [htext, List.cons_append, lexemes_leftBrace, List.cons_append, lexemes_newline,
    List.append_assoc, lexemes_tabs, reads_statements hs ih, Block.spell_eq]
  simp

/-! ### Each form of node

A printed form is taken apart from its end: what stands last is read first, and each part in
front of it is put before what has been read. -/

/-- An integer is read as the token it came from, but for its line. -/
theorem reads_integer {t : Token} {v : Int64} (hk : t.kind = .integer) (hl : t.Lexed) :
    Reads d (Node.integer t v).print ((Node.integer t v).spell d) := by
  intro rest hrest
  obtain ⟨hne, hall⟩ := digits_of_integer hk hl
  rw [Node.print_integer, sink_word d (word_of_integer hk hl).2,
    lexemes_integer hne hall hrest, String.ofList_toList, Node.spell_integer]
  show _ = Token.mk t.kind 0 t.literal :: _
  rw [hk]
  rfl

/-- A string is read with what `Node.spell` puts in it: the tabs of the blocks around, where it
goes over several lines. -/
theorem reads_string {line : Nat} {s : String} (hq : '"' ∉ s.toList) :
    Reads d (Node.string line s).print ((Node.string line s).spell d) := by
  intro rest _
  have htext : sink d (Node.string line s).print ++ rest =
      '"' :: (sink d s.toList ++ '"' :: rest) := by
    rw [Node.print_string, List.cons_append, sink_cons (by decide), sink_string]
    simp
  rw [htext, lexemes_string (not_mem_sink (by decide) hq)]
  rfl

/-- A boolean is read as the keyword `true` or `false`. -/
theorem reads_boolean {line : Nat} {b : Bool} :
    Reads d (Node.boolean line b).print ((Node.boolean line b).spell d) := by
  cases b with
  | true => exact reads_keyword .kwTrue (by decide)
  | false => exact reads_keyword .kwFalse (by decide)

/-- An operator is read in front of its operand, which is `Fresh` and so does not lengthen
it. -/
theorem reads_prefixed {o : Token} {n : Node} (ho : o.kind.isPrefix) (hl : o.Lexed)
    (hn : Firm n.print) (hfresh : Fresh n.print) (ih : Reads d n.print (n.spell d)) :
    Reads d (Node.prefixed o n).print ((Node.prefixed o n).spell d) := by
  obtain ⟨hsym, hlit⟩ := hl.operator (.inl ho)
  have hoperand := ih.append hn (apart_rightParen _) Reads.nil.rightParen
  have h := (hoperand.symbol (hfresh.append _) hsym).leftParen
  rw [Node.print_prefixed, Node.spell_prefixed, ← hlit, Token.bare_of_text hlit]
  simpa using h

/-- An infix expression is read in its parentheses; both sides are `Firm`. -/
theorem reads_infixed {o : Token} {left right : Node} (ho : o.kind.isInfix) (hl : o.Lexed)
    (hleft : Firm left.print) (hright : Firm right.print)
    (ihl : Reads d left.print (left.spell d)) (ihr : Reads d right.print (right.spell d)) :
    Reads d (Node.infixed o left right).print ((Node.infixed o left right).spell d) := by
  obtain ⟨hsym, hlit⟩ := hl.operator (.inr ho)
  have hlast := ihr.append hright (apart_rightParen _) Reads.nil.rightParen
  have hoperator := (hlast.space.symbol (apart_space _).fresh hsym).space
  have h := (ihl.append hleft (apart_space _) hoperator).leftParen
  rw [Node.print_infixed, Node.spell_infixed, ← hlit, Token.bare_of_text hlit]
  simpa using h

/-- A call is read as a name and its arguments, which `reads_commaSeparated` reads. -/
theorem reads_call {line l : Nat} {x : String} {args : List Node} (hx : isName x.toList)
    (hs : ∀ n ∈ args, Solid n.print) (ih : ∀ n ∈ args, Reads d n.print (n.spell d)) :
    Reads d (Node.call line (.ident l x) args).print
      ((Node.call line (.ident l x) args).spell d) := by
  have hargs := (reads_commaSeparated hs ih).leftParen
  have h := (reads_name hx).append (solid_name hx).firm (apart_leftParen _) hargs
  rw [Node.print_call, Node.spell_call, printAll_eq_map, spellAll_eq_map]
  simpa using h

/-- An assignment is read, whatever `target` it has. -/
theorem reads_assign {line : Nat} {target value : Node} (hs : Firm target.print)
    (iht : Reads d target.print (target.spell d)) (ihv : Reads d value.print (value.spell d)) :
    Reads d (Node.assign line target value).print
      ((Node.assign line target value).spell d) := by
  have hequal : TokenKind.equal.isSymbol := rfl
  have hvalue := (ihv.space.symbol (apart_space _).fresh hequal).space
  have h := iht.append hs (apart_space _) hvalue
  rw [Node.print_assign, List.append_assoc]
  exact h

/-- A declaration is read as its keyword and its name. -/
theorem reads_declare {v : Token} {b : Binder} (hv : v.kind = .kwVar) (hl : v.Lexed)
    (hx : isName b.name.toList) :
    Reads d (Node.declare v b).print ((Node.declare v b).spell d) := by
  have hlit : v.kind.text.toList = v.literal.toList := by
    rw [Token.Lexed, hv] at hl
    rw [hv]
    exact hl
  rw [Node.print_declare, Node.spell_declare, ← hlit, Token.bare_of_text hlit, hv]
  exact (reads_name hx).keyword .kwVar (by decide)

/-- The condition of a conditional is read in its parentheses, with the text `cs` behind it. -/
theorem reads_condition {test : Node} {cs : List Char} {ts : List Token}
    (ht : Firm test.print) (iht : Reads d test.print (test.spell d)) (h : Reads d cs ts) :
    Reads d ("if (".toList ++ test.print ++ ") ".toList ++ cs)
      (.ofKind .kwIf 0 :: .ofKind .leftParen 0 :: test.spell d ++
        .ofKind .rightParen 0 :: ts) := by
  have htest := (iht.append ht (apart_rightParen _) h.space.rightParen).leftParen
  simpa [TokenKind.text] using htest.keyword .kwIf (by decide)

/-- A conditional is read part by part, by `reads_condition` and `reads_block`. -/
theorem reads_conditional {line : Nat} {test : Node} {b : Block} {c : Option Block}
    (ht : Firm test.print) (iht : Reads d test.print (test.spell d))
    (ihb : Reads d b.print (b.spell d)) (ihc : ∀ e ∈ c, Reads d e.print (e.spell d)) :
    Reads d (Node.conditional line test b c).print
      ((Node.conditional line test b c).spell d) := by
  cases c with
  | none => exact reads_condition ht iht ihb
  | some c =>
    have helse := ((ihc c rfl).keyword .kwElse (by decide)).space
    have h := reads_condition ht iht (ihb.append b.solid_print.firm (apart_space _) helse)
    rw [Node.print_conditional_else, Node.spell_conditional_else]
    simpa [TokenKind.text] using h

theorem reads_bareLoop {line : Nat} {test : Node} {step : Option Node} {b : Block}
    (ihb : Reads d b.print (b.spell d)) :
    Reads d (Node.loop line none test step b).print
      ((Node.loop line none test step b).spell d) :=
  ihb.keyword .kwLoop (by decide)

/-- The first part and the condition of a loop are read, with the text `cs` behind their
semicolons. -/
theorem reads_loopHead {init test : Node} {cs : List Char} {ts : List Token}
    (hi : Firm init.print) (ht : Firm test.print) (ihi : Reads d init.print (init.spell d))
    (iht : Reads d test.print (test.spell d)) (h : Reads d cs ts) :
    Reads d ("loop (".toList ++ init.print ++ "; ".toList ++ test.print ++ "; ".toList ++ cs)
      (.ofKind .kwLoop 0 :: .ofKind .leftParen 0 :: init.spell d ++ .ofKind .semicolon 0 ::
        test.spell d ++ .ofKind .semicolon 0 :: ts) := by
  have htest := (iht.append ht (apart_semicolon _) h.space.semicolon).space.semicolon
  have hinit := (ihi.append hi (apart_semicolon _) htest).leftParen
  simpa [TokenKind.text] using hinit.keyword .kwLoop (by decide)

/-- A loop with a head is read part by part, by `reads_loopHead`. -/
theorem reads_loop {line : Nat} {init test : Node} {step : Option Node} {b : Block}
    (hi : Firm init.print) (ht : Firm test.print) (hs : ∀ n ∈ step, Firm n.print)
    (ihi : Reads d init.print (init.spell d)) (iht : Reads d test.print (test.spell d))
    (ihs : ∀ n ∈ step, Reads d n.print (n.spell d)) (ihb : Reads d b.print (b.spell d)) :
    Reads d (Node.loop line (some init) test step b).print
      ((Node.loop line (some init) test step b).spell d) := by
  have hbody := ihb.space.rightParen
  cases step with
  | none =>
    have h := reads_loopHead hi ht ihi iht hbody
    rw [Node.print_loop_init, Node.spell_loop_init]
    simpa using h
  | some step =>
    have h :=
      reads_loopHead hi ht ihi iht
        ((ihs step rfl).append (hs step rfl) (apart_rightParen _) hbody)
    rw [Node.print_loop_step, Node.spell_loop_step]
    simpa using h

/-- A function is read part by part, its parameters by `reads_commaSeparated`. -/
theorem reads_function {line : Nat} {f : Binder} {params : List Binder} {b : Block}
    (hf : isName f.name.toList) (hparams : ∀ x ∈ params, isName x.name.toList)
    (ihb : Reads d b.print (b.spell d)) :
    Reads d (Node.function line f params b).print
      ((Node.function line f params b).spell d) := by
  have hlist : Firm (commaSeparated (params.map fun x => x.name.toList) ++ [')']) :=
    (Solid.append _ ⟨')', rfl, by decide⟩).firm
  have hread : Reads d (commaSeparated (params.map fun x => x.name.toList) ++ [')'])
      ([Token.ofKind .comma 0].intercalate (params.map fun x => [⟨.ident, 0, x.name⟩]) ++
        [.ofKind .rightParen 0]) :=
    reads_commaSeparated (fun x hx => solid_name (hparams x hx)) fun x hx =>
      reads_name (hparams x hx)
  have hbehind := (hread.append hlist (apart_space _) ihb.space).leftParen
  have hname := (reads_name hf).append (solid_name hf).firm (apart_leftParen _) hbehind
  rw [Node.print_function, Node.spell_function]
  simpa [TokenKind.text] using hname.keyword .kwFun (by decide)

theorem reads_returning {line : Nat} {n : Node} (ih : Reads d n.print (n.spell d)) :
    Reads d (Node.returning line n).print ((Node.returning line n).spell d) :=
  ih.keyword .kwReturn (by decide)

/-- The printed form of a tree that is `Formed` is lexed into `Node.spell`. -/
theorem Formed.lexemes_print {p : Place} {n : Node} (h : Formed .parsed d p n) :
    Reads d n.print (n.spell d) := by
  induction h with
  | integer hk hl => exact reads_integer hk hl
  | string hq => exact reads_string hq
  | boolean => exact reads_boolean
  | ident hx => exact reads_name hx
  | call hx hargs ih => exact reads_call hx (fun n hn => (hargs n hn).solid_print) ih
  | prefixed ho hl hp hn ih =>
    exact reads_prefixed ho hl hn.solid_print.firm (hn.fresh_of_allows hp) ih
  | infixed ho hl _ hleft _ hright ihl ihr | chain _ ho hl hleft _ hright ihl ihr =>
    exact reads_infixed ho hl hleft.solid_print.firm hright.solid_print.firm ihl ihr
  | assign hx hn ih => exact reads_assign (solid_name hx).firm (reads_name hx) ih
  | @initialized d line v b n hv hl hx hn ih =>
    have hdeclared : Formed .parsed d .declared (.declare v b) := .declare hv hl hx
    exact reads_assign hdeclared.solid_print.firm (reads_declare hv hl hx) ih
  | declare hv hl hx => exact reads_declare hv hl hx
  | operandValue _ ih | assignedValue _ ih | assignedInit _ ih | operandStatement _ ih
  | declaredStatement _ ih | initStatement _ ih => exact ih
  | block hb ih => exact reads_block (fun n hn => (hb n hn).solid_print) ih
  | conditional htest hb hc iht ihb ihc =>
    refine reads_conditional htest.solid_print.firm iht ?_ fun e he => ?_
    · exact reads_block (fun n hn => (hb n hn).solid_print) ihb
    · exact reads_block (fun n hn => (hc e he n hn).solid_print) (ihc e he)
  | bareLoop hb ih => exact reads_bareLoop (reads_block (fun n hn => (hb n hn).solid_print) ih)
  | @loop d line o init left right step b p q hi ho hl hp hleft hq hright hs hb ihi ihl ihr
      ihs ihb =>
    have htest : Solid (Node.infixed o left right).print := .append _ ⟨')', rfl, by decide⟩
    have iht := reads_infixed ho hl hleft.solid_print.firm hright.solid_print.firm ihl ihr
    have hblock := reads_block (fun n hn => (hb n hn).solid_print) ihb
    exact reads_loop hi.solid_print.firm htest.firm (fun n hn => (hs n hn).solid_print.firm) ihi
      iht ihs hblock
  | function hf hparams hb ih =>
    exact reads_function hf hparams (reads_block (fun n hn => (hb n hn).solid_print) ih)
  | returning hn ih => exact reads_returning ih
  | breaking => exact reads_keyword .kwBreak (by decide)

end Lexemes

/-! ## Packages -/

/-- The text of `Node.print` for each of the statements `ns`, with a semicolon and a line feed
behind it. -/
def reprint (ns : List Node) : String :=
  String.ofList (ns.flatMap fun n => n.print ++ [';', '\n'])

/-- What `reprint` gives is lexed into `spellStatements`. -/
theorem lexemes_reprint {ns : List Node} (h : ∀ n ∈ ns, Formed .parsed 0 .statement n) :
    Cursor.lexemes (reprint ns).toList = spellStatements 0 ns := by
  rw [reprint, String.toList_ofList]
  induction ns with
  | nil => exact Cursor.lexemes_nil
  | cons n ns ih =>
    have ih := ih fun m hm => h m (List.mem_cons_of_mem _ hm)
    have hn := (h n List.mem_cons_self).lexemes_print
    rw [List.flatMap_cons, List.append_assoc]
    show Cursor.lexemes (sink 0 n.print ++ ';' :: '\n' :: ns.flatMap _) = _
    rw [hn _ (ends_semicolon _), Cursor.lexemes_semicolon, Cursor.lexemes_newline, ih,
      spellStatements]

end ScriptLang
