import ScriptLang.Proofs.Language
import ScriptLang.Proofs.Spelling

/-!
# Printing and parsing again

The grammar derives the spelling of a canonical tree, and gives the tree back. So canonical
statements that are printed and parsed again are the same statements, on other lines.

- `Respelled`: what a spelling is derived as, by the place of its tree.
- `Formed.respelled`: the spelling of a canonical tree is derived as the tree itself.
- `Formed.derives_compound`: compound statements need no semicolon for that.
- `Package.parse_reprint`: canonical statements are what their printed form is parsed into.
-/

namespace ScriptLang

open Grammar Text

/-! ## Spellings are derived -/

/-- The tokens of `Node.spell` are derived as the tree, as the form that its `Place` asks
for. -/
def Respelled (d : Nat) : Place → Node → Prop
  | .operand, n => Derives .operand (n.spell d) [n.bare]
  | .assigned, n | .value, n => Derives .expression (n.spell d) [n.bare]
  | .declared, n => Derives .statement (n.spell d ++ [.ofKind .semicolon 0]) [n.bare]
  | .init, n =>
    Derives .statement (n.spell d ++ [.ofKind .semicolon 0]) [n.bare] ∧ isLoopInit n.bare
  | .statement, n => Derives .statements (n.spell d ++ [.ofKind .semicolon 0]) [n.bare]

section Respelled

variable {d : Nat}

/-- The tokens of arguments with commas in between are derived as `arguments`, if there are
any. -/
theorem respelled_arguments {args : List Node} (hne : args ≠ [])
    (h : ∀ n ∈ args, Derives .expression (n.spell d) [n.bare]) :
    Derives .arguments ([Token.ofKind .comma 0].intercalate (args.map (Node.spell d)))
      (args.map Node.bare) := by
  induction args with
  | nil => exact absurd rfl hne
  | cons n ns ih =>
    have hn := h n List.mem_cons_self
    cases ns with
    | nil =>
      rw [List.map_singleton, List.map_singleton, List.intercalate_singleton]
      exact .lastArgument hn
    | cons m ms =>
      have ih := ih (by simp) fun k hk => h k (List.mem_cons_of_mem _ hk)
      rw [List.map_cons, List.map_cons, List.intercalate_cons_cons]
      simpa using Derives.moreArguments (c := .ofKind .comma 0) hn rfl ih

/-- The names of parameters with commas in between are `Parameters`, also if there are none. -/
theorem respelled_parameters (params : List Binder) :
    Parameters ([Token.ofKind .comma 0].intercalate (params.map fun x => [⟨.ident, 0, x.name⟩]))
      (params.map Binder.bare) := by
  induction params with
  | nil => exact .inl ⟨rfl, rfl⟩
  | cons x xs ih =>
    refine .inr ?_
    cases xs with
    | nil => exact .one rfl
    | cons y ys =>
      obtain ⟨-, ⟨⟩⟩ | ih := ih
      rw [List.map_cons, List.map_cons, List.intercalate_cons_cons]
      exact .more rfl rfl ih

/-- `spellStatements` are derived as statements one by one, each with its semicolon. -/
theorem respelled_statements {ns : List Node}
    (h : ∀ n ∈ ns, Derives .statements (n.spell d ++ [.ofKind .semicolon 0]) [n.bare]) :
    Derives .statements (spellStatements d ns) (ns.map Node.bare) := by
  induction ns with
  | nil => exact .noStatements
  | cons n ns ih =>
    have hn := h n List.mem_cons_self
    have ih := ih fun m hm => h m (List.mem_cons_of_mem _ hm)
    simpa [spellStatements] using hn.append ih

/-- `Block.spell` is derived as a block from its statements. -/
theorem respelled_block {b : Block}
    (h : ∀ n ∈ b.nodes, Derives .statements (n.spell (d + 1) ++ [.ofKind .semicolon 0])
      [n.bare]) :
    Derives .block (b.spell d) [.block b.bare] := by
  have hb : b.bare = ⟨0, b.nodes.map Node.bare⟩ := by
    obtain ⟨line, ns⟩ := b
    exact Block.bare_mk line ns
  rw [Block.spell_cons, hb]
  exact .block rfl (respelled_statements h) rfl

/-- A compound statement needs no semicolon, so the one behind it is a statement of its own. -/
theorem respelled_compound {ts : List Token} {n : Node} (h : Derives .statement ts [n]) :
    Derives .statements (ts ++ [.ofKind .semicolon 0]) [n] :=
  .statements h (.statements (.empty rfl) .noStatements)

theorem respelled_simple {ts : List Token} {n : Node} (h : Derives .statement ts [n]) :
    Derives .statements ts [n] := by
  have h := Derives.statements h .noStatements
  rwa [List.append_nil] at h

/-- An expression in parentheses is an operand, and has no tree of its own. -/
theorem respelled_group {ts : List Token} {n : Node} (h : Derives .expression ts [n]) :
    Derives .operand (.ofKind .leftParen 0 :: ts ++ [.ofKind .rightParen 0]) [n] :=
  .group rfl h rfl

theorem Respelled.operand {p : Place} {n : Node} (h : Respelled d p n)
    (hp : Rigor.canonical.Allows p) : Respelled d .operand n := by
  rwa [Rigor.allows_canonical.mp hp] at h

/-- An infix node is `Respelled` as a group, which its parentheses make of it. -/
theorem respelled_infixed {o : Token} {left right : Node} (ho : o.kind.isInfix)
    (hl : Respelled d .operand left) (hr : Respelled d .operand right) :
    Respelled d .operand (.infixed o left right) := by
  have h := Derives.chain hl (.infixed (o := o.bare) ho hr .noTail)
  simpa [Respelled] using respelled_group h

/-- A conditional, with or without `else`. -/
theorem respelled_conditional {line : Nat} {test : Node} {b : Block} {c : Option Block}
    (ht : Derives .expression (test.spell d) [test.bare])
    (hb : Derives .block (b.spell d) [.block b.bare])
    (hc : ∀ e ∈ c, Derives .block (e.spell d) [.block e.bare]) :
    Derives .statement ((Node.conditional line test b c).spell d)
      [(Node.conditional line test b c).bare] := by
  cases c with
  | none =>
    have h := Derives.conditional (i := .ofKind .kwIf 0) (l := .ofKind .leftParen 0)
      (r := .ofKind .rightParen 0) rfl rfl ht rfl hb
    simpa using h
  | some c =>
    have h := Derives.conditionalElse (i := .ofKind .kwIf 0) (l := .ofKind .leftParen 0)
      (r := .ofKind .rightParen 0) (e := .ofKind .kwElse 0) rfl rfl ht rfl hb rfl (hc c rfl)
    simpa using h

/-- The `Node.spell` of a loop with a head of two or three parts is derived as a statement. -/
theorem respelled_loop {line : Nat} {init test : Node} {step : Option Node} {b : Block}
    (hi : Respelled d .init init) (htest : isLoopCondition test.bare)
    (ht : Derives .expression (test.spell d) [test.bare])
    (hs : ∀ n ∈ step, Derives .expression (n.spell d) [n.bare])
    (hb : Derives .block (b.spell d) [.block b.bare]) :
    Derives .statement ((Node.loop line (some init) test step b).spell d)
      [(Node.loop line (some init) test step b).bare] := by
  cases step with
  | none =>
    have h := Derives.loop (k := .ofKind .kwLoop 0) (l := .ofKind .leftParen 0)
      (s := .ofKind .semicolon 0) (r := .ofKind .rightParen 0) rfl rfl hi.1 hi.2 ht htest rfl
      rfl hb
    simpa using h
  | some step =>
    have h := Derives.loopStep (k := .ofKind .kwLoop 0) (l := .ofKind .leftParen 0)
      (s := .ofKind .semicolon 0) (r := .ofKind .rightParen 0) rfl rfl hi.1 hi.2 ht htest rfl
      (hs step rfl) rfl hb
    simpa using h

theorem respelled_function {line : Nat} {f : Binder} {params : List Binder} {b : Block}
    (hb : Derives .block (b.spell d) [.block b.bare]) :
    Derives .statement ((Node.function line f params b).spell d)
      [(Node.function line f params b).bare] := by
  have h := Derives.function (k := .ofKind .kwFun 0) (t := ⟨.ident, 0, f.name⟩)
    (l := .ofKind .leftParen 0) (r := .ofKind .rightParen 0) rfl rfl rfl
    (respelled_parameters params) rfl hb
  have hf : f.bare = ⟨0, f.name⟩ := rfl
  simpa [hf] using h

/-- A canonical tree is `Respelled`. -/
theorem Formed.respelled {p : Place} {n : Node} (h : Formed .canonical d p n) :
    Respelled d p n := by
  induction h with
  | integer hk _ hv => exact .integer hk hv
  | @string d _ s _ hn =>
    -- inside of a block a canonical string has no line feed, so no tab is put into it
    have hs : sink d s.toList = s.toList := by
      cases d with
      | zero => rfl
      | succ d => exact sink_of_not_mem (hn rfl (Nat.succ_pos d))
    show Derives .operand [⟨.string, 0, String.ofList (sink d s.toList)⟩] [.string 0 s]
    rw [hs, String.ofList_toList]
    exact .string rfl
  | @boolean _ _ b =>
    cases b
    · exact .kwFalse rfl
    · exact .kwTrue rfl
  | ident => exact .name rfl
  | @call d line l x args _ _ ih =>
    by_cases hargs : args = []
    · subst hargs
      exact .emptyCall rfl rfl rfl
    · have h := Derives.call (t := ⟨.ident, 0, x⟩) (l := .ofKind .leftParen 0)
        (r := .ofKind .rightParen 0) rfl rfl (respelled_arguments hargs ih) rfl
      simpa [Respelled] using h
  | @prefixed d o n p ho _ hp _ ih =>
    exact respelled_group (.lone (.prefixed (o := o.bare) ho (ih.operand hp)))
  | infixed ho _ hp _ hq _ ihl ihr =>
    exact respelled_infixed ho (ihl.operand hp) (ihr.operand hq)
  | assign _ _ ih => exact .assign (.name rfl) rfl ih
  | operandValue _ ih => exact ih.lone
  | assignedValue _ ih => exact ih
  | @declare d v b hv _ _ =>
    exact .declaration (v := v.bare) (t := ⟨.ident, 0, b.name⟩) hv rfl .noTail rfl
  -- an operator behind a declaration is not canonical
  | chain hr => cases hr
  | assignedInit hn ih =>
    refine ⟨.expressionStatement ih rfl, ?_⟩
    cases hn
    rfl
  | @initialized d line v b n hv hl hx _ ih =>
    exact ⟨.initialized (v := v.bare) (t := ⟨.ident, 0, b.name⟩) hv rfl rfl ih rfl, rfl⟩
  | operandStatement _ ih =>
    exact respelled_simple (.expressionStatement ih.lone rfl)
  | declaredStatement _ ih => exact respelled_simple ih
  | initStatement _ ih => exact respelled_simple ih.1
  | block _ ih => exact respelled_compound (.blockStatement (respelled_block ih))
  | conditional _ _ _ iht ihb ihc =>
    exact respelled_compound (respelled_conditional iht (respelled_block ihb) fun e he =>
      respelled_block (ihc e he))
  | bareLoop _ ih => exact respelled_compound (.bareLoop rfl (respelled_block ih))
  | loop _ ho _ hp _ hq _ _ _ ihi ihl ihr ihs ihb =>
    have htest := respelled_infixed ho (ihl.operand hp) (ihr.operand hq)
    exact respelled_compound (respelled_loop ihi rfl htest.lone ihs (respelled_block ihb))
  | function _ _ _ ih => exact respelled_compound (respelled_function (respelled_block ih))
  | returning _ ih => exact respelled_simple (.returning (k := .ofKind .kwReturn 0) rfl ih rfl)
  | breaking => exact respelled_simple (.breaking rfl rfl)

/-- A canonical statement that `Node.isCompound` is derived without a semicolon behind it. -/
theorem Formed.derives_compound {n : Node} (h : Formed .canonical d .statement n)
    (hn : n.isCompound) : Derives .statement (n.spell d) [n.bare] := by
  have block {b : Block} (hb : ∀ n ∈ b.nodes, Formed .canonical (d + 1) .statement n) :
      Derives .block (b.spell d) [.block b.bare] :=
    respelled_block fun n hn => (hb n hn).respelled
  cases h with
  | block hb => exact .blockStatement (block hb)
  | conditional ht hb hc =>
    exact respelled_conditional ht.respelled (block hb) fun e he => block (hc e he)
  | bareLoop hb => exact .bareLoop rfl (block hb)
  | loop hi ho hl hp hleft hq hright hs hb =>
    have htest := (Formed.infixed ho hl hp hleft hq hright).respelled
    exact respelled_loop hi.respelled rfl htest.lone (fun n hn => (hs n hn).respelled)
      (block hb)
  | function _ _ hb => exact respelled_function (block hb)
  | operandStatement h | declaredStatement h => cases h <;> cases hn
  | initStatement h =>
    cases h with
    | assignedInit h => cases h; cases hn
    | initialized => cases hn
  | returning | breaking => cases hn

end Respelled

/-! ## Canonical statements are read back -/

/-- What `Derives` gives of the `Cursor.lexemes` of a source are the trees of the source without
their lines. -/
theorem derives_lexemes_iff (source : String) (ns : List Node) :
    Derives .statements (Cursor.lexemes source.toList) ns ↔
      ∃ ms, Derives .statements (Cursor.start source).tokens.1 ms ∧ ms.map Node.bare = ns := by
  rw [← Cursor.map_bare_tokens source.toList 1]
  exact derives_relined_iff Cursor.kind_ne_eof (fun _ => 0) ns

/-- The `reprint` of `Canonical` statements is derived as these statements, on other lines. -/
theorem derives_of_canonical {ns : List Node} (h : ∀ n ∈ ns, Canonical n) :
    ∃ ms, Derives .statements (Cursor.start (reprint ns)).tokens.1 ms ∧
      ms.map Node.bare = ns.map Node.bare := by
  refine (derives_lexemes_iff _ _).mp ?_
  rw [lexemes_reprint fun n hn => (h n hn).parsed]
  exact respelled_statements fun n hn => (h n hn).respelled

namespace Package

/-- If each of some statements is `Canonical`, then `reprint` prints a source that
`Package.parse` reads without errors into the same statements, but for lines. -/
theorem parse_reprint (name : String) (journal : Journal) {ns : List Node}
    (h : ∀ n ∈ ns, Canonical n) :
    (parse name (reprint ns) journal).1.errors = [] ∧
      (parse name (reprint ns) journal).1.package.nodes.map Node.bare = ns.map Node.bare := by
  obtain ⟨ms, hms, hbare⟩ := derives_of_canonical h
  rw [parse_of_derives hms]
  exact ⟨rfl, hbare⟩

/-- A declaration and a function with a string in it. -/
theorem parse_reprint_declarations :
    let ns : List Node := [
      .assign 1 (.declare ⟨.kwVar, 1, "var"⟩ ⟨1, "x"⟩)
        (.prefixed ⟨.minus, 1, "-"⟩ (.integer ⟨.integer, 1, "1"⟩ 1)),
      .function 2 ⟨2, "f"⟩ [⟨2, "n"⟩] ⟨2, [
        .returning 3 (.infixed ⟨.star, 3, "*"⟩ (.ident 3 "n") (.string 3 "ab"))]⟩]
    (∀ n ∈ ns, Canonical n) ∧ (parse "main" (reprint ns) {}).1.errors = [] ∧
      (parse "main" (reprint ns) {}).1.package.nodes.map Node.bare = ns.map Node.bare := by
  intro ns
  have h : ∀ n ∈ ns, Canonical n := by
    intro n hn
    simp only [ns, List.mem_cons, List.not_mem_nil, or_false] at hn
    rcases hn with rfl | rfl
    · refine .initStatement (.initialized rfl rfl (by decide) (.operandValue ?_))
      exact .prefixed rfl rfl (.inl rfl) (.integer rfl ⟨by decide, by decide⟩ (by decide))
    · refine .function (by decide) (by simp; decide) ?_
      intro n hn
      rw [List.mem_singleton.mp hn]
      refine .returning
        (.operandValue (.infixed rfl rfl (.inl rfl) (.ident (by decide)) (.inl rfl) ?_))
      exact .string (by decide) (by decide)
  exact ⟨h, parse_reprint "main" {} h⟩

end Package

end ScriptLang
