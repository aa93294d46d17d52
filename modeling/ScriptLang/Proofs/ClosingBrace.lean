import ScriptLang.Proofs.Resumption

/-!
# The closing brace of a block

Recovery leaves a closing brace to its block, but only one that is still to come. A rule that
finds the brace where it needs something else has already passed the token in front of it.
Recovery then starts on the brace and goes on into the source behind the block.

The statements of a block either end in front of its brace, whatever is behind it, or get past
it, whatever is behind it. In the second case the block looks for its brace in the source behind
it, and if none is found there, all of that source is lost. In the first case nothing is.

- `Parser.Passes`, `Grammar.block_goes_or_passes`: a block is read, or its statements get past
  the brace.
- `Package.parse_append_of_block`, `Package.nodes_append_of_no_block`: a source behind a block
  that is read, and behind one that is not.
- `Package.parse_append_block_iff`: the blocks that leave every source behind them alone.
-/

namespace ScriptLang

open ScriptLang.Parser Grammar

/-! ## Blocks that end on a token -/

namespace Rules

variable (rules : Rules) {l s t : Token} {us w : List Token}

theorem statements_nil_goes (hs : s.kind = .rightBrace) :
    Goes s (rules.level.statements true) [] (some []) [] [] := by
  show Goes s (rules.level.statements true) [] (some []) ([] ++ []) []
  refine Goes.current.bind ?_
  rw [List.headD_nil, if_pos (.inr ⟨rfl, hs⟩)]
  exact .pure

/-- In front of a token that ends no block, `statements` does what it does behind the first of
them. -/
theorem statements_goes {o : Option Node} {ds ds' : List Diagnostic} {b : Option (List Node)}
    {v v' : List Token}
    (ho : Goes s (orRecover rules.statement) w (some o) ds (l :: v))
    (hw : ¬((w.headD s).kind = .eof ∨ true ∧ (w.headD s).kind = .rightBrace))
    (h : Goes s (rules.statements true) v b ds' v') :
    Goes s (rules.level.statements true) w (b.map (o.toList ++ ·)) (ds ++ ds') v' := by
  intro rest e errors journal
  obtain ⟨journal₁, ho⟩ := ho rest e errors journal
  obtain ⟨journal₂, h⟩ := h rest e (errors ++ ds)
    (journal₁.note (.scanned (Reading.headOf (v ++ s :: rest) e)))
  have hcurrent : Reading.current ⟨w ++ s :: rest, e, errors, journal⟩ = w.headD s :=
    headOf_append w s rest e
  have hbehind : rules.statements true
      (advance ⟨l :: v ++ s :: rest, e, errors ++ ds, journal₁⟩).2 = _ := h
  refine ⟨journal₂, (statements_cons ho ?_).trans ?_⟩
  · rw [hcurrent]
    exact hw
  · rw [hbehind, List.append_assoc]

/-- If `statements` `Goes` to the token `s`, then so does `statement` of the block around
them. -/
theorem statement_goes {ns : List Node} {ds : List Diagnostic} (hl : l.kind = .leftBrace)
    (hs : s.kind ≠ .eof) (h : Goes s (rules.statements true) us (some ns) ds []) :
    Goes s rules.level.statement (l :: us) (some (.block ⟨l.line, ns⟩)) ds [] := by
  have hclose : Goes s (current >>= fun token =>
      if token.kind = .eof then reject (.unexpectedEof TokenKind.rightBrace.text)
      else pure ⟨l.line, ns⟩ : Parser Block) [] (some ⟨l.line, ns⟩) ([] ++ []) [] := by
    refine Goes.current.bind ?_
    rw [List.headD_nil, if_neg hs]
    exact .pure
  have hblock : Goes s (block (rules.statements true)) (l :: us) (some ⟨l.line, ns⟩)
      ([] ++ ([] ++ (ds ++ []))) [] :=
    Goes.current.bind (Goes.advance.bind (h.bind hclose))
  refine Goes.current.bind ?_
  rw [List.headD_cons, hl]
  simpa using hblock.bind (f := fun b => pure (Node.block b)) .pure

end Rules

/-! ## Blocks that may not end there -/

/-- With `w` in front of the token `s`, the parser gets past `s`: what it leaves is the last of
the tokens behind, whatever these are. -/
def Parser.Passes {α : Type} (s : Token) (p : Parser α) (w : List Token) : Prop :=
  ∀ rest e errors journal, (p ⟨w ++ s :: rest, e, errors, journal⟩).2.tokens <:+ rest

namespace Grammar

open Rules

variable {l s t : Token} {us w rest : List Token} {depth : Nat}

/-- `orRecover` never fails: it gives a statement or nothing. -/
theorem exists_orRecover (statement : Parser Node) (r : Reading) :
    ∃ o r', orRecover statement r = (some o, r') := by
  obtain ⟨o, ho⟩ := Option.isSome_iff_exists.mp (orRecover_succeeds statement r (Nat.le_refl _))
  exact ⟨o, _, Prod.ext ho rfl⟩

/-- `statements` reads up to the end of the source, or to the `rightBrace` of its block. -/
theorem kind_of_statements {inBlock : Bool} {r r' : Reading} {ns : List Node}
    (h : (rules depth).statements inBlock r = (some ns, r')) :
    r'.current.kind = .eof ∨ inBlock ∧ r'.current.kind = .rightBrace := by
  induction depth generalizing r ns with
  | zero => cases h
  | succ depth ih =>
    by_cases hend : r.current.kind = .eof ∨ inBlock ∧ r.current.kind = .rightBrace
    · rw [statements_succ, statements, bind_of_some (p := current) rfl, if_pos hend] at h
      cases h
      exact hend
    · obtain ⟨o, r₁, ho⟩ := exists_orRecover (rules depth).statement r
      obtain ⟨hns, hr⟩ := Prod.mk.inj ((statements_cons ho hend).symm.trans h)
      obtain ⟨ns', hns', -⟩ := Option.map_eq_some_iff.mp hns
      exact ih (Prod.ext hns' hr)

/-- There is nothing left behind the statements of a block if no token that is left is a
`rightBrace`. -/
theorem tokens_of_statements {r r' : Reading} {ns : List Node}
    (h : (rules depth).statements true r = (some ns, r'))
    (hrest : ∀ t ∈ r'.tokens, t.kind ≠ .eof ∧ t.kind ≠ .rightBrace) : r'.tokens = [] := by
  by_contra hne
  obtain ⟨t, ts, hcons⟩ := List.exists_cons_of_ne_nil hne
  have hcurrent : r'.current = t := by rw [Reading.current, hcons]; rfl
  have ht := hrest t (by rw [hcons]; exact List.mem_cons_self)
  obtain hk | ⟨-, hk⟩ := kind_of_statements h <;> rw [hcurrent] at hk
  · exact ht.1 hk
  · exact ht.2 hk

/-- `statements` in a block `Goes` to the closing brace, or fails in front of it because the
recursion is cut off, or `Passes` it. It is the same whatever is behind the brace. -/
theorem statements_cases (hs : s.kind = .rightBrace)
    (hw : ∀ t ∈ w, t.kind ≠ .eof ∧ t.kind ≠ .rightBrace) (depth : Nat) :
    (∃ ns ds, Goes s ((rules depth).statements true) w (some ns) ds []) ∨
      (∃ ds v, Goes s ((rules depth).statements true) w none ds v) ∨
        Passes s ((rules depth).statements true) w := by
  induction depth generalizing w with
  | zero => exact .inr (.inl ⟨[], w, .fail⟩)
  | succ depth ih =>
    cases w with
    | nil => exact .inl ⟨[], [], statements_nil_goes (rules depth) hs⟩
    | cons t w =>
      have hgo : ¬(t.kind = .eof ∨ true ∧ t.kind = .rightBrace) := by
        have ht := hw t List.mem_cons_self
        simp [ht.1, ht.2]
      have hlocal := (localizing s).orRecover ((localizing s).rules depth).statement
      -- either the first statement ends in front of the brace, and the
      -- others decide; or it is on the brace or behind it already, and
      -- the step to the next statement passes the brace at the latest
      obtain ⟨o, ds, v, hv, ho⟩ | hthere := hlocal.2 (t :: w) (List.cons_ne_nil t w)
      · have hmem : ∀ u ∈ v, u ∈ t :: w := fun u hu => (ho.suffix hlocal.1).subset hu
        obtain ⟨l, v, rfl⟩ := List.exists_cons_of_ne_nil hv
        cases o with
        | none =>
          obtain ⟨journal, ho⟩ := ho [] 0 [] {}
          obtain ⟨o, r, hsome⟩ :=
            exists_orRecover (rules depth).statement ⟨t :: w ++ [s], 0, [], {}⟩
          cases ho.symm.trans hsome
        | some o =>
          obtain ⟨ns, ds', h⟩ | ⟨ds', v', h⟩ | hpasses :=
            ih fun u hu => hw u (hmem u (List.mem_cons_of_mem l hu))
          · exact .inl ⟨_, _, statements_goes (rules depth) ho hgo h⟩
          · exact .inr (.inl ⟨_, _, statements_goes (rules depth) ho hgo h⟩)
          · refine .inr (.inr fun rest e errors journal => ?_)
            obtain ⟨journal', ho⟩ := ho rest e errors journal
            rw [rules_succ, statements_cons ho hgo]
            exact hpasses rest e (errors ++ ds) _
      · refine .inr (.inr fun rest e errors journal => ?_)
        have htokens := hthere rest e errors journal
        obtain ⟨o, r, ho⟩ :=
          exists_orRecover (rules depth).statement ⟨t :: w ++ s :: rest, e, errors, journal⟩
        rw [ho] at htokens
        rw [rules_succ, statements_cons ho hgo]
        refine ((rules_advance depth).statements true _).tokens.trans ?_
        obtain htokens | htokens := List.suffix_cons_iff.mp htokens
        · rw [advance, htokens]
          exact List.suffix_rfl
        · exact (List.tail_suffix _).trans htokens

/-- With `depthFor` its tokens, a block is read as one statement, or `statements` of it `Passes`
its closing brace. -/
theorem block_goes_or_passes (hl : l.kind = .leftBrace) (hs : s.kind = .rightBrace)
    (hus : ∀ t ∈ us, t.kind ≠ .eof ∧ t.kind ≠ .rightBrace)
    (hdepth : depthFor (us.length + 1) ≤ depth) :
    (∃ n ds, Goes s (orRecover (rules (depth + 1)).statement) (l :: us) (some (some n)) ds []) ∨
      Passes s ((rules depth).statements true) us := by
  obtain ⟨ns, ds, h⟩ | ⟨ds, v, h⟩ | hpasses := statements_cases hs hus depth
  · exact .inl ⟨_, ds, .orRecover (statement_goes (rules depth) hl (by rw [hs]; decide) h)⟩
  · -- the recursion is not cut off
    obtain ⟨journal, h⟩ := h [] 0 [] {}
    have hsome :=
      statements_nest_isSome (r := ⟨us ++ [s], 0, [], {}⟩) (by simpa using hdepth) .failing true
    rw [show (Rules.failing.nest depth).statements true _ = _ from h] at hsome
    cases hsome
  · exact .inr hpasses

/-- If `statements` `Passes` the closing brace, then `block` fails at the end of a source behind
it, if that source closes no block. -/
theorem block_of_passes (hrest : ∀ t ∈ rest, t.kind ≠ .eof ∧ t.kind ≠ .rightBrace)
    (hdepth : depthFor (us.length + 1 + rest.length) ≤ depth)
    (hpasses : Passes s ((rules depth).statements true) us) (e : Nat)
    (errors : List Diagnostic) (journal : Journal) :
    ∃ r,
      block ((rules depth).statements true) ⟨l :: us ++ s :: rest, e, errors, journal⟩ =
        (none, r) ∧ r.tokens = [] ∧ errors.length < r.errors.length := by
  obtain ⟨t, r, hr⟩ : ∃ t r, advance ⟨l :: us ++ s :: rest, e, errors, journal⟩ = (some t, r) :=
    ⟨_, _, rfl⟩
  have hbehind : r = ⟨us ++ s :: rest, e, errors, r.journal⟩ := by
    cases hr
    rfl
  have hdepth : depthFor r.tokens.length ≤ depth := by
    rwa [hbehind, List.length_append, List.length_cons, ← Nat.add_assoc, Nat.add_right_comm]
  obtain ⟨ns, r', hstatements⟩ : ∃ ns r', (rules depth).statements true r = (some ns, r') := by
    obtain ⟨ns, hns⟩ :=
      Option.isSome_iff_exists.mp (statements_nest_isSome hdepth .failing true)
    exact ⟨ns, _, Prod.ext hns rfl⟩
  -- only the end of the source can have ended them, since what is left is all behind the brace
  have hnil : r'.tokens = [] := by
    have htokens := hpasses rest e errors r.journal
    rw [← hbehind, hstatements] at htokens
    exact tokens_of_statements hstatements fun t ht => hrest t (htokens.subset ht)
  have heof : r'.current.kind = .eof := by
    rw [Reading.current, hnil]
    rfl
  have herrors : errors.length ≤ r'.errors.length := by
    have hlater := ((rules_advance depth).statements true r).errors.length_le
    rwa [hstatements, hbehind] at hlater
  refine ⟨(report (.unexpectedEof TokenKind.rightBrace.text) r').2, ?_, hnil, ?_⟩
  · rw [block, bind_of_some (p := current) rfl, bind_of_some hr, bind_of_some hstatements,
      bind_of_some (p := current) rfl, if_pos heof]
    rfl
  · show errors.length < (r'.errors ++ [_]).length
    rw [List.length_append]
    exact Nat.lt_succ_of_le herrors

/-- Then `statements` of the whole gives nothing, and leaves nothing of the source behind the
block. -/
theorem statements_of_passes (hl : l.kind = .leftBrace)
    (hrest : ∀ t ∈ rest, t.kind ≠ .eof ∧ t.kind ≠ .rightBrace)
    (hdepth : depthFor (us.length + 1 + rest.length) ≤ depth)
    (hpasses : Passes s ((rules depth).statements true) us) (e : Nat)
    (errors : List Diagnostic) (journal : Journal) :
    ((rules (depth + 2)).statements false ⟨l :: us ++ s :: rest, e, errors, journal⟩).1 =
      some [] := by
  obtain ⟨r, hblock, hnil, herrors⟩ :=
    block_of_passes (l := l) hrest hdepth hpasses e errors journal
  have hstatement :
      (rules (depth + 1)).statement ⟨l :: us ++ s :: rest, e, errors, journal⟩ = (none, r) := by
    have hcurrent :
        (Reading.current ⟨l :: us ++ s :: rest, e, errors, journal⟩).kind = .leftBrace := hl
    rw [statement_succ, statement, bind_of_some (p := current) rfl, hcurrent]
    exact bind_of_none hblock
  have hgo : ¬(l.kind = .eof ∨ false ∧ l.kind = .rightBrace) := by simp [hl]
  -- recovery starts where nothing is left, and so there is no other statement
  rw [rules_succ, statements_cons (orRecover_of_reported hstatement herrors) hgo]
  have hrecovered : (recover .statement r).2.tokens = [] := by
    rw [recover, hnil]
    rfl
  have hend : (advance (recover .statement r).2).2.current.kind = .eof := by
    rw [advance, hrecovered]
    rfl
  dsimp only
  rw [statements_succ, statements, bind_of_some (p := current) rfl, if_pos (.inl hend)]
  rfl

end Grammar

/-! ## Sources -/

namespace Package

open Source Rules

variable {first : String} {l s : Token} {us : List Token} (h : EndsOn first (l :: us) '\x7d' s)
  (hl : l.kind = .leftBrace)
  (hus : ∀ t ∈ us, t.kind ≠ .rightBrace ∧ t.kind ≠ .unterminatedString)
  {depth : Nat} (name : String) (journal : Journal)

include h hl hus

omit hl in
theorem kind_of_body : ∀ t ∈ us, t.kind ≠ .eof ∧ t.kind ≠ .rightBrace := by
  intro t ht
  exact ⟨h.kind_ne_eof t (by simp [ht]), (hus t ht).1⟩

omit h in
theorem kind_ne_unterminatedString : ∀ t ∈ l :: us, t.kind ≠ .unterminatedString := by
  rintro t (_ | ⟨_, ht⟩)
  · rw [hl]
    decide
  · exact (hus t ht).2

/-- So `Package.parse` gives no node for such a block in front of a source that closes no
block. -/
theorem nodes_append_of_passes {second : String}
    (hsecond : ∀ t ∈ (Cursor.start second).tokens.1, t.kind ≠ .rightBrace)
    (hdepth : depthFor (us.length + 2 + (Cursor.start second).tokens.1.length) ≤ depth + 2)
    (hpasses : Passes s ((rules depth).statements true) us) :
    (Package.parse name (first ++ second) journal).1.package.nodes = [] := by
  have ht :=
    h.tokens_append Cursor.standsAlone_rightBrace (kind_ne_unterminatedString hl hus) second
  rw [depthFor] at hdepth
  obtain ⟨journal', hnodes, -⟩ :=
    parse_of_statements name _ journal .failing ht (depth + 2) (by simp [depthFor]; omega)
  have hrest : ∀ t ∈ (Cursor.start second).tokens.1.map (Token.relined (· + lineFeeds first)),
      t.kind ≠ .eof ∧ t.kind ≠ .rightBrace := by
    intro t ht
    obtain ⟨u, hu, rfl⟩ := List.mem_map.mp ht
    exact ⟨Cursor.kind_ne_eof u hu, hsecond u hu⟩
  have hnil := statements_of_passes hl hrest (by simp [depthFor]; omega) hpasses
    ((Cursor.start second).tokens.2 + lineFeeds first) [] journal'
  exact Option.some_inj.mp (hnodes.symm.trans hnil)

/-- `statements` `Passes` the closing brace exactly if `Package.parse` gives no node for the
block by itself. -/
theorem passes_iff (hdepth : depthFor (us.length + 2) ≤ depth + 2) :
    Passes s ((rules depth).statements true) us ↔
      (Package.parse name first journal).1.package.nodes = [] := by
  constructor
  · intro hpasses
    have hempty : (Cursor.start "").tokens = ([], 1) := Cursor.tokens_of_blank rfl
    have hsecond : ∀ t ∈ (Cursor.start "").tokens.1, t.kind ≠ .rightBrace := by
      rw [hempty]
      exact List.forall_mem_nil _
    have hnil := nodes_append_of_passes h hl hus name journal hsecond (by rwa [hempty]) hpasses
    rwa [String.append_empty] at hnil
  · intro hnil
    rw [depthFor] at hdepth
    refine (block_goes_or_passes hl h.kind (kind_of_body h hus)
      (by rw [depthFor]; omega)).resolve_left ?_
    rintro ⟨n, ds, hgoes⟩
    rw [rules] at hgoes
    have hnodes :=
      (parse_of_goes h (by rw [depthFor, List.length_cons]; omega) hgoes name journal).1
    rw [hnil] at hnodes
    cases hnodes

/-- In front of any source, a block for which `Package.parse` gives a tree stays as it is, and
so does the source but for its lines. -/
theorem parse_append_of_block (hblock : (Package.parse name first journal).1.package.nodes ≠ [])
    (second : String) :
    let one := (Package.parse name first journal).1
    let two := (Package.parse name second journal).1
    let both := (Package.parse name (first ++ second) journal).1
    both.package.nodes = one.package.nodes ++
      two.package.nodes.map (Node.relined (· + lineFeeds first)) ∧
      both.errors = one.errors ++
        two.errors.map (Diagnostic.relined (· + lineFeeds first)) := by
  refine (parse_append h Cursor.standsAlone_rightBrace (kind_ne_unterminatedString hl hus)
    .failing ?_ name second journal).2
  intro depth hdepth
  rw [depthFor, List.length_cons] at hdepth
  obtain ⟨depth, rfl⟩ : ∃ k, depth = k + 1 := Nat.exists_eq_add_of_le' (by omega)
  have henough : depthFor (us.length + 1) ≤ depth := by rw [depthFor]; omega
  -- which of the two it is may not depend on the depth,
  -- since the block by itself is read at every depth
  obtain ⟨n, ds, hgoes⟩ | hpasses := block_goes_or_passes hl h.kind (kind_of_body h hus) henough
  · exact ⟨some n, ds, hgoes⟩
  · have hnil := (passes_iff h hl hus name journal (by rw [depthFor]; omega)).mp hpasses
    exact absurd hnil hblock

/-- If `Package.parse` gives no tree for the block, and no token of the second source is a
closing brace, then it gives none for both together. -/
theorem nodes_append_of_no_block
    (hblock : (Package.parse name first journal).1.package.nodes = []) {second : String}
    (hsecond : ∀ t ∈ (Cursor.start second).tokens.1, t.kind ≠ .rightBrace) :
    (Package.parse name (first ++ second) journal).1.package.nodes = [] := by
  have hdepth :=
    Nat.le_add_right (depthFor (us.length + 2 + (Cursor.start second).tokens.1.length)) 2
  refine nodes_append_of_passes h hl hus name journal hsecond hdepth ?_
  exact (passes_iff h hl hus name journal (by simp only [depthFor]; omega)).mpr hblock

omit h hl hus in
theorem nodes_of_name : (Package.parse name "x;" journal).1.package.nodes = [.ident 1 "x"] := by
  have ht : (Cursor.start "x;").tokens = ([⟨.ident, 1, "x"⟩, ⟨.semicolon, 1, ";"⟩], 1) := by
    decide +kernel
  obtain ⟨journal', hnodes, -⟩ :=
    parse_of_statements name _ journal .failing ht 12 (Nat.le_refl 12)
  exact (Option.some_inj.mp hnodes).symm

/-- Let `first` be a block by its tokens, with no closing brace among `us`. For each source put
behind it, the trees and the diagnostics of that source are the last ones of `Package.parse` on
both, but for lines, if and only if `Package.parse` gives a tree for `first` alone, that is, if
`Grammar.block` has not gone past the closing brace. -/
theorem parse_append_block_iff :
    (∀ second : String,
      let two := (Package.parse name second journal).1
      let both := (Package.parse name (first ++ second) journal).1
      two.package.nodes.map (Node.relined (· + lineFeeds first)) <:+ both.package.nodes ∧
        two.errors.map (Diagnostic.relined (· + lineFeeds first)) <:+ both.errors) ↔
      (Package.parse name first journal).1.package.nodes ≠ [] := by
  constructor
  · intro hsuffix hnil
    have hsecond : ∀ t ∈ (Cursor.start "x;").tokens.1, t.kind ≠ .rightBrace := by decide +kernel
    obtain ⟨hnodes, -⟩ := hsuffix "x;"
    rw [nodes_of_name, nodes_append_of_no_block h hl hus name journal hnil hsecond] at hnodes
    exact List.cons_ne_nil _ _ (List.suffix_nil.mp hnodes)
  · intro hblock second
    obtain ⟨hnodes, herrors⟩ := parse_append_of_block h hl hus name journal hblock second
    exact ⟨⟨_, hnodes.symm⟩, ⟨_, herrors.symm⟩⟩

omit h hl hus in
/-- A block with an operator missing is read up to its brace, and so is what is behind it. -/
theorem parse_append_block_of_operands :
    let first := "\x7b a b \x7d"
    let us : List Token := [⟨.ident, 1, "a"⟩, ⟨.ident, 1, "b"⟩]
    EndsOn first (⟨.leftBrace, 1, "\x7b"⟩ :: us) '\x7d' ⟨.rightBrace, 1, "\x7d"⟩ ∧
      (∀ t ∈ us, t.kind ≠ .rightBrace ∧ t.kind ≠ .unterminatedString) ∧
      ((∀ second : String,
        let two := (Package.parse "main" second {}).1
        let both := (Package.parse "main" (first ++ second) {}).1
        two.package.nodes.map (Node.relined (· + lineFeeds first)) <:+ both.package.nodes ∧
          two.errors.map (Diagnostic.relined (· + lineFeeds first)) <:+ both.errors) ↔
        (Package.parse "main" first {}).1.package.nodes ≠ []) := by
  intro first us
  have h : EndsOn first (⟨.leftBrace, 1, "\x7b"⟩ :: us) '\x7d' ⟨.rightBrace, 1, "\x7d"⟩ :=
    ⟨rfl, by decide +kernel, "\x7b a b ".toList, by decide, by decide +kernel⟩
  have hus : ∀ t ∈ us, t.kind ≠ .rightBrace ∧ t.kind ≠ .unterminatedString := by decide
  exact ⟨h, hus, parse_append_block_iff h rfl hus "main" {}⟩

omit h hl hus in
/-- A block with an operand missing at its end loses its brace and what is behind it. -/
theorem nodes_append_block_of_operator :
    let first := "\x7b a + \x7d"
    let second := " x;"
    let us : List Token := [⟨.ident, 1, "a"⟩, ⟨.plus, 1, "+"⟩]
    let two := (Package.parse "main" second {}).1
    let both := (Package.parse "main" (first ++ second) {}).1
    EndsOn first (⟨.leftBrace, 1, "\x7b"⟩ :: us) '\x7d' ⟨.rightBrace, 1, "\x7d"⟩ ∧
      (∀ t ∈ us, t.kind ≠ .leftBrace ∧ t.kind ≠ .rightBrace ∧ t.kind ≠ .unterminatedString) ∧
      opens 0 us = 0 ∧ both.package.nodes = [] ∧
      ¬two.package.nodes.map (Node.relined (· + lineFeeds first)) <:+ both.package.nodes := by
  intro first second us two both
  have h : EndsOn first (⟨.leftBrace, 1, "\x7b"⟩ :: us) '\x7d' ⟨.rightBrace, 1, "\x7d"⟩ :=
    ⟨rfl, by decide +kernel, "\x7b a + ".toList, by decide, by decide +kernel⟩
  have hboth : both.package.nodes = [] := by decide +kernel
  have htwo : two.package.nodes.length = 1 := by decide +kernel
  refine ⟨h, by decide, rfl, hboth, fun hsuffix => ?_⟩
  have hlength := hsuffix.length_le
  rw [List.length_map, htwo, hboth] at hlength
  exact absurd hlength (by decide)

end Package
end ScriptLang
