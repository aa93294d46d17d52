import Mathlib.Data.List.Chain
import ScriptLang.Proofs.Language
import ScriptLang.Proofs.Roles
import ScriptLang.Proofs.RoundTrip

/-!
# Reading a listing

A listing is numbered line by line, and a compound statement has no semicolon behind it there,
but has one inside of a block. Without the numbers the listing is a source again. It is read as
the trees that it lists if these say all there is to them when printed: no string spans lines,
so no line of the listing is inside of a string, and no operand needs parentheses that are not
printed.

- `Text.Plain`: text in which a line feed is all that ends a line.
- `Listable`: the trees that a listing says all of, with `Formed.canonical_of_listable`.
- `lexemes_listed`, `derives_listed`: the statements of a listing, with semicolons behind some
  of them.
- `Package.listing_reads_back`: a listing is numbered, and is read back as what it lists.
-/

namespace ScriptLang

open Grammar Text

/-! ## The lines of a text -/

namespace Text

/-- The text `cs` has no carriage return in front of a line feed. -/
def Plain (cs : List Char) : Prop := cs.IsChain fun c d => d = '\n' → c ≠ '\r'

/-- The lines `ls` one after the other, a line feed behind each. -/
def unlines (ls : List (List Char)) : List Char := ls.flatMap (· ++ ['\n'])

section Lines

variable {c : Char} {cs ds : List Char} {ls : List (List Char)}

theorem plain_of_not_mem (h : '\n' ∉ cs) : Plain cs := by
  induction cs with
  | nil => exact .nil
  | cons c cs ih =>
    have hcs := List.not_mem_of_not_mem_cons h
    refine List.isChain_cons.mpr ⟨fun d hd hn => ?_, ih hcs⟩
    exact absurd (hn ▸ List.mem_of_mem_head? hd) hcs

theorem Plain.append (hc : Plain cs) (hd : Plain ds) (h : Firm cs ∨ ds.head? ≠ some '\n') :
    Plain (cs ++ ds) := by
  refine List.isChain_append.mpr ⟨hc, hd, ?_⟩
  rintro c hlast d hhead rfl rfl
  exact h.elim (fun h => h hlast) fun h => h hhead

theorem Plain.cons (h : Plain cs) (hc : c ≠ '\r') : Plain (c :: cs) :=
  List.isChain_cons.mpr ⟨fun _ _ _ => hc, h⟩

theorem Plain.of_cons (h : Plain (c :: cs)) : Plain cs := (List.isChain_cons.mp h).2

theorem not_plain_lineEnd : ¬Plain ('\r' :: '\n' :: cs) :=
  fun h => (List.isChain_cons.mp h).1 '\n' rfl rfl rfl

/-- Text stays `Plain` when a tab is put behind each of its line feeds. -/
theorem Plain.tabbed (h : Plain cs) : Plain (tabbed cs) := by
  induction cs using induct_tabbed with
  | nil => exact h
  | newline cs ih => exact ((ih h.of_cons).cons (by decide)).cons (by decide)
  | lineEnd cs => exact absurd h not_plain_lineEnd
  | other c cs hn hr ih =>
    rw [tabbed_other hn hr]
    refine List.isChain_cons.mpr ⟨?_, ih h.of_cons⟩
    rintro d hd rfl rfl
    -- a line feed stays where it is, so one behind the carriage return has been there before
    cases cs using induct_tabbed with
    | nil => cases hd
    | newline cs => exact hr rfl rfl
    | lineEnd cs => exact not_plain_lineEnd h.of_cons
    | other d cs hn' hr' =>
      rw [tabbed_other hn' hr'] at hd
      exact hn' (Option.some_inj.mp hd)

theorem newline_not_mem_lines {l : List Char} (h : l ∈ lines cs) : '\n' ∉ l := by
  fun_induction lines cs generalizing l with
  | case1 => cases h
  | case2 cs ih | case3 cs ih =>
    rcases List.mem_cons.mp h with rfl | h
    · exact List.not_mem_nil
    · exact ih h
  | case4 c cs hn =>
    rw [List.mem_singleton.mp h]
    exact fun he => hn (List.mem_singleton.mp he).symm
  | case5 c cs hn hr l' ls hl ih =>
    rw [hl] at ih
    rcases List.mem_cons.mp h with rfl | h
    · exact List.not_mem_cons_of_ne_of_not_mem (Ne.symm hn) (ih List.mem_cons_self)
    · exact ih (List.mem_cons_of_mem _ h)

/-- `Plain` text is made of its `lines`. -/
theorem unlines_lines (hp : Plain cs) (hs : Solid cs) : unlines (lines cs) = cs ++ ['\n'] := by
  fun_induction lines cs with
  | case1 => exact absurd rfl hs.ne_nil
  | case2 cs ih =>
    have hcs : cs ≠ [] := by
      rintro rfl
      exact not_solid_newline hs
    exact congrArg ('\n' :: ·) (ih hp.of_cons (hs.of_cons hcs))
  | case3 => exact absurd hp not_plain_lineEnd
  | case4 c cs hn hr hl =>
    rw [lines_eq_nil.mp hl]
    rfl
  | case5 c cs hn hr l ls hl ih =>
    have hcs : cs ≠ [] := by
      rintro rfl
      cases hl
    have ih := ih hp.of_cons (hs.of_cons hcs)
    rw [hl] at ih
    exact congrArg (c :: ·) ih

/-- The `lines` of `Plain` text are `Firm`. -/
theorem firm_of_mem_lines {l : List Char} (hp : Plain cs) (hs : Solid cs) (h : l ∈ lines cs) :
    Firm l := by
  have hall : Plain (unlines (lines cs)) := by
    rw [unlines_lines hp hs]
    exact hp.append (List.isChain_singleton '\n') (.inl hs.firm)
  have hline : Plain (l ++ ['\n']) := by
    rw [unlines, List.flatMap_def] at hall
    exact hall.infix (List.infix_of_mem_flatten (List.mem_map_of_mem h))
  exact fun hr => (List.isChain_append.mp hline).2.2 '\r' hr '\n' rfl rfl rfl

/-- The `lines` of `unlines` are those that it was made of. -/
theorem lines_unlines (h : ∀ l ∈ ls, '\n' ∉ l ∧ Firm l) : lines (unlines ls) = ls := by
  have one {l : List Char} (ds : List Char) (hn : '\n' ∉ l) (hf : Firm l) :
      lines (l ++ '\n' :: ds) = l :: lines ds := by
    induction l with
    | nil => rfl
    | cons c l ih =>
      have hc : c ≠ '\n' := (List.ne_of_not_mem_cons hn).symm
      have hr (es : List Char) (he : c = '\r') : l ++ '\n' :: ds ≠ '\n' :: es := by
        cases l with
        | nil => exact absurd (congrArg some he) hf
        | cons d l =>
          rintro ⟨⟩
          exact hn (by simp)
      rw [List.cons_append, lines, ih (List.not_mem_of_not_mem_cons hn) hf.of_cons]
      · exact hc
      · exact hr
  induction ls with
  | nil => rfl
  | cons l ls ih =>
    obtain ⟨hn, hf⟩ := h l List.mem_cons_self
    have ih := ih fun m hm => h m (List.mem_cons_of_mem _ hm)
    rw [unlines, List.flatMap_cons, List.append_assoc]
    exact (one _ hn hf).trans (congrArg (l :: ·) ih)

end Lines

end Text

/-! ## Trees that a listing says all of -/

/-- The roles of what an operator stands in front of, or between. -/
def Role.IsOperand (role : Role) : Prop := role = .operand ∨ role = .left ∨ role = .right

/-- An assignment, or a declaration of a variable. -/
def Node.IsBinding : Node → Prop
  | .assign .. | .declare .. => True
  | _ => False

/-- Among the nodes that occur in `ns`, no string spans lines, and no operand
`Node.IsBinding`. -/
structure Listable (ns : List Node) : Prop where
  string : ∀ role line s, Occurs ns role (.string line s) → '\n' ∉ s.toList
  operand : ∀ role n, Occurs ns role n → role.IsOperand → ¬n.IsBinding

section Canonical

variable {d : Nat} {p : Place} {n : Node} {ns : List Node} {role : Role}

/-- An operand that is not `Node.IsBinding` stands in a place that `Rigor.canonical` allows. -/
theorem Listable.allows (hns : Listable ns) (hn : Occurs ns role n) (hrole : role.IsOperand)
    (hp : Rigor.parsed.Allows p) (h : Formed .parsed d p n) : Rigor.canonical.Allows p := by
  obtain rfl | ⟨rfl, -⟩ := hp
  · exact .inl rfl
  · cases h
    exact absurd trivial (hns.operand role _ hn hrole)

/-- Whatever occurs in `Listable` statements is canonical, inside of whatever number of
blocks. -/
theorem Formed.canonical_of_listable (h : Formed .parsed d p n) (hns : Listable ns)
    (hn : Occurs ns role n) (e : Nat) : Formed .canonical e p n := by
  have statement {b : Block} {role : Role} {n m : Node} (hn : Occurs ns role n)
      (hb : ∀ q ∈ b.parts, q ∈ n.parts) (hm : m ∈ b.nodes) : Occurs ns .statement m :=
    hn.part (hb _ (List.mem_map_of_mem hm))
  -- parts occur in the statements when the whole does,
  -- so the induction is on the shape of the tree
  induction h generalizing role e with
  | integer hk hl hv => exact .integer hk hl hv
  | string hq => exact .string hq fun _ _ => hns.string _ _ _ hn
  | boolean => exact .boolean
  | ident hx => exact .ident hx
  | call hx _ ih =>
    exact .call hx fun n hmem =>
      ih n hmem (hn.part (List.mem_cons_of_mem _ (List.mem_map_of_mem hmem))) e
  | prefixed ho hl hp hform ih =>
    have hpart : Occurs ns .operand _ := hn.part (List.mem_singleton.mpr rfl)
    exact .prefixed ho hl (hns.allows hpart (.inl rfl) hp hform) (ih hpart e)
  | infixed ho hl hp hleft hq hright ihl ihr =>
    have hl' : Occurs ns .left _ := hn.part List.mem_cons_self
    have hr' : Occurs ns .right _ := hn.part (List.mem_cons_of_mem _ List.mem_cons_self)
    exact .infixed ho hl (hns.allows hl' (.inr (.inl rfl)) hp hleft) (ihl hl' e)
      (hns.allows hr' (.inr (.inr rfl)) hq hright) (ihr hr' e)
  | assign hx _ ih =>
    exact .assign hx (ih (hn.part (List.mem_cons_of_mem _ List.mem_cons_self)) e)
  | operandValue _ ih => exact .operandValue (ih hn e)
  | assignedValue _ ih => exact .assignedValue (ih hn e)
  | declare hv hl hx => exact .declare hv hl hx
  | chain _ _ _ _ _ _ ihl =>
    -- at the front of the chain is a declaration, and it is an operand
    have hl' : Occurs ns .left _ := hn.part List.mem_cons_self
    cases ihl hl' e with
    | declare => exact absurd trivial (hns.operand _ _ hl' (.inr (.inl rfl)))
    | chain hr => cases hr
  | assignedInit _ ih => exact .assignedInit (ih hn e)
  | initialized hv hl hx _ ih =>
    exact .initialized hv hl hx (ih (hn.part (List.mem_cons_of_mem _ List.mem_cons_self)) e)
  | operandStatement _ ih => exact .operandStatement (ih hn e)
  | declaredStatement _ ih => exact .declaredStatement (ih hn e)
  | initStatement _ ih => exact .initStatement (ih hn e)
  | block _ ih => exact .block fun m hm => ih m hm (statement hn (fun _ h => h) hm) _
  | conditional _ _ _ iht ihb ihc =>
    refine .conditional (iht (hn.part List.mem_cons_self) e)
      (fun m hm => ihb m hm (statement hn (fun q hq => ?_) hm) _)
      fun c hc m hm => ihc c hc m hm (statement hn (fun q hq => ?_) hm) _
    · exact List.mem_cons_of_mem _ (List.mem_append_left _ hq)
    · refine List.mem_cons_of_mem _ (List.mem_append_right _ ?_)
      exact List.mem_flatMap.mpr ⟨c, Option.mem_toList.mpr hc, hq⟩
  | bareLoop _ ih =>
    exact .bareLoop fun m hm =>
      ih m hm (statement hn (fun _ h => List.mem_cons_of_mem _ h) hm) _
  | @loop _ _ _ _ _ _ step b _ _ _ ho hl hp hleft hq hright _ _ ihi ihl ihr ihs ihb =>
    have htest : Occurs ns .condition _ := hn.part (List.mem_cons_of_mem _ List.mem_cons_self)
    have hl' : Occurs ns .left _ := htest.part List.mem_cons_self
    have hr' : Occurs ns .right _ := htest.part (List.mem_cons_of_mem _ List.mem_cons_self)
    have hstep : ∀ m ∈ step, Occurs ns .step m := fun m hm =>
      hn.part (by simp [Node.parts, Option.mem_def.mp hm])
    have hbody : ∀ m ∈ b.nodes, Occurs ns .statement m :=
      fun m hm => statement hn (fun q hq => by simp [Node.parts, hq]) hm
    exact .loop (ihi (hn.part List.mem_cons_self) e) ho hl
      (hns.allows hl' (.inr (.inl rfl)) hp hleft) (ihl hl' e)
      (hns.allows hr' (.inr (.inr rfl)) hq hright) (ihr hr' e)
      (fun m hm => ihs m hm (hstep m hm) e) fun m hm => ihb m hm (hbody m hm) _
  | function hf hx _ ih =>
    exact .function hf hx fun m hm => ih m hm (statement hn (fun _ h => h) hm) _
  | returning _ ih => exact .returning (ih (hn.part (List.mem_singleton.mpr rfl)) e)
  | breaking => exact .breaking

end Canonical

/-! ## Canonical trees in print -/

section Print

variable {d : Nat} {p : Place} {n : Node}

theorem newline_not_mem_name {x : String} (hx : isName x.toList) : '\n' ∉ x.toList :=
  fun hn => (ne_of_isNameContinue ((word_of_isName hx).2 _ hn)).1.2 rfl

theorem newline_not_mem_commaSeparated {texts : List (List Char)}
    (h : ∀ cs ∈ texts, '\n' ∉ cs) : '\n' ∉ commaSeparated texts := by
  induction texts with
  | nil => exact List.not_mem_nil
  | cons cs texts ih =>
    have hcs := h cs List.mem_cons_self
    have ih := ih fun ds hds => h ds (List.mem_cons_of_mem _ hds)
    cases texts with
    | nil => rwa [commaSeparated, List.intercalate_singleton]
    | cons ds texts =>
      rw [commaSeparated] at ih
      rw [commaSeparated, List.intercalate_cons_cons]
      simp [hcs, ih]

/-- A node that `Node.isCompound` is formed as a statement only. -/
theorem Formed.isCompound_eq_false {r : Rigor} (h : Formed r d p n) (hp : p ≠ .statement) :
    n.isCompound = false := by
  induction h with
  | operandValue _ ih | assignedValue _ ih | assignedInit _ ih =>
    exact ih (by rintro ⟨⟩)
  | operandStatement | declaredStatement | initStatement | block | conditional | bareLoop | loop
  | function | returning | breaking => exact absurd rfl hp
  | _ => rfl

/-- Inside of a block, a canonical node that is not `Node.isCompound` is printed on one line. -/
theorem Formed.newline_not_mem (h : Formed .canonical d p n) (hd : 0 < d)
    (hn : n.isCompound = false) : '\n' ∉ n.print := by
  have operator {o : Token} (hl : o.Lexed) (ho : o.kind.isPrefix ∨ o.kind.isInfix) :
      '\n' ∉ o.literal.toList := by
    obtain ⟨hsym, hlit⟩ := hl.operator ho
    exact hlit ▸ (plain_of_isSymbol hsym).1
  have keyword {v : Token} (hv : v.kind = .kwVar) (hl : v.Lexed) : '\n' ∉ v.literal.toList := by
    have hlit : TokenKind.kwVar.text.toList = v.literal.toList := by rwa [Token.Lexed, hv] at hl
    rw [← hlit]
    decide
  -- what a canonical operator is applied to is an operand, and so not compound
  have simple {d : Nat} {p : Place} {n : Node} (h : Formed .canonical d p n)
      (hp : Rigor.canonical.Allows p) : n.isCompound = false := by
    refine h.isCompound_eq_false ?_
    rw [Rigor.allows_canonical.mp hp]
    rintro ⟨⟩
  induction h with
  | integer hk hl =>
    exact fun hn => (ne_of_isNameContinue ((word_of_integer hk hl).2 _ hn)).1.2 rfl
  | string _ hs => simp [hs rfl hd]
  | @boolean _ _ b => cases b <;> simp
  | ident hx => exact newline_not_mem_name hx
  | @call _ _ _ _ args hx hargs ih =>
    have hargs : ∀ cs ∈ args.map Node.print, '\n' ∉ cs := by
      intro cs hcs
      obtain ⟨m, hm, rfl⟩ := List.mem_map.mp hcs
      exact ih m hm hd ((hargs m hm).isCompound_eq_false (by rintro ⟨⟩))
    simp [newline_not_mem_name hx, newline_not_mem_commaSeparated hargs]
  | prefixed ho hl hp h ih => simp [operator hl (.inl ho), ih hd (simple h hp)]
  | infixed ho hl hp hleft hq hright ihl ihr =>
    simp [operator hl (.inr ho), ihl hd (simple hleft hp), ihr hd (simple hright hq)]
  | assign hx h ih =>
    simp [newline_not_mem_name hx, ih hd (h.isCompound_eq_false (by rintro ⟨⟩))]
  | declare hv hl hx => simp [keyword hv hl, newline_not_mem_name hx]
  | chain hr => cases hr
  | initialized hv hl hx h ih =>
    simp [keyword hv hl, newline_not_mem_name hx, ih hd (h.isCompound_eq_false (by rintro ⟨⟩))]
  | operandValue _ ih | assignedValue _ ih | assignedInit _ ih | operandStatement _ ih
  | declaredStatement _ ih | initStatement _ ih => exact ih hd hn
  | returning h ih => simp [ih hd (h.isCompound_eq_false (by rintro ⟨⟩))]
  | breaking => simp
  | block | conditional | bareLoop | loop | function => cases hn

/-- `Block.print` is `Plain` if the printed statements are. -/
theorem plain_block {b : Block} (hs : ∀ n ∈ b.nodes, Solid n.print)
    (hp : ∀ n ∈ b.nodes, Plain n.print) : Plain b.print := by
  have close : Plain [';', '\n'] := .cons (List.isChain_singleton '\n') (by decide)
  have statements :
      Plain ((b.nodes.flatMap fun n => indented (lines n.print)) ++ ['\x7d']) := by
    generalize b.nodes = ns at hs hp
    induction ns with
    | nil => exact List.isChain_singleton '\x7d'
    | cons n ns ih =>
      have ih := ih (fun m hm => hs m (List.mem_cons_of_mem _ hm))
        fun m hm => hp m (List.mem_cons_of_mem _ hm)
      have hfirm := (hs n List.mem_cons_self).firm.tabbed
      have htext := (hp n List.mem_cons_self).tabbed.append close (.inl hfirm)
      rw [List.flatMap_cons, List.append_assoc, indented_lines (hs n List.mem_cons_self)]
      refine (htext.cons (by decide)).append ih (.inl ?_)
      rw [Firm, ← List.cons_append, List.getLast?_append]
      rintro ⟨⟩
  rw [Block.print_eq, List.append_assoc]
  exact (statements.cons (by decide)).cons (by decide)

/-- A printed block may stand behind any text that is `Plain`, as it begins with a brace. -/
theorem plain_append_block {cs : List Char} {b : Block} (hcs : Plain cs) (hb : Plain b.print) :
    Plain (cs ++ b.print) := by
  refine hcs.append hb (.inr ?_)
  rw [Block.print_eq]
  rintro ⟨⟩

/-- Inside of a block, `Node.print` of a canonical node is `Plain`. -/
theorem Formed.plain_print (h : Formed .canonical d p n) (hd : 0 < d) : Plain n.print := by
  cases hn : n.isCompound with
  | false => exact plain_of_not_mem (h.newline_not_mem hd hn)
  | true =>
    -- a compound node is made of texts on one line, and of blocks
    have inline {d : Nat} {p : Place} {n : Node} (h : Formed .canonical d p n) (hd : 0 < d)
        (hp : p ≠ .statement) : '\n' ∉ n.print :=
      h.newline_not_mem hd (h.isCompound_eq_false hp)
    have block {d : Nat} {b : Block}
        (hb : ∀ n ∈ b.nodes, Formed .canonical (d + 1) .statement n)
        (ih : ∀ n ∈ b.nodes, 0 < d + 1 → n.isCompound = true → Plain n.print) :
          Plain b.print := by
      refine plain_block (fun n hn => (hb n hn).solid_print) fun n hn => ?_
      cases hc : n.isCompound with
      | false => exact plain_of_not_mem ((hb n hn).newline_not_mem (Nat.succ_pos _) hc)
      | true => exact ih n hn (Nat.succ_pos _) hc
    induction h with
    | operandValue _ ih | assignedValue _ ih | assignedInit _ ih | operandStatement _ ih
    | declaredStatement _ ih | initStatement _ ih => exact ih hd hn
    | block hb ih => exact block hb ih
    | @conditional _ _ test b c ht hb hc _ ihb ihc =>
      have hfront : '\n' ∉ "if (".toList ++ test.print ++ ") ".toList := by
        simp [inline ht hd nofun]
      have hthen := plain_append_block (plain_of_not_mem hfront) (block hb ihb)
      cases c with
      | none => exact hthen
      | some c =>
        have helse : Plain " else ".toList := plain_of_not_mem (by decide)
        exact plain_append_block (hthen.append helse (.inr (by decide)))
          (block (hc c rfl) (ihc c rfl))
    | bareLoop hb ih =>
      have hfront : Plain "loop ".toList := plain_of_not_mem (by decide)
      exact plain_append_block hfront (block hb ih)
    | @loop _ _ o init left right step b _ _ hi ho hl hp hleft hq hright hs hb _ _ _ _ ih =>
      have htest := inline (.infixed ho hl hp hleft hq hright) hd nofun
      generalize Node.infixed o left right = test at htest
      cases step with
      | none =>
        have hfront : '\n' ∉ "loop (".toList ++ init.print ++ "; ".toList ++ test.print ++
            "; ) ".toList := by
          simp [inline hi hd nofun, htest]
        exact plain_append_block (plain_of_not_mem hfront) (block hb ih)
      | some step =>
        have hfront : '\n' ∉ "loop (".toList ++ init.print ++ "; ".toList ++ test.print ++
            "; ".toList ++ step.print ++ ") ".toList := by
          simp [inline hi hd nofun, htest, inline (hs step rfl) hd nofun]
        exact plain_append_block (plain_of_not_mem hfront) (block hb ih)
    | @function _ _ f params b hf hparams hb ih =>
      have hnames : ∀ cs ∈ params.map fun x => x.name.toList, '\n' ∉ cs := by
        intro cs hcs
        obtain ⟨x, hx, rfl⟩ := List.mem_map.mp hcs
        exact newline_not_mem_name (hparams x hx)
      have hfront : '\n' ∉ "fun ".toList ++ f.name.toList ++
          '(' :: commaSeparated (params.map fun x => x.name.toList) ++ ") ".toList := by
        simp [newline_not_mem_name hf, newline_not_mem_commaSeparated hnames]
      exact plain_append_block (plain_of_not_mem hfront) (block hb ih)
    | _ => cases hn

end Print

/-! ## Listings without their numbers -/

/-- A listing without what is in front of each of its `lines`: the number, and the tab behind
it. -/
def withoutNumbers (cs : List Char) : List Char :=
  unlines ((lines cs).map fun l => (l.dropWhile (· ≠ '\t')).tail)

/-- A line of a listing, with its number and a tab in front of it. -/
def numbered (entry : List Char × Nat) : List Char := Nat.toDigits 10 entry.2 ++ '\t' :: entry.1

section Numbers

variable {n : Node} {ns : List Node} {package : Package}

theorem not_mem_toDigits {c : Char} (hc : c.isDigit = false) (k : Nat) :
    c ∉ Nat.toDigits 10 k := by
  intro h
  rw [Nat.isDigit_of_mem_toDigits (by decide) (by decide) h] at hc
  cases hc

theorem dropWhile_numbered (entry : List Char × Nat) :
    ((numbered entry).dropWhile (· ≠ '\t')).tail = entry.1 := by
  have hdigits : ∀ c ∈ Nat.toDigits 10 entry.2, decide (c ≠ '\t') = true := by
    intro c hc
    rw [decide_eq_true_eq]
    rintro rfl
    exact not_mem_toDigits rfl _ hc
  rw [numbered, List.dropWhile_append_of_pos hdigits]
  rfl

theorem numbered_line {entry : List Char × Nat} (h : '\n' ∉ entry.1 ∧ Firm entry.1) :
    '\n' ∉ numbered entry ∧ Firm (numbered entry) := by
  constructor
  · simp [numbered, not_mem_toDigits, h.1]
  · rw [Firm, numbered, List.getLast?_append_cons]
    intro hr
    exact h.2 (getLast?_of_cons hr (by decide))

theorem Package.print_eq_unlines (package : Package) :
    package.print =
      unlines ((package.nodes.flatMap Node.listingLines).zipIdx.map numbered) := by
  rw [unlines, List.flatMap_map]
  rfl

/-- The `lines` of `Package.print` are those of `Node.listingLines`, each `numbered`. -/
theorem Package.lines_print
    (h : ∀ n ∈ package.nodes, ∀ l ∈ n.listingLines, '\n' ∉ l ∧ Firm l) :
    lines package.print = (package.nodes.flatMap Node.listingLines).zipIdx.map numbered := by
  rw [Package.print_eq_unlines]
  refine lines_unlines fun l hl => ?_
  obtain ⟨entry, hentry, rfl⟩ := List.mem_map.mp hl
  obtain ⟨n, hn, hline⟩ := List.mem_flatMap.mp (List.fst_mem_of_mem_zipIdx hentry)
  exact numbered_line (h n hn _ hline)

theorem Package.withoutNumbers_print
    (h : ∀ n ∈ package.nodes, ∀ l ∈ n.listingLines, '\n' ∉ l ∧ Firm l) :
    withoutNumbers package.print = unlines (package.nodes.flatMap Node.listingLines) := by
  rw [withoutNumbers, Package.lines_print h, List.map_map]
  have hline : (fun l : List Char => (l.dropWhile (· ≠ '\t')).tail) ∘ numbered = Prod.fst :=
    funext dropWhile_numbered
  rw [hline, List.zipIdx_map_fst]

/-- `Node.listingLines` of a canonical statement are lines that are `Firm`, and make up its
printed form and what ends it. -/
theorem Formed.listingLines {d : Nat} (h : Formed .canonical d .statement n) (hd : 0 < d) :
    (∀ l ∈ n.listingLines, '\n' ∉ l ∧ Firm l) ∧
      unlines n.listingLines = n.print ++ (if n.isCompound then ['\n'] else [';', '\n']) := by
  rw [Node.listingLines]
  cases hn : n.isCompound with
  | false =>
    refine ⟨fun l hl => ?_, by simp [unlines]⟩
    have hline := h.newline_not_mem hd hn
    rw [List.mem_singleton.mp hl]
    exact ⟨by simp [hline], (Solid.append _ ⟨';', rfl, by decide⟩).firm⟩
  | true =>
    have hplain := h.plain_print hd
    exact ⟨fun l hl => ⟨newline_not_mem_lines hl, firm_of_mem_lines hplain h.solid_print hl⟩,
      unlines_lines hplain h.solid_print⟩

end Numbers

/-! ## Listed statements are read back -/

section ReadBack

variable {ns : List Node}

/-- The tokens of a statement in a listing: `Node.spell`, and a semicolon unless it
`Node.isCompound`. -/
def Node.listed (n : Node) : List Token :=
  n.spell 0 ++ if n.isCompound then [] else [.ofKind .semicolon 0]

/-- What `Node.listingLines` gives for each statement is lexed into `Node.listed`. -/
theorem lexemes_listed (h : ∀ n ∈ ns, ∀ d, Formed .canonical d .statement n) :
    Cursor.lexemes (unlines (ns.flatMap Node.listingLines)) = ns.flatMap Node.listed := by
  induction ns with
  | nil => exact Cursor.lexemes_nil
  | cons n ns ih =>
    have ih := ih fun m hm => h m (List.mem_cons_of_mem _ hm)
    have hn := h n List.mem_cons_self
    have hread := (hn 0).parsed.lexemes_print (d := 0)
    rw [List.flatMap_cons, List.flatMap_cons, ← ih, unlines,
      List.flatMap_append, ← unlines, ← unlines,
      ((hn 1).listingLines (by decide)).2, List.append_assoc, Node.listed]
    generalize unlines (ns.flatMap Node.listingLines) = rest
    cases n.isCompound with
    | false =>
      refine (hread (';' :: '\n' :: rest) (ends_semicolon _)).trans ?_
      rw [Cursor.lexemes_semicolon, Cursor.lexemes_newline]
      simp
    | true =>
      refine (hread ('\n' :: rest) (ends_cons (by decide))).trans ?_
      rw [Cursor.lexemes_newline]
      simp

/-- The tokens of `Node.listed` are derived as the statements, though compound ones have no
semicolon. -/
theorem derives_listed (h : ∀ n ∈ ns, Canonical n) :
    Derives .statements (ns.flatMap Node.listed) (ns.map Node.bare) := by
  induction ns with
  | nil => exact .noStatements
  | cons n ns ih =>
    have ih := ih fun m hm => h m (List.mem_cons_of_mem _ hm)
    have hn := h n List.mem_cons_self
    rw [List.flatMap_cons, List.map_cons, Node.listed]
    cases hc : n.isCompound with
    | false => exact hn.respelled.append ih
    | true =>
      rw [if_pos rfl, List.append_nil]
      exact .statements (hn.derives_compound hc) ih

end ReadBack

namespace Package

/-- `Package.print` puts the number of each line in front of it, from zero. If the trees of the
package are `Listable`, then the listing `withoutNumbers` is a source, and it is read back
without errors as these trees, but for lines. -/
theorem listing_reads_back (name source : String) (journal journal' : Journal)
    (h : Listable (parse name source journal).1.package.nodes) :
    let package := (parse name source journal).1.package
    let second := (parse name (String.ofList (withoutNumbers package.print)) journal').1
    (∀ k line, (lines package.print)[k]? = some line → Nat.toDigits 10 k ++ ['\t'] <+: line) ∧
      second.errors = [] ∧
      second.package.nodes.map Node.bare = package.nodes.map Node.bare := by
  intro package second
  have hform : ∀ n ∈ package.nodes, ∀ d, Formed .canonical d .statement n := fun n hn =>
    (formed_parse name source journal n hn).canonical_of_listable h (.statement hn)
  have hlines : ∀ n ∈ package.nodes, ∀ l ∈ n.listingLines, '\n' ∉ l ∧ Firm l :=
    fun n hn => ((hform n hn 1).listingLines (by decide)).1
  refine ⟨fun k line hline => ?_, ?_⟩
  · rw [lines_print hlines, List.getElem?_map, List.getElem?_zipIdx, Option.map_map] at hline
    obtain ⟨l, -, rfl⟩ := Option.map_eq_some_iff.mp hline
    exact ⟨l, by simp [numbered]⟩
  · obtain ⟨ms, hms, hbare⟩ : ∃ ms, Derives .statements (Cursor.start (String.ofList
        (withoutNumbers package.print))).tokens.1 ms ∧
          ms.map Node.bare = package.nodes.map Node.bare := by
      refine (derives_lexemes_iff _ _).mp ?_
      rw [String.toList_ofList, withoutNumbers_print hlines, lexemes_listed hform]
      exact derives_listed fun n hn => hform n hn 0
    have hsecond : second = ⟨⟨name, ms⟩, []⟩ := parse_of_derives hms journal'
    rw [hsecond]
    exact ⟨rfl, hbare⟩

/-- A block has no semicolon behind it in the listing, and the statement in it has one. -/
theorem listing_reads_back_block :
    let source := "\x7b -a; \x7d \"x\";"
    let package := (parse "main" source {}).1.package
    let second := (parse "main" (String.ofList (withoutNumbers package.print)) {}).1
    Listable package.nodes ∧
      (∀ k line, (lines package.print)[k]? = some line → Nat.toDigits 10 k ++ ['\t'] <+: line) ∧
      second.errors = [] ∧
      second.package.nodes.map Node.bare = package.nodes.map Node.bare := by
  intro source package
  let negated : Node := .prefixed (.ofKind .minus 1) (.ident 1 "a")
  -- the parser gives what the grammar derives, so it need not be run
  have hnodes : package.nodes = [.block ⟨1, [negated]⟩, .string 1 "x"] := by
    have hnegated := Derives.expressionStatement (s := .ofKind .semicolon 1)
      (.lone (.prefixed (o := .ofKind .minus 1) rfl (.name (t := ⟨.ident, 1, "a"⟩) rfl))) rfl
    have hblock := Derives.blockStatement (.block (l := .ofKind .leftBrace 1)
      (r := .ofKind .rightBrace 1) rfl (.statements hnegated .noStatements) rfl)
    have hstring := Derives.expressionStatement (s := .ofKind .semicolon 1)
      (.lone (.string (t := ⟨.string, 1, "x"⟩) rfl)) rfl
    have hprogram := Derives.statements hblock (.statements hstring .noStatements)
    have htokens : Derives .statements (Cursor.start source).tokens.1 _ :=
      Eq.mpr (congrArg (Derives .statements · _) (by decide +kernel)) hprogram
    show (parse "main" source {}).1.package.nodes = _
    rw [parse_of_derives htokens]
    rfl
  have hoccurs : ∀ role n, Occurs package.nodes role n →
      n = .block ⟨1, [negated]⟩ ∨ n = negated ∨ n = .ident 1 "a" ∨ n = .string 1 "x" := by
    rw [hnodes]
    intro role n h
    induction h with
    | statement hn => exact (List.mem_pair.mp hn).imp_right fun hn => .inr (.inr hn)
    | part _ hpart ih =>
      rcases ih with rfl | rfl | rfl | rfl
      · cases List.mem_singleton.mp hpart
        exact .inr (.inl rfl)
      · cases List.mem_singleton.mp hpart
        exact .inr (.inr (.inl rfl))
      · cases hpart
      · cases hpart
  have h : Listable package.nodes := by
    constructor
    · intro role line s h
      obtain ⟨-, rfl⟩ : line = 1 ∧ s = "x" := by simpa [negated] using hoccurs _ _ h
      decide
    · intro role n h _ hn
      obtain rfl | rfl | rfl | rfl := hoccurs _ _ h <;> exact hn
  exact ⟨h, listing_reads_back "main" source {} {} h⟩

end Package

end ScriptLang
