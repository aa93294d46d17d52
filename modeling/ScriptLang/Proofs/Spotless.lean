import ScriptLang.Proofs.Spelling

/-!
# Canonical form is seen in the tokens

What keeps a tree from being canonical leaves a spot in its spelling: an equals sign behind the
name of an operand, a `var` in a group, or a string that spans lines in a block. All of them are
found in one pass from left to right that keeps in mind what stands in front of a token and how
many blocks are around it. So trees that are spelled alike are canonical alike.

- `Front`: what stands in front of a token.
- `spotless`: no token of a list is a spot.
- `Formed.canonical_iff`: a tree is canonical if and only if its spelling is spotless.
- `Formed.canonical_of_spell`: a tree that is spelled as a canonical tree is canonical.
-/

namespace ScriptLang

open Text

/-- What stands in front of a token, as far as `admits` looks at it. -/
inductive Front where
  | free
  /-- An operator, or the parenthesis of a group. -/
  | operator
  /-- The name of an operand. -/
  | operand
  /-- What a list in parentheses may stand behind. -/
  | head
  deriving DecidableEq

namespace Front

/-- What stands in front of the token behind one of the given kind, which has `f` in front of
it. -/
def next (f : Front) : TokenKind → Front
  | .leftParen => if f = operand ∨ f = head then free else operator
  | .ident => if f = operator then operand else head
  | .kwIf | .kwLoop => head
  | k => if k.isPrefix || k.isInfix then operator else free

/-- The token `t` is no spot behind `f`, inside of `d` blocks. -/
def admits (f : Front) (d : Nat) (t : Token) : Bool :=
  match t.kind with
  | .equal => f != operand
  | .kwVar => f != operator
  | .string => d == 0 || !t.literal.toList.contains '\n'
  | _ => true

end Front

/-- The number of blocks around the token behind one of the given kind, which is inside of
`d`. -/
def blocksBehind (d : Nat) : TokenKind → Nat
  | .leftBrace => d + 1
  | .rightBrace => d - 1
  | _ => d

/-- Every token of a list is one that its `Front` `admits`. -/
def spotless : Front → Nat → List Token → Bool
  | _, _, [] => true
  | f, d, t :: ts => f.admits d t && spotless (f.next t.kind) (blocksBehind d t.kind) ts

/-- Whether the tokens `ts` are `spotless` does not depend on what stands in front of them. -/
def Stops (ts : List Token) : Prop := ∀ f d, spotless f d ts = spotless .free d ts

/-- No tokens are `Stops`, whatever stands in front. The next lemmas say so of tokens that an
operand may end on. -/
theorem stops_nil : Stops [] := fun _ _ => rfl

theorem stops_rightParen (ts : List Token) : Stops (.ofKind .rightParen 0 :: ts) :=
  fun _ _ => rfl

theorem stops_comma (ts : List Token) : Stops (.ofKind .comma 0 :: ts) := fun _ _ => rfl

theorem stops_semicolon (ts : List Token) : Stops (.ofKind .semicolon 0 :: ts) := fun _ _ => rfl

section Spots

variable {d : Nat} {f : Front} {n : Node} {b : Block} {us : List Token}

/-- Behind an operator it is forgotten which `Front` it had. -/
theorem spotless_operator {o : Token} (ho : o.kind.isPrefix ∨ o.kind.isInfix) (f : Front)
    (d : Nat) (us : List Token) : spotless f d (o :: us) = spotless .operator d us := by
  obtain ⟨k, line, s⟩ := o
  cases k <;>
    first | rfl | (cases f <;> rfl) | simp [TokenKind.isPrefix, TokenKind.isInfix] at ho

theorem stops_of_isInfix {o : Token} (ho : o.kind.isInfix) (us : List Token) :
    Stops (o :: us) := by
  intro f d
  rw [spotless_operator (.inr ho), spotless_operator (.inr ho)]

/-- A tree at a place is canonical if and only if its `Node.spell` is `spotless`. Behind an
operator, the spelling of an operand is as it is elsewhere, and nothing else is spotless. -/
def Seen (d : Nat) (p : Place) (n : Node) : Prop :=
  (∀ us, Stops us → (spotless .free d (n.spell d ++ us) ↔
    Formed .canonical d p n ∧ spotless .free d us)) ∧
  match p with
  | .operand => ∀ us, Stops us →
      spotless .operator d (n.spell d ++ us) = spotless .free d (n.spell d ++ us)
  | .assigned | .declared => ∀ us, spotless .operator d (n.spell d ++ us) = false
  | _ => True

/-- Of what is `Seen`, only canonical operands are `spotless` behind an operator. -/
theorem Seen.behind_operator {p : Place} (h : Seen d p n) (hp : Rigor.parsed.Allows p)
    (hn : Formed .parsed d p n) (hus : Stops us) : spotless .operator d (n.spell d ++ us) ↔
      Formed .canonical d .operand n ∧ spotless .free d us := by
  obtain rfl | ⟨rfl, -⟩ := hp
  · rw [h.2 us hus, h.1 us hus]
  · have hno : ¬Formed .canonical d .operand n := by
      cases hn
      nofun
    rw [h.2 us]
    simp [hno]

/-- If each argument is `Seen`, then so are all of them with commas in between. -/
theorem seen_arguments {args : List Node} (h : ∀ n ∈ args, Seen d .value n) (hus : Stops us) :
    spotless .free d ([Token.ofKind .comma 0].intercalate (args.map (Node.spell d)) ++ us) ↔
      (∀ n ∈ args, Formed .canonical d .value n) ∧ spotless .free d us := by
  induction args with
  | nil => simp
  | cons a as ih =>
    have ha := h a List.mem_cons_self
    have ih := ih fun n hn => h n (List.mem_cons_of_mem _ hn)
    cases as with
    | nil =>
      rw [List.map_singleton, List.intercalate_singleton, ha.1 us hus]
      simp
    | cons c cs =>
      rw [List.map_cons, List.map_cons, List.intercalate_cons_cons, List.append_assoc,
        List.append_assoc, List.singleton_append, ha.1 _ (stops_comma _)]
      show _ ∧
        spotless .free d ([Token.ofKind .comma 0].intercalate
          ((c :: cs).map (Node.spell d)) ++ us) ↔ _
      rw [ih, List.forall_mem_cons (l := c :: cs), and_assoc]

/-- Parameters are names behind a parenthesis or a comma, and `spotless` whatever they are. -/
theorem seen_parameters (params : List Binder) (hus : Stops us) : spotless .free d
    ([Token.ofKind .comma 0].intercalate (params.map fun x => [⟨.ident, 0, x.name⟩]) ++ us) ↔
      spotless .free d us := by
  induction params with
  | nil => rfl
  | cons x xs ih =>
    cases xs with
    | nil =>
      rw [List.map_singleton, List.intercalate_singleton, ← hus .head]
      rfl
    | cons y ys =>
      rw [List.map_cons, List.map_cons, List.intercalate_cons_cons, List.append_assoc]
      exact ih

/-- If each statement is `Seen`, then so are all of them. -/
theorem seen_statements {ns : List Node} (h : ∀ n ∈ ns, Seen d .statement n) (us : List Token) :
    spotless .free d (spellStatements d ns ++ us) ↔
      (∀ n ∈ ns, Formed .canonical d .statement n) ∧ spotless .free d us := by
  induction ns with
  | nil => simp [spellStatements]
  | cons n ns ih =>
    have ih := ih fun m hm => h m (List.mem_cons_of_mem _ hm)
    rw [spellStatements, List.append_assoc, List.cons_append,
      (h n List.mem_cons_self).1 _ (stops_semicolon _)]
    show _ ∧ spotless .free d (spellStatements d ns ++ us) ↔ _
    rw [ih, List.forall_mem_cons, and_assoc]

/-- If the statements of a block are `Seen` one block further in, then so is the block. -/
theorem seen_block (h : ∀ n ∈ b.nodes, Seen (d + 1) .statement n) (f : Front)
    (us : List Token) :
    spotless f d (b.spell d ++ us) ↔
      (∀ n ∈ b.nodes, Formed .canonical (d + 1) .statement n) ∧ spotless .free d us := by
  rw [Block.spell_cons, List.cons_append, List.append_assoc]
  show spotless .free (d + 1) (spellStatements (d + 1) b.nodes ++ _) ↔ _
  rw [seen_statements h]
  rfl

/-! ## Canonical form by places -/

section Places

variable {r : Rigor}

/-- An operand is as canonical as an operand as it is as a value. The next lemmas say so of the
other places that take in a narrower one. -/
theorem Formed.value_iff_operand (h : Formed .parsed d .operand n) :
    Formed r d .value n ↔ Formed r d .operand n := by
  refine ⟨fun hn => ?_, .operandValue⟩
  cases hn with
  | operandValue hn => exact hn
  | assignedValue hn => cases hn; cases h

theorem Formed.value_iff_assigned (h : Formed .parsed d .assigned n) :
    Formed r d .value n ↔ Formed r d .assigned n := by
  refine ⟨fun hn => ?_, .assignedValue⟩
  cases hn with
  | operandValue hn => cases h; cases hn
  | assignedValue hn => exact hn

theorem Formed.init_iff_assigned (h : Formed .parsed d .assigned n) :
    Formed r d .init n ↔ Formed r d .assigned n := by
  refine ⟨fun hn => ?_, .assignedInit⟩
  cases hn with
  | assignedInit hn => exact hn
  | initialized => cases h

theorem Formed.statement_iff_operand (h : Formed .parsed d .operand n) :
    Formed .canonical d .statement n ↔ Formed .canonical d .operand n := by
  refine ⟨fun hn => ?_, .operandStatement⟩
  cases hn with
  | operandStatement hn => exact hn
  | declaredStatement hn => cases hn with
    | declare => cases h
    | chain hr => cases hr
  | initStatement hn => cases hn with
    | assignedInit hn => cases hn; cases h
    | initialized => cases h
  | _ => cases h

/-- A declaration is no canonical operand, and neither is what it is the first operand of. -/
theorem Formed.not_operand_of_declared (h : Formed .parsed d .declared n) :
    ¬Formed .canonical d .operand n := by
  generalize hp : Place.declared = p at h
  induction h with
  | declare => nofun
  | chain _ _ _ _ _ _ ih =>
    rintro (⟨⟩ | ⟨⟩ | ⟨⟩ | ⟨⟩ | ⟨⟩ | ⟨⟩ | ⟨-, -, hp, hleft, -⟩)
    obtain rfl := Rigor.allows_canonical.mp hp
    exact ih rfl hleft
  | _ => cases hp

theorem Formed.statement_iff_declared (h : Formed .parsed d .declared n) :
    Formed .canonical d .statement n ↔ Formed .canonical d .declared n := by
  refine ⟨fun hn => ?_, .declaredStatement⟩
  cases hn with
  | operandStatement hn => exact absurd hn h.not_operand_of_declared
  | declaredStatement hn => exact hn
  | initStatement hn => cases hn with
    | assignedInit hn => cases hn; cases h
    | initialized => cases h
  | _ => cases h

theorem Formed.statement_iff_init (h : Formed .parsed d .init n) :
    Formed .canonical d .statement n ↔ Formed .canonical d .init n := by
  refine ⟨fun hn => ?_, .initStatement⟩
  cases hn with
  | operandStatement hn => cases h with
    | assignedInit h => cases h; cases hn
    | initialized => cases hn
  | declaredStatement hn => cases hn with
    | declare => cases h; rename_i h; cases h
    | chain hr => cases hr
  | initStatement hn => exact hn
  | _ => cases h; rename_i h; cases h

/-- Only an assignment is `Formed` as the first part of a loop's head. -/
theorem Formed.init_inv (h : Formed r d .init n) :
    ∃ line target value, n = .assign line target value := by
  cases h with
  | assignedInit h =>
    cases h
    exact ⟨_, _, _, rfl⟩
  | initialized => exact ⟨_, _, _, rfl⟩

variable {line : Nat}

/-- A call is `Formed` if its arguments are. The lemmas below say the same of the other nodes,
each with the depth of its parts. -/
theorem Formed.call_iff {l : Nat} {x : String} {args : List Node} (hx : isName x.toList) :
    Formed r d .operand (.call line (.ident l x) args) ↔ ∀ n ∈ args, Formed r d .value n := by
  refine ⟨fun h => ?_, .call hx⟩
  cases h with
  | call _ h => exact h

/-- A prefix node is canonical if what is behind its operator is a canonical operand. -/
theorem Formed.prefixed_iff {o : Token} (ho : o.kind.isPrefix) (hl : o.Lexed) :
    Formed .canonical d .operand (.prefixed o n) ↔ Formed .canonical d .operand n := by
  refine ⟨fun h => ?_, .prefixed ho hl (.inl rfl)⟩
  cases h with
  | prefixed _ _ hp h =>
    obtain rfl := Rigor.allows_canonical.mp hp
    exact h

/-- An infix node is canonical if both of its sides are canonical operands. -/
theorem Formed.infixed_iff {o : Token} {left right : Node} (ho : o.kind.isInfix)
    (hl : o.Lexed) :
    Formed .canonical d .operand (.infixed o left right) ↔
      Formed .canonical d .operand left ∧ Formed .canonical d .operand right := by
  refine ⟨fun h => ?_, fun ⟨hleft, hright⟩ => .infixed ho hl (.inl rfl) hleft (.inl rfl) hright⟩
  cases h with
  | infixed _ _ hp hleft hq hright =>
    rw [Rigor.allows_canonical] at hp hq
    subst hp hq
    exact ⟨hleft, hright⟩

theorem Formed.assign_iff {l : Nat} {x : String} (hx : isName x.toList) :
    Formed r d .assigned (.assign line (.ident l x) n) ↔ Formed r d .value n := by
  refine ⟨fun h => ?_, .assign hx⟩
  cases h with
  | assign _ h => exact h

theorem Formed.initialized_iff {v : Token} {x : Binder} (hv : v.kind = .kwVar) (hl : v.Lexed)
    (hx : isName x.name.toList) :
    Formed r d .init (.assign line (.declare v x) n) ↔ Formed r d .value n := by
  refine ⟨fun h => ?_, .initialized hv hl hx⟩
  cases h with
  | assignedInit h => cases h
  | initialized _ _ _ h => exact h

theorem Formed.block_iff :
    Formed r d .statement (.block b) ↔ ∀ n ∈ b.nodes, Formed r (d + 1) .statement n := by
  refine ⟨fun h => ?_, .block⟩
  cases h with
  | block hb => exact hb
  | initStatement h =>
    obtain ⟨_, _, _, h⟩ := h.init_inv
    cases h
  | operandStatement h | declaredStatement h => cases h

theorem Formed.conditional_iff {test : Node} {c : Option Block} :
    Formed r d .statement (.conditional line test b c) ↔ Formed r d .value test ∧
      (∀ n ∈ b.nodes, Formed r (d + 1) .statement n) ∧
      ∀ e ∈ c, ∀ n ∈ e.nodes, Formed r (d + 1) .statement n := by
  refine ⟨fun h => ?_, fun ⟨ht, hb, hc⟩ => .conditional ht hb hc⟩
  cases h with
  | conditional ht hb hc => exact ⟨ht, hb, hc⟩
  | initStatement h =>
    obtain ⟨_, _, _, h⟩ := h.init_inv
    cases h
  | operandStatement h | declaredStatement h => cases h

theorem Formed.bareLoop_iff {l : Nat} :
    Formed r d .statement (.loop line none (.boolean l true) none b) ↔
      ∀ n ∈ b.nodes, Formed r (d + 1) .statement n := by
  refine ⟨fun h => ?_, .bareLoop⟩
  cases h with
  | bareLoop hb => exact hb
  | initStatement h =>
    obtain ⟨_, _, _, h⟩ := h.init_inv
    cases h
  | operandStatement h | declaredStatement h => cases h

/-- A loop with a head is `Formed` if its parts are. -/
theorem Formed.loop_iff {o : Token} {init left right : Node} {step : Option Node} :
    Formed r d .statement (.loop line (some init) (.infixed o left right) step b) ↔
      Formed r d .init init ∧ Formed r d .operand (.infixed o left right) ∧
        (∀ n ∈ step, Formed r d .value n) ∧ ∀ n ∈ b.nodes, Formed r (d + 1) .statement n := by
  constructor
  · intro h
    cases h with
    | loop hi ho hl hp hleft hq hright hs hb =>
      exact ⟨hi, .infixed ho hl hp hleft hq hright, hs, hb⟩
    | initStatement h =>
      obtain ⟨_, _, _, h⟩ := h.init_inv
      cases h
    | operandStatement h | declaredStatement h => cases h
  · rintro ⟨hi, ht, hs, hb⟩
    cases ht with
    | infixed ho hl hp hleft hq hright => exact .loop hi ho hl hp hleft hq hright hs hb

theorem Formed.function_iff {f : Binder} {params : List Binder} (hf : isName f.name.toList)
    (hparams : ∀ x ∈ params, isName x.name.toList) :
    Formed r d .statement (.function line f params b) ↔
      ∀ n ∈ b.nodes, Formed r (d + 1) .statement n := by
  refine ⟨fun h => ?_, .function hf hparams⟩
  cases h with
  | function _ _ hb => exact hb
  | initStatement h =>
    obtain ⟨_, _, _, h⟩ := h.init_inv
    cases h
  | operandStatement h | declaredStatement h => cases h

theorem Formed.returning_iff :
    Formed r d .statement (.returning line n) ↔ Formed r d .value n := by
  refine ⟨fun h => ?_, .returning⟩
  cases h with
  | returning h => exact h
  | initStatement h =>
    obtain ⟨_, _, _, h⟩ := h.init_inv
    cases h
  | operandStatement h | declaredStatement h => cases h

end Places

/-! ## Every place -/

/-- What is `Seen` as `p` is so as `q`, where no expression of `q` stands behind an operator and
both are canonical alike. -/
theorem Seen.of_iff {p q : Place} (h : Seen d p n)
    (hq : q = .value ∨ q = .init ∨ q = .statement)
    (hiff : Formed .canonical d q n ↔ Formed .canonical d p n) : Seen d q n := by
  refine ⟨fun us hus => ?_, ?_⟩
  · rw [hiff, h.1 us hus]
  · obtain rfl | rfl | rfl := hq <;> trivial

variable {line : Nat}

theorem seen_integer {t : Token} {v : Int64} (hk : t.kind = .integer)
    (h : Formed .canonical d .operand (.integer t v)) : Seen d .operand (.integer t v) := by
  have hspell : ∀ f us, spotless f d ((Node.integer t v).spell d ++ us) =
      spotless .free d us := by
    intro f us
    obtain ⟨k, line, s⟩ := t
    obtain rfl : k = .integer := hk
    rfl
  refine ⟨fun us _ => ?_, fun us _ => ?_⟩
  · rw [hspell]
    exact ⟨fun hus => ⟨h, hus⟩, And.right⟩
  · rw [hspell, hspell]

/-- A string is `Seen`: it is canonical unless it spans lines inside of a block, and then its
token is a spot. -/
theorem seen_string {s : String} (hq : '"' ∉ s.toList) : Seen d .operand (.string line s) := by
  have hspell : ∀ f us, spotless f d ((Node.string line s).spell d ++ us) =
      ((d == 0 || !s.toList.contains '\n') && spotless .free d us) := by
    intro f us
    show ((d == 0 || !(String.ofList (sink d s.toList)).toList.contains '\n') && _) = _
    rw [String.toList_ofList, List.contains_eq_mem, List.contains_eq_mem,
      decide_eq_decide.mpr newline_mem_sink]
    rfl
  refine ⟨fun us _ => ?_, fun us _ => ?_⟩
  · rw [hspell, Bool.and_eq_true, and_congr_left_iff]
    rintro -
    rw [Bool.or_eq_true, beq_iff_eq, Bool.not_eq_true', List.contains_eq_mem,
      decide_eq_false_iff_not]
    constructor
    · rintro (rfl | hn)
      · exact .string hq fun _ hd => absurd hd (Nat.lt_irrefl 0)
      · exact .string hq fun _ _ => hn
    · intro h
      cases h with
      | string _ h => exact d.eq_zero_or_pos.imp_right (h rfl)
  · rw [hspell, hspell]

theorem seen_boolean {b : Bool} : Seen d .operand (.boolean line b) := by
  have hspell : ∀ f us, spotless f d ((Node.boolean line b).spell d ++ us) =
      spotless .free d us := by
    intro f us
    cases b <;> rfl
  refine ⟨fun us _ => ?_, fun us _ => ?_⟩
  · rw [hspell]
    exact ⟨fun hus => ⟨.boolean, hus⟩, And.right⟩
  · rw [hspell, hspell]

/-- A name is no spot. Behind an operator an equals sign after it would be one, which `Stops`
rules out. -/
theorem seen_ident {x : String} (hx : isName x.toList) : Seen d .operand (.ident line x) := by
  refine ⟨fun us hus => ?_, fun us hus => ?_⟩
  · show spotless .head d us ↔ _
    rw [hus]
    exact ⟨fun hus => ⟨.ident hx, hus⟩, And.right⟩
  · show spotless .operand d us = spotless .head d us
    rw [hus, hus .head]

theorem seen_call {l : Nat} {x : String} {args : List Node} (hx : isName x.toList)
    (ih : ∀ n ∈ args, Seen d .value n) : Seen d .operand (.call line (.ident l x) args) := by
  refine ⟨fun us hus => ?_, fun us hus => rfl⟩
  rw [Node.spell_call, spellAll_eq_map, List.append_assoc]
  show spotless .free d ([Token.ofKind .comma 0].intercalate (args.map (Node.spell d)) ++
    .ofKind .rightParen 0 :: us) ↔ _
  rw [seen_arguments ih (stops_rightParen us), Formed.call_iff hx]
  rfl

/-- The operand behind a prefix operator is seen, by `Seen.behind_operator`. -/
theorem seen_prefixed {o : Token} {p : Place} (ho : o.kind.isPrefix) (hl : o.Lexed)
    (hp : Rigor.parsed.Allows p) (hn : Formed .parsed d p n) (ih : Seen d p n) :
    Seen d .operand (.prefixed o n) := by
  refine ⟨fun us hus => ?_, fun us hus => rfl⟩
  rw [Node.spell_prefixed, List.cons_append, List.cons_append, List.append_assoc]
  show spotless .operator d (o.bare :: (n.spell d ++ (.ofKind .rightParen 0 :: us))) ↔ _
  rw [spotless_operator (o := o.bare) (.inl ho), ih.behind_operator hp hn (stops_rightParen us),
    Formed.prefixed_iff ho hl]
  rfl

/-- The spelling of an infix node with `us` behind it, as it goes on behind its parenthesis. -/
theorem spell_infixed_append (o : Token) (left right : Node) (us : List Token) :
    (Node.infixed o left right).spell d ++ us = .ofKind .leftParen 0 ::
      (left.spell d ++ o.bare :: (right.spell d ++ .ofKind .rightParen 0 :: us)) := by
  simp

/-- An infix node is `Seen` if both of its sides are, the right one behind the operator. -/
theorem seen_infixed {o : Token} {left right : Node} {p q : Place} (ho : o.kind.isInfix)
    (hl : o.Lexed) (hp : Rigor.parsed.Allows p) (hleft : Formed .parsed d p left)
    (ihl : Seen d p left) (hq : Rigor.parsed.Allows q) (hright : Formed .parsed d q right)
    (ihr : Seen d q right) : Seen d .operand (.infixed o left right) := by
  have hbehind : ∀ us, spotless .operator d
      (left.spell d ++ o.bare :: (right.spell d ++ .ofKind .rightParen 0 :: us)) ↔
        Formed .canonical d .operand (.infixed o left right) ∧ spotless .free d us := by
    intro us
    have hright := ihr.behind_operator hq hright (stops_rightParen us)
    rw [ihl.behind_operator hp hleft (stops_of_isInfix (o := o.bare) ho _),
      spotless_operator (o := o.bare) (.inr ho), hright, Formed.infixed_iff ho hl, and_assoc]
    rfl
  refine ⟨fun us _ => ?_, fun us _ => ?_⟩
  · rw [spell_infixed_append]
    exact hbehind us
  · rw [spell_infixed_append]
    rfl

/-- An assignment is `Seen`: behind an operator its equals sign is a spot. -/
theorem seen_assign {l : Nat} {x : String} (hx : isName x.toList) (ih : Seen d .value n) :
    Seen d .assigned (.assign line (.ident l x) n) := by
  refine ⟨fun us hus => ?_, fun us => rfl⟩
  rw [Formed.assign_iff hx]
  exact ih.1 us hus

/-- A declaration is `Seen`: behind an operator its keyword is a spot. -/
theorem seen_declare {v : Token} {x : Binder} (hv : v.kind = .kwVar)
    (h : Formed .canonical d .declared (.declare v x)) : Seen d .declared (.declare v x) := by
  obtain ⟨k, line, s⟩ := v
  obtain rfl : k = .kwVar := hv
  refine ⟨fun us hus => ?_, fun us => rfl⟩
  show spotless .head d us ↔ _
  rw [hus]
  exact ⟨fun hus => ⟨h, hus⟩, And.right⟩

/-- A declaration that operators go on behind is `Seen`: it is in a group, where its keyword is
a spot. -/
theorem seen_chain {o : Token} {left right : Node} (ih : Seen d .declared left) :
    Seen d .declared (.infixed o left right) := by
  have hno : ∀ us,
      spotless .operator d ((Node.infixed o left right).spell d ++ us) = false := by
    intro us
    rw [spell_infixed_append]
    exact ih.2 _
  refine ⟨fun us _ => ?_, hno⟩
  have hfree : spotless .free d ((Node.infixed o left right).spell d ++ us) = false := hno us
  rw [hfree]
  refine iff_of_false nofun ?_
  rintro ⟨h, -⟩
  cases h with
  | chain hr => cases hr

/-- A declaration with a first value is `Seen`; it is never an operand. -/
theorem seen_initialized {v : Token} {x : Binder} (hv : v.kind = .kwVar) (hl : v.Lexed)
    (hx : isName x.name.toList) (ih : Seen d .value n) :
    Seen d .init (.assign line (.declare v x) n) := by
  refine ⟨fun us hus => ?_, trivial⟩
  rw [Formed.initialized_iff hv hl hx]
  obtain ⟨k, l, s⟩ := v
  obtain rfl : k = .kwVar := hv
  exact ih.1 us hus

/-- The condition of a conditional is `spotless` if it is canonical, whatever `us` stand behind
it. -/
theorem spotless_condition {test : Node} (iht : Seen d .value test) (us : List Token) :
    spotless .free d
      (.ofKind .kwIf 0 :: .ofKind .leftParen 0 ::
        (test.spell d ++ .ofKind .rightParen 0 :: us)) ↔
      Formed .canonical d .value test ∧ spotless .free d us := by
  show spotless .free d (test.spell d ++ .ofKind .rightParen 0 :: us) ↔ _
  rw [iht.1 _ (stops_rightParen us)]
  rfl

/-- Condition and branches are seen in turn, the condition in front of `spotless_condition`. -/
theorem seen_conditional {test : Node} {c : Option Block}
    (iht : Seen d .value test) (ihb : ∀ n ∈ b.nodes, Seen (d + 1) .statement n)
    (ihc : ∀ e ∈ c, ∀ n ∈ e.nodes, Seen (d + 1) .statement n) :
    Seen d .statement (.conditional line test b c) := by
  refine ⟨fun us hus => ?_, trivial⟩
  rw [Formed.conditional_iff]
  cases c with
  | none =>
    have hspell : (Node.conditional line test b none).spell d ++ us =
        .ofKind .kwIf 0 :: .ofKind .leftParen 0 :: (test.spell d ++ .ofKind .rightParen 0 ::
          (b.spell d ++ us)) := by
      simp
    rw [hspell, spotless_condition iht, seen_block ihb]
    simp [and_assoc]
  | some c =>
    have hspell : (Node.conditional line test b (some c)).spell d ++ us =
        .ofKind .kwIf 0 :: .ofKind .leftParen 0 :: (test.spell d ++ .ofKind .rightParen 0 ::
          (b.spell d ++ .ofKind .kwElse 0 :: (c.spell d ++ us))) := by
      simp
    rw [hspell, spotless_condition iht, seen_block ihb]
    show _ ∧ _ ∧ spotless .free d (c.spell d ++ us) ↔ _
    rw [seen_block (ihc c rfl)]
    simp [and_assoc]

theorem seen_bareLoop {l : Nat} (ih : ∀ n ∈ b.nodes, Seen (d + 1) .statement n) :
    Seen d .statement (.loop line none (.boolean l true) none b) := by
  refine ⟨fun us _ => ?_, trivial⟩
  show spotless .head d (b.spell d ++ us) ↔ _
  rw [seen_block ih, Formed.bareLoop_iff]

/-- The first part and the condition of a loop are `spotless` if they are canonical, whatever
`us` stand behind them. -/
theorem spotless_loopHead {init test : Node} (ihi : Seen d .init init)
    (iht : Seen d .operand test) (us : List Token) :
    spotless .free d (.ofKind .kwLoop 0 :: .ofKind .leftParen 0 :: (init.spell d ++
      .ofKind .semicolon 0 :: (test.spell d ++ .ofKind .semicolon 0 :: us))) ↔
      Formed .canonical d .init init ∧ Formed .canonical d .operand test ∧
      spotless .free d us := by
  show spotless .free d (init.spell d ++ .ofKind .semicolon 0 :: _) ↔ _
  rw [ihi.1 _ (stops_semicolon _)]
  show _ ∧ spotless .free d (test.spell d ++ .ofKind .semicolon 0 :: us) ↔ _
  rw [iht.1 _ (stops_semicolon us)]
  rfl

/-- A loop with a head is `Seen` if its parts are. -/
theorem seen_loop {o : Token} {init left right : Node} {step : Option Node}
    (ihi : Seen d .init init) (iht : Seen d .operand (.infixed o left right))
    (ihs : ∀ n ∈ step, Seen d .value n) (ihb : ∀ n ∈ b.nodes, Seen (d + 1) .statement n) :
    Seen d .statement (.loop line (some init) (.infixed o left right) step b) := by
  refine ⟨fun us hus => ?_, trivial⟩
  rw [Formed.loop_iff]
  generalize Node.infixed o left right = test at iht ⊢
  cases step with
  | none =>
    have hspell : (Node.loop line (some init) test none b).spell d ++ us =
        .ofKind .kwLoop 0 :: .ofKind .leftParen 0 :: (init.spell d ++ .ofKind .semicolon 0 ::
          (test.spell d ++ .ofKind .semicolon 0 :: .ofKind .rightParen 0 ::
            (b.spell d ++ us))) := by
      simp
    rw [hspell, spotless_loopHead ihi iht]
    show _ ∧ _ ∧ spotless .free d (b.spell d ++ us) ↔ _
    rw [seen_block ihb]
    simp [and_assoc]
  | some step =>
    have hspell : (Node.loop line (some init) test (some step) b).spell d ++ us =
        .ofKind .kwLoop 0 :: .ofKind .leftParen 0 :: (init.spell d ++ .ofKind .semicolon 0 ::
          (test.spell d ++ .ofKind .semicolon 0 :: (step.spell d ++ .ofKind .rightParen 0 ::
            (b.spell d ++ us)))) := by
      simp
    rw [hspell, spotless_loopHead ihi iht, (ihs step rfl).1 _ (stops_rightParen _)]
    show _ ∧ _ ∧ _ ∧ spotless .free d (b.spell d ++ us) ↔ _
    rw [seen_block ihb]
    simp [and_assoc]

/-- A function is `Seen` if its body is; only the body can hold spots. -/
theorem seen_function {f : Binder} {params : List Binder} (hf : isName f.name.toList)
    (hparams : ∀ x ∈ params, isName x.name.toList)
    (ih : ∀ n ∈ b.nodes, Seen (d + 1) .statement n) :
    Seen d .statement (.function line f params b) := by
  refine ⟨fun us _ => ?_, trivial⟩
  have hspell : (Node.function line f params b).spell d ++ us =
      .ofKind .kwFun 0 :: ⟨.ident, 0, f.name⟩ :: .ofKind .leftParen 0 ::
        ([Token.ofKind .comma 0].intercalate (params.map fun x => [⟨.ident, 0, x.name⟩]) ++
          .ofKind .rightParen 0 :: (b.spell d ++ us)) := by
    simp
  rw [hspell]
  show spotless .free d ([Token.ofKind .comma 0].intercalate
    (params.map fun x => [⟨.ident, 0, x.name⟩]) ++
      .ofKind .rightParen 0 :: (b.spell d ++ us)) ↔ _
  rw [seen_parameters _ (stops_rightParen _)]
  show spotless .free d (b.spell d ++ us) ↔ _
  rw [seen_block ih, Formed.function_iff hf hparams]

/-- Every tree that is `Formed` by `Rigor.parsed` is `Seen`. -/
theorem Formed.seen {p : Place} (h : Formed .parsed d p n) : Seen d p n := by
  induction h with
  | integer hk hl hv => exact seen_integer hk (.integer hk hl hv)
  | string hq => exact seen_string hq
  | boolean => exact seen_boolean
  | ident hx => exact seen_ident hx
  | call hx _ ih => exact seen_call hx ih
  | prefixed ho hl hp hn ih => exact seen_prefixed ho hl hp hn ih
  | infixed ho hl hp hleft hq hright ihl ihr =>
    exact seen_infixed ho hl hp hleft ihl hq hright ihr
  | assign hx _ ih => exact seen_assign hx ih
  | operandValue hn ih => exact ih.of_iff (.inl rfl) hn.value_iff_operand
  | assignedValue hn ih => exact ih.of_iff (.inl rfl) hn.value_iff_assigned
  | declare hv hl hx => exact seen_declare hv (.declare hv hl hx)
  | chain _ _ _ _ _ _ ihl => exact seen_chain ihl
  | assignedInit hn ih => exact ih.of_iff (.inr (.inl rfl)) hn.init_iff_assigned
  | initialized hv hl hx _ ih => exact seen_initialized hv hl hx ih
  | operandStatement hn ih => exact ih.of_iff (.inr (.inr rfl)) hn.statement_iff_operand
  | declaredStatement hn ih => exact ih.of_iff (.inr (.inr rfl)) hn.statement_iff_declared
  | initStatement hn ih => exact ih.of_iff (.inr (.inr rfl)) hn.statement_iff_init
  | block _ ih =>
    refine ⟨fun us _ => ?_, trivial⟩
    rw [Node.spell_block, seen_block ih, Formed.block_iff]
  | conditional _ _ _ iht ihb ihc => exact seen_conditional iht ihb ihc
  | bareLoop _ ih => exact seen_bareLoop ih
  | loop _ ho hl hp hleft hq hright _ _ ihi ihl ihr ihs ihb =>
    exact seen_loop ihi (seen_infixed ho hl hp hleft ihl hq hright ihr) ihs ihb
  | function hf hparams _ ih => exact seen_function hf hparams ih
  | returning _ ih =>
    refine ⟨fun us hus => ?_, trivial⟩
    rw [Formed.returning_iff]
    exact ih.1 us hus
  | breaking => exact ⟨fun us _ => ⟨fun hus => ⟨.breaking, hus⟩, And.right⟩, trivial⟩

/-- A tree that the parser may give is canonical if and only if its spelling is `spotless`. -/
theorem Formed.canonical_iff {p : Place} (h : Formed .parsed d p n) :
    Formed .canonical d p n ↔ spotless .free d (n.spell d) := by
  have hseen := h.seen.1 [] stops_nil
  rw [List.append_nil] at hseen
  rw [hseen]
  exact (and_iff_left rfl).symm

/-- A tree with the `Node.spell` of a canonical tree is canonical. -/
theorem Formed.canonical_of_spell {m : Node} {p : Place} (hn : Formed .parsed d p n)
    (hm : Formed .canonical d p m) (h : n.spell d = m.spell d) : Formed .canonical d p n := by
  rw [hn.canonical_iff, h]
  exact hm.parsed.canonical_iff.mp hm

end Spots

end ScriptLang
