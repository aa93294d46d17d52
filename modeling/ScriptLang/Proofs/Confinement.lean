import ScriptLang.Proofs.Inside
import ScriptLang.Proofs.Language
import ScriptLang.Proofs.Reporting

/-!
# How far a return and a break go

In a run of parsed packages, expressions do nothing but give a value or fault, wherever they
stand, and so do calls, whatever happens in the functions that they call. A loop takes every
break from inside of it, and blocks and conditionals let one through only while a loop runs in
the same call. That is so because the machine counts exactly the loops that are open around an
evaluation in its call: what it counts is tied to the spot at which an evaluation stands, from
the outermost one inwards.

- `Machine.Ready`: a sound machine that counts so many loops and calls.
- `Spot.Fit`, `Inside.fit`: what holds of a spot holds of every spot inside of it.
- `Spot.Confined`: how an evaluation may end, by where it stands and what it is.
- `Session.transfers_confined`: the spots of a run are confined.
-/

namespace ScriptLang

/-! ## Counts -/

/-- The machines have the same `loopDepth` and the same `callDepth`. -/
structure Machine.SameCounts (m n : Machine) : Prop where
  loopDepth : n.loopDepth = m.loopDepth
  callDepth : n.callDepth = m.callDepth

theorem Machine.SameCounts.trans {a b c : Machine} (h : a.SameCounts b) (h' : b.SameCounts c) :
    a.SameCounts c :=
  ⟨h'.loopDepth.trans h.loopDepth, h'.callDepth.trans h.callDepth⟩

theorem stable_sameCounts : Stable Machine.SameCounts Machine.SameCounts where
  refl _ := ⟨rfl, rfl⟩
  trans := Machine.SameCounts.trans
  beforeFault := Machine.SameCounts.trans
  behindFault := Machine.SameCounts.trans
  noted _ _ := ⟨rfl, rfl⟩
  reported _ _ := ⟨rfl, rfl⟩
  assigned _ := ⟨rfl, rfl⟩
  acted _ _ _ := ⟨rfl, rfl⟩
  scope _ _ := ⟨fun h => ⟨h.loopDepth, h.callDepth⟩, fun h => ⟨h.loopDepth, h.callDepth⟩⟩
  loop m n := by
    have hloop : Machine.SameCounts { m with loopDepth := m.loopDepth + 1 } n →
        m.SameCounts { n with loopDepth := n.loopDepth - 1 } :=
      fun h => ⟨Nat.sub_eq_of_eq_add h.loopDepth, h.callDepth⟩
    exact ⟨hloop, hloop⟩
  call m n := by
    have hcall : Machine.SameCounts { m with loopDepth := 0, callDepth := m.callDepth + 1 } n →
        m.SameCounts { n with loopDepth := m.loopDepth, callDepth := n.callDepth - 1 } :=
      fun h => ⟨rfl, Nat.sub_eq_of_eq_add h.callDepth⟩
    exact ⟨hcall, hcall⟩

theorem binds_sameCounts : Binds Machine.SameCounts := fun _ _ _ => ⟨rfl, rfl⟩

/-- A machine that is `Machine.Sound` and counts so many loops and calls. -/
structure Machine.Ready (loops calls : Nat) (m : Machine) : Prop where
  sound : m.Sound
  loops : m.loopDepth = loops
  calls : m.callDepth = calls

namespace Machine.Ready

variable {α : Type} {loops calls : Nat} {m n : Machine}

/-- A machine that is `Machine.Ready` is so behind an evaluation that `Respects` it and `Keeps`
its counts. -/
theorem behind (h : m.Ready loops calls) {e : Eval α} {V : α → Prop} {returns : Prop}
    {breaks : Nat → Prop} (he : e.Respects V returns breaks)
    (hk : e.Keeps Machine.SameCounts Machine.SameCounts) {flow : Flow α}
    (hn : e m = some (flow, n)) : n.Ready loops calls ∧ flow.Ends V returns (breaks loops) := by
  obtain ⟨hsound, hends⟩ := he m h.sound flow n hn
  have hcounts : m.SameCounts n := Flow.moves_self.mp (hk m flow n hn)
  have hloops : n.loopDepth = loops := hcounts.loopDepth.trans h.loops
  rw [hloops] at hends
  exact ⟨⟨hsound, hloops, hcounts.callDepth.trans h.calls⟩, hends⟩

theorem nested (h : m.Ready loops calls) : m.nested.Ready loops calls :=
  ⟨⟨Scopes.Stores.nest h.sound.scopes, h.sound.errors⟩, h.loops, h.calls⟩

theorem inLoop (h : m.Ready loops calls) : m.inLoop.Ready (loops + 1) calls :=
  ⟨⟨h.sound.scopes, h.sound.errors⟩, congrArg (· + 1) h.loops, h.calls⟩

theorem calling (h : m.Ready loops calls) (f : Function) (values : List Value) :
    (m.calling f values).Ready 0 (calls + 1) :=
  ⟨⟨h.sound.scopes, h.sound.errors⟩, rfl, congrArg (· + 1) h.calls⟩

end Machine.Ready

/-! ## Spots -/

/-- What may stand at a position of a program that is `Package.IsParsed`. -/
inductive Position.Holds : Position → Piece → Prop
  | statement {d : Nat} {n : Node} :
      Formed .parsed d .statement n → Holds (.part .statement) (.node n)
  | expression {role : Role} {n : Node} :
      role ≠ .statement → FormedExpression n → Holds (.part role) (.node n)
  | branch {b : Block} : FormedAll b.nodes → Holds .branch (.node (.block b))
  | called {b : Block} : FormedAll b.nodes → Holds .called (.node (.block b))
  | turns {test : Node} {step : Option Node} {b : Block} :
      FormedExpression test → (∀ n ∈ step, FormedExpression n) → FormedAll b.nodes →
      Holds .turns (.turns test step b)

/-- A spot of a parsed program, with a machine that is `Machine.Ready` for the loops and calls
around the spot. -/
structure Spot.Fit (s : Spot) : Prop where
  ready : s.machine.Ready s.loops s.calls
  holds : s.position.Holds s.piece
  called : s.position = .called → s.loops = 0

/-! ### What parts of formed trees are -/

section Parts

variable {d : Nat} {p : Place} {n part : Node} {role : Role}

/-- Whatever is `Formed` at some place is so as a statement. -/
theorem Formed.statement (h : Formed .parsed d p n) : Formed .parsed d .statement n := by
  cases p with
  | operand => exact .operandStatement h
  | assigned => exact .initStatement (.assignedInit h)
  | value =>
    cases h with
    | operandValue h => exact .operandStatement h
    | assignedValue h => exact .initStatement (.assignedInit h)
  | declared => exact .declaredStatement h
  | init => exact .initStatement h
  | statement => exact h

/-- A part of a tree that is `Formed` may stand where it does, unless it is the target of an
assignment. -/
theorem Formed.holds (h : Formed .parsed d p n) (hpart : (role, part) ∈ n.parts)
    (hrole : role ≠ .target) : Position.Holds (.part role) (.node part) := by
  obtain ⟨rfl, -⟩ | ⟨d', p', hat, hform⟩ := h.part hpart
  · exact absurd rfl hrole
  -- only statements are at the place of a statement, so all other parts are expressions
  · by_cases hs : role = .statement
    · subst hs
      exact .statement hform.statement
    · refine .expression hs (hform.expression ?_)
      rintro rfl
      exact hs hat

/-- Parts of a tree that is `Formed` which are no statements are `FormedExpression`. -/
theorem Formed.expressionPart (h : Formed .parsed d p n) (hpart : (role, part) ∈ n.parts)
    (hrole : role ≠ .target) (hs : role ≠ .statement) : FormedExpression part := by
  cases h.holds hpart hrole with
  | statement => exact absurd rfl hs
  | expression _ hform => exact hform

/-- Parts of a tree that is `Formed` which are statements are `FormedAll`. -/
theorem Formed.statementParts (h : Formed .parsed d p n) {ns : List Node}
    (hns : ∀ m ∈ ns, (.statement, m) ∈ n.parts) : FormedAll ns := by
  refine ⟨0, fun m hm => ?_⟩
  cases h.holds (hns m hm) nofun with
  | statement hform => exact hform.parsed
  | expression hs => exact absurd rfl hs

section Inversion

variable {line l : Nat} {x : String} {callee test : Node} {args : List Node} {b : Block}
  {c : Option Block} {init step : Option Node}

theorem Formed.call_parts (h : Formed .parsed d p (.call line callee args)) :
    FormedExpression callee ∧ ∀ n ∈ args, FormedExpression n := by
  constructor
  · exact h.expressionPart (.head _) nofun nofun
  · intro n hn
    have hpart : (.argument, n) ∈ (Node.call line callee args).parts :=
      List.mem_cons_of_mem _ (List.mem_map_of_mem hn)
    exact h.expressionPart hpart nofun nofun

theorem Formed.block_parts (h : Formed .parsed d p (.block b)) : FormedAll b.nodes :=
  h.statementParts fun _ hm => List.mem_map_of_mem hm

theorem Formed.conditional_parts (h : Formed .parsed d p (.conditional line test b c)) :
    FormedExpression test ∧ FormedAll b.nodes ∧ ∀ e ∈ c, FormedAll e.nodes := by
  refine ⟨h.expressionPart (.head _) nofun nofun, h.statementParts fun m hm => ?_,
    fun e he => ?_⟩
  · simp [Node.parts, Block.parts, hm]
  · refine h.statementParts fun m hm => ?_
    have hpart : (Role.statement, m) ∈ c.toList.flatMap Block.parts :=
      List.mem_flatMap.mpr ⟨e, Option.mem_toList.mpr he, List.mem_map_of_mem hm⟩
    simp [Node.parts, hpart]

theorem Formed.loop_parts (h : Formed .parsed d p (.loop line init test step b)) :
    (∀ n ∈ init, FormedExpression n) ∧ FormedExpression test ∧
      (∀ n ∈ step, FormedExpression n) ∧ FormedAll b.nodes := by
  have hinit : ∀ n ∈ init, (Role.init, n) ∈ (Node.loop line init test step b).parts := by
    rintro n ⟨⟩
    simp [Node.parts]
  have hstep : ∀ n ∈ step, (Role.step, n) ∈ (Node.loop line init test step b).parts := by
    rintro n ⟨⟩
    simp [Node.parts]
  have htest : (Role.condition, test) ∈ (Node.loop line init test step b).parts := by
    simp [Node.parts]
  refine ⟨fun n hn => h.expressionPart (hinit n hn) nofun nofun,
    h.expressionPart htest nofun nofun, fun n hn => h.expressionPart (hstep n hn) nofun nofun,
    h.statementParts fun m hm => ?_⟩
  simp [Node.parts, Block.parts, hm]

/-- Every place is one that `Role.statement` may be at. -/
theorem Role.statement_at (p : Place) : Role.At .statement p := by
  cases p with
  | statement => rfl
  | declared | init => exact .inl rfl
  | operand | assigned | value => trivial

/-- An identifier is expected to be a name in every `Role` that an expression can have. -/
theorem FormedExpression.isName (h : FormedExpression (.ident l x)) : isName x.toList := by
  obtain ⟨d, p, -, h⟩ := h
  exact h.fits (Role.statement_at p)

end Inversion

/-- A node that may stand at a position is `Formed` at some place. -/
theorem Position.Holds.formed {q : Position} (h : q.Holds (.node n)) :
    ∃ d p, Formed .parsed d p n := by
  cases h with
  | statement h => exact ⟨_, _, h⟩
  | expression _ h =>
    obtain ⟨d, p, -, h⟩ := h
    exact ⟨d, p, h⟩
  | branch h | called h =>
    obtain ⟨d, h⟩ := h
    exact ⟨0, .statement, .block fun n hn => (h n hn).parsed⟩

end Parts

/-! ### Inside of a spot -/

section Inside

open Eval

/-- An evaluation that is no concern to what comes behind it: it `Respects` the machine, and
`Keeps` its counts. -/
structure Eval.Safe {α : Type} (V : α → Prop) (e : Eval α) : Prop where
  respects : Respects V True (fun _ => True) e
  keeps : Keeps Machine.SameCounts Machine.SameCounts e

/-- A machine is `Machine.Ready` behind what is `Eval.Safe`. -/
theorem Machine.Ready.behind_safe {α : Type} {loops calls : Nat} {m n : Machine}
    (h : m.Ready loops calls) {V : α → Prop} {e : Eval α} (he : e.Safe V) {a : α}
    (hn : e m = some (.done a, n)) : n.Ready loops calls ∧ V a :=
  h.behind he.respects he.keeps hn

section Safe

variable {limit fuel : Nat} {n : Node}

/-- `Eval.ofNode` is safe on what is `Formed`. -/
theorem run_safe {d : Nat} {p : Place} (hn : Formed .parsed d p n) :
    Safe SoundResult (ofNode limit fuel n) where
  respects := (ofNode_respects limit fuel d p n hn).imp (fun _ => trivial) fun _ _ => trivial
  keeps := ofNode_keeps stable_sameCounts binds_sameCounts limit fuel n

theorem expression_safe (hn : FormedExpression n) : Safe SoundResult (ofNode limit fuel n) := by
  obtain ⟨d, p, -, hn⟩ := hn
  exact run_safe hn

theorem operand_safe (hn : FormedExpression n) :
    Safe Value.Sound (operand (ofNode limit fuel) n) where
  respects := respects_guarantee.operand (expression_safe hn).respects
  keeps := operand_keeps stable_sameCounts (expression_safe hn).keeps

theorem condition_safe (hn : FormedExpression n) :
    Safe (fun _ => True) (condition (ofNode limit fuel) n) where
  respects := respects_guarantee.condition (expression_safe hn).respects
  keeps := condition_keeps stable_sameCounts (expression_safe hn).keeps

/-- What may be missing, as the step of a loop, is `Safe` if it is a `FormedExpression`. -/
theorem optional_safe {part : Option Node} (hpart : ∀ n ∈ part, FormedExpression n) :
    Safe (fun _ => True) (optional (ofNode limit fuel) part) where
  respects := respects_guarantee.optional fun n hn => (expression_safe (hpart n hn)).respects
  keeps := optional_keeps stable_sameCounts fun n hn => (expression_safe (hpart n hn)).keeps

theorem arguments_safe {ns : List Node} (hns : ∀ n ∈ ns, FormedExpression n) :
    Safe (fun vs : List Value => ∀ v ∈ vs, v.Sound) (arguments (ofNode limit fuel) ns) where
  respects := respects_guarantee.arguments fun n hn => (expression_safe (hns n hn)).respects
  keeps := arguments_keeps stable_sameCounts fun n hn => (expression_safe (hns n hn)).keeps

theorem sequence_safe {ns : List Node} (hns : FormedAll ns) :
    Safe SoundResult (sequence (ofNode limit fuel) none ns) := by
  obtain ⟨d, hns⟩ := hns
  exact {
    respects :=
      respects_guarantee.sequence (fun n hn => (run_safe (hns n hn)).respects) soundResult_none
    keeps := sequence_keeps stable_sameCounts none fun n hn => (run_safe (hns n hn)).keeps }

theorem block_safe {b : Block} (hb : FormedAll b.nodes) :
    Safe SoundResult (block (ofNode limit fuel) b) := by
  have hrespects := formedBlock_respects (ofNode_respects limit fuel) hb
  obtain ⟨d, hb⟩ := hb
  exact {
    respects := hrespects.imp id fun _ _ => trivial
    keeps := block_keeps stable_sameCounts fun n hn => (run_safe (hb n hn)).keeps }

theorem bindAll_safe (xs : List String) {vs : List Value} (hvs : ∀ v ∈ vs, v.Sound) :
    Safe (fun _ => True) (bindAll xs vs) where
  respects := respects_guarantee.bindAll xs hvs
  keeps := bindAll_keeps stable_sameCounts binds_sameCounts xs vs

theorem lookup_safe (line : Nat) {x : String} (hx : isName x.toList) :
    Safe Value.Sound (lookup line x) where
  respects := lookup_respects line hx
  keeps := lookup_keeps stable_sameCounts line x

/-- `Eval.assignee` is safe on the target of an assignment that is `Formed`. -/
theorem assignee_safe {d line : Nat} {p : Place} {target : Node}
    (h : Formed .parsed d p (.assign line target n)) :
    Safe (fun _ => True) (assignee target) where
  respects := by
    generalize hassign : Node.assign line target n = a at h
    induction h with
    | assign hx =>
      cases hassign
      exact respects_guarantee.assignee_ident _ hx
    | initialized =>
      cases hassign
      exact respects_guarantee.assignee_declare _ _
    | operandValue _ ih | assignedValue _ ih | assignedInit _ ih | operandStatement _ ih
    | declaredStatement _ ih | initStatement _ ih => exact ih hassign
    | _ => cases hassign
  keeps := assignee_keeps stable_sameCounts binds_sameCounts target

end Safe

/-- If a spot is `Spot.Fit`, then so is every one directly `Inside` of it. -/
theorem Inside.fit {limit : Nat} {s t : Spot} (h : Inside limit s t) (hs : s.Fit) : t.Fit := by
  obtain ⟨hready, hholds, -⟩ := hs
  cases h with
  | operand | left | test | returned =>
    obtain ⟨d, p, hn⟩ := hholds.formed
    exact ⟨hready, hn.holds (by simp [Node.parts]) nofun, nofun⟩
  | right hk =>
    obtain ⟨d, p, hn⟩ := hholds.formed
    have hl : FormedExpression _ := hn.expressionPart (.head _) nofun nofun
    exact ⟨(hready.behind_safe (operand_safe hl) hk).1, hn.holds (by simp [Node.parts]) nofun,
      nofun⟩
  | assigned hk =>
    obtain ⟨d, p, hn⟩ := hholds.formed
    exact ⟨(hready.behind_safe (assignee_safe hn) hk).1, hn.holds (by simp [Node.parts]) nofun,
      nofun⟩
  | argument _ _ hk =>
    obtain ⟨d, p, hn⟩ := hholds.formed
    obtain ⟨-, hargs⟩ := hn.call_parts
    have hbefore := fun n hm => hargs n (List.mem_append_left _ hm)
    exact ⟨(hready.behind_safe (arguments_safe hbefore) hk).1,
      hn.holds (by simp [Node.parts]) nofun, nofun⟩
  | called hf _ hk hk' =>
    obtain ⟨d, p, hn⟩ := hholds.formed
    obtain ⟨hcallee, hargs⟩ := hn.call_parts
    obtain ⟨-, hbody⟩ := hready.behind_safe (lookup_safe _ hcallee.isName) hf
    obtain ⟨hready, hvalues⟩ := hready.behind_safe (arguments_safe hargs) hk
    -- a call counts loops anew, on the machine and around the spot
    have hentered := (hready.calling _ _).nested.behind_safe (bindAll_safe _ hvalues) hk'
    exact ⟨hentered.1, .called hbody, fun _ => rfl⟩
  | statement hk =>
    obtain ⟨d, p, hn⟩ := hholds.formed
    obtain ⟨d', hnodes⟩ := hn.block_parts
    have hbefore : FormedAll _ := ⟨d', fun n hm => hnodes n (List.mem_append_left _ hm)⟩
    have hbehind := hready.nested.behind_safe (sequence_safe hbefore) hk
    exact ⟨hbehind.1, .statement (hnodes _ (by simp)), nofun⟩
  | @branch _ _ _ _ _ _ _ _ b chosen c go hk hchosen =>
    obtain ⟨d, p, hn⟩ := hholds.formed
    obtain ⟨htest, hb, hc⟩ := hn.conditional_parts
    have hformed : FormedAll chosen.nodes := by
      cases go with
      | true =>
        cases hchosen
        exact hb
      | false => exact hc chosen hchosen
    exact ⟨(hready.behind_safe (condition_safe htest) hk).1, .branch hformed, nofun⟩
  | init =>
    obtain ⟨d, p, hn⟩ := hholds.formed
    exact ⟨hready.inLoop.nested, hn.holds (by simp [Node.parts]) nofun, nofun⟩
  | turns hk =>
    obtain ⟨d, p, hn⟩ := hholds.formed
    obtain ⟨hinit, htest, hstep, hb⟩ := hn.loop_parts
    have hbehind := hready.inLoop.nested.behind_safe (optional_safe hinit) hk
    exact ⟨hbehind.1, .turns htest hstep hb, nofun⟩
  | condition =>
    cases hholds with
    | turns htest => exact ⟨hready, .expression nofun htest, nofun⟩
  | body hk =>
    cases hholds with
    | turns htest _ hb =>
      exact ⟨(hready.behind_safe (condition_safe htest) hk).1, .branch hb, nofun⟩
  | step hk hk' =>
    cases hholds with
    | turns htest hstep hb =>
      have hbody := (hready.behind_safe (condition_safe htest) hk).1
      have hbehind := (hbody.behind_safe (block_safe hb) hk').1
      exact ⟨hbehind, .expression nofun (hstep _ rfl), nofun⟩
  | again hk hk' hk'' =>
    cases hholds with
    | turns htest hstep hb =>
      have hbody := (hready.behind_safe (condition_safe htest) hk).1
      have hbehind := (hbody.behind_safe (block_safe hb) hk').1
      exact ⟨(hbehind.behind_safe (optional_safe hstep) hk'').1, .turns htest hstep hb, nofun⟩

/-- So is every one that any number of steps `Inside` lead to. -/
theorem Spot.Fit.inside {limit : Nat} {s t : Spot} (hs : s.Fit)
    (h : Relation.ReflTransGen (Inside limit) s t) : t.Fit := by
  induction h with
  | refl => exact hs
  | tail _ hinside ih => exact hinside.fit ih

end Inside

/-! ### How spots end -/

/-- How an evaluation may end, by the `Position` and the `Piece` of its spot. -/
structure Spot.Confined (s : Spot) (flow : Flow (Option Value)) : Prop where
  /-- An expression gives a value or none, or faults, as a part of another node and as a
  statement. -/
  expression : s.position.IsExpression ∨ (∃ n, s.piece = .node n ∧ n.IsExpression) →
    (∃ value, flow = .done value) ∨ flow = .faulted
  /-- So does a call. -/
  call : (∃ line callee args, s.piece = .node (.call line callee args)) →
    (∃ value, flow = .done value) ∨ flow = .faulted
  /-- A loop does not end by a break, and neither do the turns that are left of it. -/
  loop : (∃ line init test step body, s.piece = .node (.loop line init test step body)) ∨
    s.position = .turns → flow ≠ .broke
  /-- A block or a conditional ends by a break only if there is a loop around it in the same
  call. -/
  block : (∃ b, s.piece = .node (.block b)) ∨
    (∃ line test b c, s.piece = .node (.conditional line test b c)) → flow = .broke →
    0 < s.loops
  /-- The body of a function does not end by a break. -/
  called : s.position = .called → flow ≠ .broke

/-- What by `Flow.Ends` neither returns nor breaks, gives a value or none, or faults. -/
theorem Flow.Ends.settled {α : Type} {V : α → Prop} {returns breaks : Prop} {flow : Flow α}
    (h : flow.Ends V returns breaks) (hr : ¬returns) (hb : ¬breaks) :
    (∃ a, flow = .done a) ∨ flow = .faulted := by
  cases flow with
  | done a => exact .inl ⟨a, rfl⟩
  | returned v => exact absurd h.1 hr
  | broke => exact absurd h hb
  | faulted => exact .inr rfl

/-- Expressions neither return nor break, by `Node.Returns` and `Node.Breaks`. -/
theorem Node.IsExpression.settled {n : Node} (h : n.IsExpression) :
    ¬n.Returns ∧ ∀ loops, ¬n.Breaks loops := by
  cases h <;> exact ⟨id, fun _ => id⟩

section Confined

variable {limit : Nat} {s : Spot} {flow : Flow (Option Value)}

/-- The ending of a node is `Spot.Confined` if it is as `Flow.Ends` allows for the node, and the
node may stand where it does. -/
theorem Spot.confined_of_node {n : Node} (hn : s.piece = .node n)
    (hends : flow.Ends SoundResult n.Returns (n.Breaks s.loops))
    (hexpression : s.position.IsExpression → ¬n.Returns ∧ ¬n.Breaks s.loops)
    (hturns : s.position ≠ .turns) (hcalled : s.position = .called → flow ≠ .broke) :
    s.Confined flow where
  expression := by
    rintro (hposition | ⟨n', hn', hform⟩)
    · obtain ⟨hr, hb⟩ := hexpression hposition
      exact hends.settled hr hb
    · cases hn.symm.trans hn'
      obtain ⟨hr, hb⟩ := hform.settled
      exact hends.settled hr (hb s.loops)
  call := by
    rintro ⟨line, callee, args, hcall⟩
    cases hn.symm.trans hcall
    exact hends.settled id id
  loop := by
    rintro (⟨line, init, test, step, body, hloop⟩ | h) rfl
    · cases hn.symm.trans hloop
      exact hends
    · exact hturns h
  block := by
    rintro (⟨b, hblock⟩ | ⟨line, test, b, c, hconditional⟩) rfl
    · cases hn.symm.trans hblock
      exact hends
    · cases hn.symm.trans hconditional
      exact hends
  called := hcalled

/-- The `Spot.answer` for a node at a fit spot leaves the counts as they are, and ends as
`Flow.Ends` allows for the node. -/
theorem Spot.Fit.node (hs : s.Fit) {n : Node} (hn : s.piece = .node n) {k : Machine}
    (hk : s.answer limit = some (flow, k)) :
    k.Ready s.loops s.calls ∧ flow.Ends SoundResult n.Returns (n.Breaks s.loops) := by
  obtain ⟨position, loops, calls, fuel, piece, m⟩ := s
  cases hn
  obtain ⟨d, p, hform⟩ := hs.holds.formed
  exact hs.ready.behind (Eval.ofNode_respects limit fuel d p n hform)
    (Eval.ofNode_keeps stable_sameCounts binds_sameCounts limit fuel n) hk

/-- The `Spot.answer` at a fit spot leaves the counts as they are, and is `Spot.Confined`. -/
theorem Spot.Fit.confined (hs : s.Fit) {k : Machine} (hk : s.answer limit = some (flow, k)) :
    k.Ready s.loops s.calls ∧ s.Confined flow := by
  have hnode := fun n hn => hs.node (n := n) hn hk
  obtain ⟨position, loops, calls, fuel, piece, m⟩ := s
  obtain ⟨hready, hholds, hcalled⟩ := hs
  cases hholds with
  | statement =>
    obtain ⟨hcounts, hends⟩ := hnode _ rfl
    exact ⟨hcounts, confined_of_node rfl hends (fun h => absurd rfl h) nofun nofun⟩
  | expression _ hform =>
    obtain ⟨hcounts, hends⟩ := hnode _ rfl
    obtain ⟨d, p, hp, hform⟩ := hform
    obtain ⟨hr, hb⟩ := hform.settled hp
    exact ⟨hcounts, confined_of_node rfl hends (fun _ => ⟨hr, hb loops⟩) nofun nofun⟩
  | branch =>
    obtain ⟨hcounts, hends⟩ := hnode _ rfl
    exact ⟨hcounts, confined_of_node rfl hends False.elim nofun nofun⟩
  | called =>
    obtain ⟨hcounts, hends⟩ := hnode _ rfl
    refine ⟨hcounts, confined_of_node rfl hends False.elim nofun ?_⟩
    -- a function does not see the loops of its caller
    rintro - rfl
    have hzero : loops = 0 := hcalled rfl
    rw [hzero] at hends
    exact Nat.lt_irrefl 0 hends
  | @turns test step b htest hstep hb =>
    have hturns := hready.behind (Eval.turns_respects limit fuel test step b htest hstep hb)
      (Eval.turns_keeps stable_sameCounts binds_sameCounts limit fuel test step b) hk
    obtain ⟨hcounts, hends⟩ := hturns
    refine ⟨hcounts, ?_, ?_, ?_, ?_, nofun⟩
    · rintro (h | ⟨_, h, _⟩)
      · exact h.elim
      · cases h
    · rintro ⟨_, _, _, h⟩
      cases h
    · rintro - rfl
      exact hends
    · rintro (⟨_, h⟩ | ⟨_, _, _, _, h⟩) <;> cases h

/-- Only a `Node.breaking` ends by a break outside of all loops. -/
theorem Node.breaking_of_breaks {n : Node} (h : n.Breaks 0) : ∃ line, n = .breaking line := by
  cases n with
  | breaking line => exact ⟨line, rfl⟩
  | block | conditional => exact absurd h (Nat.lt_irrefl 0)
  | _ => exact h.elim

end Confined

/-! ## Runs -/

/-- `evaluateNodes` leaves no loop and no call open. -/
theorem counts_evaluateNodes {limit fuel : Nat} {package : String} {last value : Option Value}
    {ns : List Node} {m n : Machine} (hm : m.loopDepth = 0 ∧ m.callDepth = 0)
    (hn : evaluateNodes limit fuel package last ns m = some (value, n)) :
    n.loopDepth = 0 ∧ n.callDepth = 0 := by
  induction ns generalizing last m with
  | nil =>
    cases hn
    exact hm
  | cons node ns ih =>
    rw [evaluateNodes] at hn
    split at hn
    · cases hn
    · exact ih ⟨rfl, rfl⟩ hn

/-- `evaluateNodes` leaves a machine `Machine.Ready`, with no loop and no call around it. -/
theorem ready_evaluateNodes {limit fuel : Nat} {package : String} {last value : Option Value}
    {ns : List Node} (hns : FormedAll ns) {m n : Machine} (hm : m.Ready 0 0)
    (hn : evaluateNodes limit fuel package last ns m = some (value, n)) : n.Ready 0 0 := by
  obtain ⟨hloops, hcalls⟩ := counts_evaluateNodes ⟨hm.loops, hm.calls⟩ hn
  exact ⟨sound_evaluateNodes hns hm.sound hn, hloops, hcalls⟩

/-- The spots that `Package.Begins` are `Spot.Fit`, if the package is parsed. -/
theorem Package.Begins.fit {limit fuel : Nat} {p : Package} (hp : p.IsParsed) {m : Machine}
    (hm : m.Ready 0 0) {s : Spot} (h : p.Begins limit fuel m s) : s.Fit := by
  obtain ⟨d, hnodes⟩ := hp.formedAll
  cases h with
  | @node before behind n value k hsplit hbefore =>
    rw [hsplit] at hnodes
    have hready :=
      ready_evaluateNodes ⟨d, fun n hn => hnodes n (List.mem_append_left _ hn)⟩ hm hbefore
    have hnoted : Machine.Ready 0 0 (k.note (.evaluating p.name n.line)) :=
      ⟨⟨hready.sound.scopes, hready.sound.errors⟩, hready.loops, hready.calls⟩
    exact ⟨hnoted, .statement (hnodes _ (by simp)), nofun⟩

/-- Of the spots that a parsed `Package.Begins`, only a break ends by a break. -/
theorem Package.Begins.breaking {limit fuel : Nat} {p : Package} (hp : p.IsParsed)
    {m k : Machine} (hm : m.Ready 0 0) {s : Spot} (h : p.Begins limit fuel m s)
    (hk : s.answer limit = some (.broke, k)) : ∃ line, s.piece = .node (.breaking line) := by
  have hfit : s.Fit := h.fit hp hm
  cases h with
  | node =>
    obtain ⟨-, hends⟩ := hfit.node rfl hk
    obtain ⟨line, rfl⟩ := Node.breaking_of_breaks hends
    exact ⟨line, rfl⟩

namespace Session

open Grammar

/-- A session that has met nothing but packages that are `Package.IsParsed` has no loop and no
call open. -/
theorem ready_of_leads {config : Config} {host : Host} {s : Session}
    (h : Leads Package.IsParsed (fresh config host) s) : s.machine.Ready 0 0 := by
  refine h.preserves (I := fun s => s.machine.Ready 0 0) ?_ ?_ ?_
    ⟨sound_fresh config host, rfl, rfl⟩
  · exact fun name source journal => ⟨name, source, journal, rfl⟩
  · exact fun s source hs => ⟨⟨hs.sound.scopes, hs.sound.errors⟩, hs.loops, hs.calls⟩
  -- the counts are reset behind every node, so nothing is open between runs
  · intro s fuel p e t hp hs he
    have hsound := (sound_evaluate hp hs.sound he).1
    rw [evaluate, Package.evaluate] at he
    rcases hn : evaluateNodes s.config.maxCallDepth fuel p.name none p.nodes s.machine with
      _ | ⟨value, m⟩ <;> rw [hn] at he
    · cases he
    · cases he
      obtain ⟨hloops, hcalls⟩ := counts_evaluateNodes ⟨hs.loops, hs.calls⟩ hn
      exact ⟨hsound, hloops, hcalls⟩

/-- In a session that has met nothing but parsed packages, take the evaluation of another such
package, and in it any spot that `Package.Begins` and `Inside` lead to. The machine counts
exactly the loops and the calls around the spot, before and behind it, and its ending is
`Spot.Confined`: an expression gives a value or none, or faults, wherever it stands, and so does
a call; a loop does not end by a break, a block or a conditional does only with a loop around it
in the same call, and the body of a function never does. At the top level only a break ends by a
break.

The spots account for the evaluation: where it has no answer, or a spot with fuel has none, the
answer is missing at one of the spots directly inside. -/
theorem transfers_confined :
    ∀ (config : Config) (host : Host) (s : Session),
      Leads Package.IsParsed (fresh config host) s →
      ∀ p : Package, p.IsParsed → ∀ fuel : Nat,
      (s.evaluate fuel p = none → ∃ top, p.Begins s.config.maxCallDepth fuel s.machine top ∧
        top.answer s.config.maxCallDepth = none) ∧
      ∀ top : Spot, p.Begins s.config.maxCallDepth fuel s.machine top →
        (∀ k, top.answer s.config.maxCallDepth = some (.broke, k) →
          ∃ line, top.piece = .node (.breaking line)) ∧
        ∀ spot, Relation.ReflTransGen (Inside s.config.maxCallDepth) top spot →
          spot.machine.loopDepth = spot.loops ∧ spot.machine.callDepth = spot.calls ∧
          (∀ flow k, spot.answer s.config.maxCallDepth = some (flow, k) →
            k.loopDepth = spot.loops ∧ k.callDepth = spot.calls ∧ spot.Confined flow) ∧
          (spot.fuel ≠ 0 → spot.answer s.config.maxCallDepth = none →
            ∃ t, Inside s.config.maxCallDepth spot t ∧
              t.answer s.config.maxCallDepth = none) := by
  intro config host s hs p hp fuel
  have hready : s.machine.Ready 0 0 := ready_of_leads hs
  refine ⟨exists_begins, fun top htop => ?_⟩
  refine ⟨fun k hk => htop.breaking hp hready hk, fun spot hspot => ?_⟩
  have hfit : spot.Fit := (htop.fit hp hready).inside hspot
  refine ⟨hfit.ready.loops, hfit.ready.calls, fun flow k hk => ?_, spot.exists_inside⟩
  obtain ⟨hbehind, hconfined⟩ := hfit.confined hk
  exact ⟨hbehind.loops, hbehind.calls, hconfined⟩

/-- A function with a break in it, and a loop that calls the function. -/
theorem parse_callee :
    (Package.parse "main" "fun f() \x7b break; \x7d loop \x7b f(); break; \x7d"
      {}).1.package.nodes =
      [.function 1 ⟨1, "f"⟩ [] ⟨1, [.breaking 1]⟩,
        .loop 1 none (.boolean 1 true) none ⟨1, [.call 1 (.ident 1 "f") [], .breaking 1]⟩] := by
  have hbreak : Derives .statement [.ofKind .kwBreak 1, .ofKind .semicolon 1] [.breaking 1] :=
    .breaking rfl rfl
  have hcall : Derives .operand [⟨.ident, 1, "f"⟩, .ofKind .leftParen 1, .ofKind .rightParen 1]
      [.call 1 (.ident 1 "f") []] := .emptyCall rfl rfl rfl
  have hcallee := Derives.block (l := .ofKind .leftBrace 1) (r := .ofKind .rightBrace 1) rfl
    (.statements hbreak .noStatements) rfl
  have hbody := Derives.block (l := .ofKind .leftBrace 1) (r := .ofKind .rightBrace 1) rfl
    (.statements (.expressionStatement (s := .ofKind .semicolon 1) (.chain hcall .noTail) rfl)
      (.statements hbreak .noStatements)) rfl
  have hprogram := Derives.statements
    (.function (k := .ofKind .kwFun 1) (t := ⟨.ident, 1, "f"⟩) (l := .ofKind .leftParen 1)
      (r := .ofKind .rightParen 1) rfl rfl rfl (.inl ⟨rfl, rfl⟩) rfl hcallee)
    (.statements (.bareLoop (k := .ofKind .kwLoop 1) rfl hbody) .noStatements)
  have htokens : Derives .statements
      (Cursor.start "fun f() \x7b break; \x7d loop \x7b f(); break; \x7d").tokens.1 _ :=
    Eq.mpr (congrArg (Derives .statements · _) (by decide +kernel)) hprogram
  rw [Package.parse_of_derives htokens]
  rfl

/-- The body of a function that is called from a loop: the break in it ends the call, and not
the loop. -/
theorem transfers_confined_callee :
    let p :=
      (Package.parse "main" "fun f() \x7b break; \x7d loop \x7b f(); break; \x7d" {}).1.package
    ∃ top spot, p.Begins 200 9 {} top ∧ Relation.ReflTransGen (Inside 200) top spot ∧
      spot.position = .called ∧ spot.loops = 0 ∧ spot.calls = 1 ∧
      ∃ flow k, spot.answer 200 = some (flow, k) ∧ k.loopDepth = 0 ∧ flow ≠ .broke := by
  intro p
  have hpath : ∃ top, p.Begins 200 9 {} top ∧
      ∃ spot, Relation.ReflTransGen (Inside 200) top spot ∧
      spot.position = .called ∧ spot.loops = 0 ∧ spot.calls = 1 ∧
      ∃ result, spot.answer 200 = some result := by
    refine ⟨_, .node (show p.nodes = [_] ++ _ :: [] from parse_callee) rfl, ?_⟩
    have hstatements : [Node.call 1 (.ident 1 "f") [], .breaking 1] = [] ++ _ :: [_] := rfl
    rw [hstatements]
    exact ⟨_, .head (.turns rfl) (.head (.body rfl) (.head (.statement rfl)
      (.single (.called rfl ⟨rfl, Nat.succ_pos _⟩ rfl rfl)))), rfl, rfl, rfl, _, rfl⟩
  obtain ⟨top, htop, spot, hspot, hposition, hloops, hcalls, ⟨flow, k⟩, hk⟩ := hpath
  obtain ⟨-, h⟩ := transfers_confined {} {} (fresh {} {}) .refl p ⟨_, _, _, rfl⟩ 9
  obtain ⟨-, -, hends, -⟩ := (h top htop).2 spot hspot
  obtain ⟨hcounted, -, hconfined⟩ := hends flow k hk
  exact ⟨top, spot, htop, hspot, hposition, hloops, hcalls, flow, k, hk, hcounted.trans hloops,
    hconfined.called hposition⟩

end Session
end ScriptLang
