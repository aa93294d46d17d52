import ScriptLang.Proofs.CallLimit
import ScriptLang.Proofs.EmptyScopes

/-!
# A loop with a head is a bare loop

A loop with a head says nothing that could not be said without it. What the head begins with may
come first, in a block around a bare loop, and the body of that loop asks whether to go on, with
a break if not, before it takes the step. Evaluating the one or the other comes to the same.

The two do not run alike to the letter. In the bare form the body of the loop is two scopes
further down, the first part is evaluated before there is a loop, and the condition is one node
further down in the tree, so it is left with less fuel. The scopes in between are empty and do
not matter. The fuel is made up for by turns that go at the pace of the bare loop: they have an
answer wherever the turns of the loop have one with less fuel, and nowhere where those have none
with more.

- `Node.bareForm`: the loop in other words; `Grammar.Derives.bareForm` says which text is parsed
  into it.
- `Eval.pass`: a turn without what comes behind it, which is the body of the bare loop
  (`Eval.pass_same`).
- `Eval.shifted`: the turns of a loop at the pace of the bare loop (`Eval.shifted_same`).
- `Eval.bareForm_same`: a loop and its bare form, with enough fuel for both.
- `Package.loop_is_bareForm`: with enough fuel they come to the same, for all loops from the
  parser.
-/

namespace ScriptLang

open Eval

/-! ## The bare form -/

/-- The body of `Node.bareLoop`: a conditional on `test` around the body `b`, which breaks
otherwise, and `step` behind it. -/
def Block.bareBody (lines : Nat → Nat) (test : Node) (step : Option Node) (b : Block) : Block :=
  ⟨lines 3, .conditional (lines 4) test b (some ⟨lines 5, [.breaking (lines 6)]⟩) ::
    step.toList⟩

/-- The loop without a head whose body is `Block.bareBody`. -/
def Node.bareLoop (lines : Nat → Nat) (test : Node) (step : Option Node) (b : Block) : Node :=
  .loop (lines 1) none (.boolean (lines 2) true) none (.bareBody lines test step b)

/-- A loop with a head in other words: `init` and `Node.bareLoop`, in a block of their own. The
lines of the words that are new may be any. -/
def Node.bareForm (lines : Nat → Nat) (init test : Node) (step : Option Node) (b : Block) :
    Node :=
  .block ⟨lines 0, [init, .bareLoop lines test step b]⟩

/-- What `Node.bareForm` is written with: the tokens of `init`, `test`, `body` and `step`, with
the semicolons behind them, and the words and brackets in between. Some of these may be at any
line. -/
def bareTokens (lines : Nat → Nat) (any : Nat) (init test body step : List Token) :
    List Token :=
  [.ofKind .leftBrace (lines 0)] ++ init ++
    [.ofKind .kwLoop (lines 1), .ofKind .leftBrace (lines 3), .ofKind .kwIf (lines 4),
      .ofKind .leftParen any] ++ test ++ [.ofKind .rightParen any] ++ body ++
    [.ofKind .kwElse any, .ofKind .leftBrace (lines 5), .ofKind .kwBreak (lines 6),
      .ofKind .semicolon any, .ofKind .rightBrace any] ++ step ++
        [.ofKind .rightBrace any, .ofKind .rightBrace any]

open Grammar in
/-- If the parts of the loop are derived from their tokens, then `Node.bareForm` is derived from
`bareTokens`. -/
theorem Grammar.Derives.bareForm {lines : Nat → Nat} {any : Nat} {is ts us ps : List Token}
    {init test : Node} {step : Option Node} {b : Block} (hlines : lines 2 = lines 1)
    (hinit : Derives .statement is [init]) (htest : Derives .expression ts [test])
    (hbody : Derives .block us [.block b]) (hstep : Derives .statements ps step.toList) :
    Derives .statement (bareTokens lines any is ts us ps)
      [.bareForm lines init test step b] := by
  have hbreak : Derives .block _ [.block ⟨lines 5, [.breaking (lines 6)]⟩] :=
    .block (l := .ofKind .leftBrace (lines 5)) (r := .ofKind .rightBrace any) rfl
      (.statements
        (.breaking (k := .ofKind .kwBreak (lines 6)) (s := .ofKind .semicolon any) rfl rfl)
        .noStatements) rfl
  have hconditional := Derives.conditionalElse (i := .ofKind .kwIf (lines 4))
    (l := .ofKind .leftParen any) (r := .ofKind .rightParen any) (e := .ofKind .kwElse any)
    rfl rfl htest rfl hbody rfl hbreak
  have hloop := Derives.bareLoop (k := .ofKind .kwLoop (lines 1)) rfl
    (.block (l := .ofKind .leftBrace (lines 3)) (r := .ofKind .rightBrace any) rfl
      (.statements hconditional hstep) rfl)
  have hform := Derives.blockStatement
    (.block (l := .ofKind .leftBrace (lines 0)) (r := .ofKind .rightBrace any) rfl
      (.statements hinit (.statements hloop .noStatements)) rfl)
  rw [Node.bareForm, Node.bareLoop, hlines]
  simpa [bareTokens, Block.bareBody] using hform

/-- `Machine.closed` and `outOfLoop` on one side, and only `closed` on the other, lead to
machines that are `Padded` again. -/
theorem Machine.Padded.outOfLoop {m m' : Machine} (hm : m.Padded 0 0 0 false m')
    (hloops : m.loopDepth = m'.loopDepth + 1) :
    m.closed.outOfLoop.Padded 0 0 0 true m'.closed := by
  have hscopes : m.closed.scopes = m'.closed.scopes := by
    rw [Machine.closed_scopes, Machine.closed_scopes, hm.scopes_eq]
  refine .of_scopes_eq hscopes ?_ ?_ (fun _ => ?_) ?_
  · simp [Machine.outOfLoop, hm.host]
  · simp [Machine.outOfLoop, hm.errors]
  · simp [Machine.outOfLoop, hloops]
  · simp [Machine.outOfLoop, hm.callDepth]

/-! ## What does not leave -/

/-- How `Eval.loop` may end: without a value, by a return or by a fault. -/
def Flow.EndsLoop : Flow (Option Value) → Prop
  | .done none | .returned _ | .faulted => True
  | .done (some _) | .broke => False

namespace Eval

variable {α β : Type} {limit fuel : Nat} {run : Evaluator} {m n : Machine}

/-- On the machine `m`, every ending of the evaluation is one that `Flow.Stays`: it does not
return and does not break. -/
def StaysAt (e : Eval α) (m : Machine) : Prop := ∀ flow n, e m = some (flow, n) → flow.Stays

/-- Behind an evaluation that `StaysAt` the machine, `>>=` ends with a fault or as `f` does. -/
theorem StaysAt.bind {e : Eval α} {f : α → Eval β} {P : Flow β → Prop} (he : StaysAt e m)
    (hfaulted : P .faulted) (hf : ∀ a k flow n, f a k = some (flow, n) → P flow) :
    ∀ flow n, (e >>= f) m = some (flow, n) → P flow := by
  intro flow n h
  rcases hk : e m with _ | ⟨ending, k⟩
  · cases (bind_of_none hk).symm.trans h
  · have hstays := he ending k hk
    cases ending with
    | returned | broke => exact hstays.elim
    | faulted =>
      cases (bind_of_faulted hk).symm.trans h
      exact hfaulted
    | done a => exact hf a k flow n ((bind_of_done hk).symm.trans h)

/-- What `Carries` a machine to the same one, with no leeway to leave, `StaysAt` it. -/
theorem Carries.staysAt {binds : Bool} {k : Nat} {e : Eval α}
    (he : Carries 0 0 ⟨false, binds⟩ e e) (hk : binds = true → 0 < k)
    (hm : m.Padded 0 0 k false m) : StaysAt e m :=
  fun flow n h => (he k m m hk hm flow n h).1 rfl

theorem expression_stays {e : Node} (he : e.IsExpression) :
    StaysAt (ofNode limit fuel e) m := by
  have hcarries : Carries 0 0 ⟨false, false⟩ (ofNode limit fuel e) (ofNode limit fuel e) :=
    (carries_congruence limit 0 0).expression (Nat.le_refl fuel) he
  exact hcarries.staysAt nofun (.refl m)

/-- If `test` does not leave, then neither does `Eval.condition`: a value that is no boolean is
a fault. -/
theorem condition_stays {test : Node} (htest : StaysAt (run test) m) :
    StaysAt (condition run test) m := by
  refine htest.bind trivial fun value k flow n h => ?_
  split at h <;> cases h <;> trivial

theorem optional_stays {s : Node} (hs : StaysAt (run s) m) :
    StaysAt (optional run (some s)) m := by
  refine hs.bind trivial ?_
  rintro _ _ _ _ ⟨⟩
  trivial

/-! ## What blocks and loops come to -/

/-- `Eval.block` is `Eval.sequence` between `Machine.nested` and `Machine.closed`, as long as
every break in it is inside of a loop. -/
theorem block_apply {b : Block}
    (hbroke : ∀ n, sequence run none b.nodes m.nested = some (.broke, n) → n.loopDepth ≠ 0) :
    block run b m = (sequence run none b.nodes m.nested).map fun (flow, n) =>
      (flow, n.closed) := by
  rw [block, observe_bind, inScope_apply]
  rcases hn : sequence run none b.nodes m.nested with _ | ⟨flow, n⟩
  · rfl
  · cases flow with
    | broke =>
      have hloops : n.closed.loopDepth ≠ 0 := by
        rw [Machine.closed_loopDepth]
        exact hbroke n hn
      show (if n.closed.loopDepth = 0 then pure none else raise .broke : Eval (Option Value))
        n.closed = _
      rw [if_neg hloops]
      rfl
    | _ => rfl

/-- `Eval.loop` is `turns` behind the first part, between `inLoop` and `nested` on one end and
`closed` and `outOfLoop` on the other. -/
theorem loop_apply (turns : Eval (Option Value)) (init : Option Node) :
    loop run turns init m =
      ((optional run init >>= fun _ => turns) m.inLoop.nested).map fun (flow, n) =>
        (flow, n.closed.outOfLoop) := by
  show (observe (inScope (optional run init >>= fun _ => turns)) >>= fun flow => _) m.inLoop = _
  rw [observe_bind, inScope_apply]
  rcases (optional run init >>= fun _ => turns) m.inLoop.nested with _ | ⟨flow, n⟩ <;> rfl

/-! ## Turns -/

/-- A turn of a loop without what `Eval.finish` puts behind it. It ends by a break where
`Eval.turn` ends the loop. -/
def pass (run run' : Evaluator) (test : Node) (step : Option Node) (b : Block) :
    Eval (Option Value) := do
  let value ← (do
    if ← condition run test then
      block run b
    else
      raise .broke)
  sequence run' value step.toList

theorem bind_pure (e : Eval α) : (e >>= fun a => pure a) = e := by
  funext m
  show Eval.bind e Eval.pure m = e m
  rw [Eval.bind]
  rcases e m with _ | ⟨_ | _ | _ | _, n⟩ <;> rfl

/-- `Eval.optional` drops the value of `s` and keeps its ending. -/
theorem optional_bind (s : Node) (next : Eval β) :
    (optional run (some s) >>= fun _ => next) m = (run s >>= fun _ => next) m := by
  show ((run s >>= fun _ => pure ()) >>= fun _ => next) m = _
  rcases hs : run s m with _ | ⟨_ | _ | _ | _, n⟩
  · rw [bind_of_none (bind_of_none hs), bind_of_none hs]
  · rw [bind_of_done ((bind_of_done hs).trans rfl), bind_of_done hs]
  · rw [bind_of_returned (bind_of_returned hs), bind_of_returned hs]
  · rw [bind_of_broke (bind_of_broke hs), bind_of_broke hs]
  · rw [bind_of_faulted (bind_of_faulted hs), bind_of_faulted hs]

/-- With `step` behind the body of a turn, what is left of the loop is `Eval.finish` on how the
step, taken as a row of nodes, ends. -/
theorem step_apply {step : Option Node} (hstep : ∀ s ∈ step, StaysAt (run s) m)
    (value : Option Value) (next : Eval (Option Value)) :
    (optional run step >>= fun _ => next) m =
      (observe (sequence run value step.toList) >>= finish next) m := by
  rw [observe_bind]
  cases step with
  | none => rfl
  | some s =>
    have hsequence : sequence run value (some s).toList = run s := bind_pure (run s)
    rw [optional_bind, hsequence]
    rcases hk : run s m with _ | ⟨flow, k⟩
    · rw [bind_of_none hk]
    · have hstays := hstep s rfl flow k hk
      cases flow with
      | returned | broke => exact hstays.elim
      | faulted =>
        rw [bind_of_faulted hk]
        rfl
      | done v =>
        rw [bind_of_done hk]
        rfl

/-- `Eval.turn` is `pass` with `Eval.finish` behind it, if neither `test` nor `step` leaves the
turn. -/
theorem turn_apply {run' : Evaluator} {test : Node} {step : Option Node} {b : Block}
    {next : Eval (Option Value)} (htest : StaysAt (run test) m)
    (hstep : ∀ s ∈ step, ∀ k, StaysAt (run' s) k) :
    turn run test b (do optional run' step; next) m =
      (observe (pass run run' test step b) >>= finish next) m := by
  rw [turn, pass, observe_bind]
  rcases hk : condition run test m with _ | ⟨flow, k⟩
  · rw [bind_of_none hk, bind_of_none (bind_of_none hk)]
  · have hstays := condition_stays htest flow k hk
    cases flow with
    -- the condition stays, so only the body can return or break
    | returned | broke => exact hstays.elim
    | faulted =>
      rw [bind_of_faulted hk, bind_of_faulted (bind_of_faulted hk)]
      rfl
    | done go =>
      rw [bind_of_done hk]
      cases go with
      | false =>
        rw [bind_of_broke ((bind_of_done hk).trans rfl)]
        rfl
      | true =>
        rw [if_pos rfl, observe_bind]
        rcases hl : block run b k with _ | ⟨flow, l⟩
        · rw [bind_of_none ((bind_of_done hk).trans hl)]
        · cases flow with
          | done value =>
            rw [bind_of_done ((bind_of_done hk).trans hl), ← observe_bind]
            exact step_apply (fun s hs => hstep s hs l) value next
          | returned v =>
            rw [bind_of_returned ((bind_of_done hk).trans hl)]
            rfl
          | broke =>
            rw [bind_of_broke ((bind_of_done hk).trans hl)]
            rfl
          | faulted =>
            rw [bind_of_faulted ((bind_of_done hk).trans hl)]
            rfl

theorem bareTurns_succ (line : Nat) (b : Block) :
    turns limit (fuel + 2) (.boolean line true) none b m =
      (observe (block (ofNode limit (fuel + 1)) b) >>=
        finish (turns limit (fuel + 1) (.boolean line true) none b)) m := by
  rw [turns]
  rfl

/-! ## A pass on both sides -/

theorem pass_keeps {fuel fuel' : Nat} (test : Node) (step : Option Node) (b : Block) :
    Keeps Machine.SameCounts Machine.SameCounts
      (pass (ofNode limit fuel) (ofNode limit fuel') test step b) := by
  refine bind_keeps stable_sameCounts ?_ fun value => sequence_counts limit fuel' value _
  refine bind_keeps stable_sameCounts (condition_counts limit fuel test) fun go => ?_
  cases go with
  | true => exact block_counts limit fuel b
  | false => exact broke_keeps stable_sameCounts

section Heads

variable {lines : Nat → Nat} {test : Node} {step : Option Node} {b : Block}
  (htest : test.IsExpression)
  (hstep : ∀ s ∈ step, s.IsExpression) {m' : Machine}

include htest

/-- Under two more scopes, which are empty, the first node of `Block.bareBody` comes to what
`Eval.condition` and the body come to, or to a break if the condition is false. -/
theorem test_same (hm : m.Padded 0 2 0 true m') (hloops : m.loopDepth ≠ 0) :
    SamePadded 0 2 0 true
      ((condition (ofNode limit fuel) test >>= fun go =>
        if go then block (ofNode limit fuel) b else raise .broke) m)
      (ofNode limit (fuel + 1)
        (.conditional (lines 4) test b (some ⟨lines 5, [.breaking (lines 6)]⟩)) m') := by
  have hcarries : ∀ i j, Congruence limit limit fun l _ e e' => Carries i j l e e' :=
    carries_congruence limit
  have hcondition : SamePadded 0 2 0 true (condition (ofNode limit fuel) test m)
      (condition (ofNode limit fuel) test m') :=
    same_of_carries (l := ⟨false, false⟩)
      (fun i j => (hcarries i j).condition ((hcarries i j).expression (Nat.le_refl fuel) htest))
      (condition_counts limit _ test) nofun nofun hm
  refine same_bind hcondition fun go n n' hn hpadded => ?_
  cases go with
  | true =>
    exact same_of_carries (l := ⟨true, false⟩)
      (fun i j => (hcarries i j).block fun n _ => (hcarries i j).node (Nat.le_refl fuel) n)
      (block_counts limit _ b) nofun (fun _ => rfl) hpadded
  | false =>
    -- there was fuel for the condition, so there is some for the break
    obtain _ | fuel := fuel
    · cases hn
    · have hloops' : n'.loopDepth ≠ 0 := by
        rw [← hpadded.loopDepth rfl, ((condition_counts limit _ test).relates hn).loopDepth]
        exact hloops
      show SamePadded 0 2 0 true (some (.broke, n))
        (block (ofNode limit (fuel + 1)) ⟨lines 5, [.breaking (lines 6)]⟩ n')
      rw [block_apply]
      · exact .some ⟨rfl, hpadded.nested_right.closed_right⟩
      · rintro _ ⟨⟩
        exact hloops'

include hstep

/-- `pass` is the body of `Node.bareLoop`, under one more scope. -/
theorem pass_same (hm : m.Padded 0 1 0 true m') (hloops : m.loopDepth ≠ 0) :
    SamePadded 0 1 0 true (pass (ofNode limit fuel) (ofNode limit (fuel + 1)) test step b m)
      (block (ofNode limit (fuel + 1)) (.bareBody lines test step b) m') := by
  have hnodes : SamePadded 0 2 0 true
      (pass (ofNode limit fuel) (ofNode limit (fuel + 1)) test step b m)
      (sequence (ofNode limit (fuel + 1)) none (Block.bareBody lines test step b).nodes
        m'.nested) := by
    refine same_bind (test_same htest hm.nested_right hloops) fun value n n' _ hpadded => ?_
    have hcarries : ∀ i j, Carries i j ⟨false, false⟩
        (sequence (ofNode limit (fuel + 1)) value step.toList)
        (sequence (ofNode limit (fuel + 1)) value step.toList) := fun i j =>
      (carries_congruence limit i j).sequence value fun s hs =>
        (carries_congruence limit i j).expression (Nat.le_refl _)
          (hstep s (Option.mem_toList.mp hs))
    exact same_of_carries hcarries (sequence_counts limit (fuel + 1) value _)
      nofun nofun hpadded
  rw [block_apply]
  · exact hnodes.closed_right
  · intro n hn
    rw [((sequence_counts limit (fuel + 1) none _).relates hn).loopDepth]
    show m'.loopDepth ≠ 0
    rw [← hm.loopDepth rfl]
    exact hloops

end Heads

/-! ## Turns on both sides -/

/-- `Eval.turns` with as much fuel for each part as there is on the other side, where the
condition is one node further down. -/
def shifted (limit : Nat) (test : Node) (step : Option Node) (b : Block) :
    Nat → Eval (Option Value)
  | 0 => outOfFuel
  | fuel + 1 =>
    turn (ofNode limit fuel) test b do
      optional (ofNode limit (fuel + 1)) step
      shifted limit test step b fuel

section Turns

variable {lines : Nat → Nat} {test : Node} {step : Option Node} {b : Block}
  (htest : test.IsExpression)
  (hstep : ∀ s ∈ step, s.IsExpression)

theorem turns_unless_shifted (fuel : Nat) :
    Unless (fun _ => False) (turns limit fuel test step b)
      (shifted limit test step b fuel) := by
  have h := fuel_congruence limit
  induction fuel with
  | zero => exact outOfFuel_unless
  | succ fuel ih =>
    rw [turns, shifted]
    refine h.turn (h.node (Nat.le_refl fuel) test) (fun n _ => h.node (Nat.le_refl fuel) n) ?_
    exact h.step (fun n _ => h.node (Nat.le_succ fuel) n) ih

theorem shifted_unless_turns {fuel fuel' : Nat} (hless : fuel < fuel') :
    Unless (fun _ => False) (shifted limit test step b fuel)
      (turns limit fuel' test step b) := by
  have h := fuel_congruence limit
  induction fuel generalizing fuel' with
  | zero => exact outOfFuel_unless
  | succ fuel ih =>
    obtain ⟨fuel', rfl⟩ := Nat.exists_eq_add_of_lt hless
    have hless : fuel + 1 ≤ fuel + 1 + fuel' := Nat.le_add_right _ _
    rw [turns, shifted]
    refine h.turn (h.node (Nat.le_of_succ_le hless) test)
      (fun n _ => h.node (Nat.le_of_succ_le hless) n) ?_
    exact h.step (fun n _ => h.node hless n) (ih hless)

include htest hstep

theorem shifted_succ : shifted limit test step b (fuel + 1) m =
    (observe (pass (ofNode limit fuel) (ofNode limit (fuel + 1)) test step b) >>=
      finish (shifted limit test step b fuel)) m := by
  rw [shifted]
  exact turn_apply (expression_stays htest) fun s hs _ => expression_stays (hstep s hs)

/-- The turns by `shifted` and those of `Node.bareLoop` end together and in the same way. -/
theorem shifted_same {m' : Machine} (hm : m.Padded 0 1 0 true m') (hloops : m.loopDepth ≠ 0) :
    SamePadded 0 1 0 true (shifted limit test step b fuel m)
      (turns limit (fuel + 1) (.boolean (lines 2) true) none
        (.bareBody lines test step b) m') := by
  induction fuel generalizing m m' with
  | zero => exact .none
  | succ fuel ih =>
    rw [shifted_succ htest hstep, bareTurns_succ]
    refine same_observe_bind (pass_same htest hstep hm hloops) fun flow n n' hn hpadded => ?_
    cases flow with
    | done =>
      refine ih hpadded ?_
      rw [((pass_keeps test step b).relates hn).loopDepth]
      exact hloops
    | _ => exact .some ⟨rfl, hpadded⟩

theorem shifted_endsLoop {flow : Flow (Option Value)}
    (h : shifted limit test step b fuel m = some (flow, n)) : flow.EndsLoop := by
  induction fuel generalizing m with
  | zero => cases h
  | succ fuel ih =>
    rw [shifted_succ htest hstep, observe_bind] at h
    rcases hk : pass (ofNode limit fuel) (ofNode limit (fuel + 1)) test step b m with
      _ | ⟨ending, k⟩ <;> rw [hk] at h
    · cases h
    · cases ending with
      | done => exact ih h
      | _ =>
        cases h
        trivial

theorem turns_endsLoop {flow : Flow (Option Value)}
    (h : turns limit fuel test step b m = some (flow, n)) : flow.EndsLoop :=
  shifted_endsLoop htest hstep ((turns_unless_shifted fuel).answer h)

end Turns

/-! ## Loops on both sides -/

theorem bareLoop_apply (lines : Nat → Nat) (test : Node) (step : Option Node) (b : Block) :
    ofNode limit (fuel + 2) (.bareLoop lines test step b) m =
      (turns limit (fuel + 1) (.boolean (lines 2) true) none (.bareBody lines test step b)
        m.inLoop.nested).map fun (flow, n) => (flow, n.closed.outOfLoop) :=
  loop_apply _ none

/-- The first part of a loop `StaysAt` the machine, so `Eval.loop` ends as its turns do, by
`Flow.EndsLoop`. -/
theorem loop_endsLoop {turns : Eval (Option Value)} {init : Option Node}
    (hinit : StaysAt (optional run init) m.inLoop.nested)
    (hturns : ∀ m flow n, turns m = some (flow, n) → flow.EndsLoop) {flow : Flow (Option Value)}
    (h : loop run turns init m = some (flow, n)) : flow.EndsLoop := by
  rw [loop_apply, Option.map_eq_some_iff] at h
  obtain ⟨⟨flow, k⟩, hk, ⟨⟩⟩ := h
  exact hinit.bind trivial (fun _ => hturns) flow k hk

theorem bareLoop_endsLoop {lines : Nat → Nat} {test : Node} {step : Option Node} {b : Block}
    {flow : Flow (Option Value)}
    (h : ofNode limit (fuel + 2) (.bareLoop lines test step b) m = some (flow, n)) :
    flow.EndsLoop := by
  have hnone : ∀ s ∈ (none : Option Node), s.IsExpression := nofun
  have hinit : StaysAt (optional (ofNode limit (fuel + 1)) none) m.inLoop.nested := by
    rintro _ _ ⟨⟩
    trivial
  exact loop_endsLoop hinit (fun _ _ _ => turns_endsLoop .boolean hnone) h

section Forms

variable {test : Node} {step : Option Node} {b : Block} (htest : test.IsExpression)
  (hstep : ∀ s ∈ step, s.IsExpression)

include htest hstep

/-- Behind `init`, `shifted` between its changes of the machine ends together with
`Node.bareLoop` and the block around that. -/
theorem bareLoop_same (lines : Nat → Nat) {m' : Machine} (hm : m.Padded 0 0 0 true m'.inLoop) :
    SamePadded 0 0 0 true
      ((shifted limit test step b fuel m).map fun (flow, n) => (flow, n.closed.outOfLoop))
      ((ofNode limit (fuel + 2) (.bareLoop lines test step b) m').map fun (flow, n) =>
        (flow, n.closed)) := by
  have hloops : m.loopDepth = m'.loopDepth + 1 := hm.loopDepth rfl
  have hturns : SamePadded 0 1 0 true (shifted limit test step b fuel m)
      (turns limit (fuel + 1) (.boolean (lines 2) true) none (.bareBody lines test step b)
        m'.inLoop.nested) :=
    shifted_same htest hstep hm.nested_right (ne_of_eq_of_ne hloops (Nat.succ_ne_zero _))
  rw [bareLoop_apply, Option.map_map]
  obtain ⟨hn, hn'⟩ | ⟨flow, n, n', hn, hn', hpadded⟩ := hturns.answers
  · rw [hn, hn']
    exact .none
  · rw [hn, hn']
    have hcount : n'.loopDepth = m'.loopDepth + 1 :=
      ((turns_keeps stable_sameCounts binds_sameCounts limit _ _ _ _).relates hn').loopDepth
    have hclosed : n.Padded 0 0 0 true n'.closed := hpadded.closed_right
    have houtside : n.Padded 0 0 0 false n'.closed.outOfLoop := hclosed.recounted nofun
    refine .some ⟨rfl, houtside.outOfLoop ?_⟩
    show n.loopDepth = n'.closed.loopDepth - 1 + 1
    rw [Machine.closed_loopDepth, hpadded.loopDepth rfl, hcount, Nat.add_sub_cancel]

variable {line : Nat} {target value : Node} (hvalue : value.IsExpression)

omit htest hstep
include hvalue

/-- The assignment that a loop begins with `Carries` any machine to any other that is `Padded`:
it binds names in its own scope only, and does not look at loops. -/
theorem assign_carries (i j : Nat) :
    Carries i j ⟨false, true⟩ (ofNode limit fuel (.assign line target value))
      (ofNode limit fuel (.assign line target value)) := by
  have h := carries_congruence limit i j
  cases fuel with
  | zero => exact h.outOfFuel _
  | succ fuel => exact h.assign (h.assignee target) (h.expression (Nat.le_refl fuel) hvalue)

theorem assign_stays : StaysAt (ofNode limit fuel (.assign line target value)) m.nested :=
  (assign_carries hvalue 0 0).staysAt (fun _ => Nat.one_pos) (Machine.Padded.nested (.refl m))

theorem assign_same :
    SamePadded 0 0 1 false (ofNode limit fuel (.assign line target value) m.inLoop.nested)
      (ofNode limit fuel (.assign line target value) m.nested) := by
  have hm : m.inLoop.Padded 0 0 0 false m := .of_scopes_eq rfl rfl rfl nofun rfl
  exact same_of_carries (assign_carries hvalue)
    (ofNode_counts limit fuel _) (fun _ => Nat.one_pos) nofun hm.nested

/-- `Node.bareForm` comes to what `Node.bareLoop` comes to behind the assignment, because
neither breaks. -/
theorem bareForm_apply (lines : Nat → Nat) (test : Node) (step : Option Node) (b : Block) :
    ofNode limit (fuel + 3) (.bareForm lines (.assign line target value) test step b) m =
      ((ofNode limit (fuel + 2) (.assign line target value) >>= fun _ =>
        ofNode limit (fuel + 2) (.bareLoop lines test step b)) m.nested).map fun (flow, n) =>
          (flow, n.closed) := by
  have hnodes : sequence (ofNode limit (fuel + 2)) none
      [.assign line target value, .bareLoop lines test step b] m.nested =
      (ofNode limit (fuel + 2) (.assign line target value) >>= fun _ =>
        ofNode limit (fuel + 2) (.bareLoop lines test step b)) m.nested := by
    show (_ >>= fun _ =>
      ofNode limit (fuel + 2) (.bareLoop lines test step b) >>= fun v => pure v) m.nested = _
    rw [bind_pure]
  show block (ofNode limit (fuel + 2))
    ⟨lines 0, [.assign line target value, .bareLoop lines test step b]⟩ m = _
  rw [block_apply, hnodes]
  intro n hn
  rw [hnodes] at hn
  have hends : Flow.EndsLoop .broke :=
    (assign_stays hvalue).bind trivial (fun _ _ _ _ => bareLoop_endsLoop) .broke n hn
  exact hends.elim

include htest hstep

/-- `Eval.loop` with turns by `shifted` is `Node.bareForm` with one more unit of fuel. -/
theorem bareForm_same {lines : Nat → Nat} : SamePadded 0 0 0 true
    (loop (ofNode limit (fuel + 2)) (shifted limit test step b fuel)
      (some (.assign line target value)) m)
    (ofNode limit (fuel + 3) (.bareForm lines (.assign line target value) test step b) m) := by
  have hcounts : ∀ n, Keeps Machine.SameCounts Machine.SameCounts (ofNode limit (fuel + 2) n) :=
    ofNode_counts limit (fuel + 2)
  have hinit : SamePadded 0 0 1 false
      (ofNode limit (fuel + 2) (.assign line target value) m.inLoop.nested)
      (ofNode limit (fuel + 2) (.assign line target value) m.nested) := assign_same hvalue
  rw [loop_apply, optional_bind, bareForm_apply hvalue]
  obtain ⟨hp, hp'⟩ | ⟨flow, p, p', hp, hp', hpadded⟩ := hinit.answers
  · rw [bind_of_none hp, bind_of_none hp']
    exact .none
  · -- the loop counts itself before its head, the bare form only behind it
    have hloops : p.loopDepth = p'.loopDepth + 1 :=
      ((hcounts _).relates hp).loopDepth.trans
        (congrArg (· + 1) ((hcounts _).relates hp').loopDepth.symm)
    have hstays := assign_stays hvalue flow p' hp'
    cases flow with
    | returned | broke => exact hstays.elim
    | faulted =>
      rw [bind_of_faulted hp, bind_of_faulted hp']
      have hsame : p.Padded 0 0 0 false p' := hpadded.recounted nofun
      exact .some ⟨rfl, hsame.outOfLoop hloops⟩
    | done =>
      rw [bind_of_done hp, bind_of_done hp']
      have hentered : p.Padded 0 0 0 true p'.inLoop := hpadded.recounted fun _ => hloops
      exact bareLoop_same htest hstep lines hentered

end Forms

/-- With some amount of fuel, `Eval.ofNode` has this ending. -/
def EndsIn (limit : Nat) (n : Node) (m : Machine) (flow : Flow (Option Value)) (k : Machine) :
    Prop :=
  ∃ fuel, ofNode limit fuel n m = some (flow, k)

/-- There is but one ending for which `EndsIn` holds. -/
theorem EndsIn.unique {e : Node} {k k' : Machine} {flow flow' : Flow (Option Value)}
    (h : EndsIn limit e m flow k) (h' : EndsIn limit e m flow' k') : flow = flow' ∧ k = k' := by
  obtain ⟨fuel, h⟩ := h
  obtain ⟨fuel', h'⟩ := h'
  have hmore := ((fuel_congruence limit).node (Nat.le_max_left fuel fuel') e).answer h
  have hmore' := ((fuel_congruence limit).node (Nat.le_max_right fuel fuel') e).answer h'
  cases hmore.symm.trans hmore'
  exact ⟨rfl, rfl⟩

/-- `Eval.loop` keeps its answer if its turns do when there is more fuel. -/
theorem loop_unless {fuel' : Nat} (hle : fuel ≤ fuel') {turns turns' : Eval (Option Value)}
    (hturns : Unless (fun _ => False) turns turns') (init : Option Node) :
    Unless (fun _ => False) (loop (ofNode limit fuel) turns init)
      (loop (ofNode limit fuel') turns' init) :=
  @Congruence.loop _ _ _ (fuel_congruence limit) true _ _ _ _ hturns _ fun n _ =>
    (fuel_congruence limit).node hle n

section Endings

variable {line l : Nat} {lines : Nat → Nat} {target value test : Node} {step : Option Node}
  {b : Block} {flow : Flow (Option Value)} {k : Machine}
  (hvalue : value.IsExpression) (htest : test.IsExpression) (hstep : ∀ s ∈ step, s.IsExpression)

include hvalue htest hstep

/-- Where the loop ends, by `EndsIn`, its `Node.bareForm` does, in the same way. -/
theorem EndsIn.bareForm
    (h : EndsIn limit (.loop line (some (.assign l target value)) test step b) m flow k) :
    ∃ k', EndsIn limit (.bareForm lines (.assign l target value) test step b) m flow k' ∧
      k.Padded 0 0 0 true k' := by
  obtain ⟨_ | fuel, h⟩ := h
  · cases h
  · have hmore := (loop_unless (Nat.le_add_right fuel 2) (turns_unless_shifted fuel) _).answer h
    obtain ⟨k', hk', hpadded⟩ := (bareForm_same htest hstep hvalue).of_left hmore
    exact ⟨k', ⟨fuel + 3, hk'⟩, hpadded⟩

/-- Where `Node.bareForm` ends, by `EndsIn`, the loop does. -/
theorem EndsIn.of_bareForm
    (h : EndsIn limit (.bareForm lines (.assign l target value) test step b) m flow k) :
    ∃ k', EndsIn limit (.loop line (some (.assign l target value)) test step b) m flow k' := by
  obtain ⟨fuel, h⟩ := h
  have hmore := ((fuel_congruence limit).node (Nat.le_add_right fuel 3) _).answer h
  obtain ⟨k', hk', -⟩ := (bareForm_same htest hstep hvalue).of_right hmore
  have hless : fuel < fuel + 2 := Nat.lt_add_of_pos_right Nat.two_pos
  exact ⟨k', fuel + 3, (loop_unless (Nat.le_refl _) (shifted_unless_turns hless) _).answer hk'⟩

theorem EndsIn.endsLoop
    (h : EndsIn limit (.loop line (some (.assign l target value)) test step b) m flow k) :
    flow.EndsLoop := by
  obtain ⟨_ | fuel, h⟩ := h
  · cases h
  · exact loop_endsLoop (optional_stays (assign_stays hvalue))
      (fun _ _ _ => turns_endsLoop htest hstep) h

end Endings

end Eval

/-- The head of a loop that is `Formed` is an assignment of an expression, an expression, and
another one that may be left out. -/
theorem Formed.loop_head {d line : Nat} {p : Place} {init test : Node} {step : Option Node}
    {b : Block} (h : Formed .parsed d p (.loop line (some init) test step b)) :
    (∃ l target value, init = .assign l target value ∧ value.IsExpression) ∧ test.IsExpression ∧
      ∀ s ∈ step, s.IsExpression := by
  cases h.statement with
  | operandStatement h => cases h
  | declaredStatement h => cases h
  | initStatement h =>
    cases h with
    | assignedInit h => cases h
  | loop hinit ho hl hp hleft hq hright hsteps =>
    refine ⟨?_, Formed.isExpression (.infixed ho hl hp hleft hq hright) (.inl rfl), fun s hs =>
      (hsteps s hs).isExpression (.inr (.inr rfl))⟩
    cases hinit with
    | assignedInit h =>
      cases h with
      | assign _ hvalue => exact ⟨_, _, _, rfl, hvalue.isExpression (.inr (.inr rfl))⟩
    | initialized _ _ _ hvalue => exact ⟨_, _, _, rfl, hvalue.isExpression (.inr (.inr rfl))⟩

open Grammar in
/-- A loop with a head is nothing but its `Node.bareForm`. That is what `bareTokens` around the
tokens of the parts are parsed into. Whatever the machine, for a loop that the parser makes, at
any depth, either both end with enough fuel or neither does. They end in the same way, which is
without a value, by a return or by a fault, and on machines that are the same but for the
journal: they have the same diagnostics, the same host and the same scopes. -/
theorem Package.loop_is_bareForm (p : Package) (hp : p.IsParsed) {role : Role} {line : Nat}
    {init test : Node} {step : Option Node} {b : Block}
    (hloop : Occurs p.nodes role (.loop line (some init) test step b)) (lines : Nat → Nat)
    (limit : Nat) (m : Machine) :
    (∀ any is ts us ps, lines 2 = lines 1 → Derives .statement is [init] →
      Derives .expression ts [test] →
      Derives .block us [.block b] → Derives .statements ps step.toList →
      Derives .statement (bareTokens lines any is ts us ps)
        [.bareForm lines init test step b]) ∧
    ((∃ flow k, EndsIn limit (.loop line (some init) test step b) m flow k) ↔
      ∃ flow k, EndsIn limit (.bareForm lines init test step b) m flow k) ∧
    ∀ flow k flow' k', EndsIn limit (.loop line (some init) test step b) m flow k →
      EndsIn limit (.bareForm lines init test step b) m flow' k' →
      flow.EndsLoop ∧ flow' = flow ∧ k' = { k with journal := k'.journal } := by
  obtain ⟨d, hnodes⟩ := hp.formedAll
  obtain ⟨-, -, ⟨⟩⟩ | ⟨d', q, -, hform⟩ := hloop.formed hnodes
  obtain ⟨⟨l, target, value, rfl, hvalue⟩, htest, hstep⟩ := hform.loop_head
  refine ⟨fun any is ts us ps => Derives.bareForm, ?_, ?_⟩
  · constructor
    · rintro ⟨flow, k, hk⟩
      obtain ⟨k', hk', -⟩ := hk.bareForm hvalue htest hstep
      exact ⟨flow, k', hk'⟩
    · rintro ⟨flow, k, hk⟩
      obtain ⟨k', hk'⟩ := hk.of_bareForm hvalue htest hstep
      exact ⟨flow, k', hk'⟩
  · intro flow k flow' k' hk hk'
    -- fuel decides whether an evaluation ends but not how, so the bare form ends as found here
    obtain ⟨n, hn, hpadded⟩ := hk.bareForm hvalue htest hstep
    obtain ⟨rfl, rfl⟩ := hn.unique hk'
    exact ⟨hk.endsLoop hvalue htest hstep, rfl, hpadded.eq_noting⟩

open Grammar in
/-- A loop that counts, and takes a break. Its `Node.bareForm` is parsed from the text that says
so. -/
theorem Package.loop_is_bareForm_counting :
    let source := "loop (var i = 0; i < 9; i = i + 1) \x7b if (i == 2) \x7b break; \x7d \x7d"
    let bare :=
      "\x7b var i = 0; loop \x7b if (i < 9) \x7b if (i == 2) \x7b break; \x7d \x7d " ++
      "else \x7b break; \x7d i = i + 1; \x7d \x7d"
    let p := (Package.parse "main" source {}).1.package
    ∃ init test step b, Occurs p.nodes .statement (.loop 1 (some init) test step b) ∧
      (Package.parse "main" bare {}).1.package.nodes =
        [.bareForm (fun _ => 1) init test step b] ∧
      ∃ k k', EndsIn 200 (.loop 1 (some init) test step b) {} (.done none) k ∧
        EndsIn 200 (.bareForm (fun _ => 1) init test step b) {} (.done none) k' ∧
        k' = { k with journal := k'.journal } := by
  intro source bare p
  let i : Token := ⟨.ident, 1, "i"⟩
  let init : Node :=
    .assign 1 (.declare (.ofKind .kwVar 1) ⟨1, "i"⟩) (.integer ⟨.integer, 1, "0"⟩ 0)
  let test : Node := .infixed (.ofKind .lesser 1) (.ident 1 "i") (.integer ⟨.integer, 1, "9"⟩ 9)
  let step : Node := .assign 1 (.ident 1 "i")
    (.infixed (.ofKind .plus 1) (.ident 1 "i") (.integer ⟨.integer, 1, "1"⟩ 1))
  let b : Block := ⟨1, [.conditional 1
    (.infixed (.ofKind .equalEqual 1) (.ident 1 "i") (.integer ⟨.integer, 1, "2"⟩ 2))
    ⟨1, [.breaking 1]⟩ none]⟩
  -- the parser gives what the grammar derives, so it need not be run
  have hinfixed : ∀ (o : Token) (digits : String) (v : Int64), o.kind.isInfix →
      Text.readInt? digits.toList = some v → Derives .expression [i, o, ⟨.integer, 1, digits⟩]
        [.infixed o (.ident 1 "i") (.integer ⟨.integer, 1, digits⟩ v)] := by
    intro o digits v ho hv
    have hchain := Derives.chain (.name (t := i) rfl)
      (.infixed ho (.integer (t := ⟨.integer, 1, digits⟩) rfl hv) .noTail)
    exact hchain
  have hinit : Derives .statement _ [init] := .initialized (v := .ofKind .kwVar 1) (t := i)
    (e := .ofKind .equal 1) (s := .ofKind .semicolon 1) rfl rfl rfl
    (.chain (.integer (t := ⟨.integer, 1, "0"⟩) (v := 0) rfl (by decide +kernel)) .noTail) rfl
  have htest := hinfixed (.ofKind .lesser 1) "9" 9 rfl (by decide +kernel)
  have hstep : Derives .expression _ [step] :=
    .assign (.name (t := i) rfl) (e := .ofKind .equal 1) rfl
      (hinfixed (.ofKind .plus 1) "1" 1 rfl (by decide +kernel))
  have hbreak := Derives.block (l := .ofKind .leftBrace 1) (r := .ofKind .rightBrace 1) rfl
    (.statements (.breaking (k := .ofKind .kwBreak 1) (s := .ofKind .semicolon 1) rfl rfl)
      .noStatements) rfl
  have hbody : Derives .block _ [.block b] := .block (l := .ofKind .leftBrace 1)
    (r := .ofKind .rightBrace 1) rfl (.statements (.conditional (i := .ofKind .kwIf 1)
      (l := .ofKind .leftParen 1) (r := .ofKind .rightParen 1) rfl rfl
      (hinfixed (.ofKind .equalEqual 1) "2" 2 rfl (by decide +kernel)) rfl hbreak)
        .noStatements) rfl
  have hparse {source : String} {ts : List Token} {n : Node} (hn : Derives .statement ts [n])
      (hts : ts ++ [] = (Cursor.start source).tokens.1) :
      (parse "main" source {}).1.package.nodes = [n] := by
    have hprogram := hts ▸ Derives.statements hn .noStatements
    rw [parse_of_derives hprogram]
    rfl
  have hnodes : p.nodes = [.loop 1 (some init) test (some step) b] :=
    hparse (.loopStep (k := .ofKind .kwLoop 1) (l := .ofKind .leftParen 1)
      (s := .ofKind .semicolon 1) (r := .ofKind .rightParen 1) rfl rfl hinit rfl htest rfl rfl
        hstep rfl hbody) (by decide +kernel)
  have hoccurs : Occurs p.nodes .statement (.loop 1 (some init) test (some step) b) := by
    rw [hnodes]
    exact .statement (List.mem_singleton_self _)
  obtain ⟨hform, hends, hsame⟩ := loop_is_bareForm p ⟨_, _, _, rfl⟩ hoccurs (fun _ => 1) 200 {}
  have hbare := hform 1 _ _ _ _ rfl hinit htest hbody
    (.statements (.expressionStatement (s := .ofKind .semicolon 1) hstep rfl) .noStatements)
  -- only the loop is run; that its bare form ends follows
  obtain ⟨k, hk⟩ : ∃ k, EndsIn 200 (.loop 1 (some init) test (some step) b) {} (.done none) k :=
    ⟨_, 20, rfl⟩
  obtain ⟨flow, k', hk'⟩ := hends.mp ⟨_, k, hk⟩
  obtain ⟨-, rfl, hmachine⟩ := hsame _ k _ k' hk hk'
  exact ⟨init, test, some step, b, hoccurs, hparse hbare (by decide +kernel), k, k', hk,
    hk', hmachine⟩

end ScriptLang
