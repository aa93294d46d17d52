import ScriptLang.Proofs.Guarantee
import ScriptLang.Proofs.Roles

/-!
# What the evaluation of parsed programs reports

As long as all packages come from the parser, evaluation never meets a tree that the parser does
not give: the functions that are called are stored with bodies from the parser, and builtins
give no functions. So there is nothing to report but what the language leaves to run time, and a
return or a break gets as far as the grammar lets it, through blocks and conditionals, and a
return through loops.

- `Machine.Sound`: a machine that has met nothing but formed trees.
- `Eval.Respects`: an evaluation that leaves a sound machine sound, with sound results, and
  returns or breaks only under given conditions.
- `Eval.respects_guarantee`: a guarantee that the values are sound; blocks, loops and calls have
  rules of their own here.
- `Eval.ofNode_respects`: the evaluation of formed trees.
- `Session.Sound`, `Session.sound_of_leads`: sessions that have met nothing but packages from
  the parser.
- `Session.parsed_wellFormed`: the trees of a package, and what evaluating it reports.
-/

namespace ScriptLang

/-! ## Sound machines -/

/-- Trees that are `Formed` as statements, inside of some number of blocks. -/
def FormedAll (ns : List Node) : Prop := ∃ d, ∀ n ∈ ns, Formed .parsed d .statement n

/-- A tree that is `Formed` at a place where no statement stands. -/
def FormedExpression (n : Node) : Prop := ∃ d p, p ≠ .statement ∧ Formed .parsed d p n

/-- A value whose body, if it has one, is `FormedAll`. -/
def Value.Sound : Value → Prop
  | .function f => FormedAll f.body.nodes
  | _ => True

/-- A result that is `Value.Sound`, if there is one. -/
def SoundResult (result : Option Value) : Prop := ∀ v ∈ result, v.Sound

theorem soundResult_none : SoundResult none := gives_none

theorem soundResult_some {v : Value} (h : v.Sound) : SoundResult (some v) := gives_some h

/-- The values of a scope are `Value.Sound`. -/
def Scope.Sound (s : Scope) : Prop := ∀ e ∈ s, e.2.Sound

/-- The values of all scopes are `Value.Sound`. -/
def Scopes.Sound (s : Scopes) : Prop := ∀ scope ∈ s.current :: s.enclosing, scope.Sound

/-- A machine whose values are sound and which has reported nothing but what is
`Cause.IsRuntime`. -/
structure Machine.Sound (m : Machine) : Prop where
  scopes : m.scopes.Sound
  errors : ∀ d ∈ m.errors, d.cause.IsRuntime

/-- A report of a cause that is `Cause.IsRuntime` leaves the machine sound. -/
theorem Machine.Sound.report {m : Machine} (h : m.Sound) {d : Diagnostic}
    (hd : d.cause.IsRuntime) : (m.report d).Sound := by
  refine ⟨h.scopes, fun d' hd' => ?_⟩
  rcases List.mem_append.mp hd' with hd' | hd'
  · exact h.errors d' hd'
  · rw [List.mem_singleton.mp hd']
    exact hd

/-! ## Sound evaluation -/

/-- Ways to end with a result of which `V` holds, to return if `returns`, and to break if
`breaks`. -/
def Flow.Ends {α : Type} (V : α → Prop) (returns breaks : Prop) : Flow α → Prop
  | .done a => V a
  | .returned v => returns ∧ SoundResult v
  | .broke => breaks
  | .faulted => True

/-- `returns` and `breaks` may be widened. -/
theorem Flow.Ends.imp {α : Type} {V : α → Prop} {returns breaks returns' breaks' : Prop}
    {flow : Flow α} (h : flow.Ends V returns breaks) (hr : returns → returns')
    (hb : breaks → breaks') : flow.Ends V returns' breaks' := by
  cases flow with
  | done a => exact h
  | returned v => exact ⟨hr h.1, h.2⟩
  | broke => exact hb h
  | faulted => trivial

namespace Eval

variable {α β : Type} {V : α → Prop} {W : β → Prop} {returns : Prop} {breaks : Nat → Prop}
  {m : Machine}

/-- On a machine that is `Machine.Sound`, the evaluation leaves a sound machine, and its ending
is one that `Flow.Ends` allows. Whether it may break depends on the loops that run then. -/
def RespectsAt (V : α → Prop) (returns : Prop) (breaks : Nat → Prop) (e : Eval α)
    (m : Machine) : Prop :=
  m.Sound → ∀ flow n, e m = some (flow, n) → n.Sound ∧ flow.Ends V returns (breaks n.loopDepth)

/-- `RespectsAt` every machine. -/
def Respects (V : α → Prop) (returns : Prop) (breaks : Nat → Prop) (e : Eval α) : Prop :=
  ∀ m, RespectsAt V returns breaks e m

theorem Respects.imp {e : Eval α} {returns' : Prop} {breaks' : Nat → Prop}
    (he : Respects V returns breaks e) (hr : returns → returns')
    (hb : ∀ k, breaks k → breaks' k) : Respects V returns' breaks' e := by
  intro m hm flow n hn
  obtain ⟨hsound, hends⟩ := he m hm flow n hn
  exact ⟨hsound, hends.imp hr (hb _)⟩

section Rules

theorem outOfFuel_respects : Respects V returns breaks (outOfFuel : Eval α) := by
  rintro m - flow n ⟨⟩

theorem pure_respects {a : α} (ha : V a) : Respects V returns breaks (pure a) := by
  rintro m hm _ _ ⟨⟩
  exact ⟨hm, ha⟩

theorem faulted_respects : Respects V returns breaks (raise .faulted : Eval α) := by
  rintro m hm _ _ ⟨⟩
  exact ⟨hm, trivial⟩

theorem returned_respects {v : Option Value} (hr : returns) (hv : SoundResult v) :
    Respects V returns breaks (raise (.returned v) : Eval α) := by
  rintro m hm _ _ ⟨⟩
  exact ⟨hm, hr, hv⟩

/-- A `break` is raised only where loops are counted. -/
theorem broke_respectsAt (hb : breaks m.loopDepth) :
    RespectsAt V returns breaks (raise .broke : Eval α) m := by
  rintro hm _ _ ⟨⟩
  exact ⟨hm, hb⟩

theorem fault_respects (line : Nat) {cause : Cause} (hc : cause.IsRuntime) :
    Respects V returns breaks (fault line cause : Eval α) := by
  rintro m hm _ _ ⟨⟩
  exact ⟨hm.report hc, trivial⟩

/-- `>>=` respects what both parts do. -/
theorem bind_respectsAt {e : Eval α} {f : α → Eval β} (he : RespectsAt V returns breaks e m)
    (hf : ∀ a n, V a → RespectsAt W returns breaks (f a) n) :
    RespectsAt W returns breaks (e >>= f) m := by
  intro hm flow k hk
  have hk : Eval.bind e f m = some (flow, k) := hk
  rw [Eval.bind] at hk
  rcases hn : e m with _ | ⟨ending, n⟩ <;> rw [hn] at hk
  · cases hk
  · obtain ⟨hsound, hends⟩ := he hm ending n hn
    cases ending with
    | done a => exact hf a n hends hsound flow k hk
    | returned v =>
      cases hk
      exact ⟨hsound, hends⟩
    | broke =>
      cases hk
      exact ⟨hsound, hends⟩
    | faulted =>
      cases hk
      exact ⟨hsound, hends⟩

theorem bind_respects {e : Eval α} {f : α → Eval β} (he : Respects V returns breaks e)
    (hf : ∀ a, V a → Respects W returns breaks (f a)) : Respects W returns breaks (e >>= f) :=
  fun m => bind_respectsAt (he m) fun a n ha => hf a ha n

theorem machine_bind_respectsAt {f : Machine → Eval α}
    (hf : m.Sound → RespectsAt V returns breaks (f m) m) :
    RespectsAt V returns breaks (machine >>= f) m := fun hm => hf hm hm

theorem change_respects {f : Machine → Machine} (hf : ∀ m : Machine, m.Sound → (f m).Sound) :
    Respects (fun _ => True) returns breaks (change f) := by
  rintro m hm _ _ ⟨⟩
  exact ⟨hf m hm, trivial⟩

/-- An ending that is seen by `Eval.observe` is one that the evaluation may have. -/
theorem observe_respects {e : Eval α} {returns' : Prop} {breaks' : Nat → Prop}
    (he : Respects V returns' breaks' e) :
    Respects (Flow.Ends V returns' (∃ k, breaks' k)) returns breaks (observe e) := by
  intro m hm flow n hn
  rw [observe] at hn
  rcases he' : e m with _ | ⟨ending, k⟩ <;> rw [he'] at hn
  · cases hn
  · cases hn
    obtain ⟨hsound, hends⟩ := he m hm ending n he'
    exact ⟨hsound, hends.imp id fun hb => ⟨_, hb⟩⟩

/-- `Eval.inScope` leaves the loops that are counted alone. -/
theorem inScope_respects {e : Eval α} {b : Prop} (he : Respects V returns (fun _ => b) e) :
    Respects V returns (fun _ => b) (inScope e) := by
  have hopen : Respects (fun _ => True) returns (fun _ => b) nest :=
    change_respects fun _ hm => ⟨Scopes.Stores.nest hm.scopes, hm.errors⟩
  have hclose : Respects (fun _ => True) returns (fun _ => b) unnest := by
    refine change_respects fun k hk => ?_
    obtain ⟨journal, hclosed⟩ := k.closed_eq
    rw [hclosed]
    exact ⟨Scopes.Stores.unnest hk.scopes, hk.errors⟩
  refine bind_respects hopen fun _ _ => bind_respects (observe_respects he) fun flow hflow => ?_
  refine bind_respects hclose fun _ _ => ?_
  rintro m hm _ _ ⟨⟩
  exact ⟨hm, hflow.imp id fun ⟨_, hb⟩ => hb⟩

theorem bindName_respects (x : String) {v : Value} (hv : v.Sound) :
    Respects (fun _ => True) returns breaks (bindName x v) :=
  change_respects fun _ hm => ⟨Scopes.Stores.insert hm.scopes hv, hm.errors⟩

/-- What scopes store is sound, and so is what `Eval.lookup` finds. -/
theorem lookup_respects (line : Nat) {x : String} (hx : (Cause.identNotFound x).IsRuntime) :
    Respects Value.Sound returns breaks (lookup line x) := by
  refine fun m => machine_bind_respectsAt fun hm => ?_
  cases hget : m.scopes.get? x with
  | some v => exact pure_respects (Scopes.Stores.get? hm.scopes hget) m
  | none =>
    cases Builtin.ofName? x with
    | some builtin => exact pure_respects trivial m
    | none => exact fault_respects line hx m

theorem reassign_respects (x : String) {v : Value} {missing : Eval Unit} (hv : v.Sound)
    (hmissing : Respects (fun _ => True) returns breaks missing) :
    Respects (fun _ => True) returns breaks (reassign x v missing) := by
  refine fun m => machine_bind_respectsAt fun hm => ?_
  cases hx : m.scopes.assign? x v with
  | some scopes =>
    rintro - _ _ ⟨⟩
    exact ⟨⟨Scopes.Stores.assign? hm.scopes hv hx, hm.errors⟩, trivial⟩
  | none => exact hmissing m

/-- `Respects` is a `Guarantee` that all values are `Value.Sound`, since nothing but a
declaration makes a function. -/
theorem respects_guarantee {returns : Prop} {breaks : Nat → Prop} :
    Guarantee Value.Sound Cause.IsRuntime fun _ V e => Respects V returns breaks e where
  data {v} hv := by
    cases v with
    | function => exact hv.elim
    | _ => trivial
  runtime := id
  pure := pure_respects
  fault := fault_respects
  bind := bind_respects
  machine hf m := hf m m
  note _ := change_respects fun _ hm => ⟨hm.scopes, hm.errors⟩
  acted _ _ := change_respects fun _ hm => ⟨hm.scopes, hm.errors⟩
  lookup := lookup_respects
  reassign := reassign_respects
  bindName x _ hv := bindName_respects x hv

/-! ### The rules -/

variable {run : Evaluator} {n : Node}

/-- `Eval.block` breaks only inside of a loop, whatever is in it. -/
theorem block_respects {b : Block}
    (hb : ∀ n ∈ b.nodes, Respects SoundResult True (fun _ => True) (run n)) :
    Respects SoundResult True (0 < ·) (block run b) := by
  have hbody :
      Respects SoundResult True (fun _ => True) (inScope (sequence run none b.nodes)) :=
    inScope_respects (respects_guarantee.sequence hb soundResult_none)
  refine bind_respects (observe_respects hbody) fun flow hflow => ?_
  cases flow with
  | done a => exact pure_respects hflow
  | returned v => exact returned_respects trivial hflow.2
  | faulted => exact faulted_respects
  | broke =>
    -- without a loop the break ends here, so one that goes on has a loop around it
    refine fun k => machine_bind_respectsAt fun _ => ?_
    by_cases hloops : k.loopDepth = 0
    · rw [if_pos hloops]
      exact pure_respects soundResult_none k
    · rw [if_neg hloops]
      exact broke_respectsAt (Nat.pos_of_ne_zero hloops)

/-- The body of a loop may break, `Eval.loop` as a whole does not. -/
theorem loop_respects {turns : Eval (Option Value)} {init : Option Node}
    (hturns : Respects SoundResult True (fun _ => False) turns)
    (hinit : ∀ n ∈ init, Respects SoundResult True (fun _ => False) (run n)) :
    Respects SoundResult True (fun _ => False) (loop run turns init) := by
  have hcount : ∀ f : Machine → Nat,
      Respects (fun _ => True) True (fun _ => False) (change fun m =>
        { m with loopDepth := f m }) :=
    fun f => change_respects fun _ hm => ⟨hm.scopes, hm.errors⟩
  have hbody :
      Respects SoundResult True (fun _ => False) (inScope do optional run init; turns) :=
    inScope_respects (bind_respects (respects_guarantee.optional hinit) fun _ _ => hturns)
  refine bind_respects (hcount _) fun _ _ => ?_
  refine bind_respects (observe_respects hbody) fun flow hflow =>
    bind_respects (hcount _) fun _ _ => ?_
  cases flow with
  | done a => exact pure_respects hflow
  | returned v => exact returned_respects trivial hflow.2
  | broke =>
    -- the turns have taken every break
    obtain ⟨_, hfalse⟩ := hflow
    exact hfalse.elim
  | faulted => exact faulted_respects

/-- `Eval.callFunction` neither returns nor breaks, whatever its function does. -/
theorem callFunction_respects (limit line : Nat) {f : Function} {args : List Node}
    (hbody : Respects SoundResult True (0 < ·) (block run f.body))
    (hargs : ∀ n ∈ args, Respects SoundResult returns breaks (run n)) :
    Respects SoundResult returns breaks (callFunction run limit line f args) := by
  have hcounts : ∀ f g : Machine → Nat, Respects (fun _ => True) returns breaks
      (change fun m => { m with loopDepth := f m, callDepth := g m }) :=
    fun _ _ => change_respects fun _ hm => ⟨hm.scopes, hm.errors⟩
  rw [callFunction]
  by_cases hlength : f.params.length ≠ args.length
  · rw [if_pos hlength]
    exact fault_respects _ trivial
  · rw [if_neg hlength]
    refine fun m => machine_bind_respectsAt fun _ => ?_
    by_cases hlimit : limit ≤ m.callDepth
    · rw [if_pos hlimit]
      have hexceeded : (Cause.callDepthExceeded limit).IsRuntime := trivial
      exact fault_respects line hexceeded m
    · rw [if_neg hlimit]
      refine bind_respectsAt (respects_guarantee.arguments hargs m) fun vs n hvs => ?_
      refine bind_respectsAt (respects_guarantee.note _ n) fun _ k _ =>
        machine_bind_respectsAt fun _ => ?_
      -- the body may end in any way: what it returns is
      -- the value of the call, and a break gives none
      have hcalled : Respects SoundResult True (fun _ => True)
          (inScope do bindAll f.params vs; block run f.body) := by
        refine inScope_respects
          (bind_respects (respects_guarantee.bindAll f.params hvs) fun _ _ => ?_)
        exact hbody.imp id fun _ _ => trivial
      refine bind_respects (hcounts _ _) (fun _ _ => ?_) k
      refine bind_respects (observe_respects hcalled) fun flow hflow => ?_
      refine bind_respects (hcounts _ _) fun _ _ => ?_
      cases flow with
      | done v => exact pure_respects hflow
      | returned v => exact pure_respects hflow.2
      | broke => exact pure_respects soundResult_none
      | faulted => exact faulted_respects

end Rules
end Eval

/-! ## Formed trees -/

/-- The nodes whose evaluation may end by a return. -/
def Node.Returns : Node → Prop
  | returning .. | block _ | conditional .. | loop .. => True
  | _ => False

/-- The nodes whose evaluation may end by a break, with `loops` of them around. -/
def Node.Breaks : Node → Nat → Prop
  | breaking _, _ => True
  | block _, loops | conditional .., loops => 0 < loops
  | _, _ => False

/-- Nothing that is `Formed` at another place than that of a statement returns or breaks. -/
theorem Formed.settled {r : Rigor} {d : Nat} {p : Place} {n : Node} (h : Formed r d p n)
    (hp : p ≠ .statement) : ¬n.Returns ∧ ∀ loops, ¬n.Breaks loops := by
  induction h with
  | operandValue _ ih | assignedValue _ ih | assignedInit _ ih => exact ih nofun
  | operandStatement | declaredStatement | initStatement | block | conditional | bareLoop | loop
  | function | returning | breaking => exact absurd rfl hp
  | _ => exact ⟨id, fun _ => id⟩

/-- What is `Formed` at any place but that of a statement is a `FormedExpression`. -/
theorem Formed.expression {d : Nat} {p : Place} {n : Node} (h : Formed .parsed d p n)
    (hp : p ≠ .statement) : FormedExpression n := ⟨d, p, hp, h⟩

theorem Formed.operand {d : Nat} {p : Place} {n : Node} (h : Formed .parsed d p n)
    (hp : Rigor.parsed.Allows p) : FormedExpression n := by
  refine h.expression ?_
  obtain rfl | ⟨rfl, -⟩ := hp <;> exact nofun

namespace Eval

section Step

variable {run : Evaluator} {n : Node}

/-- An evaluator that `Respects` soundness on trees that are `Formed`. -/
def SoundOn (run : Evaluator) : Prop :=
  ∀ d p n, Formed .parsed d p n → Respects SoundResult n.Returns n.Breaks (run n)

variable (hrun : SoundOn run)

include hrun

/-- A `FormedExpression` neither returns nor breaks. -/
theorem expression_respects (hn : FormedExpression n) {returns : Prop} {breaks : Nat → Prop} :
    Respects SoundResult returns breaks (run n) := by
  obtain ⟨d, p, hp, hn⟩ := hn
  obtain ⟨hr, hb⟩ := hn.settled hp
  exact (hrun d p n hn).imp (fun h => absurd h hr) fun k h => absurd h (hb k)

/-- A block of statements that are `FormedAll` breaks only inside of a loop. -/
theorem formedBlock_respects {b : Block} (hb : FormedAll b.nodes) :
    Respects SoundResult True (0 < ·) (block run b) := by
  obtain ⟨d, hb⟩ := hb
  exact block_respects fun n hn =>
    (hrun d .statement n (hb n hn)).imp (fun _ => trivial) fun _ _ => trivial

end Step

/-- `Eval.turns` of a loop that is formed `Respects` soundness, and takes every break. -/
def TurnsSound (limit fuel : Nat) : Prop :=
  ∀ test step body, FormedExpression test → (∀ n ∈ step, FormedExpression n) →
    FormedAll body.nodes →
    Respects SoundResult True (fun _ => False) (turns limit fuel test step body)

section Step

variable {limit fuel : Nat} (hrun : SoundOn (ofNode limit fuel))
  (hturns : TurnsSound limit fuel)

include hrun hturns

/-- `TurnsSound`, one unit of fuel up. -/
theorem turns_respect_step : TurnsSound limit (fuel + 1) := by
  intro test step body ht hs hb
  refine bind_respects (respects_guarantee.condition (expression_respects hrun ht)) fun go _ =>
    ?_
  cases go with
  | false => exact pure_respects soundResult_none
  | true =>
    refine bind_respects (observe_respects (formedBlock_respects hrun hb)) fun flow hflow => ?_
    cases flow with
    | done =>
      refine bind_respects (respects_guarantee.optional fun n hn => ?_) fun _ _ =>
        hturns test step body ht hs hb
      exact expression_respects hrun (hs n hn)
    | returned v => exact returned_respects trivial hflow.2
    | broke => exact pure_respects soundResult_none
    | faulted => exact faulted_respects

/-- `SoundOn`, one unit of fuel up: one case for each form of tree. -/
theorem ofNode_respects_step : SoundOn (ofNode limit (fuel + 1)) := by
  intro d p n hn
  -- parts are evaluated by `hrun`; the induction is for rules that take a tree to another place
  induction hn with
  | integer | string | boolean => exact pure_respects (soundResult_some trivial)
  | ident hx =>
    exact bind_respects (lookup_respects _ hx) fun v hv => pure_respects (soundResult_some hv)
  | call hx hargs =>
    have hargs := fun n hn => (hargs n hn).expression nofun
    refine respects_guarantee.call limit _ _ hx hx (fun f hf => ?_) fun n hn => ?_
    · exact callFunction_respects limit _ (formedBlock_respects hrun hf) fun n hn =>
        expression_respects hrun (hargs n hn)
    · exact expression_respects hrun (hargs n hn)
  | prefixed _ _ hp hn =>
    exact respects_guarantee.prefixed _ (expression_respects hrun (hn.operand hp))
  | infixed _ _ hp hl hq hr =>
    exact respects_guarantee.infixed _ (expression_respects hrun (hl.operand hp))
      (expression_respects hrun (hr.operand hq))
  | chain _ _ _ hl hq hr =>
    exact respects_guarantee.infixed _ (expression_respects hrun (hl.expression nofun))
      (expression_respects hrun (hr.operand hq))
  | assign hx hv =>
    exact respects_guarantee.assign (respects_guarantee.assignee_ident _ hx)
      (expression_respects hrun (hv.expression nofun))
  | initialized _ _ _ hv =>
    exact respects_guarantee.assign (respects_guarantee.assignee_declare _ _)
      (expression_respects hrun (hv.expression nofun))
  | declare =>
    exact bind_respects (bindName_respects _ trivial) fun _ _ => pure_respects soundResult_none
  | operandValue _ ih | assignedValue _ ih | assignedInit _ ih | operandStatement _ ih
  | declaredStatement _ ih | initStatement _ ih => exact ih
  | block hb => exact formedBlock_respects hrun ⟨_, hb⟩
  | conditional ht hb hc =>
    refine respects_guarantee.conditional (expression_respects hrun (ht.expression nofun)) ?_
      fun e he => ?_
    · exact formedBlock_respects hrun ⟨_, hb⟩
    · exact formedBlock_respects hrun ⟨_, hc e he⟩
  | @bareLoop d line l b hb =>
    have htest : Formed .parsed d .value (.boolean l true) := .operandValue .boolean
    exact loop_respects (hturns _ _ _ (htest.expression nofun) nofun ⟨_, hb⟩) nofun
  | @loop d line o init left right step b p q hi ho hl hp hleft hq hright hs hb =>
    have htest : Formed .parsed d .value (.infixed o left right) :=
      .operandValue (.infixed ho hl hp hleft hq hright)
    have hstep : ∀ n ∈ step, FormedExpression n := fun n hn => (hs n hn).expression nofun
    refine loop_respects (hturns _ step b (htest.expression nofun) hstep ⟨_, hb⟩) ?_
    rintro n ⟨⟩
    exact expression_respects hrun (hi.expression nofun)
  | function _ _ hb => exact respects_guarantee.function ⟨_, hb⟩
  | returning hv =>
    refine bind_respects (expression_respects hrun (hv.expression nofun)) fun v hv => ?_
    exact returned_respects trivial hv
  | breaking => exact fun m => broke_respectsAt trivial

end Step

/-- By induction on the fuel, which nodes and turns share. -/
theorem both_respect (limit fuel : Nat) :
    SoundOn (ofNode limit fuel) ∧ TurnsSound limit fuel := by
  induction fuel with
  | zero => exact ⟨fun _ _ _ _ => outOfFuel_respects, fun _ _ _ _ _ _ => outOfFuel_respects⟩
  | succ fuel ih => exact ⟨ofNode_respects_step ih.1 ih.2, turns_respect_step ih.1 ih.2⟩

/-- On a sound machine, `Eval.ofNode` of a tree that is `Formed` leaves a sound machine and
gives a sound result. It returns and breaks no more than `Node.Returns` and `Node.Breaks`
allow. -/
theorem ofNode_respects (limit fuel : Nat) : SoundOn (ofNode limit fuel) :=
  (both_respect limit fuel).1

/-- So does `Eval.turns`, which takes every break. -/
theorem turns_respects (limit fuel : Nat) : TurnsSound limit fuel := (both_respect limit fuel).2

end Eval

/-! ## Sessions -/

/-- `evaluateNodes` of statements that are `FormedAll` leaves a sound machine. -/
theorem sound_evaluateNodes {limit fuel : Nat} {package : String} {last value : Option Value}
    {ns : List Node} (hns : FormedAll ns) {m n : Machine} (hm : m.Sound)
    (hn : evaluateNodes limit fuel package last ns m = some (value, n)) : n.Sound := by
  obtain ⟨d, hns⟩ := hns
  induction ns generalizing last m with
  | nil =>
    cases hn
    exact hm
  | cons node ns ih =>
    obtain ⟨hnode, hns⟩ := List.forall_mem_cons.mp hns
    rw [evaluateNodes] at hn
    rcases he : Eval.ofNode limit fuel node (m.note (.evaluating package node.line)) with
      _ | ⟨flow, k⟩ <;> rw [he] at hn
    · cases hn
    · have hnoted : (m.note (.evaluating package node.line)).Sound := ⟨hm.scopes, hm.errors⟩
      have hk := (Eval.ofNode_respects limit fuel d _ node hnode _ hnoted flow k he).1
      have hreset : Machine.Sound { k with loopDepth := 0, callDepth := 0 } :=
        ⟨hk.scopes, hk.errors⟩
      exact ih hreset hn hns

/-- A package that `Package.parse` gives for some source, with or without mistakes. -/
def Package.IsParsed (p : Package) : Prop :=
  ∃ name source journal, p = (Package.parse name source journal).1.package

theorem Package.IsParsed.formedAll {p : Package} (h : p.IsParsed) : FormedAll p.nodes := by
  obtain ⟨name, source, journal, rfl⟩ := h
  exact ⟨0, Package.formed_parse name source journal⟩

namespace Session

/-- `Session.evaluate` of a package that is `Package.IsParsed` leaves the machine sound, and
reports nothing but what is `Cause.IsRuntime`. -/
theorem sound_evaluate {s t : Session} {fuel : Nat} {p : Package} {e : Evaluation}
    (hp : p.IsParsed) (hs : s.machine.Sound) (he : s.evaluate fuel p = some (e, t)) :
    t.machine.Sound ∧ ∀ d ∈ e.errors, d.cause.IsRuntime := by
  rw [evaluate, Package.evaluate] at he
  rcases hn : evaluateNodes s.config.maxCallDepth fuel p.name none p.nodes s.machine with
    _ | ⟨value, m⟩ <;> rw [hn] at he
  · cases he
  · cases he
    have hm := sound_evaluateNodes hp.formedAll hs hn
    exact ⟨⟨hm.scopes, List.forall_mem_nil _⟩, hm.errors⟩

theorem sound_fresh (config : Config) (host : Host) : (fresh config host).machine.Sound := by
  refine ⟨?_, nofun⟩
  intro scope hscope
  rw [List.mem_singleton.mp hscope]
  exact nofun

/-- A session that has met nothing but packages that are `Package.IsParsed` is
`Machine.Sound`. -/
theorem sound_of_leads {config : Config} {host : Host} {s : Session}
    (h : Leads Package.IsParsed (fresh config host) s) : s.machine.Sound := by
  refine h.preserves (I := fun s => s.machine.Sound) ?_ ?_ ?_ (sound_fresh config host)
  · exact fun name source journal => ⟨name, source, journal, rfl⟩
  · exact fun s source hs => ⟨hs.scopes, hs.errors⟩
  · exact fun s fuel p e t hp hs he => (sound_evaluate hp hs he).1

/-- Every node that `Occurs` in a package, at any depth, `Node.Fits` its role, even if the
source has mistakes. As long as a session meets nothing but packages that are
`Package.IsParsed`, evaluating one of them reports no cause but those that are
`Cause.IsRuntime`. -/
theorem parsed_wellFormed :
    (∀ name source journal role n,
      Occurs (Package.parse name source journal).1.package.nodes role n → n.Fits role) ∧
    ∀ config host s, Leads Package.IsParsed (fresh config host) s →
      ∀ p, p.IsParsed → ∀ fuel e t, s.evaluate fuel p = some (e, t) →
        ∀ d ∈ e.errors, d.cause.IsRuntime := by
  constructor
  · intro name source journal role n hn
    exact hn.fits (Package.formed_parse name source journal)
  · intro config host s hs p hp fuel e t he
    exact (sound_evaluate hp (sound_of_leads hs) he).2

/-- A block survives next to a statement with a mistake, and the call in it has no function. -/
theorem parsed_wellFormed_block :
    let parsed := (Package.parse "main" "\x7b 1 = 2; f(); \x7d" {}).1
    parsed.errors ≠ [] ∧
      (∃ role n, Occurs parsed.package.nodes role n ∧ n.Fits role) ∧
      ∃ s, Leads Package.IsParsed (fresh {} {}) s ∧
        ∃ e t, s.evaluate 9 parsed.package = some (e, t) ∧ e.errors ≠ [] ∧
          ∀ d ∈ e.errors, d.cause.IsRuntime := by
  intro parsed
  have hnode : ∃ n, n ∈ parsed.package.nodes := by
    refine List.exists_mem_of_ne_nil _ fun h => ?_
    have hsome : parsed.package.nodes.isEmpty = false := by decide +kernel
    rw [h] at hsome
    cases hsome
  obtain ⟨n, hn⟩ := hnode
  have hevaluated : (((fresh {} {}).evaluate 9 parsed.package).map fun r =>
      r.1.errors.isEmpty) = some false := by decide +kernel
  obtain ⟨⟨e, t⟩, he, hreported⟩ := Option.map_eq_some_iff.mp hevaluated
  refine ⟨by decide +kernel, ⟨.statement, n, .statement hn, ?_⟩, fresh {} {}, .refl, e, t, he,
    ?_, ?_⟩
  · exact parsed_wellFormed.1 _ _ _ _ n (.statement hn)
  · intro hnil
    rw [hnil] at hreported
    cases hreported
  · exact parsed_wellFormed.2 {} {} _ .refl parsed.package ⟨_, _, _, rfl⟩ 9 e t he

end Session
end ScriptLang
