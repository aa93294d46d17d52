import ScriptLang.Proofs.Confinement

/-!
# One diagnostic for each fault

A fault is reported where it arises, and what it passes on its way out reports nothing more:
blocks, loops, arguments and calls hand it on as it is, and put back the counts that they have
changed. So an evaluation adds exactly one diagnostic if it faults and none otherwise, and at
the top level the diagnostics of a package are those of its abandoned nodes, in order. Behind
every node the counts are what they were, and setting them back to zero between nodes does
nothing.

- `Flow.Reports`: what an evaluation may report, by how it ends.
- `Eval.ofNode_reports`: what the evaluation of a node reports.
- `Passes`: nodes evaluated in a row, with nothing done in between.
- `evaluateNodes_iff`: the evaluation of a package is such a row.
- `Machine.AtRest`, `Session.atRest_of_leads`: what a session is between runs.
- `Session.faults_accounted`: the diagnostics of nodes and of packages.
-/

namespace ScriptLang

/-! ## Nodes -/

/-- The diagnostics that are reported by an evaluation that ends in the given way: one if it is
`faulted`, and none otherwise. -/
def Flow.Reports {α : Type} : Flow α → List Diagnostic → Prop
  | .faulted, ds => ∃ d, ds = [d]
  | _, ds => ds = []

/-- `errors` is the same on both machines. -/
def Machine.SameErrors (m n : Machine) : Prop := n.errors = m.errors

/-- `errors` is longer by one on the second machine. -/
def Machine.OneMore (m n : Machine) : Prop := ∃ d, n.errors = m.errors ++ [d]

theorem Machine.SameErrors.oneMore {a b c : Machine} (h : a.SameErrors b) (h' : b.OneMore c) :
    a.OneMore c := by
  obtain ⟨d, hd⟩ := h'
  exact ⟨d, hd.trans (congrArg (· ++ [d]) h)⟩

theorem Machine.OneMore.sameErrors {a b c : Machine} (h : a.OneMore b) (h' : b.SameErrors c) :
    a.OneMore c := by
  obtain ⟨d, hd⟩ := h
  exact ⟨d, Eq.trans h' hd⟩

/-- `SameErrors` and `OneMore` are `Stable`: only a fault reports anything, and it does so
once. -/
theorem stable_oneMore : Stable Machine.SameErrors Machine.OneMore where
  refl _ := rfl
  trans h h' := Eq.trans h' h
  beforeFault := Machine.SameErrors.oneMore
  behindFault := Machine.OneMore.sameErrors
  noted _ _ := rfl
  reported _ d := ⟨d, rfl⟩
  assigned _ := rfl
  acted _ _ _ := rfl
  scope _ _ := ⟨id, id⟩
  loop _ _ := ⟨id, id⟩
  call _ _ := ⟨id, id⟩

theorem binds_sameErrors : Binds Machine.SameErrors := fun _ _ _ => rfl

theorem Flow.Moves.reports {α : Type} {flow : Flow α} {m n : Machine}
    (h : flow.Moves Machine.SameErrors Machine.OneMore m n) :
    ∃ ds, flow.Reports ds ∧ n.errors = m.errors ++ ds := by
  cases flow with
  | faulted =>
    obtain ⟨d, hd⟩ := h
    exact ⟨[d], ⟨d, rfl⟩, hd⟩
  | done | returned | broke => exact ⟨[], rfl, Eq.trans h (List.append_nil _).symm⟩

namespace Eval

variable {limit fuel : Nat} {n : Node} {m k : Machine} {flow : Flow (Option Value)}

/-- `Eval.ofNode` leaves the `SameCounts`. -/
theorem ofNode_sameCounts (h : ofNode limit fuel n m = some (flow, k)) : m.SameCounts k :=
  Flow.moves_self.mp (ofNode_keeps stable_sameCounts binds_sameCounts limit fuel n m flow k h)

/-- `Eval.ofNode` adds to `errors` what its ending `Reports`. -/
theorem ofNode_reports (h : ofNode limit fuel n m = some (flow, k)) :
    ∃ ds, flow.Reports ds ∧ k.errors = m.errors ++ ds :=
  (ofNode_keeps stable_oneMore binds_sameErrors limit fuel n m flow k h).reports

end Eval

/-! ## Packages -/

/-- `Eval.ofNode` of nodes in a row, each on the machine that the one before it has left,
however that one has ended, with the endings and the diagnostics that were reported
meanwhile. -/
inductive Passes (limit fuel : Nat) (package : String) :
    Machine → List Node → List (Flow (Option Value) × List Diagnostic) → Machine → Prop
  | nil {m : Machine} : Passes limit fuel package m [] [] m
  | cons {m k n : Machine} {node : Node} {nodes : List Node} {flow : Flow (Option Value)}
      {ds : List Diagnostic} {ends : List (Flow (Option Value) × List Diagnostic)} :
      Eval.ofNode limit fuel node (m.note (.evaluating package node.line)) = some (flow, k) →
      k.errors = m.errors ++ ds → Passes limit fuel package k nodes ends n →
      Passes limit fuel package m (node :: nodes) ((flow, ds) :: ends) n

/-- The outcome of the last one of several endings, or the given one if there is none. -/
def lastOutcome (last : Option Value) (ends : List (Flow (Option Value) × List Diagnostic)) :
    Option Value :=
  (ends.getLast?.map fun e => e.1.outcome).getD last

theorem lastOutcome_cons (last : Option Value) (e : Flow (Option Value) × List Diagnostic)
    (ends : List (Flow (Option Value) × List Diagnostic)) :
    lastOutcome last (e :: ends) = lastOutcome e.1.outcome ends := by
  rw [lastOutcome, lastOutcome, List.getLast?_cons]
  cases ends.getLast? <;> rfl

section Passes

variable {limit fuel : Nat} {package : String} {m n : Machine} {nodes : List Node}
  {ends : List (Flow (Option Value) × List Diagnostic)}

theorem Passes.sameCounts (h : Passes limit fuel package m nodes ends n) : m.SameCounts n := by
  induction h with
  | nil => exact ⟨rfl, rfl⟩
  | cons hnode _ _ ih =>
    obtain ⟨hloops, hcalls⟩ := Eval.ofNode_sameCounts hnode
    exact ⟨ih.loopDepth.trans hloops, ih.callDepth.trans hcalls⟩

/-- Behind each node that is passed, its ending `Reports` what was added. -/
theorem Passes.reports (h : Passes limit fuel package m nodes ends n) :
    ∀ e ∈ ends, e.1.Reports e.2 := by
  induction h with
  | nil => exact nofun
  | @cons m k n node nodes flow ds ends hnode hds _ ih =>
    obtain ⟨ds', hreports, hds'⟩ := Eval.ofNode_reports hnode
    have hsame : ds' = ds := List.append_cancel_left (hds'.symm.trans hds)
    rw [hsame] at hreports
    exact List.forall_mem_cons.mpr ⟨hreports, ih⟩

/-- What is added to `errors` in all is what the nodes report one after the other. -/
theorem Passes.errors (h : Passes limit fuel package m nodes ends n) :
    n.errors = m.errors ++ ends.flatMap Prod.snd := by
  induction h with
  | nil => exact (List.append_nil _).symm
  | cons _ hds _ ih => rw [ih, hds, List.append_assoc, List.flatMap_cons]

end Passes

/-- Counts that are zero are not changed by setting them to zero. -/
theorem Machine.reset_of_zero {m : Machine} (hloops : m.loopDepth = 0)
    (hcalls : m.callDepth = 0) : { m with loopDepth := 0, callDepth := 0 } = m := by
  cases m
  cases hloops
  cases hcalls
  rfl

/-- On a machine that counts no loops and no calls, `evaluateNodes` is `Passes`: setting the
counts back behind each node changes nothing. -/
theorem evaluateNodes_iff {limit fuel : Nat} {package : String} {last value : Option Value}
    {nodes : List Node} {m n : Machine} (hloops : m.loopDepth = 0) (hcalls : m.callDepth = 0) :
    evaluateNodes limit fuel package last nodes m = some (value, n) ↔
      ∃ ends, Passes limit fuel package m nodes ends n ∧ value = lastOutcome last ends := by
  induction nodes generalizing m last with
  | nil =>
    constructor
    · rintro ⟨⟩
      exact ⟨[], .nil, rfl⟩
    · rintro ⟨_, ⟨⟩, rfl⟩
      rfl
  | cons node nodes ih =>
    -- behind the first node both counts are still zero, which is what the others need
    have hzero : ∀ {flow k},
        Eval.ofNode limit fuel node (m.note (.evaluating package node.line)) = some (flow, k) →
        k.loopDepth = 0 ∧ k.callDepth = 0 := by
      intro flow k hk
      obtain ⟨hloops', hcalls'⟩ := Eval.ofNode_sameCounts hk
      exact ⟨hloops'.trans hloops, hcalls'.trans hcalls⟩
    rw [evaluateNodes]
    constructor
    · intro h
      rcases hk : Eval.ofNode limit fuel node (m.note (.evaluating package node.line)) with
        _ | ⟨flow, k⟩ <;> rw [hk] at h
      · cases h
      · obtain ⟨hloops, hcalls⟩ := hzero hk
        dsimp only at h
        rw [Machine.reset_of_zero hloops hcalls] at h
        obtain ⟨ends, hpasses, hvalue⟩ := (ih hloops hcalls).mp h
        obtain ⟨ds, -, hds⟩ := Eval.ofNode_reports hk
        refine ⟨(flow, ds) :: ends, .cons hk hds hpasses, ?_⟩
        rw [hvalue, lastOutcome_cons]
    · rintro ⟨_, hpasses, hvalue⟩
      cases hpasses with
      | cons hk hds hpasses =>
        obtain ⟨hloops, hcalls⟩ := hzero hk
        rw [lastOutcome_cons] at hvalue
        rw [hk]
        dsimp only
        rw [Machine.reset_of_zero hloops hcalls]
        exact (ih hloops hcalls).mpr ⟨_, hpasses, hvalue⟩

/-! ## Sessions -/

/-- A machine between runs: `loopDepth` and `callDepth` are 0, and no diagnostic waits to be
handed over. -/
structure Machine.AtRest (m : Machine) : Prop where
  loopDepth : m.loopDepth = 0
  callDepth : m.callDepth = 0
  errors : m.errors = []

namespace Session

/-- In a session that is `AtRest`, `Session.evaluate` comes to `Passes` through the nodes. -/
theorem evaluate_iff {s t : Session} (hs : s.machine.AtRest) {fuel : Nat} {p : Package}
    {e : Evaluation} :
    s.evaluate fuel p = some (e, t) ↔
      ∃ ends n, Passes s.config.maxCallDepth fuel p.name s.machine p.nodes ends n ∧
        e = ⟨lastOutcome none ends, ends.flatMap Prod.snd⟩ ∧
        t = { s with machine := { n with errors := [] } } := by
  have hnodes : ∀ value n,
      evaluateNodes s.config.maxCallDepth fuel p.name none p.nodes s.machine = some (value, n) ↔
        ∃ ends, Passes s.config.maxCallDepth fuel p.name s.machine p.nodes ends n ∧
          value = lastOutcome none ends :=
    fun value n => evaluateNodes_iff hs.loopDepth hs.callDepth
  have herrors : ∀ {ends n}, Passes s.config.maxCallDepth fuel p.name s.machine p.nodes ends n →
      n.errors = ends.flatMap Prod.snd := by
    intro ends n hpasses
    rw [hpasses.errors, hs.errors, List.nil_append]
  rw [evaluate, Package.evaluate]
  constructor
  · intro h
    rcases hn : evaluateNodes s.config.maxCallDepth fuel p.name none p.nodes s.machine with
      _ | ⟨value, n⟩ <;> rw [hn] at h
    · cases h
    · cases h
      obtain ⟨ends, hpasses, rfl⟩ := (hnodes value n).mp hn
      exact ⟨ends, n, hpasses, by rw [herrors hpasses], rfl⟩
  · rintro ⟨ends, n, hpasses, rfl, rfl⟩
    rw [(hnodes (lastOutcome none ends) n).mpr ⟨ends, hpasses, rfl⟩, ← herrors hpasses]

/-- Between runs a session is `AtRest`. -/
theorem atRest_of_leads {config : Config} {host : Host} {s : Session}
    (h : Leads (fun _ => True) (fresh config host) s) : s.machine.AtRest := by
  refine h.preserves (I := fun s => s.machine.AtRest) (fun _ _ _ => trivial) ?_ ?_
    ⟨rfl, rfl, rfl⟩
  · intro s source hs
    exact ⟨hs.loopDepth, hs.callDepth, hs.errors⟩
  · intro s fuel p e t _ hs he
    obtain ⟨ends, n, hpasses, -, rfl⟩ := (evaluate_iff hs).mp he
    obtain ⟨hloops, hcalls⟩ := hpasses.sameCounts
    exact ⟨hloops.trans hs.loopDepth, hcalls.trans hs.callDepth, rfl⟩

/-- However `Eval.ofNode` ends, the counts of loops and calls are what they were, and the
diagnostics that it has added are those that `Flow.Reports`: one for a fault, and none for any
other ending. Between runs a session is `Machine.AtRest`. Then `Session.evaluate` comes to
passing through all nodes in a row by `Passes`, without anything in between: what is handed over
are the diagnostics of the nodes, in order, and the session is at rest again. -/
theorem faults_accounted :
    (∀ limit fuel n m flow k, Eval.ofNode limit fuel n m = some (flow, k) →
      k.loopDepth = m.loopDepth ∧ k.callDepth = m.callDepth ∧
      ∃ ds, flow.Reports ds ∧ k.errors = m.errors ++ ds) ∧
    (∀ config host s, Leads (fun _ => True) (fresh config host) s → s.machine.AtRest) ∧
    ∀ s : Session, s.machine.AtRest → ∀ fuel p,
      (∀ e t, s.evaluate fuel p = some (e, t) ↔
        ∃ ends n, Passes s.config.maxCallDepth fuel p.name s.machine p.nodes ends n ∧
          e = ⟨lastOutcome none ends, ends.flatMap Prod.snd⟩ ∧
          t = { s with machine := { n with errors := [] } }) ∧
      ∀ ends n, Passes s.config.maxCallDepth fuel p.name s.machine p.nodes ends n →
        (∀ e ∈ ends, e.1.Reports e.2) ∧ n.loopDepth = 0 ∧ n.callDepth = 0 := by
  refine ⟨?_, fun config host s hs => atRest_of_leads hs, ?_⟩
  · intro limit fuel n m flow k hk
    obtain ⟨hloops, hcalls⟩ := Eval.ofNode_sameCounts hk
    exact ⟨hloops, hcalls, Eval.ofNode_reports hk⟩
  · intro s hs fuel p
    refine ⟨fun e t => evaluate_iff hs, fun ends n hpasses => ?_⟩
    obtain ⟨hloops, hcalls⟩ := hpasses.sameCounts
    exact ⟨hpasses.reports, hloops.trans hs.loopDepth, hcalls.trans hs.callDepth⟩

/-- A name that is not bound yet, its declaration, and a division by zero: the first and the
last node are abandoned, each with a diagnostic of its own. -/
theorem faults_accounted_division :
    let s := fresh {} {}
    let p : Package := ⟨"main", [.ident 1 "x", .declare (.ofKind .kwVar 2) ⟨2, "x"⟩,
      .infixed (.ofKind .slash 3) (.integer ⟨.integer, 3, "1"⟩ 1)
        (.integer ⟨.integer, 3, "0"⟩ 0)]⟩
    s.machine.AtRest ∧
      (∃ flow k, Eval.ofNode 200 9 (.ident 1 "x") s.machine = some (flow, k) ∧
        k.loopDepth = 0 ∧ k.callDepth = 0 ∧ ∃ ds, flow.Reports ds ∧ k.errors = [] ++ ds) ∧
      ∃ ends n, Passes 200 9 "main" s.machine p.nodes ends n ∧ (∀ e ∈ ends, e.1.Reports e.2) ∧
        ends.flatMap Prod.snd = [⟨1, .identNotFound "x"⟩, ⟨3, .divisionByZero⟩] := by
  intro s p
  have hrest : s.machine.AtRest := faults_accounted.2.1 {} {} s .refl
  refine ⟨hrest, ?_, ?_⟩
  · obtain ⟨flow, k, hk⟩ :
        ∃ flow k, Eval.ofNode 200 9 (.ident 1 "x") s.machine = some (flow, k) := ⟨_, _, rfl⟩
    exact ⟨flow, k, hk, faults_accounted.1 200 9 _ s.machine flow k hk⟩
  · have hevaluated : (s.evaluate 9 p).map (fun r => r.1.errors) =
        some [⟨1, .identNotFound "x"⟩, ⟨3, .divisionByZero⟩] := by decide +kernel
    obtain ⟨⟨e, t⟩, he, herrors⟩ := Option.map_eq_some_iff.mp hevaluated
    obtain ⟨hiff, hpassed⟩ := faults_accounted.2.2 s hrest 9 p
    obtain ⟨ends, n, hpasses, rfl, -⟩ := (hiff e t).mp he
    exact ⟨ends, n, hpasses, (hpassed ends n hpasses).1, herrors⟩

end Session
end ScriptLang
