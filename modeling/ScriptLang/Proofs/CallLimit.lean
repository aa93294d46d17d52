import ScriptLang.Proofs.Confinement
import ScriptLang.Proofs.Congruence

/-!
# The limit on the depth of calls

The limit cuts a program off and does nothing else. A call that it refuses reports a fault, and
the report stays, so an evaluation that ends without such a report has not come up against the
limit anywhere. Then it has gone the same way that it goes under any higher limit, to the same
machine.

- `Eval.Unless`: an evaluation that is another one, unless something lasting has come up.
- `unless_congruence`: so are the evaluations of a tree under two limits.
- `fuel_congruence`: more fuel changes no answer.
- `Spot.Limited.inside`: no more calls are open inside of each other than the limit allows.
- `Session.limit_cuts_off`: both of this for packages.
-/

namespace ScriptLang

open Eval

/-! ## Evaluations that are the same unless something comes up -/

/-- What is said of a machine is a matter of `Machine.errors`, and stays when there are more. -/
def Lasting (X : Machine → Prop) : Prop := ∀ m n, m.errors <+: n.errors → X m → X n

/-- Wherever an evaluation ends without `X`, the other one ends there as well, in the same way.
If `X` held before, it does behind. -/
def Eval.Unless {α : Type} (X : Machine → Prop) (e e' : Eval α) : Prop :=
  ∀ m flow n, e m = some (flow, n) → (X m → X n) ∧ (¬X n → e' m = some (flow, n))

namespace Eval

variable {α β : Type} {X : Machine → Prop} {e e' : Eval α}

/-- An evaluation is the same as itself, if it adds to `Machine.errors` only. -/
theorem unless_self (hX : Lasting X)
    (he : ∀ m flow n, e m = some (flow, n) → m.errors <+: n.errors) : Unless X e e :=
  fun m flow n hn => ⟨hX m n (he m flow n hn), fun _ => hn⟩

theorem outOfFuel_unless : Unless X outOfFuel e := by
  rintro m flow n ⟨⟩

theorem change_unless (hX : Lasting X) {f : Machine → Machine}
    (hf : ∀ m, (f m).errors = m.errors) : Unless X (change f) (change f) := by
  refine unless_self hX ?_
  rintro m _ _ ⟨⟩
  exact ⟨[], (List.append_nil _).trans (hf m).symm⟩

theorem raise_unless (hX : Lasting X) (flow : Flow α) : Unless X (raise flow) (raise flow) := by
  refine unless_self hX ?_
  rintro m _ _ ⟨⟩
  exact List.prefix_refl _

theorem fault_unless (hX : Lasting X) (line : Nat) (cause : Cause) :
    Unless X (fault line cause : Eval α) (fault line cause) := by
  refine unless_self hX ?_
  rintro m _ _ ⟨⟩
  exact List.prefix_append _ _

/-- If something comes up in the first part, it is still so in the end, as `X` is `Lasting`. -/
theorem bind_unless {f f' : α → Eval β} (he : Unless X e e') (hf : ∀ a, Unless X (f a) (f' a)) :
    Unless X (e >>= f) (e' >>= f') := by
  intro m flow k hk
  have hk : Eval.bind e f m = some (flow, k) := hk
  show (X m → X k) ∧ (¬X k → Eval.bind e' f' m = some (flow, k))
  rw [Eval.bind] at hk
  rcases hn : e m with _ | ⟨ending, n⟩ <;> rw [hn] at hk
  · cases hk
  · obtain ⟨hlasts, hsame⟩ := he m ending n hn
    cases ending with
    | done a =>
      obtain ⟨hlasts', hsame'⟩ := hf a n flow k hk
      refine ⟨fun hm => hlasts' (hlasts hm), fun hnot => ?_⟩
      rw [Eval.bind, hsame fun hm => hnot (hlasts' hm)]
      exact hsame' hnot
    | _ =>
      cases hk
      refine ⟨hlasts, fun hnot => ?_⟩
      rw [Eval.bind, hsame hnot]

/-- So it is if the ending is observed by `Eval.observe`. -/
theorem observe_unless {f f' : Flow α → Eval β} (he : Unless X e e')
    (hf : ∀ flow, Unless X (f flow) (f' flow)) :
    Unless X (observe e >>= f) (observe e' >>= f') := by
  intro m flow k hk
  rw [observe_bind] at hk ⊢
  rcases hn : e m with _ | ⟨ending, n⟩ <;> rw [hn] at hk
  · cases hk
  · obtain ⟨hlasts, hsame⟩ := he m ending n hn
    obtain ⟨hlasts', hsame'⟩ := hf ending n flow k hk
    refine ⟨fun hm => hlasts' (hlasts hm), fun hnot => ?_⟩
    rw [hsame fun hm => hnot (hlasts' hm)]
    exact hsame' hnot

theorem machine_bind_unless {f f' : Machine → Eval α} (hf : ∀ m, Unless X (f m) (f' m)) :
    Unless X (machine >>= f) (machine >>= f') := fun m => hf m m

/-- `Eval.act` reports nothing. -/
theorem act_unless (hX : Lasting X) (line : Nat) (builtin : Builtin) (vs : List Value) :
    Unless X (act line builtin vs) (act line builtin vs) := by
  refine machine_bind_unless fun m => bind_unless ?_ fun _ => ?_
  · exact change_unless hX fun _ => rfl
  · cases (builtin.call vs m.host).result.mapError fun failure =>
        Cause.builtin builtin.name failure.message with
    | ok a => exact raise_unless hX _
    | error cause => exact fault_unless hX line cause

end Eval

/-- `Eval.Unless` is a `Congruence` for a limit and a higher one, if `X` holds as soon as the
lower one has been reported as exceeded. -/
theorem unless_congruence {X : Machine → Prop} {limit limit' : Nat} (hX : Lasting X)
    (hle : limit ≤ limit')
    (hreport : limit < limit' →
      ∀ (m : Machine) (line : Nat), X (m.report ⟨line, .callDepthExceeded limit⟩)) :
    Congruence limit limit' fun _ _ e e' => Unless X e e' where
  outOfFuel _ := outOfFuel_unless
  pure a := raise_unless hX (.done a)
  faulted := raise_unless hX .faulted
  raise flow := raise_unless hX flow
  fault line cause := fault_unless hX line cause
  note _ := change_unless hX fun _ => rfl
  lookup line x := by
    refine machine_bind_unless fun m => ?_
    cases m.scopes.get? x with
    | some v => exact raise_unless hX _
    | none =>
      cases Builtin.ofName? x with
      | some builtin => exact raise_unless hX _
      | none => exact fault_unless hX line _
  reassign x v hmissing := by
    refine machine_bind_unless fun m => ?_
    cases m.scopes.assign? x v with
    | some scopes => exact change_unless hX fun _ => rfl
    | none => exact hmissing
  bindName _ _ := change_unless hX fun _ => rfl
  act line builtin vs := act_unless hX line builtin vs
  bind := bind_unless
  observe := observe_unless
  scope he := by
    refine bind_unless (change_unless hX fun _ => rfl) fun _ => observe_unless he fun flow => ?_
    exact bind_unless (change_unless hX Machine.closed_errors) fun _ => raise_unless hX flow
  breakOut := by
    refine machine_bind_unless fun m => ?_
    by_cases hloops : m.loopDepth = 0
    · rw [if_pos hloops]
      exact raise_unless hX _
    · rw [if_neg hloops]
      exact raise_unless hX _
  loopEntered := change_unless hX fun _ => rfl
  loopLeft := change_unless hX fun _ => rfl
  guarded line he := by
    refine machine_bind_unless fun m => ?_
    by_cases hcut : limit ≤ m.callDepth
    · rw [if_pos hcut]
      by_cases hsame : limit = limit'
      · subst hsame
        rw [if_pos hcut]
        exact fault_unless hX line _
      -- the lower limit reports itself, whatever happens under the higher one
      · have hless : limit < limit' := Nat.lt_of_le_of_ne hle hsame
        rintro k _ _ ⟨⟩
        exact ⟨hX _ _ (List.prefix_append _ _), fun hnot => absurd (hreport hless k line) hnot⟩
    · rw [if_neg hcut, if_neg fun hcut' => hcut (hle.trans hcut')]
      exact he
  calling he hf := by
    refine machine_bind_unless fun m => bind_unless (change_unless hX fun _ => rfl) fun _ => ?_
    refine observe_unless he fun flow => bind_unless (change_unless hX fun _ => rfl) fun _ =>
      hf flow

/-- With `X` false, `Eval.Unless` says that one evaluation has all answers that the other one
has. With more fuel it does. -/
theorem fuel_congruence (limit : Nat) :
    Congruence limit limit fun _ _ e e' => Unless (fun _ => False) e e' :=
  unless_congruence (fun _ _ _ => id) (Nat.le_refl limit) fun hless =>
    absurd hless (Nat.lt_irrefl limit)

/-- With `X` false, an answer of the first evaluation is one of the second. -/
theorem Eval.Unless.answer {α : Type} {e e' : Eval α} (h : Unless (fun _ => False) e e')
    {m : Machine} {answer : Flow α × Machine} (hanswer : e m = some answer) :
    e' m = some answer :=
  (h m answer.1 answer.2 hanswer).2 id

/-! ## The limit has been reported -/

/-- A call has been refused: `callDepthExceeded` is among the causes reported. -/
def Machine.Refused (m : Machine) : Prop :=
  ∃ d ∈ m.errors, ∃ limit, d.cause = .callDepthExceeded limit

/-- `Machine.Refused` is `Lasting`. -/
theorem lasting_refused : Lasting Machine.Refused := by
  rintro m n herrors ⟨d, hd, hcause⟩
  exact ⟨d, herrors.subset hd, hcause⟩

/-- `Eval.ofNode` under a limit is what it is under a higher limit, unless `Machine.Refused`
comes up. -/
theorem Eval.ofNode_unless {limit limit' : Nat} (hle : limit ≤ limit') (fuel : Nat) (n : Node) :
    Unless Machine.Refused (ofNode limit fuel n) (ofNode limit' fuel n) := by
  have hcongruence : Congruence limit limit' fun _ _ e e' => Unless Machine.Refused e e' :=
    unless_congruence lasting_refused hle fun _ m line =>
      ⟨⟨line, .callDepthExceeded limit⟩, List.mem_append_right _ (List.mem_singleton_self _),
        limit, rfl⟩
  exact hcongruence.node (Nat.le_refl fuel) n

/-- So is `evaluateNodes`. -/
theorem evaluateNodes_unless {limit limit' : Nat} (hle : limit ≤ limit') {fuel : Nat}
    {package : String} {last value : Option Value} {ns : List Node} {m n : Machine}
    (h : evaluateNodes limit fuel package last ns m = some (value, n)) :
    (m.Refused → n.Refused) ∧
    (¬n.Refused → evaluateNodes limit' fuel package last ns m = some (value, n)) := by
  induction ns generalizing last m with
  | nil =>
    cases h
    exact ⟨id, fun _ => rfl⟩
  | cons node ns ih =>
    rw [evaluateNodes] at h ⊢
    rcases he : ofNode limit fuel node (m.note (.evaluating package node.line)) with
      _ | ⟨flow, k⟩ <;> rw [he] at h
    · cases h
    · obtain ⟨hlasts, hsame⟩ := ofNode_unless hle fuel node _ flow k he
      obtain ⟨hlasts', hsame'⟩ := ih h
      refine ⟨fun hm => hlasts' (hlasts hm), fun hnot => ?_⟩
      rw [hsame fun hk => hnot (hlasts' hk)]
      exact hsame' hnot

/-! ## How many calls are open -/

namespace Eval

/-- An evaluation that `Keeps` the counts leaves `callDepth` as it is. -/
theorem Keeps.counted {α : Type} {e : Eval α}
    (h : e.Keeps Machine.SameCounts Machine.SameCounts) {m n : Machine} {flow : Flow α}
    (hn : e m = some (flow, n)) {calls : Nat} (hm : m.callDepth = calls) :
    n.callDepth = calls :=
  (h.relates hn).callDepth.trans hm

section Counts

variable (limit fuel : Nat)

theorem ofNode_counts (n : Node) :
    Keeps Machine.SameCounts Machine.SameCounts (ofNode limit fuel n) :=
  ofNode_keeps stable_sameCounts binds_sameCounts limit fuel n

theorem condition_counts (test : Node) :
    Keeps Machine.SameCounts Machine.SameCounts (condition (ofNode limit fuel) test) :=
  condition_keeps stable_sameCounts (ofNode_counts limit fuel test)

theorem block_counts (b : Block) :
    Keeps Machine.SameCounts Machine.SameCounts (block (ofNode limit fuel) b) :=
  block_keeps stable_sameCounts fun n _ => ofNode_counts limit fuel n

theorem sequence_counts (last : Option Value) (ns : List Node) :
    Keeps Machine.SameCounts Machine.SameCounts (sequence (ofNode limit fuel) last ns) :=
  sequence_keeps stable_sameCounts last fun n _ => ofNode_counts limit fuel n

theorem optional_counts (part : Option Node) :
    Keeps Machine.SameCounts Machine.SameCounts (optional (ofNode limit fuel) part) :=
  optional_keeps stable_sameCounts fun n _ => ofNode_counts limit fuel n

theorem arguments_counts (ns : List Node) :
    Keeps Machine.SameCounts Machine.SameCounts (arguments (ofNode limit fuel) ns) :=
  arguments_keeps stable_sameCounts fun n _ => ofNode_counts limit fuel n

end Counts
end Eval

/-- The machine counts the calls around a spot, and they are no more than `limit`. -/
structure Spot.Limited (limit : Nat) (s : Spot) : Prop where
  counted : s.machine.callDepth = s.calls
  calls : s.calls ≤ limit

/-- A spot directly `Inside` of one that is `Spot.Limited` is so as well, by the guard in
`Inside.called`. -/
theorem Spot.Limited.inside {limit : Nat} {s t : Spot} (hs : s.Limited limit)
    (h : Inside limit s t) : t.Limited limit := by
  obtain ⟨hcounted, hcalls⟩ := hs
  cases h with
  | operand | left | test | returned | condition | init => exact ⟨hcounted, hcalls⟩
  | right hk =>
    exact ⟨(operand_keeps stable_sameCounts (ofNode_counts _ _ _)).counted hk hcounted, hcalls⟩
  | assigned hk =>
    exact ⟨(assignee_keeps stable_sameCounts binds_sameCounts _).counted hk hcounted, hcalls⟩
  | argument _ _ hk => exact ⟨(arguments_counts _ _ _).counted hk hcounted, hcalls⟩
  | called _ haccepts hk hk' =>
    -- the machine counts as many calls as there are around
    -- the spot, so the limit has let one more through
    have hless := haccepts.2
    rw [hcounted] at hless
    have hentered := congrArg (· + 1) ((arguments_counts _ _ _).counted hk hcounted)
    exact ⟨(bindAll_keeps stable_sameCounts binds_sameCounts _ _).counted hk' hentered, hless⟩
  | statement hk =>
    exact ⟨(sequence_counts _ _ _ _).counted hk hcounted, hcalls⟩
  | branch hk => exact ⟨(condition_counts _ _ _).counted hk hcounted, hcalls⟩
  | turns hk => exact ⟨(optional_counts _ _ _).counted hk hcounted, hcalls⟩
  | body hk => exact ⟨(condition_counts _ _ _).counted hk hcounted, hcalls⟩
  | step hk hk' =>
    exact ⟨(block_counts _ _ _).counted hk' ((condition_counts _ _ _).counted hk hcounted),
    hcalls⟩
  | again hk hk' hk'' =>
    have hbody :=
      (block_counts _ _ _).counted hk' ((condition_counts _ _ _).counted hk hcounted)
    exact ⟨(optional_counts _ _ _).counted hk'' hbody, hcalls⟩

/-- `evaluateNodes` leaves `callDepth` at nought. -/
theorem callDepth_evaluateNodes {limit fuel : Nat} {package : String}
    {last value : Option Value} {ns : List Node} {m n : Machine}
    (h : evaluateNodes limit fuel package last ns m = some (value, n)) (hm : m.callDepth = 0) :
    n.callDepth = 0 := by
  induction ns generalizing last m with
  | nil =>
    cases h
    exact hm
  | cons node ns ih =>
    rw [evaluateNodes] at h
    rcases he : ofNode limit fuel node (m.note (.evaluating package node.line)) with
      _ | ⟨flow, k⟩ <;> rw [he] at h
    · cases h
    · exact ih h rfl

/-- So every spot that `Package.Begins` and `Inside` lead to is `Spot.Limited`. -/
theorem Package.Begins.limited {limit fuel : Nat} {p : Package} {m : Machine} {top spot : Spot}
    (htop : p.Begins limit fuel m top) (hm : m.callDepth = 0)
    (h : Relation.ReflTransGen (Inside limit) top spot) : spot.Limited limit := by
  induction h with
  | refl =>
    cases htop with
    | @node _ _ _ _ k _ hk =>
      have hcount : k.callDepth = 0 := callDepth_evaluateNodes hk hm
      exact ⟨hcount, Nat.zero_le limit⟩
  | tail _ hinside ih => exact ih.inside hinside

/-- The session with another `Config.maxCallDepth`. -/
def Session.withLimit (limit : Nat) (s : Session) : Session :=
  { s with config := { s.config with maxCallDepth := limit } }

/-- The limit only cuts off. At any spot of an evaluation the machine counts the calls that are
open around it, and they are no more than `Config.maxCallDepth`. An evaluation that ends without
a call having been refused is the one under every higher limit: it has the same value and the
same diagnostics, and leaves a session that is the same but for the limit.

The spots are those that `Package.Begins` and `Inside` lead to. They account for the evaluation:
where it has no answer, or a spot with fuel has none, the answer is missing at one of the spots
directly inside. -/
theorem Session.limit_cuts_off (s : Session) (hrest : s.machine.callDepth = 0) (p : Package)
    (fuel : Nat) :
    (s.evaluate fuel p = none → ∃ top, p.Begins s.config.maxCallDepth fuel s.machine top ∧
      top.answer s.config.maxCallDepth = none) ∧
    (∀ top spot, p.Begins s.config.maxCallDepth fuel s.machine top →
      Relation.ReflTransGen (Inside s.config.maxCallDepth) top spot →
      spot.machine.callDepth = spot.calls ∧ spot.calls ≤ s.config.maxCallDepth ∧
      (spot.fuel ≠ 0 → spot.answer s.config.maxCallDepth = none →
        ∃ t, Inside s.config.maxCallDepth spot t ∧ t.answer s.config.maxCallDepth = none)) ∧
    ∀ limit e t, s.config.maxCallDepth ≤ limit → s.evaluate fuel p = some (e, t) →
      (∀ d ∈ e.errors, ∀ limit, d.cause ≠ .callDepthExceeded limit) →
      (s.withLimit limit).evaluate fuel p = some (e, t.withLimit limit) := by
  refine ⟨exists_begins, ?_, ?_⟩
  · intro top spot htop hspot
    have hlimited := htop.limited hrest hspot
    exact ⟨hlimited.counted, hlimited.calls, spot.exists_inside⟩
  · intro limit e t hle he hnone
    rw [evaluate, Package.evaluate] at he ⊢
    rcases hn : evaluateNodes s.config.maxCallDepth fuel p.name none p.nodes s.machine with
      _ | ⟨v, n⟩ <;> rw [hn] at he
    · cases he
    · cases he
      have hnot : ¬n.Refused := by
        rintro ⟨d, hd, limit, hcause⟩
        exact hnone d hd limit hcause
      have hsame := (evaluateNodes_unless hle hn).2 hnot
      have hsession : (s.withLimit limit).machine = s.machine := rfl
      have hlimit : (s.withLimit limit).config.maxCallDepth = limit := rfl
      rw [hsession, hlimit, hsame]
      rfl

/-- With room for one call a function is called, which is then the only one that is open, and
with room for more it is called just so. -/
theorem Session.limit_cuts_off_one :
    let s : Session := fresh { maxCallDepth := 1 } {}
    let body : Block := ⟨1, [.integer ⟨.integer, 1, "7"⟩ 7]⟩
    let declared : Node := .function 1 ⟨1, "f"⟩ [] body
    let called : Node := .call 1 (.ident 1 "f") []
    let p : Package := ⟨"main", [declared, called]⟩
    (∃ top spot, p.Begins 1 9 s.machine top ∧ Relation.ReflTransGen (Inside 1) top spot ∧
      spot.machine.callDepth = 1 ∧ spot.calls = 1 ∧ spot.calls ≤ s.config.maxCallDepth) ∧
    ∃ e t, s.evaluate 9 p = some (e, t) ∧ e.errors = [] ∧
      (s.withLimit 5).evaluate 9 p = some (e, t.withLimit 5) := by
  intro s body declared called p
  obtain ⟨-, hspots, hsame⟩ := limit_cuts_off s rfl p 9
  constructor
  · -- behind the declaration the name is bound, and no call is open
    obtain ⟨k, hk, hscopes, hcalls⟩ :
        ∃ k, evaluateNodes 1 9 "main" none [declared] s.machine = some (none, k) ∧
          k.scopes = ⟨[("f", .function ⟨"f", [], body⟩)], []⟩ ∧ k.callDepth = 0 :=
            ⟨_, rfl, rfl, rfl⟩
    let noted := k.note (.evaluating "main" 1)
    have htop : p.Begins 1 9 s.machine ⟨.part .statement, 0, 0, 9, .node called, noted⟩ :=
      .node rfl hk
    have hlookup : lookup 1 "f" noted = some (.done (.function ⟨"f", [], body⟩), noted) := by
      have hnoted : noted.scopes = ⟨[("f", .function ⟨"f", [], body⟩)], []⟩ := hscopes
      rw [lookup, machine_bind, hnoted]
      rfl
    have hless : noted.callDepth < 1 := Nat.lt_of_le_of_lt hcalls.le Nat.zero_lt_one
    have hinside : Inside 1 ⟨.part .statement, 0, 0, 9, .node called, noted⟩
        ⟨.called, 0, 1, 9, .node (.block body), (noted.calling ⟨"f", [], body⟩ []).nested⟩ :=
      .called hlookup ⟨rfl, hless⟩ rfl rfl
    obtain ⟨hcounted, hlimited, -⟩ := hspots _ _ htop (.single hinside)
    exact ⟨_, _, htop, .single hinside, hcounted, rfl, hlimited⟩
  · have hevaluated : (s.evaluate 9 p).map (fun r => r.1.errors) = some [] := by decide +kernel
    obtain ⟨⟨e, t⟩, he, herrors⟩ := Option.map_eq_some_iff.mp hevaluated
    refine ⟨e, t, he, herrors, hsame 5 e t (by decide) he ?_⟩
    rw [herrors]
    rintro _ ⟨⟩

end ScriptLang
