import ScriptLang.Proofs.CallLimit

/-!
# Only loops run for ever

Without loops there are two ways down: into the parts of a tree, of which there are only so many
levels, and into the body of a function that is called. Bodies come out of scopes that change
all the time, so they may be larger than the call they are called from; but each call in
progress counts, and the count is limited. So an evaluation ends as soon as there is fuel for
the levels of its own tree and, for each call that may still be made inside of it, for the
levels of the largest body.

That an evaluation ends means that all fuel beyond some amount leads to one and the same answer.
With as much as it needs it has one, and more changes no answer.

- `Loopless`: statements without loops at any depth.
- `Node.Plain`: a tree without loops that has no more than so many levels.
- `Machine.Plain`: a machine whose functions are so, inside of so many calls.
- `Eval.Answers`: an evaluation that has an answer on such machines; `Eval.answers_guarantee`
  gives the rules for most forms of nodes.
- `Eval.ofNode_answers`: the fuel that a tree needs.
- `Eval.Settles`, `Eval.ofNode_settles`: with more, it has the same answer.
- `Session.evaluate_terminates`: packages without loops.
-/

namespace ScriptLang

/-! ## Trees without loops -/

/-- Whether a node is a loop. -/
def Node.isLoop : Node → Bool
  | loop .. => true
  | _ => false

/-- No node that `Occurs` in the statements, at any depth, is a loop. -/
def Loopless (ns : List Node) : Prop := ∀ role n, Occurs ns role n → n.isLoop = false

/-- A value whose body, if it has one, is `Loopless`. -/
def Value.Loopless : Value → Prop
  | .function f => ScriptLang.Loopless f.body.nodes
  | _ => True

/-- A tree without loops that has no more than `levels` levels. -/
def Node.Plain : Nat → Node → Prop
  | 0, _ => False
  | levels + 1, n => n.isLoop = false ∧ ∀ part ∈ n.parts, part.2.Plain levels

instance Node.decidablePlain : (levels : Nat) → (n : Node) → Decidable (n.Plain levels)
  | 0, _ => .isFalse id
  | levels + 1, n =>
    have : ∀ part : Role × Node, Decidable (part.2.Plain levels) :=
      fun part => decidablePlain levels part.2
    inferInstanceAs (Decidable (n.isLoop = false ∧ ∀ part ∈ n.parts, part.2.Plain levels))

/-- A value whose body, if it has one, is `Node.Plain`. -/
def Value.Plain (levels : Nat) : Value → Prop
  | .function f => ∀ n ∈ f.body.nodes, n.Plain levels
  | _ => True

/-- `Node.Plain` holds for more levels as well. -/
theorem Node.Plain.mono {n : Node} {k l : Nat} (h : n.Plain k) (hle : k ≤ l) : n.Plain l := by
  induction k generalizing n l with
  | zero => exact h.elim
  | succ k ih =>
    obtain ⟨l, rfl⟩ := Nat.exists_eq_add_of_lt hle
    exact ⟨h.1, fun part hpart => ih (h.2 part hpart) (by omega)⟩

theorem Value.Plain.mono {v : Value} {k l : Nat} (h : v.Plain k) (hle : k ≤ l) : v.Plain l := by
  cases v with
  | function f => exact fun n hn => (h n hn).mono hle
  | _ => trivial

/-- Data has no body, so it is `Value.Plain`. -/
theorem Value.IsData.plain {v : Value} (h : v.IsData) (levels : Nat) : v.Plain levels := by
  cases v with
  | function f => exact h.elim
  | _ => trivial

/-- Induction over a tree by way of its parts. -/
@[elab_as_elim]
theorem Node.induct_parts {P : Node → Prop}
    (node : ∀ n : Node, (∀ part ∈ n.parts, P part.2) → P n) (n : Node) : P n := by
  -- what is known of the nodes of a list is known of them as parts with a role
  have hmap : ∀ (role : Role) (ns : List Node), (∀ n ∈ ns, P n) →
      ∀ part ∈ ns.map fun n => (role, n), P part.2 := by
    intro role ns hns part hpart
    obtain ⟨n, hn, rfl⟩ := List.mem_map.mp hpart
    exact hns n hn
  induction n using Node.induct with
  | integer | string | boolean | ident | declare | breaking => exact node _ (by simp [parts])
  | assign line target value ht hv => exact node _ (by simp [parts, ht, hv])
  | prefixed o n hn => exact node _ (by simp [parts, hn])
  | infixed o l r hl hr => exact node _ (by simp [parts, hl, hr])
  | call line callee args hcallee hargs =>
    exact node _ (List.forall_mem_cons.mpr ⟨hcallee, hmap _ args hargs⟩)
  | block b hb => exact node _ (hmap _ b.nodes hb)
  | conditional line test b c ht hb hc =>
    refine node _
      (List.forall_mem_cons.mpr ⟨ht, List.forall_mem_append.mpr ⟨hmap _ b.nodes hb, ?_⟩⟩)
    cases c with
    | none => simp
    | some c =>
      rw [Option.toList_some, List.flatMap_singleton]
      exact hmap _ c.nodes (hc c rfl)
  | loop line init test step b hi ht hs hb =>
    have hoption : ∀ n : Option Node, (∀ m ∈ n, P m) → ∀ m ∈ n.toList, P m :=
      fun n hn m hm => hn m (Option.mem_toList.mp hm)
    refine node _ (List.forall_mem_append.mpr ⟨List.forall_mem_append.mpr ⟨?_, ?_⟩,
      hmap _ b.nodes hb⟩)
    · exact hmap _ _ (hoption init hi)
    · exact List.forall_mem_cons.mpr ⟨ht, hmap _ _ (hoption step hs)⟩
  | function line f params b hb => exact node _ (hmap _ b.nodes hb)
  | returning line n hn => exact node _ (by simp [parts, hn])

/-- If for each member `Q` holds from some number on, then for all of them it holds from some
number on. -/
theorem exists_levels {α : Type} {Q : α → Nat → Prop}
    (hmono : ∀ a k l, Q a k → k ≤ l → Q a l) {as : List α} (h : ∀ a ∈ as, ∃ k, Q a k) :
    ∃ k, ∀ a ∈ as, Q a k := by
  induction as with
  | nil => exact ⟨0, nofun⟩
  | cons a as ih =>
    obtain ⟨ha, has⟩ := List.forall_mem_cons.mp h
    obtain ⟨k, hk⟩ := ha
    obtain ⟨l, hl⟩ := ih has
    refine ⟨max k l, List.forall_mem_cons.mpr ⟨hmono a k _ hk (Nat.le_max_left k l), ?_⟩⟩
    exact fun b hb => hmono b l _ (hl b hb) (Nat.le_max_right k l)

/-- What `Occurs` in a node occurs wherever the node does. -/
theorem Occurs.exists_of_singleton {ns : List Node} {role role' : Role} {n part : Node}
    (hn : Occurs ns role n) (h : Occurs [n] role' part) : ∃ role'', Occurs ns role'' part := by
  induction h with
  | statement hmem =>
    cases List.mem_singleton.mp hmem
    exact ⟨role, hn⟩
  | part _ hpart ih =>
    obtain ⟨role'', hpart'⟩ := ih
    exact ⟨_, .part hpart' hpart⟩

/-- What `Occurs` in trees that are `Loopless` is so itself. -/
theorem Loopless.of_occurs {ns : List Node} (h : Loopless ns) {role : Role} {n : Node}
    (hn : Occurs ns role n) : Loopless [n] := by
  intro role' part hpart
  obtain ⟨role'', hpart'⟩ := hn.exists_of_singleton hpart
  exact h role'' part hpart'

/-- A tree that is `Loopless` is `Node.Plain` for some number of levels. -/
theorem Node.exists_plain {n : Node} (h : Loopless [n]) : ∃ levels, n.Plain levels := by
  induction n using Node.induct_parts with
  | node n ih =>
    have hself : Occurs [n] .statement n := .statement (List.mem_singleton_self n)
    have hparts : ∀ part ∈ n.parts, ∃ levels, part.2.Plain levels :=
      fun part hpart => ih part hpart (h.of_occurs (.part hself hpart))
    obtain ⟨levels, hlevels⟩ := exists_levels (fun _ _ _ hk hle => hk.mono hle) hparts
    exact ⟨levels + 1, h _ _ hself, hlevels⟩

/-- So are several, for the same number of levels. -/
theorem Loopless.exists_plain {ns : List Node} (h : Loopless ns) :
    ∃ levels, ∀ n ∈ ns, n.Plain levels :=
  exists_levels (fun _ _ _ hk hle => hk.mono hle) fun _ hn =>
    Node.exists_plain (h.of_occurs (.statement hn))

theorem Value.Loopless.exists_plain {v : Value} (h : v.Loopless) :
    ∃ levels, v.Plain levels := by
  cases v with
  | function f => exact ScriptLang.Loopless.exists_plain h
  | _ => exact ⟨0, trivial⟩

theorem Scopes.Stores.exists_plain {s : Scopes} (h : s.Stores Value.Loopless) :
    ∃ levels, s.Stores (Value.Plain levels) := by
  refine exists_levels (fun scope k l hscope hle e he => (hscope e he).mono hle)
    fun scope hscope => ?_
  exact exists_levels (fun e k l he hle => he.mono hle) fun e he =>
    (h scope hscope e he).exists_plain

/-- Trees that are `Node.Plain` are `Loopless`. -/
theorem loopless_of_plain {ns : List Node} {levels : Nat} (h : ∀ n ∈ ns, n.Plain levels) :
    Loopless ns := by
  intro role n hn
  have hlevels : ∃ k, n.Plain (k + 1) := by
    induction hn with
    | @statement n hmem =>
      cases levels with
      | zero => exact (h n hmem).elim
      | succ k => exact ⟨k, h n hmem⟩
    | part _ hpart ih =>
      obtain ⟨k, hk⟩ := ih
      cases k with
      | zero => exact (hk.2 _ hpart).elim
      | succ k => exact ⟨k, hk.2 _ hpart⟩
  obtain ⟨k, hk⟩ := hlevels
  exact hk.1

theorem Value.Plain.loopless {v : Value} {levels : Nat} (h : v.Plain levels) : v.Loopless := by
  cases v with
  | function f => exact loopless_of_plain h
  | _ => trivial

/-! ## Machines without loops -/

/-- A machine inside of `calls` calls, whose functions are `Value.Plain`. -/
structure Machine.Plain (levels calls : Nat) (m : Machine) : Prop where
  scopes : m.scopes.Stores (Value.Plain levels)
  callDepth : m.callDepth = calls

/-- A result that is `Value.Plain`, if there is one. -/
abbrev PlainResult (levels : Nat) : Option Value → Prop := Gives (Value.Plain levels)

/-- An ending whose value, if it carries one, is `Value.Plain`. -/
def Flow.Plain {α : Type} (levels : Nat) (V : α → Prop) : Flow α → Prop
  | .done a => V a
  | .returned value => PlainResult levels value
  | .broke | .faulted => True

namespace Eval

variable {α β : Type} {levels calls : Nat} {V : α → Prop} {W : β → Prop} {m : Machine}

/-- If the machine is `Machine.Plain`, then the evaluation has an answer on it, the ending is
`Flow.Plain`, and the machine is so again. -/
def AnswersAt (levels calls : Nat) (V : α → Prop) (e : Eval α) (m : Machine) : Prop :=
  m.Plain levels calls →
    ∃ flow n, e m = some (flow, n) ∧ n.Plain levels calls ∧ flow.Plain levels V

/-- `AnswersAt` every machine. -/
def Answers (levels calls : Nat) (V : α → Prop) (e : Eval α) : Prop :=
  ∀ m, AnswersAt levels calls V e m

/-! ### Steps -/

section Steps

/-- `raise` answers at once. -/
theorem raise_answers {flow : Flow α} (h : flow.Plain levels V) :
    Answers levels calls V (raise flow) :=
  fun m hm => ⟨flow, m, rfl, hm, h⟩

theorem pure_answers {a : α} (h : V a) : Answers levels calls V (pure a) :=
  fun m hm => ⟨.done a, m, rfl, hm, h⟩

/-- So does `fault`. -/
theorem fault_answers (line : Nat) (cause : Cause) :
    Answers levels calls V (fault line cause) :=
  fun m hm => ⟨.faulted, m.report ⟨line, cause⟩, rfl, ⟨hm.scopes, hm.callDepth⟩, trivial⟩

/-- A bind has an answer if both parts have, and the first one keeps the machine `Plain`. -/
theorem bind_answersAt {e : Eval α} {f : α → Eval β} (he : AnswersAt levels calls V e m)
    (hf : ∀ a, V a → Answers levels calls W (f a)) : AnswersAt levels calls W (e >>= f) m := by
  intro hm
  obtain ⟨flow, n, hn, hplain, hflow⟩ := he hm
  show ∃ flow k, Eval.bind e f m = some (flow, k) ∧ _
  rw [Eval.bind, hn]
  cases flow with
  | done a => exact hf a hflow n hplain
  | returned v => exact ⟨_, n, rfl, hplain, hflow⟩
  | broke => exact ⟨_, n, rfl, hplain, trivial⟩
  | faulted => exact ⟨_, n, rfl, hplain, trivial⟩

theorem bind_answers {e : Eval α} {f : α → Eval β} (he : Answers levels calls V e)
    (hf : ∀ a, V a → Answers levels calls W (f a)) : Answers levels calls W (e >>= f) :=
  fun m => bind_answersAt (he m) hf

theorem machine_bind_answersAt {f : Machine → Eval α}
    (hf : m.Plain levels calls → AnswersAt levels calls V (f m) m) :
    AnswersAt levels calls V (machine >>= f) m := fun hm => hf hm hm

theorem change_answers {f : Machine → Machine}
    (hf : ∀ m : Machine, m.Plain levels calls → (f m).Plain levels calls) :
    Answers levels calls (fun _ => True) (change f) :=
  fun m hm => ⟨.done (), f m, rfl, hf m hm, trivial⟩

/-- Something done to the machine before and behind an evaluation that `Answers`, however it
ends. The calls may be counted differently in between. -/
theorem around_answersAt {before behind : Machine → Machine} {calls' : Nat} {e : Eval α}
    {k : Flow α → Eval β} (hbefore : m.Plain levels calls → (before m).Plain levels calls')
    (he : Answers levels calls' V e)
    (hbehind : ∀ n : Machine, n.Plain levels calls' → (behind n).Plain levels calls)
    (hk : ∀ flow, flow.Plain levels V → Answers levels calls W (k flow)) :
    AnswersAt levels calls W (do
      change before
      let flow ← observe e
      change behind
      k flow) m := by
  intro hm
  obtain ⟨flow, n, hn, hplain, hflow⟩ := he (before m) (hbefore hm)
  show ∃ ending l,
    (observe e >>= fun flow => change behind >>= fun _ => k flow) (before m) =
      some (ending, l) ∧ _
  rw [observe_bind, hn]
  exact hk flow hflow (behind n) (hbehind n hplain)

/-- Opening and closing a scope keeps the machine `Plain`. -/
theorem inScope_answers {e : Eval α} (he : Answers levels calls V e) :
    Answers levels calls V (inScope e) := by
  refine fun m => around_answersAt (fun hm => ⟨hm.scopes.nest, hm.callDepth⟩) he ?_
    fun flow hflow => raise_answers hflow
  intro n hn
  obtain ⟨journal, hclosed⟩ := n.closed_eq
  rw [hclosed]
  exact ⟨hn.scopes.unnest, hn.callDepth⟩

theorem lookup_answers (line : Nat) (x : String) :
    Answers levels calls (Value.Plain levels) (lookup line x) := by
  refine fun m => machine_bind_answersAt fun hm => ?_
  cases hx : m.scopes.get? x with
  | some v => exact pure_answers (hm.scopes.get? hx) m
  | none =>
    cases Builtin.ofName? x with
    | some builtin => exact pure_answers trivial m
    | none => exact fault_answers line _ m

/-- `Eval.reassign` stores a value that is `Value.Plain`. -/
theorem reassign_answers (x : String) {v : Value} {missing : Eval Unit} (hv : v.Plain levels)
    (hmissing : Answers levels calls (fun _ => True) missing) :
    Answers levels calls (fun _ => True) (reassign x v missing) := by
  refine fun m => machine_bind_answersAt fun hm => ?_
  cases hx : m.scopes.assign? x v with
  | some scopes => exact fun _ => ⟨_, _, rfl, ⟨hm.scopes.assign? hv hx, hm.callDepth⟩, trivial⟩
  | none => exact hmissing m

/-- `Answers` is a `Guarantee` that all values are `Value.Plain`. Causes do not matter. -/
theorem answers_guarantee :
    Guarantee (Value.Plain levels) (fun _ => True) fun _ V e => Answers levels calls V e where
  data hv := hv.plain levels
  runtime _ := trivial
  pure := pure_answers
  fault line cause _ := fault_answers line cause
  bind := bind_answers
  machine hf m := hf m m
  note _ := change_answers fun _ hm => ⟨hm.scopes, hm.callDepth⟩
  acted _ _ := change_answers fun _ hm => ⟨hm.scopes, hm.callDepth⟩
  lookup line x _ := lookup_answers line x
  reassign := reassign_answers
  bindName _ _ hv := change_answers fun _ hm => ⟨hm.scopes.insert hv, hm.callDepth⟩

end Steps

/-! ### The rules -/

section Rules

variable {run : Evaluator} {n : Node}

theorem assignee_answers (target : Node) :
    Answers levels calls (fun _ => True) (assignee target) := by
  cases target with
  | ident line x => exact answers_guarantee.assignee_ident line trivial
  | declare t b => exact answers_guarantee.assignee_declare t b
  | _ => exact fault_answers _ _

theorem breakOut_answers (hbroke : Flow.Plain levels (Gives (Value.Plain levels)) .broke) :
    Answers levels calls (PlainResult levels) breakOut := by
  refine fun m => machine_bind_answersAt fun _ => ?_
  by_cases hloops : m.loopDepth = 0
  · rw [if_pos hloops]
    exact pure_answers gives_none m
  · rw [if_neg hloops]
    exact raise_answers hbroke m

/-- `Eval.block` answers if each of its nodes does. -/
theorem block_answers {b : Block}
    (hb : ∀ n ∈ b.nodes, Answers levels calls (PlainResult levels) (run n)) :
    Answers levels calls (PlainResult levels) (block run b) := by
  have hbody := inScope_answers (answers_guarantee.sequence hb gives_none)
  intro m hm
  obtain ⟨flow, n, hn, hplain, hflow⟩ := hbody m hm
  rw [block, observe_bind, hn]
  cases flow with
  | broke => exact breakOut_answers hflow n hplain
  | _ => exact raise_answers hflow n hplain

/-- `Eval.callFunction` refuses the call, or its body is evaluated inside of one more call. -/
theorem callFunction_answers {limit : Nat} (line : Nat) {f : Function} {args : List Node}
    (hargs : ∀ n ∈ args, Answers levels calls (PlainResult levels) (run n))
    (hbody : calls < limit →
      Answers levels (calls + 1) (PlainResult levels) (block run f.body)) :
    Answers levels calls (PlainResult levels) (callFunction run limit line f args) := by
  rw [callFunction]
  by_cases hlength : f.params.length ≠ args.length
  · rw [if_pos hlength]
    exact fault_answers _ _
  · rw [if_neg hlength]
    refine fun m => machine_bind_answersAt fun hm => ?_
    by_cases hlimit : limit ≤ m.callDepth
    · rw [if_pos hlimit]
      exact fault_answers _ _ m
    · rw [if_neg hlimit]
      -- the limit has been checked against what the machine counts, which is `calls`
      have hcalls : calls < limit := by
        rw [← hm.callDepth]
        exact Nat.lt_of_not_le hlimit
      refine bind_answersAt (answers_guarantee.arguments hargs m) fun vs hvs => ?_
      refine bind_answers (answers_guarantee.note _) fun _ _ k =>
        machine_bind_answersAt fun _ => ?_
      have hcalled := inScope_answers
        (bind_answers (answers_guarantee.bindAll f.params hvs) fun _ _ => hbody hcalls)
      refine around_answersAt ?_ hcalled ?_ fun flow hflow => ?_
      · exact fun hk => ⟨hk.scopes, congrArg (· + 1) hk.callDepth⟩
      · exact fun n hn => ⟨hn.scopes, congrArg (· - 1) hn.callDepth⟩
      · cases flow with
        | done v => exact pure_answers hflow
        | returned v => exact pure_answers hflow
        | broke => exact pure_answers gives_none
        | faulted => exact raise_answers trivial

/-- In `Eval.call` the body of a function may call one level less deep, which is where the
induction on calls comes in. -/
theorem call_answers {limit : Nat} (line : Nat) (callee : Node) {args : List Node}
    (hargs : ∀ n ∈ args, Answers levels calls (PlainResult levels) (run n))
    (hbody : ∀ f : Function, (∀ n ∈ f.body.nodes, n.Plain levels) → calls < limit →
      Answers levels (calls + 1) (PlainResult levels) (block run f.body)) :
    Answers levels calls (PlainResult levels) (call run limit line callee args) := by
  cases callee with
  | ident l x =>
    refine answers_guarantee.call limit line l trivial trivial (fun f hf => ?_) hargs
    exact callFunction_answers line hargs (hbody f hf)
  | _ => exact fault_answers _ _

end Rules

/-! ### Every tree -/

/-- A tree of `own` levels has an answer if there is fuel for its levels and, for each call that
may still be made, for those of a body. -/
theorem ofNode_answers {limit own : Nat} {n : Node} (hn : n.Plain own) (hown : own ≤ levels)
    {fuel : Nat} (hfuel : own + (limit - calls) * levels ≤ fuel) :
    Answers levels calls (PlainResult levels) (ofNode limit fuel n) := by
  induction fuel generalizing own calls n with
  | zero =>
    have hzero : own = 0 := by omega
    subst hzero
    exact hn.elim
  | succ fuel ih =>
    obtain ⟨own, rfl⟩ : ∃ k, own = k + 1 := by
      cases own with
      | zero => exact hn.elim
      | succ k => exact ⟨k, rfl⟩
    obtain ⟨hloop, hparts⟩ := hn
    have hpart : ∀ part ∈ n.parts,
        Answers levels calls (PlainResult levels) (ofNode limit fuel part.2) :=
      fun part hpart => ih (hparts part hpart) (by omega) (by omega)
    -- a body may have all levels, but it is evaluated with one call less to go
    have hbody : ∀ b : Block, (∀ n ∈ b.nodes, n.Plain levels) → calls < limit →
        Answers levels (calls + 1) (PlainResult levels) (block (ofNode limit fuel) b) := by
      intro b hb hcalls
      have hless : (limit - calls) * levels = (limit - (calls + 1)) * levels + levels := by
        rw [← Nat.succ_mul]
        congr 1
        omega
      exact block_answers fun n hn => ih (hb n hn) (Nat.le_refl _) (by omega)
    cases n with
    | integer | string | boolean => exact pure_answers (gives_some trivial)
    | ident line x =>
      exact bind_answers (lookup_answers line x) fun v hv => pure_answers (gives_some hv)
    | declare t b =>
      exact bind_answers (answers_guarantee.bindName _ trivial) fun _ _ =>
        pure_answers gives_none
    | assign line target value =>
      exact answers_guarantee.assign (assignee_answers target)
        (hpart (.assigned, value) (by simp [Node.parts]))
    | prefixed o right =>
      exact answers_guarantee.prefixed o (hpart (.operand, right) (by simp [Node.parts]))
    | infixed o left right =>
      exact answers_guarantee.infixed o (hpart (.left, left) (by simp [Node.parts]))
        (hpart (.right, right) (by simp [Node.parts]))
    | call line callee args =>
      refine call_answers line callee (fun n hn => ?_) fun f => hbody f.body
      exact hpart (.argument, n) (List.mem_cons_of_mem _ (List.mem_map_of_mem hn))
    | block b =>
      exact block_answers fun n hn => hpart (.statement, n) (List.mem_map_of_mem hn)
    | conditional line test b c =>
      refine answers_guarantee.conditional (hpart (.condition, test) List.mem_cons_self) ?_
        fun e he => ?_
      · refine block_answers fun n hn => hpart (.statement, n) (List.mem_cons_of_mem _ ?_)
        exact List.mem_append_left _ (List.mem_map_of_mem hn)
      · cases he
        refine block_answers fun n hn => hpart (.statement, n) (List.mem_cons_of_mem _ ?_)
        refine List.mem_append_right _ (List.mem_flatMap.mpr ⟨e, ?_, List.mem_map_of_mem hn⟩)
        exact List.mem_singleton_self e
    | loop => cases hloop
    | function line f params body =>
      refine answers_guarantee.function fun n hn => ?_
      exact (hparts (.statement, n) (List.mem_map_of_mem hn)).mono (by omega)
    | returning line value =>
      refine bind_answers (hpart (.returned, value) (by simp [Node.parts])) fun v hv => ?_
      exact raise_answers hv
    | breaking line => exact raise_answers trivial

/-! ### More fuel -/

/-- If the machine is `Machine.Plain`, then both evaluations have one and the same answer on it,
and the machine is so again. -/
def SettlesAt (levels calls : Nat) (V : α → Prop) (e e' : Eval α) (m : Machine) : Prop :=
  m.Plain levels calls → ∃ flow n, e m = some (flow, n) ∧ e' m = some (flow, n) ∧
    n.Plain levels calls ∧ flow.Plain levels V

/-- `SettlesAt` every machine. -/
def Settles (levels calls : Nat) (V : α → Prop) (e e' : Eval α) : Prop :=
  ∀ m, SettlesAt levels calls V e e' m

/-- With more fuel than a tree that is `Node.Plain` needs, `Eval.ofNode` has one and the same
answer. -/
theorem ofNode_settles {limit own : Nat} {n : Node} (hn : n.Plain own) (hown : own ≤ levels)
    {fuel fuel' : Nat} (hfuel : own + (limit - calls) * levels ≤ fuel)
    (hfuel' : own + (limit - calls) * levels ≤ fuel') :
    Settles levels calls (PlainResult levels) (ofNode limit fuel n) (ofNode limit fuel' n) := by
  intro m hm
  obtain ⟨flow, k, hk, hplain, hflow⟩ := ofNode_answers hn hown (Nat.le_refl _) m hm
  have hmore {fuel : Nat} (hle : own + (limit - calls) * levels ≤ fuel) :
      ofNode limit fuel n m = some (flow, k) := ((fuel_congruence limit).node hle n).answer hk
  exact ⟨flow, k, hmore hfuel, hmore hfuel', hplain, hflow⟩

end Eval

/-! ## Packages -/

/-- So has `evaluateNodes`, if each of the nodes has one. -/
theorem evaluateNodes_settles {limit levels : Nat} {ns : List Node}
    (hns : ∀ n ∈ ns, n.Plain levels) {fuel fuel' : Nat}
    (hfuel : levels + limit * levels ≤ fuel) (hfuel' : levels + limit * levels ≤ fuel')
    (package : String) (last : Option Value) {m : Machine}
    (hm : m.scopes.Stores (Value.Plain levels)) :
    ∃ value n, evaluateNodes limit fuel package last ns m = some (value, n) ∧
      evaluateNodes limit fuel' package last ns m = some (value, n) ∧
      n.scopes.Stores (Value.Plain levels) := by
  induction ns generalizing m last with
  | nil => exact ⟨last, m, rfl, rfl, hm⟩
  | cons node ns ih =>
    obtain ⟨hnode, hns⟩ := List.forall_mem_cons.mp hns
    -- calls that are counted already only make for fewer to come
    have hfewer : levels + (limit - m.callDepth) * levels ≤ levels + limit * levels :=
      Nat.add_le_add_left (Nat.mul_le_mul_right levels (Nat.sub_le limit m.callDepth)) levels
    have hnoted : (m.note (.evaluating package node.line)).Plain levels m.callDepth := ⟨hm, rfl⟩
    obtain ⟨flow, k, hk, hk', hplain, -⟩ := Eval.ofNode_settles hnode (Nat.le_refl _)
      (Nat.le_trans hfewer hfuel) (Nat.le_trans hfewer hfuel') _ hnoted
    rw [evaluateNodes, evaluateNodes, hk, hk']
    exact ih hns _ hplain.scopes

namespace Session

/-- If a package is `Loopless` and the session stores no function that is not, then
`Session.evaluate` ends, whatever functions call each other: all fuel beyond some amount leads
to one and the same answer. What the session stores then is `Value.Loopless` again. -/
theorem evaluate_terminates (s : Session) (hs : s.machine.scopes.Stores Value.Loopless)
    (p : Package) (hp : Loopless p.nodes) :
    ∃ e t, (∃ fuel, ∀ fuel', fuel ≤ fuel' → s.evaluate fuel' p = some (e, t)) ∧
      t.machine.scopes.Stores Value.Loopless := by
  obtain ⟨k, hk⟩ := hs.exists_plain
  obtain ⟨l, hl⟩ := hp.exists_plain
  -- one number of levels for what is stored and for what is evaluated
  have hscopes : s.machine.scopes.Stores (Value.Plain (max k l)) :=
    fun scope hscope e he => (hk scope hscope e he).mono (Nat.le_max_left k l)
  have hnodes : ∀ n ∈ p.nodes, n.Plain (max k l) :=
    fun n hn => (hl n hn).mono (Nat.le_max_right k l)
  obtain ⟨fuel, hfuel⟩ : ∃ fuel, max k l + s.config.maxCallDepth * max k l ≤ fuel :=
    ⟨_, Nat.le_refl _⟩
  obtain ⟨value, n, hn, -, hplain⟩ :=
    evaluateNodes_settles hnodes hfuel hfuel p.name none hscopes
  refine ⟨⟨value, n.errors⟩, { s with machine := { n with errors := [] } }, ⟨fuel, ?_⟩, ?_⟩
  · intro fuel' hle
    obtain ⟨value', n', hn', hanswer, -⟩ :=
      evaluateNodes_settles hnodes hfuel (Nat.le_trans hfuel hle) p.name none hscopes
    cases hn.symm.trans hn'
    rw [evaluate, Package.evaluate, hanswer]
  · exact fun scope hscope e he => (hplain scope hscope e he).loopless

/-- A function of the session and one of the package call each other, with no end but the
limit. -/
theorem evaluate_terminates_recursion :
    let g : Function := ⟨"g", [], ⟨1, [.call 1 (.ident 1 "f") []]⟩⟩
    let s : Session := ⟨⟨"main", 200⟩, { scopes := ⟨[("g", .function g)], []⟩ }⟩
    let p : Package := ⟨"main", [.function 1 ⟨1, "f"⟩ [] ⟨1, [.call 1 (.ident 1 "g") []]⟩,
      .call 2 (.ident 2 "f") []]⟩
    s.machine.scopes.Stores Value.Loopless ∧ Loopless p.nodes ∧
      ∃ e t, (∃ fuel, ∀ fuel', fuel ≤ fuel' → s.evaluate fuel' p = some (e, t)) ∧
        t.machine.scopes.Stores Value.Loopless := by
  intro g s p
  have hg : ∀ n ∈ g.body.nodes, n.Plain 2 := by decide
  have hp : ∀ n ∈ p.nodes, n.Plain 3 := by decide
  have hs : s.machine.scopes.Stores Value.Loopless := by
    intro scope hscope e he
    cases List.mem_singleton.mp hscope
    cases List.mem_singleton.mp he
    exact loopless_of_plain hg
  exact ⟨hs, loopless_of_plain hp, evaluate_terminates s hs p (loopless_of_plain hp)⟩

end Session
end ScriptLang
