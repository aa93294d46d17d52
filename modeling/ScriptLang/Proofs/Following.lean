import ScriptLang.Proofs.Likeness

/-!
# Evaluations that follow each other

Two machines are *alike* if they have the same host and the same counts and, but for lines, the
same bindings, and if the same causes have been reported behind those that each had begun with.
One evaluation *follows* another if it has an answer on a machine that is alike whenever the
other has one, and the answers are alike. An evaluation with more fuel follows one with less,
and neither the lines of a tree nor those of the functions it calls make a difference.

- `Machine.Alike`, `Flow.Alike`: machines and endings that are alike.
- `Eval.Follows`: one evaluation follows another, with a rule for each step of an evaluation.
- `Eval.ofNode_follows`: the evaluations of trees that agree but for lines follow each other.
- `evaluateNodes_follows`: the same for the nodes of a package.
-/

namespace ScriptLang

/-- The cause of each of the diagnostics `ds`. -/
def causes (ds : List Diagnostic) : List Cause := ds.map Diagnostic.cause

/-- The machines `m` and `m'` are alike: they differ by lines only. The causes `before` on
either side stand for those that the machines have begun with. -/
structure Machine.Alike (before : List Cause × List Cause) (m m' : Machine) : Prop where
  host : m.host = m'.host
  scopes : m.scopes.bare = m'.scopes.bare
  causes : before.1 ++ causes m.errors = before.2 ++ causes m'.errors
  loopDepth : m.loopDepth = m'.loopDepth
  callDepth : m.callDepth = m'.callDepth

/-- Endings that are alike, with values that `R` holds of. -/
inductive Flow.Alike {α : Type} (R : α → α → Prop) : Flow α → Flow α → Prop
  | done {a b : α} : R a b → Alike R (.done a) (.done b)
  | returned {v w : Option Value} : SameResult v w → Alike R (.returned v) (.returned w)
  | broke : Alike R .broke .broke
  | faulted : Alike R .faulted .faulted

/-- Whenever `e` has an answer on one machine, `e'` has one that is alike on every machine that
is alike. -/
def Eval.Follows {α : Type} (before : List Cause × List Cause) (R : α → α → Prop)
    (e e' : Eval α) : Prop :=
  ∀ m m', m.Alike before m' → ∀ flow n, e m = some (flow, n) →
    ∃ flow' n', e' m' = some (flow', n') ∧ flow.Alike R flow' ∧ n.Alike before n'

namespace Eval

variable {α β : Type} {before : List Cause × List Cause} {R : α → α → Prop} {S : β → β → Prop}
  {e e' : Eval α}

namespace Follows

protected theorem pure {a b : α} (h : R a b) : Follows before R (pure a) (pure b) := by
  rintro m m' hm _ _ ⟨⟩
  exact ⟨_, _, rfl, .done h, hm⟩

/-- To `raise` flows that are alike follows on both sides. -/
theorem raise {flow flow' : Flow α} (h : flow.Alike R flow') :
    Follows before R (raise flow) (raise flow') := by
  rintro m m' hm _ _ ⟨⟩
  exact ⟨_, _, rfl, h, hm⟩

/-- Nothing has to follow `outOfFuel`, which has no answer. -/
theorem outOfFuel : Follows before R outOfFuel e' := by
  rintro m m' hm flow n ⟨⟩

/-- `Follows` is kept by the monad, as every ending but `done` goes through `>>=`. -/
theorem bind {f f' : α → Eval β} (he : Follows before R e e')
    (hf : ∀ a b, R a b → Follows before S (f a) (f' b)) :
    Follows before S (e >>= f) (e' >>= f') := by
  intro m m' hm flow n h
  have h : Eval.bind e f m = some (flow, n) := h
  show ∃ flow' n', Eval.bind e' f' m' = some (flow', n') ∧ _
  rw [Eval.bind] at h ⊢
  rcases he' : e m with _ | ⟨ending, n₁⟩
  · rw [he'] at h
    cases h
  · obtain ⟨ending', n₂, he₂, hflow, hn⟩ := he m m' hm _ _ he'
    rw [he'] at h
    rw [he₂]
    cases hflow with
    | done hab => exact hf _ _ hab _ _ hn _ _ h
    | returned hv =>
      cases h
      exact ⟨_, _, rfl, .returned hv, hn⟩
    | broke =>
      cases h
      exact ⟨_, _, rfl, .broke, hn⟩
    | faulted =>
      cases h
      exact ⟨_, _, rfl, .faulted, hn⟩

/-- If evaluations follow each other, so do they under `observe`, with flows that are alike as
values. -/
theorem observe (he : Follows before R e e') :
    Follows before (Flow.Alike R) (observe e) (observe e') := by
  intro m m' hm flow n h
  rw [Eval.observe] at h ⊢
  rcases he' : e m with _ | ⟨ending, n₁⟩
  · rw [he'] at h
    cases h
  · obtain ⟨ending', n₂, he₂, hflow, hn⟩ := he m m' hm _ _ he'
    rw [he'] at h
    cases h
    rw [he₂]
    exact ⟨_, _, rfl, .done hflow, hn⟩

theorem machine : Follows before (Machine.Alike before) machine machine := by
  rintro m m' hm _ _ ⟨⟩
  exact ⟨_, _, rfl, .done hm, hm⟩

/-- To `change` both machines, if that leaves them alike. -/
theorem change {f f' : Machine → Machine}
    (h : ∀ m m', m.Alike before m' → (f m).Alike before (f' m')) :
    Follows before (fun _ _ => True) (change f) (change f') := by
  rintro m m' hm _ _ ⟨⟩
  exact ⟨_, _, rfl, .done trivial, h m m' hm⟩

theorem note {event event' : Event} :
    Follows before (fun _ _ => True) (note event) (note event') :=
  change fun _ _ hm => ⟨hm.host, hm.scopes, hm.causes, hm.loopDepth, hm.callDepth⟩

/-- The same `cause` may be reported at another line. -/
theorem fault (line line' : Nat) (cause : Cause) :
    Follows before R (fault line cause) (fault line' cause) := by
  rintro m m' hm _ _ ⟨⟩
  refine ⟨_, _, rfl, .faulted, hm.host, hm.scopes, ?_, hm.loopDepth, hm.callDepth⟩
  have happend : ∀ (l : Nat) (k : Machine),
      causes (k.report ⟨l, cause⟩).errors = causes k.errors ++ [cause] := by
    intro l k
    exact List.map_append
  rw [happend, happend, ← List.append_assoc, hm.causes, List.append_assoc]

theorem orFault {x : Except Cause α} (hr : ∀ a, R a a) (line line' : Nat) :
    Follows before R (orFault line x) (orFault line' x) := by
  cases x with
  | ok a => exact .pure (hr a)
  | error cause => exact .fault line line' cause

/-- To `bindName` values that differ by lines leaves the scopes alike. -/
theorem bindName {x : String} {v w : Value} (h : SameValue v w) :
    Follows before (fun _ _ => True) (bindName x v) (bindName x w) := by
  refine change fun m m' hm => ⟨hm.host, ?_, hm.causes, hm.loopDepth, hm.callDepth⟩
  rw [Scopes.insert_bare, Scopes.insert_bare, hm.scopes, h]

theorem nest : Follows before (fun _ _ => True) nest nest := by
  refine change fun m m' hm => ⟨hm.host, ?_, hm.causes, hm.loopDepth, hm.callDepth⟩
  show m.scopes.nest.bare = m'.scopes.nest.bare
  rw [Scopes.nest_bare, Scopes.nest_bare, hm.scopes]

theorem unnest : Follows before (fun _ _ => True) unnest unnest := by
  refine change fun m m' hm => ?_
  obtain ⟨journal, hclosed⟩ := m.closed_eq
  obtain ⟨journal', hclosed'⟩ := m'.closed_eq
  rw [hclosed, hclosed']
  refine ⟨hm.host, ?_, hm.causes, hm.loopDepth, hm.callDepth⟩
  rw [Scopes.unnest_bare, Scopes.unnest_bare, hm.scopes]

/-- Under `inScope` a scope is opened on both sides and closed again, however the evaluations
end. -/
theorem inScope (he : Follows before R e e') : Follows before R (inScope e) (inScope e') := by
  refine .bind nest fun _ _ _ => .bind (observe he) fun flow flow' hflow => ?_
  exact .bind unnest fun _ _ _ => .raise hflow

/-- A `lookup` finds values that differ by lines, or faults with the same cause, whatever the
lines it is done from. -/
theorem lookup (line line' : Nat) (x : String) :
    Follows before SameValue (lookup line x) (lookup line' x) := by
  refine .bind machine fun m m' hm => ?_
  have hget : (m.scopes.get? x).map Value.bare = (m'.scopes.get? x).map Value.bare := by
    rw [← Scopes.get?_bare, ← Scopes.get?_bare, hm.scopes]
  cases h : m.scopes.get? x with
  | none =>
    cases h' : m'.scopes.get? x with
    | none =>
      cases hb : Builtin.ofName? x with
      | none => exact .fault line line' _
      | some builtin => exact .pure rfl
    | some v' => simp [h, h'] at hget
  | some v =>
    cases h' : m'.scopes.get? x with
    | none => simp [h, h'] at hget
    | some v' =>
      rw [h, h'] at hget
      exact .pure (Option.some_inj.mp hget)

/-- To `Eval.reassign` values that differ by lines, with `missing` and `missing'` where the name
is not bound. -/
theorem reassign (x : String) {v w : Value} (h : SameValue v w) {missing missing' : Eval Unit}
    (hmissing : Follows before (fun _ _ => True) missing missing') :
    Follows before (fun _ _ => True) (Eval.reassign x v missing)
      (Eval.reassign x w missing') := by
  refine .bind machine fun m m' hm => ?_
  -- the scopes agree but for lines, so the name is bound in both or in neither
  have hstored :
      (m.scopes.assign? x v).map Scopes.bare = (m'.scopes.assign? x w).map Scopes.bare := by
    rw [← Scopes.assign?_bare, ← Scopes.assign?_bare, hm.scopes, h]
  cases ha : m.scopes.assign? x v with
  | none =>
    cases hb : m'.scopes.assign? x w with
    | none => exact hmissing
    | some scopes' => simp [ha, hb] at hstored
  | some scopes =>
    cases hb : m'.scopes.assign? x w with
    | none => simp [ha, hb] at hstored
    | some scopes' =>
      rw [ha, hb] at hstored
      exact change fun k k' hk =>
        ⟨hk.host, Option.some_inj.mp hstored, hk.causes, hk.loopDepth, hk.callDepth⟩

/-- To `act` on the host with values that differ by lines has the same effect and results that
differ by lines. -/
theorem act (line line' : Nat) (builtin : Builtin) {vs ws : List Value} (h : SameValues vs ws) :
    Follows before SameResult (act line builtin vs) (act line' builtin ws) := by
  refine .bind machine fun m m' hm => ?_
  have hreply : builtin.call vs m.host = builtin.call ws m'.host := by
    rw [← Builtin.call_bare, h, Builtin.call_bare, hm.host]
  rw [hreply]
  refine .bind (change fun k k' hk => ⟨rfl, hk.scopes, hk.causes, hk.loopDepth, hk.callDepth⟩)
    fun _ _ _ => orFault (R := SameResult) (fun _ => rfl) line line'

end Follows

/-! ## The rules follow each other -/

/-- The evaluator `run'` follows `run` on trees that agree but for lines. -/
def FollowsOn (before : List Cause × List Cause) (run run' : Evaluator) : Prop :=
  ∀ n n' : Node, n.bare = n'.bare → Follows before SameResult (run n) (run' n')

section Rules

variable {run run' : Evaluator} (hrun : FollowsOn before run run') {n n' : Node}

include hrun

/-- An `operand` has a value on both sides or on neither. -/
theorem operand_follows (h : n.bare = n'.bare) :
    Follows before SameValue (operand run n) (operand run' n') := by
  refine .bind (hrun n n' h) fun a b hab => ?_
  cases a with
  | none =>
    cases b with
    | none => exact .fault _ _ _
    | some b => cases hab
  | some a =>
    cases b with
    | none => cases hab
    | some b => exact .pure (Option.some_inj.mp hab)

/-- The result of `prefixed` is the same, since values that are alike behave alike under an
operator. -/
theorem prefixed_follows {o o' : Token} (ho : o.bare = o'.bare) (h : n.bare = n'.bare) :
    Follows before SameResult (prefixed run o n) (prefixed run' o' n') := by
  have hkind : o.kind = o'.kind := Token.kind_of_bare ho rfl
  refine .bind (operand_follows hrun h) fun v w hvw => ?_
  rw [hkind, ← v.prefixValue_bare, hvw, w.prefixValue_bare]
  exact .bind (.orFault (R := SameValue) (fun _ => rfl) _ _) fun a b hab =>
    .pure (congrArg some hab)

/-- So is the result of `infixed`. -/
theorem infixed_follows {o o' : Token} (ho : o.bare = o'.bare) {left left' : Node}
    (hl : left.bare = left'.bare) (h : n.bare = n'.bare) :
    Follows before SameResult (infixed run o left n) (infixed run' o' left' n') := by
  have hkind : o.kind = o'.kind := Token.kind_of_bare ho rfl
  refine .bind (operand_follows hrun hl) fun a a' ha => ?_
  refine .bind (operand_follows hrun h) fun b b' hb => ?_
  rw [hkind, ← Value.infixValue_bare, ha, hb, Value.infixValue_bare]
  exact .bind (.orFault (R := SameValue) (fun _ => rfl) _ _) fun a b hab =>
    .pure (congrArg some hab)

omit hrun in
/-- `assignee` names the same variable on both sides. -/
theorem assignee_follows (h : n.bare = n'.bare) :
    Follows before (· = ·) (assignee n) (assignee n') := by
  cases n with
  | ident line x =>
    cases n' with
    | ident line' y =>
      cases (Node.ident.inj h).2
      exact .bind (.lookup _ _ _) fun _ _ _ => .pure rfl
    | _ => simp at h
  | declare v b =>
    cases n' with
    | declare v' b' =>
      have hname : b.name = b'.name := congrArg (fun b => b.name) (Node.declare.inj h).2
      simp only [assignee, hname]
      exact .bind (.bindName rfl) fun _ _ _ => .pure rfl
    | _ => simp at h
  | _ => cases n' <;> first | exact .fault _ _ _ | simp at h

/-- `assign` gives the variable values that are alike. -/
theorem assign_follows {target target' : Node} (ht : target.bare = target'.bare)
    (h : n.bare = n'.bare) :
    Follows before SameResult (assign run target n) (assign run' target' n') := by
  refine .bind (assignee_follows ht) fun x _ hx => ?_
  subst hx
  refine .bind (hrun n n' h) fun a b hab => ?_
  exact .bind (.reassign x (SameResult.getD hab) .note) fun _ _ _ => .pure rfl

/-- `sequence` over rows of trees that differ by lines. -/
theorem sequence_follows {ns ns' : List Node} (h : ns.map Node.bare = ns'.map Node.bare)
    {last last' : Option Value} (hl : SameResult last last') :
    Follows before SameResult (sequence run last ns) (sequence run' last' ns') := by
  induction ns generalizing ns' last last' with
  | nil =>
    cases List.map_eq_nil_iff.mp h.symm
    exact .pure hl
  | cons n ns ih =>
    obtain ⟨n', ns', rfl, hn, hns⟩ := List.map_eq_cons_iff.mp h.symm
    exact .bind (hrun n n' hn.symm) fun _ _ hab => ih hns.symm hab

/-- `block` over blocks that differ by lines, each in a scope of its own. -/
theorem block_follows {b b' : Block} (h : b.bare = b'.bare) :
    Follows before SameResult (block run b) (block run' b') := by
  have hnodes : b.nodes.map Node.bare = b'.nodes.map Node.bare := by
    rw [← Block.nodes_bare, h, Block.nodes_bare]
  refine .bind (.observe (.inScope (sequence_follows hrun hnodes rfl))) fun flow flow' hflow =>
    ?_
  cases hflow with
  | done hv => exact .raise (.done hv)
  | returned hv => exact .raise (.returned hv)
  | faulted => exact .raise .faulted
  | broke =>
    refine .bind .machine fun m m' hm => ?_
    show Follows _ _ (if m.loopDepth = 0 then _ else _) (if m'.loopDepth = 0 then _ else _)
    rw [hm.loopDepth]
    split
    · exact .pure rfl
    · exact .raise .broke

theorem condition_follows (h : n.bare = n'.bare) :
    Follows before (· = ·) (condition run n) (condition run' n') := by
  refine .bind (hrun n n' h) fun a b hab => ?_
  rcases a with _ | _ | _ | _ | _ | _ | _ <;> rcases b with _ | _ | _ | _ | _ | _ | _ <;>
    first
    | exact .fault _ _ _
    | (simp only [SameResult, Option.map_some, Value.bare, Option.some.injEq,
        Value.boolean.injEq] at hab
       exact .pure hab)
    | simp [SameResult, Value.bare] at hab

/-- `conditional` takes the same branch on both sides. -/
theorem conditional_follows (h : n.bare = n'.bare) {b b' : Block} (hb : b.bare = b'.bare)
    {c c' : Option Block} (hc : c.map Block.bare = c'.map Block.bare) :
    Follows before SameResult (conditional run n b c) (conditional run' n' b' c') := by
  refine .bind (condition_follows hrun h) fun test _ htest => ?_
  subst htest
  cases test with
  | true => exact block_follows hrun hb
  | false =>
    cases c with
    | none =>
      cases Option.map_eq_none_iff.mp hc.symm
      exact .pure rfl
    | some c =>
      obtain ⟨c', rfl, hc'⟩ := Option.map_eq_some_iff.mp hc.symm
      exact block_follows hrun hc'.symm

theorem optional_follows {part part' : Option Node}
    (h : part.map Node.bare = part'.map Node.bare) :
    Follows before (fun _ _ => True) (optional run part) (optional run' part') := by
  cases part with
  | none =>
    cases Option.map_eq_none_iff.mp h.symm
    exact .pure trivial
  | some n =>
    obtain ⟨n', rfl, hn⟩ := Option.map_eq_some_iff.mp h.symm
    exact .bind (hrun n n' hn.symm) fun _ _ _ => .pure trivial

/-- A `loop` follows another one, if its `turns` do. -/
theorem loop_follows {turns turns' : Eval (Option Value)}
    (hturns : Follows before SameResult turns turns') {init init' : Option Node}
    (h : init.map Node.bare = init'.map Node.bare) :
    Follows before SameResult (loop run turns init) (loop run' turns' init') := by
  refine .bind (.change fun m m' hm =>
    ⟨hm.host, hm.scopes, hm.causes, congrArg (· + 1) hm.loopDepth, hm.callDepth⟩) fun _ _ _ =>
      ?_
  refine .bind (.observe (.inScope (.bind (optional_follows hrun h) fun _ _ _ => hturns)))
    fun flow flow' hflow => ?_
  exact .bind (.change fun m m' hm =>
    ⟨hm.host, hm.scopes, hm.causes, congrArg (· - 1) hm.loopDepth, hm.callDepth⟩)
    fun _ _ _ => .raise hflow

/-- `arguments` are evaluated one behind the other, to values that are alike. -/
theorem arguments_follows {ns ns' : List Node} (h : ns.map Node.bare = ns'.map Node.bare) :
    Follows before SameValues (arguments run ns) (arguments run' ns') := by
  induction ns generalizing ns' with
  | nil =>
    cases List.map_eq_nil_iff.mp h.symm
    exact .pure rfl
  | cons n ns ih =>
    obtain ⟨n', ns', rfl, hn, hns⟩ := List.map_eq_cons_iff.mp h.symm
    refine .bind (hrun n n' hn.symm) fun a b hab => .bind (ih hns.symm) fun vs ws hvs =>
      .pure ?_
    rw [SameValues, List.map_cons, List.map_cons, hvs, SameResult.getD hab]

omit hrun in
theorem bindAll_follows (xs : List String) {vs ws : List Value} (h : SameValues vs ws) :
    Follows before (fun _ _ => True) (bindAll xs vs) (bindAll xs ws) := by
  induction xs generalizing vs ws with
  | nil => exact .pure trivial
  | cons x xs ih =>
    cases vs with
    | nil =>
      cases List.map_eq_nil_iff.mp h.symm
      exact .pure trivial
    | cons v vs =>
      obtain ⟨w, ws, rfl, hv, hvs⟩ := List.map_eq_cons_iff.mp h.symm
      exact .bind (.bindName hv.symm) fun _ _ _ => ih hvs.symm

/-- `callFunction` on functions that differ by lines: they have the same parameters and alike
bodies, so arguments are bound alike and the bodies follow each other. -/
theorem callFunction_follows (limit line line' : Nat) {f f' : Function} 
    (hf : SameValue (.function f) (.function f')) {ns ns' : List Node}
    (h : ns.map Node.bare = ns'.map Node.bare) :
    Follows before SameResult (callFunction run limit line f ns)
      (callFunction run' limit line' f' ns') := by
  obtain ⟨name, params, body⟩ := f
  obtain ⟨name', params', body'⟩ := f'
  obtain ⟨rfl, rfl, hbody⟩ : name = name' ∧ params = params' ∧ body.bare = body'.bare := by
    simpa [SameValue, Value.bare] using hf
  have hlength : ns.length = ns'.length := by simpa using congrArg List.length h
  rw [callFunction, callFunction, hlength]
  split
  · exact .fault _ _ _
  · refine .bind .machine fun m m' hm => ?_
    show Follows _ _ (if limit ≤ m.callDepth then _ else _)
      (if limit ≤ m'.callDepth then _ else _)
    rw [hm.callDepth]
    split
    · exact .fault _ _ _
    · refine .bind (arguments_follows hrun h) fun vs ws hvs => ?_
      refine .bind .note fun _ _ _ => .bind .machine fun k k' hk => ?_
      -- the callers count the same loops, and that many are put back behind the body
      rw [hk.loopDepth]
      refine .bind (.change fun m m' hm =>
        ⟨hm.host, hm.scopes, hm.causes, rfl, congrArg (· + 1) hm.callDepth⟩) fun _ _ _ => ?_
      refine .bind (.observe (.inScope (.bind (bindAll_follows params hvs)
        fun _ _ _ => block_follows hrun hbody))) fun flow flow' hflow => ?_
      refine .bind (.change fun m m' hm =>
        ⟨hm.host, hm.scopes, hm.causes, rfl, congrArg (· - 1) hm.callDepth⟩) fun _ _ _ => ?_
      cases hflow with
      | done hv => exact .pure hv
      | returned hv => exact .pure hv
      | broke => exact .pure rfl
      | faulted => exact .raise .faulted

omit hrun in
/-- `writeBack` stores the result of a builtin in the variable of the same name. -/
theorem writeBack_follows {ns ns' : List Node} (h : ns.map Node.bare = ns'.map Node.bare)
    {a b : Option Value} (hab : SameResult a b) :
    Follows before (fun _ _ => True) (writeBack ns a) (writeBack ns' b) := by
  cases ns with
  | nil =>
    cases List.map_eq_nil_iff.mp h.symm
    exact .pure trivial
  | cons n ns =>
    obtain ⟨n', ns', rfl, hn, -⟩ := List.map_eq_cons_iff.mp h.symm
    cases n with
    | ident l x =>
      cases n' with
      | ident l' y =>
        cases (Node.ident.inj hn).2
        cases a with
        | none =>
          cases b with
          | none => exact .pure trivial
          | some w => cases hab
        | some v =>
          cases b with
          | none => cases hab
          | some w => exact .reassign x (Option.some_inj.mp hab) (.pure trivial)
      | _ => simp at hn
    | _ => cases n' <;> first | exact .pure trivial | simp at hn

/-- A builtin acts alike by `Follows.act` on arguments that are alike. -/
theorem callBuiltin_follows (line line' : Nat) (builtin : Builtin) {ns ns' : List Node}
    (h : ns.map Node.bare = ns'.map Node.bare) :
    Follows before SameResult (callBuiltin run line builtin ns)
      (callBuiltin run' line' builtin ns') := by
  have hlength : ns.length = ns'.length := by simpa using congrArg List.length h
  rw [callBuiltin, callBuiltin, hlength]
  split
  · exact .fault _ _ _
  · refine .bind (arguments_follows hrun h) fun vs ws hvs => .bind .note fun _ _ _ => ?_
    refine .bind (.act line line' builtin hvs) fun a b hab => ?_
    split
    · exact .bind (writeBack_follows h hab) fun _ _ _ => .pure hab
    · exact .pure hab

/-- `call` finds values that are alike, so either call is of the same builtin, of functions that
are alike, or a fault. -/
theorem call_follows (limit line line' : Nat) (h : n.bare = n'.bare) {ns ns' : List Node}
    (hns : ns.map Node.bare = ns'.map Node.bare) :
    Follows before SameResult (call run limit line n ns) (call run' limit line' n' ns') := by
  -- what cannot be called is printed alike
  have hother : Follows (α := Option Value) before SameResult
      (fault line (.notCallable n.text)) (fault line' (.notCallable n'.text)) := by
    have htext : n.text = n'.text := by
      rw [Node.text, Node.text, ← n.print_relined fun _ => 0, ← n'.print_relined fun _ => 0]
      exact congrArg (fun n => String.ofList n.print) h
    rw [htext]
    exact .fault _ _ _
  cases n with
  | ident l x =>
    cases n' with
    | ident l' y =>
      cases (Node.ident.inj h).2
      refine .bind (.lookup _ _ _) fun v w hvw => ?_
      cases v with
      | function f =>
        cases w with
        | function f' => exact callFunction_follows hrun limit line line' hvw hns
        | _ => cases hvw
      | builtin b =>
        cases w with
        | builtin b' =>
          cases hvw
          exact callBuiltin_follows hrun line line' b hns
        | _ => cases hvw
      | _ => cases w <;> first | exact .fault _ _ _ | cases hvw
    | _ => simp at h
  | _ => cases n' <;> first | exact hother | simp at h

omit hrun in
/-- `function` binds functions that are alike. -/
theorem function_follows {b b' : Binder} (hb : b.bare = b'.bare) {bs bs' : List Binder}
    (hbs : bs.map Binder.bare = bs'.map Binder.bare) {body body' : Block}
    (h : body.bare = body'.bare) :
    Follows before SameResult (function b bs body) (function b' bs' body') := by
  have hname : b.name = b'.name := congrArg (fun b => b.name) hb
  have hnames : bs.map (·.name) = bs'.map (·.name) := by
    simpa [Function.comp_def, Binder.bare, Binder.relined] using
      congrArg (List.map fun b => b.name) hbs
  rw [function, function, hname, hnames]
  refine .bind .note fun _ _ _ => .bind (.bindName ?_) fun _ _ _ => .pure rfl
  rw [SameValue, Value.bare, Value.bare, h]

end Rules

/-! ## Trees follow each other -/

/-- The `turns` of loops that agree but for lines follow each other. -/
def TurnsFollow (before : List Cause × List Cause) (limit fuel fuel' : Nat) : Prop :=
  ∀ test test' step step' body body', test.bare = test'.bare →
    step.map Node.bare = step'.map Node.bare → body.bare = body'.bare →
    Follows before SameResult (turns limit fuel test step body)
      (turns limit fuel' test' step' body')

section Step

variable {limit fuel fuel' : Nat}
  (hrun : FollowsOn before (ofNode limit fuel) (ofNode limit fuel'))
  (hturns : TurnsFollow before limit fuel fuel')

include hrun hturns

/-- `FollowsOn`, one unit of fuel up: trees that are equal but for lines have the same
constructor. -/
theorem ofNode_follows_step :
    FollowsOn before (ofNode limit (fuel + 1)) (ofNode limit (fuel' + 1)) := by
  intro n n' h
  -- nodes that agree but for lines are made by the same constructor
  cases n with
  | integer t v =>
    cases n' with
    | integer t' v' =>
      cases (Node.integer.inj h).2
      exact .pure rfl
    | _ => simp at h
  | string l v =>
    cases n' with
    | string l' v' =>
      cases (Node.string.inj h).2
      exact .pure rfl
    | _ => simp at h
  | boolean l v =>
    cases n' with
    | boolean l' v' =>
      cases (Node.boolean.inj h).2
      exact .pure rfl
    | _ => simp at h
  | ident l x =>
    cases n' with
    | ident l' x' =>
      cases (Node.ident.inj h).2
      exact .bind (.lookup _ _ _) fun v w hvw => .pure (congrArg some hvw)
    | _ => simp at h
  | declare t b =>
    cases n' with
    | declare t' b' =>
      have hname : b.name = b'.name := congrArg (fun b => b.name) (Node.declare.inj h).2
      show Follows _ _ (bindName b.name .null >>= _) (bindName b'.name .null >>= _)
      rw [hname]
      exact .bind (.bindName rfl) fun _ _ _ => .pure rfl
    | _ => simp at h
  | assign l target value =>
    cases n' with
    | assign l' target' value' =>
      obtain ⟨-, ht, hv⟩ := Node.assign.inj h
      exact assign_follows hrun ht hv
    | _ => simp at h
  | prefixed o right =>
    cases n' with
    | prefixed o' right' =>
      obtain ⟨ho, hr⟩ := Node.prefixed.inj h
      exact prefixed_follows hrun ho hr
    | _ => simp at h
  | infixed o left right =>
    cases n' with
    | infixed o' left' right' =>
      obtain ⟨ho, hl, hr⟩ := Node.infixed.inj h
      exact infixed_follows hrun ho hl hr
    | _ => simp at h
  | call l callee args =>
    cases n' with
    | call l' callee' args' =>
      rw [Node.bare_call, Node.bare_call] at h
      obtain ⟨-, hc, ha⟩ := Node.call.inj h
      exact call_follows hrun limit l l' hc ha
    | _ => simp at h
  | block b =>
    cases n' with
    | block b' => exact block_follows hrun (Node.block.inj h)
    | _ => simp at h
  | conditional l test b c =>
    cases n' with
    | conditional l' test' b' c' =>
      rw [Node.bare_conditional, Node.bare_conditional] at h
      obtain ⟨-, ht, hb, hc⟩ := Node.conditional.inj h
      exact conditional_follows hrun ht hb hc
    | _ => simp at h
  | loop l init test step body =>
    cases n' with
    | loop l' init' test' step' body' =>
      rw [Node.bare_loop, Node.bare_loop] at h
      obtain ⟨-, hi, ht, hs, hb⟩ := Node.loop.inj h
      exact loop_follows hrun (hturns _ _ _ _ _ _ ht hs hb) hi
    | _ => simp at h
  | function l b bs body =>
    cases n' with
    | function l' b' bs' body' =>
      obtain ⟨-, hb, hbs, hbody⟩ := Node.function.inj h
      exact function_follows hb hbs hbody
    | _ => simp at h
  | returning l value =>
    cases n' with
    | returning l' value' =>
      exact .bind (hrun _ _ (Node.returning.inj h).2) fun a b hab => .raise (.returned hab)
    | _ => simp at h
  | breaking l =>
    cases n' with
    | breaking l' => exact .raise .broke
    | _ => simp at h

/-- `TurnsFollow`, one unit of fuel up. -/
theorem turns_follow_step : TurnsFollow before limit (fuel + 1) (fuel' + 1) := by
  intro test test' step step' body body' ht hs hb
  refine .bind (condition_follows hrun ht) fun go _ hgo => ?_
  subst hgo
  cases go with
  | false => exact .pure rfl
  | true =>
    refine .bind (.observe (block_follows hrun hb)) fun flow flow' hflow => ?_
    cases hflow with
    | done => exact .bind (optional_follows hrun hs) fun _ _ _ => hturns _ _ _ _ _ _ ht hs hb
    | returned hv => exact .raise (.returned hv)
    | broke => exact .pure rfl
    | faulted => exact .raise .faulted

end Step

/-- `ofNode` with no less fuel, on a tree that agrees but for lines, comes to what is alike. -/
theorem ofNode_follows (before : List Cause × List Cause) (limit : Nat) {fuel fuel' : Nat}
    (hle : fuel ≤ fuel') : FollowsOn before (ofNode limit fuel) (ofNode limit fuel') := by
  have both : FollowsOn before (ofNode limit fuel) (ofNode limit fuel') ∧
      TurnsFollow before limit fuel fuel' := by
    induction fuel generalizing fuel' with
    | zero => exact ⟨fun _ _ _ => .outOfFuel, fun _ _ _ _ _ _ _ _ _ => .outOfFuel⟩
    | succ fuel ih =>
      cases fuel' with
      | zero => exact absurd hle (Nat.not_succ_le_zero fuel)
      | succ fuel' =>
        obtain ⟨hrun, hturns⟩ := ih (Nat.le_of_succ_le_succ hle)
        exact ⟨ofNode_follows_step hrun hturns, turns_follow_step hrun hturns⟩
  exact both.1

end Eval

/-! ## Packages follow each other -/

/-- `evaluateNodes` with no less fuel, on nodes that agree but for lines, comes to what is
alike. -/
theorem evaluateNodes_follows {before : List Cause × List Cause} (limit : Nat)
    {fuel fuel' : Nat} (hle : fuel ≤ fuel') (package package' : String) {ns ns' : List Node}
    (h : ns.map Node.bare = ns'.map Node.bare) {last last' : Option Value}
    (hl : SameResult last last') {m m' : Machine} (hm : m.Alike before m') {v : Option Value}
    {k : Machine} (hv : evaluateNodes limit fuel package last ns m = some (v, k)) :
    ∃ v' k', evaluateNodes limit fuel' package' last' ns' m' = some (v', k') ∧ SameResult v v' ∧
      k.Alike before k' := by
  induction ns generalizing ns' last last' m m' with
  | nil =>
    cases List.map_eq_nil_iff.mp h.symm
    cases hv
    exact ⟨_, _, rfl, hl, hm⟩
  | cons n ns ih =>
    obtain ⟨n', ns', rfl, hn, hns⟩ := List.map_eq_cons_iff.mp h.symm
    rw [evaluateNodes] at hv ⊢
    have hnoted : (m.note (.evaluating package n.line)).Alike before
        (m'.note (.evaluating package' n'.line)) :=
      ⟨hm.host, hm.scopes, hm.causes, hm.loopDepth, hm.callDepth⟩
    rcases he : Eval.ofNode limit fuel n (m.note (.evaluating package n.line)) with
      _ | ⟨flow, m₁⟩ <;> rw [he] at hv
    · cases hv
    · obtain ⟨flow', m₁', he', hflow, hm₁⟩ :=
        Eval.ofNode_follows before limit hle n n' hn.symm _ _ hnoted _ _ he
      rw [he']
      -- a node that breaks or faults has no value, and the two do so together
      have houtcome : SameResult flow.outcome flow'.outcome := by
        cases hflow with
        | done hr => exact hr
        | returned hr => exact hr
        | broke => rfl
        | faulted => rfl
      have hreset : Machine.Alike before { m₁ with loopDepth := 0, callDepth := 0 }
          { m₁' with loopDepth := 0, callDepth := 0 } :=
        ⟨hm₁.host, hm₁.scopes, hm₁.causes, rfl, rfl⟩
      exact ih hns.symm houtcome hreset hv

end ScriptLang
