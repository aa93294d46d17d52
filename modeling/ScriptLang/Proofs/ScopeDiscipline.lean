import ScriptLang.Proofs.Canonical
import ScriptLang.Proofs.Keeping
import ScriptLang.Proofs.Running

/-!
# Scopes behind an evaluation

However an evaluation ends, it leaves the scopes that it found: there are as many of them, those
around the current one bind the names that they bound before, in the same order, and the current
one may bind more. An expression without a declaration binds no name in any scope. So a call may
change the bindings that its caller has, but adds none, and between runs there is nothing but
the root scope.

- `Scopes.SameNames`, `Scopes.Grow`: scopes before and behind.
- `Node.IsExpression`: the expressions without declarations; `Formed.isExpression` says that
  they are what the parser gives where a value is expected.
- `Eval.ofNode_grow`, `Eval.ofNode_sameNames`: what any node, and what an expression does to
  scopes.
- `Session.keeps_scopes`: both of them, for nodes, and the scopes that a session has.
-/

namespace ScriptLang

/-! ## Scopes before and behind -/

namespace Scopes

/-- `Table.keys` is the same for each of the scopes. -/
structure SameNames (s t : Scopes) : Prop where
  current : t.current.keys = s.current.keys
  enclosing : t.enclosing.map Table.keys = s.enclosing.map Table.keys

/-- `Table.keys` is the same for each of the scopes, but for new ones in the current scope. -/
structure Grow (s t : Scopes) : Prop where
  current : s.current.keys <+: t.current.keys
  enclosing : t.enclosing.map Table.keys = s.enclosing.map Table.keys

variable {s t u : Scopes} {x : String} {v : Value}

theorem SameNames.trans (h : SameNames s t) (h' : SameNames t u) : SameNames s u :=
  ⟨h'.current.trans h.current, h'.enclosing.trans h.enclosing⟩

/-- `SameNames` is `Grow` without new names. -/
theorem SameNames.grow (h : SameNames s t) : Grow s t :=
  ⟨h.current ▸ List.prefix_refl _, h.enclosing⟩

theorem Grow.trans (h : Grow s t) (h' : Grow t u) : Grow s u :=
  ⟨h.current.trans h'.current, h'.enclosing.trans h.enclosing⟩

/-- `Scopes.depth` stays, since there are as many enclosing scopes as before. -/
theorem Grow.depth (h : Grow s t) : t.depth = s.depth := by
  have hlength := congrArg List.length h.enclosing
  rw [List.length_map, List.length_map] at hlength
  exact congrArg (· + 1) hlength

/-- What has come by `Grow` in a scope of its own is gone when the scope is closed. -/
theorem Grow.unnest (h : Grow s.nest t) : SameNames s t.unnest := by
  obtain ⟨current, enclosing⟩ := t
  obtain ⟨scope, scopes, rfl, hscope, hscopes⟩ := List.map_eq_cons_iff.mp h.enclosing
  exact ⟨hscope, hscopes⟩

theorem grow_insert (s : Scopes) (x : String) (v : Value) : Grow s (s.insert x v) := by
  refine ⟨?_, rfl⟩
  show s.current.keys <+: (s.current.set x v).keys
  rw [Table.keys_set]
  split
  · exact List.prefix_refl _
  · exact List.prefix_append _ _

/-- `Table.set` replaces a binding that is there, so the names stay. -/
theorem keys_set_of_has {scope : Scope} (h : scope.has x) :
    (scope.set x v).keys = scope.keys := by
  rw [Table.keys_set, if_pos h]

/-- So they do in all scopes behind `update?`. -/
theorem keys_update? {scopes scopes' : List Scope} (h : update? x v scopes = some scopes') :
    scopes'.map Table.keys = scopes.map Table.keys := by
  induction scopes generalizing scopes' with
  | nil => cases h
  | cons scope scopes ih =>
    rw [update?] at h
    by_cases hx : scope.has x
    · rw [if_pos hx] at h
      cases h
      exact List.cons_eq_cons.mpr ⟨keys_set_of_has hx, rfl⟩
    · rw [if_neg hx] at h
      obtain ⟨rest, hrest, rfl⟩ := Option.map_eq_some_iff.mp h
      exact List.cons_eq_cons.mpr ⟨rfl, ih hrest⟩

/-- `assign?` binds no name. -/
theorem sameNames_of_assign? (h : s.assign? x v = some t) : SameNames s t := by
  rw [assign?] at h
  by_cases hx : s.current.has x
  · rw [if_pos hx] at h
    cases h
    exact ⟨keys_set_of_has hx, rfl⟩
  · rw [if_neg hx] at h
    obtain ⟨enclosing, hupdate, rfl⟩ := Option.map_eq_some_iff.mp h
    exact ⟨rfl, keys_update? hupdate⟩

end Scopes

/-- `Scopes.Grow` from one machine to the other. -/
def Machine.Grow (m n : Machine) : Prop := m.scopes.Grow n.scopes

/-- `Scopes.SameNames` on both machines. -/
def Machine.SameNames (m n : Machine) : Prop := m.scopes.SameNames n.scopes

/-- `Machine.Grow` is `Stable` under all that evaluation does. -/
theorem stable_grow : Stable Machine.Grow Machine.Grow where
  refl _ := ⟨List.prefix_refl _, rfl⟩
  trans h h' := Scopes.Grow.trans h h'
  beforeFault h h' := Scopes.Grow.trans h h'
  behindFault h h' := Scopes.Grow.trans h h'
  noted _ _ := ⟨List.prefix_refl _, rfl⟩
  reported _ _ := ⟨List.prefix_refl _, rfl⟩
  assigned h := (Scopes.sameNames_of_assign? h).grow
  acted _ _ _ := ⟨List.prefix_refl _, rfl⟩
  scope _ _ := ⟨fun h => (Scopes.Grow.unnest h).grow, fun h => (Scopes.Grow.unnest h).grow⟩
  loop _ _ := ⟨id, id⟩
  call _ _ := ⟨id, id⟩

theorem binds_grow : Binds Machine.Grow := fun m x v => Scopes.grow_insert m.scopes x v

/-- `Machine.SameNames` is `Stable`, though it does not hold of binding names. -/
theorem stable_sameNames : Stable Machine.SameNames Machine.SameNames where
  refl _ := ⟨rfl, rfl⟩
  trans h h' := Scopes.SameNames.trans h h'
  beforeFault h h' := Scopes.SameNames.trans h h'
  behindFault h h' := Scopes.SameNames.trans h h'
  noted _ _ := ⟨rfl, rfl⟩
  reported _ _ := ⟨rfl, rfl⟩
  assigned h := Scopes.sameNames_of_assign? h
  acted _ _ _ := ⟨rfl, rfl⟩
  scope _ _ :=
    ⟨fun h => (Scopes.SameNames.grow h).unnest, fun h => (Scopes.SameNames.grow h).unnest⟩
  loop _ _ := ⟨id, id⟩
  call _ _ := ⟨id, id⟩

/-! ## Expressions -/

/-- The expressions without declarations. Only the body of a function that they call declares
anything. -/
inductive Node.IsExpression : Node → Prop
  | integer {t : Token} {v : Int64} : IsExpression (.integer t v)
  | string {line : Nat} {s : String} : IsExpression (.string line s)
  | boolean {line : Nat} {b : Bool} : IsExpression (.boolean line b)
  | ident {line : Nat} {x : String} : IsExpression (.ident line x)
  | prefixed {o : Token} {n : Node} : IsExpression n → IsExpression (.prefixed o n)
  | infixed {o : Token} {left right : Node} :
      IsExpression left → IsExpression right → IsExpression (.infixed o left right)
  | call {line : Nat} {callee : Node} {args : List Node} :
      (∀ n ∈ args, IsExpression n) → IsExpression (.call line callee args)
  | assign {line l : Nat} {x : String} {n : Node} :
      IsExpression n → IsExpression (.assign line (.ident l x) n)

/-- Where a value is expected, what is `Formed` is `Node.IsExpression`. -/
theorem Formed.isExpression {r : Rigor} {d : Nat} {p : Place} {n : Node} (h : Formed r d p n)
    (hp : p = .operand ∨ p = .assigned ∨ p = .value) : n.IsExpression := by
  have hallows : ∀ q, r.Allows q → q = .operand ∨ q = .assigned ∨ q = .value := by
    rintro q (rfl | ⟨rfl, -⟩)
    · exact .inl rfl
    · exact .inr (.inl rfl)
  induction h with
  | integer => exact .integer
  | string => exact .string
  | boolean => exact .boolean
  | ident => exact .ident
  | call _ _ ih => exact .call fun n hn => ih n hn (.inr (.inr rfl))
  | prefixed _ _ hq _ ih => exact .prefixed (ih (hallows _ hq))
  | infixed _ _ hq _ hq' _ ihl ihr => exact .infixed (ihl (hallows _ hq)) (ihr (hallows _ hq'))
  | assign _ _ ih => exact .assign (ih (.inr (.inr rfl)))
  | operandValue _ ih => exact ih (.inl rfl)
  | assignedValue _ ih => exact ih (.inr (.inl rfl))
  | _ => simp at hp

namespace Eval

/-- `Eval.ofNode` `Keeps` `Machine.Grow`, however it ends. -/
theorem ofNode_grow (limit fuel : Nat) (n : Node) :
    Keeps Machine.Grow Machine.Grow (ofNode limit fuel n) :=
  ofNode_keeps stable_grow binds_grow limit fuel n

/-- What `Keeps` `Machine.Grow` binds names in the current scope at most, so `Eval.inScope` of
it keeps the `SameNames`. -/
theorem inScope_sameNames {α : Type} {e : Eval α} (he : Keeps Machine.Grow Machine.Grow e) :
    Keeps Machine.SameNames Machine.SameNames (inScope e) := by
  intro m flow n hn
  rw [Flow.moves_self]
  have hn :
      (observe e >>= fun flow => unnest >>= fun _ => raise flow) m.nested = some (flow, n) := hn
  rw [observe_bind] at hn
  rcases hm : e m.nested with _ | ⟨ending, k⟩ <;> rw [hm] at hn
  · cases hn
  · have hn : some (ending, k.closed) = some (flow, n) := hn
    cases hn
    show m.scopes.SameNames k.closed.scopes
    rw [Machine.closed_scopes]
    exact Scopes.Grow.unnest (Flow.moves_self.mp (he _ _ k hm))

/-- `Eval.ofNode` of an expression `Keeps` the `SameNames`, however it ends. -/
theorem ofNode_sameNames (limit fuel : Nat) {n : Node} (hn : n.IsExpression) :
    Keeps Machine.SameNames Machine.SameNames (ofNode limit fuel n) := by
  have h := stable_sameNames
  induction fuel generalizing n with
  | zero => exact fun _ => .outOfFuel
  | succ fuel ih =>
    cases hn with
    | integer | string | boolean => exact pure_keeps h _
    | ident => exact bind_keeps h (lookup_keeps h _ _) fun _ => pure_keeps h _
    | prefixed hn => exact prefixed_keeps h _ (ih hn)
    | infixed hl hr => exact infixed_keeps h _ (ih hl) (ih hr)
    | assign hn => exact assign_keeps h (assignee_ident_keeps h _ _) (ih hn)
    | call hargs =>
      -- the body of a function may bind names, but in a scope of its own
      refine call_keeps h limit _ _ (fun n hn => ih (hargs n hn)) fun f vs =>
        inScope_sameNames ?_
      exact bind_keeps stable_grow (bindAll_keeps stable_grow binds_grow _ vs) fun _ =>
        block_keeps stable_grow fun n _ => ofNode_grow limit fuel n

end Eval

/-! ## Sessions -/

namespace Session

/-- Whatever a session `Leads` to, there is the root scope only. -/
theorem enclosing_of_leads {allowed : Package → Prop}
    (hallowed : ∀ name source journal, allowed (Package.parse name source journal).1.package)
    {s t : Session} (h : Leads allowed s t) (hs : s.machine.scopes.enclosing = []) :
    t.machine.scopes.enclosing = [] := by
  refine h.preserves (I := fun s => s.machine.scopes.enclosing = []) hallowed
    (fun _ _ hs => hs) ?_ hs
  rintro s fuel p e t - hs he
  rw [evaluate, Package.evaluate] at he
  rcases hn : evaluateNodes s.config.maxCallDepth fuel p.name none p.nodes s.machine with
    _ | ⟨value, m⟩ <;> rw [hn] at he
  · cases he
  · cases he
    have hgrow :=
      evaluateNodes_keeps stable_grow binds_grow (fun _ => ⟨List.prefix_refl _, rfl⟩) hn
    have hempty := hgrow.enclosing
    rw [hs] at hempty
    exact List.map_eq_nil_iff.mp hempty

/-- However `Eval.ofNode` ends, `Scopes.depth` is what it was, the enclosing scopes bind the
same names, and the current one binds the names it bound before, in front of those that are new,
of which there are none if `Node.IsExpression` holds of the node. So whatever a session goes
through, only the root scope is left. -/
theorem keeps_scopes :
    (∀ limit fuel n m flow k, Eval.ofNode limit fuel n m = some (flow, k) →
      k.scopes.depth = m.scopes.depth ∧
      k.scopes.enclosing.map Table.keys = m.scopes.enclosing.map Table.keys ∧
      m.scopes.current.keys <+: k.scopes.current.keys ∧
      (n.IsExpression → k.scopes.current.keys = m.scopes.current.keys)) ∧
    ∀ config host t, Leads (fun _ => True) (fresh config host) t →
      t.machine.scopes.enclosing = [] := by
  constructor
  · intro limit fuel n m flow k hk
    have hgrow : m.scopes.Grow k.scopes :=
      Flow.moves_self.mp (Eval.ofNode_grow limit fuel n m flow k hk)
    refine ⟨hgrow.depth, hgrow.enclosing, hgrow.current, fun hn => ?_⟩
    have hsame : m.scopes.SameNames k.scopes :=
      Flow.moves_self.mp (Eval.ofNode_sameNames limit fuel hn m flow k hk)
    exact hsame.current
  · intro config host t ht
    exact enclosing_of_leads (fun _ _ _ => trivial) ht rfl

/-- A function whose body declares a name and returns out of a block. -/
theorem keeps_scopes_call :
    let f : Function := ⟨"f", ["x"], ⟨1, [.declare (.ofKind .kwVar 1) ⟨1, "y"⟩,
      .block ⟨1, [.returning 1 (.ident 1 "x")]⟩]⟩⟩
    let m : Machine := { scopes := ⟨[("a", .null)], [[("f", .function f)]]⟩ }
    let n : Node := .call 1 (.ident 1 "f") [.assign 1 (.ident 1 "a") (.boolean 1 true)]
    n.IsExpression ∧
      (∃ flow k, Eval.ofNode 1 9 n m = some (flow, k) ∧ k.scopes.depth = m.scopes.depth ∧
        k.scopes.enclosing.map Table.keys = m.scopes.enclosing.map Table.keys ∧
        m.scopes.current.keys <+: k.scopes.current.keys ∧
        k.scopes.current.keys = m.scopes.current.keys) ∧
      ∃ t, Leads (fun _ => True) (fresh {} {}) t ∧ t.machine.scopes.enclosing = [] := by
  intro f m n
  have hn : n.IsExpression := by
    refine .call fun arg harg => ?_
    rw [List.mem_singleton.mp harg]
    exact .assign .boolean
  refine ⟨hn, ?_, ?_⟩
  · obtain ⟨flow, k, hk⟩ : ∃ flow k, Eval.ofNode 1 9 n m = some (flow, k) := ⟨_, _, rfl⟩
    obtain ⟨hdepth, henclosing, hcurrent, hsame⟩ := keeps_scopes.1 1 9 n m flow k hk
    exact ⟨flow, k, hk, hdepth, henclosing, hcurrent, hsame hn⟩
  · have hstep : Leads (fun _ => True) (fresh {} {}) ((fresh {} {}).parse "var a;").2 :=
      .single (.parse _ _)
    exact ⟨_, hstep, keeps_scopes.2 {} {} _ hstep⟩

end Session
end ScriptLang
