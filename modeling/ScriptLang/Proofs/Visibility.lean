import ScriptLang.Proofs.Correspondence

/-!
# What is hidden does not matter

A name means its innermost binding. Whether there are other bindings of it further out, how many
scopes there are, and which of them are empty makes no difference to an evaluation: on two
machines whose names mean the same it ends in the same way or on neither, and names mean the
same again behind it.

That names mean the same is not enough to go on with once a scope has been opened. An assignment
that reaches an inner scope on one side and an outer one on the other side would come apart when
the inner scope is closed. So of the scopes that were opened in the meantime each has to bind
the same names to the same values as its counterpart, and only below them it is enough that
names mean the same. This holds at first, when none has been opened, and every evaluation keeps
it.

- `Machine.SameMeanings`: machines that agree in all but in how their bindings are spread over
  scopes.
- `Scopes.AgreeUnder`: scopes that agree one by one down to a depth, and in what names mean
  below it.
- `Eval.Blind`: an evaluation that ends alike on machines that agree so, at every depth.
- `Scopes.AgreeUnder.correspondence`: the operations on scopes respect that they agree so.
- `Eval.ofNode_blind`: all evaluations end alike.
- `Eval.depends_on_meanings`: the evaluation of nodes and of packages.
-/

namespace ScriptLang

/-! ## Scopes -/

namespace Scopes

variable {x y : String} {v : Value} {ss ss' ts : List Scope}

/-- `update?` finds no scope exactly if `find?` finds no value. -/
theorem update?_eq_none_iff : update? x v ss = none ↔ find? x ss = none := by
  induction ss with
  | nil => exact ⟨fun _ => rfl, fun _ => rfl⟩
  | cons s ss ih =>
    rw [update?, find?, Table.has]
    cases hs : Table.get? x s with
    | some w => simp
    | none => simp [ih]

/-- `update?` finds a scope exactly if one of them binds the name. -/
theorem isSome_update? (x : String) (v : Value) (ss : List Scope) :
    (update? x v ss).isSome = ss.any (Table.has x) := by
  induction ss with
  | nil => rfl
  | cons s ss ih =>
    rw [update?, List.any_cons]
    by_cases hs : Table.has x s
    · rw [if_pos hs, hs]
      rfl
    · rw [if_neg hs, Option.isSome_map, ih, eq_false_of_ne_true hs]
      rfl

/-- `update?` goes to the inner scopes if they bind the name, and to those around them
otherwise. -/
theorem update?_append (x : String) (v : Value) (ss ts : List Scope) :
    update? x v (ss ++ ts) = ((update? x v ss).map (· ++ ts)).or
      ((update? x v ts).map (ss ++ ·)) := by
  induction ss with
  | nil => cases hts : update? x v ts <;> simp [update?, hts]
  | cons s ss ih =>
    rw [List.cons_append, update?, update?]
    by_cases hs : Table.has x s
    · rw [if_pos hs, if_pos hs]
      rfl
    · rw [if_neg hs, if_neg hs, ih]
      cases update? x v ss <;> cases update? x v ts <;> rfl

/-- Behind `update?`, the name means the new value, and other names mean what they meant. -/
theorem find?_update? (h : update? x v ss = some ss') (y : String) :
    find? y ss' = if y = x then some v else find? y ss := by
  induction ss generalizing ss' with
  | nil => cases h
  | cons s ss ih =>
    rw [update?] at h
    by_cases hs : Table.has x s
    · rw [if_pos hs] at h
      cases h
      rw [find?, find?, Table.get?_set]
      by_cases hy : y = x
      · rw [if_pos hy, if_pos hy]
        rfl
      · rw [if_neg hy, if_neg hy]
    · rw [if_neg hs] at h
      obtain ⟨rest, hrest, rfl⟩ := Option.map_eq_some_iff.mp h
      rw [find?, find?, ih hrest]
      by_cases hy : y = x
      · -- the scope in front does not bind the name, so what is behind it decides
        have hnone : Table.get? y s = none := by
          rw [hy]
          exact Option.not_isSome_iff_eq_none.mp hs
        rw [if_pos hy, if_pos hy, hnone]
        rfl
      · rw [if_neg hy, if_neg hy]

theorem ne_nil_of_update? (h : update? x v ss = some ss') : ss' ≠ [] := by
  rintro rfl
  have hx := find?_update? h x
  rw [if_pos rfl] at hx
  cases hx

/-- The `k` innermost scopes agree one by one, and below them `find?` is the same. -/
inductive AgreeUnder : Nat → List Scope → List Scope → Prop
  | outer {ss ts : List Scope} :
      ss ≠ [] → ts ≠ [] → (∀ x, find? x ss = find? x ts) → AgreeUnder 0 ss ts
  | inner {k : Nat} {s t : Scope} {ss ts : List Scope} :
      (∀ x, s.get? x = t.get? x) → AgreeUnder k ss ts → AgreeUnder (k + 1) (s :: ss) (t :: ts)

namespace AgreeUnder

variable {k : Nat}

/-- Scopes that `AgreeUnder` agree in what a name means. -/
theorem find? (h : AgreeUnder k ss ts) (x : String) :
    Scopes.find? x ss = Scopes.find? x ts := by
  induction h with
  | outer _ _ hx => exact hx x
  | inner hx _ ih => rw [Scopes.find?, Scopes.find?, hx x, ih]

theorem symm (h : AgreeUnder k ss ts) : AgreeUnder k ts ss := by
  induction h with
  | outer hs ht hx => exact .outer ht hs fun x => (hx x).symm
  | inner hx _ ih => exact .inner (fun x => (hx x).symm) ih

theorem ne_nil (h : AgreeUnder k ss ts) : ss ≠ [] ∧ ts ≠ [] := by
  cases h with
  | outer hs ht => exact ⟨hs, ht⟩
  | inner => exact ⟨List.cons_ne_nil _ _, List.cons_ne_nil _ _⟩

theorem set {s t : Scope} (h : AgreeUnder k (s :: ss) (t :: ts)) (x : String) (v : Value) :
    AgreeUnder k (Table.set x v s :: ss) (Table.set x v t :: ts) := by
  cases h with
  | outer _ _ hx =>
    refine .outer (List.cons_ne_nil _ _) (List.cons_ne_nil _ _) fun y => ?_
    have hy := hx y
    rw [Scopes.find?, Scopes.find?] at hy
    rw [Scopes.find?, Scopes.find?, Table.get?_set, Table.get?_set]
    by_cases hyx : y = x
    · rw [if_pos hyx, if_pos hyx]
      rfl
    · rw [if_neg hyx, if_neg hyx]
      exact hy
  | inner hx h =>
    refine .inner (fun y => ?_) h
    rw [Table.get?_set, Table.get?_set, hx y]

/-- `update?` finds scopes that agree on either side, or none on both. -/
theorem update? (h : AgreeUnder k ss ts) (x : String) (v : Value) :
    Option.Rel (AgreeUnder k) (Scopes.update? x v ss) (Scopes.update? x v ts) := by
  induction h with
  | @outer ss ts hs ht hx =>
    cases hss : Scopes.update? x v ss with
    | none =>
      have hts : Scopes.update? x v ts = none := by
        rw [update?_eq_none_iff, ← hx, ← update?_eq_none_iff, hss]
      rw [hts]
      exact .none
    | some ss' =>
      cases hts : Scopes.update? x v ts with
      | none =>
        rw [update?_eq_none_iff, ← hx, ← update?_eq_none_iff (v := v), hss] at hts
        cases hts
      | some ts' =>
        refine .some (.outer (ne_nil_of_update? hss) (ne_nil_of_update? hts) fun y => ?_)
        rw [find?_update? hss, find?_update? hts, hx]
  | @inner k s t ss ts hx h ih =>
    have hhas : Table.has x s = Table.has x t := by rw [Table.has, Table.has, hx]
    rw [Scopes.update?, Scopes.update?, hhas]
    -- scopes that agree bind the same names, so the new value goes to the same one of them
    by_cases ht : Table.has x t
    · rw [if_pos ht, if_pos ht]
      exact .some (AgreeUnder.set (.inner hx h) x v)
    · rw [if_neg ht, if_neg ht]
      generalize Scopes.update? x v ss = r at ih ⊢
      generalize Scopes.update? x v ts = r' at ih ⊢
      cases ih with
      | none => exact .none
      | some hr => exact .some (.inner hx hr)

/-- `AgreeUnder` is a `Correspondence`: scopes that have just been opened bind nothing on either
side, and closing them uncovers scopes that agree down to a depth that is less by one. -/
theorem correspondence : Correspondence (fun _ => True) AgreeUnder where
  binds_succ _ := trivial
  ne_nil := ne_nil
  find? := find?
  update? := update?
  set _ := set
  nest := .inner fun _ => rfl
  unnest h := by
    cases h with
    | inner _ h => exact h

end AgreeUnder
end Scopes

/-! ## Machines -/

/-- Machines on which `Scopes.get?` is the same, and which agree in all else but the journal. -/
structure Machine.SameMeanings (m m' : Machine) : Prop where
  scopes (x : String) : m.scopes.get? x = m'.scopes.get? x
  host : m.host = m'.host
  errors : m.errors = m'.errors
  loopDepth : m.loopDepth = m'.loopDepth
  callDepth : m.callDepth = m'.callDepth

/-- Machines whose scopes `AgreeUnder` the depth `k`, and which agree in all else but the
journal. -/
structure Machine.AgreeUnder (k : Nat) (m m' : Machine) : Prop where
  scopes : Scopes.AgreeUnder k (m.scopes.current :: m.scopes.enclosing)
    (m'.scopes.current :: m'.scopes.enclosing)
  host : m.host = m'.host
  errors : m.errors = m'.errors
  loopDepth : m.loopDepth = m'.loopDepth
  callDepth : m.callDepth = m'.callDepth

namespace Machine

variable {k : Nat} {m m' : Machine}

theorem AgreeUnder.sameMeanings (h : AgreeUnder k m m') : m.SameMeanings m' :=
  ⟨h.scopes.find?, h.host, h.errors, h.loopDepth, h.callDepth⟩

theorem SameMeanings.agreeUnder (h : m.SameMeanings m') : AgreeUnder 0 m m' :=
  ⟨.outer (List.cons_ne_nil _ _) (List.cons_ne_nil _ _) h.scopes, h.host, h.errors, h.loopDepth,
    h.callDepth⟩

theorem AgreeUnder.symm (h : AgreeUnder k m m') : AgreeUnder k m' m :=
  ⟨h.scopes.symm, h.host.symm, h.errors.symm, h.loopDepth.symm, h.callDepth.symm⟩

theorem agreeUnder_iff : AgreeUnder k m m' ↔ m.Corresponds Scopes.AgreeUnder k true m' :=
  ⟨fun h => ⟨h.scopes, h.host, h.errors, fun _ => h.loopDepth, h.callDepth⟩,
    fun h => ⟨h.scopes, h.host, h.errors, h.loopDepth rfl, h.callDepth⟩⟩

end Machine

/-! ## Evaluations -/

namespace Eval

variable {α : Type}

/-- Both sides have an answer or none has, with the same ending and machines that are
`Machine.AgreeUnder` the depth. -/
def SameAnswers (k : Nat) : Option (Flow α × Machine) → Option (Flow α × Machine) → Prop :=
  Option.Rel fun r r' => r.1 = r'.1 ∧ r.2.AgreeUnder k r'.2

/-- The evaluation has the `SameAnswers` on machines that are `Machine.AgreeUnder` any depth. -/
def Blind (e : Eval α) : Prop :=
  ∀ k m m', Machine.AgreeUnder k m m' → SameAnswers k (e m) (e m')

/-- `Eval.ofNode` is `Blind`. -/
theorem ofNode_blind (limit fuel : Nat) (n : Node) : Blind (ofNode limit fuel n) := by
  intro k m m' hm
  have hmirrors :
      Mirrors (fun _ => True) Scopes.AgreeUnder .full (ofNode limit fuel n)
        (ofNode limit fuel n) :=
    (mirrors_congruence Scopes.AgreeUnder.correspondence limit).node (Nat.le_refl fuel) n
  -- agreement is symmetric, so an answer on either side is one on the other
  obtain ⟨hnone, hnone'⟩ | ⟨flow, p, p', hp, hp', h⟩ :=
    same_of_mirrors hmirrors hmirrors (fun _ => trivial)
      (Machine.agreeUnder_iff.mp hm) (Machine.agreeUnder_iff.mp hm.symm)
  · rw [hnone, hnone']
    exact .none
  · rw [hp, hp']
    exact .some ⟨rfl, Machine.agreeUnder_iff.mpr h⟩

end Eval

/-! ## Packages -/

/-- `evaluateNodes` gives the same value on machines with `SameMeanings`. -/
theorem evaluateNodes_sameMeanings {limit fuel : Nat} {package : String} {last : Option Value}
    {ns : List Node} {m m' : Machine} (hm : m.SameMeanings m') :
    Option.Rel (fun r r' => r.1 = r'.1 ∧ r.2.SameMeanings r'.2)
      (evaluateNodes limit fuel package last ns m)
        (evaluateNodes limit fuel package last ns m') := by
  induction ns generalizing last m m' with
  | nil => exact .some ⟨rfl, hm⟩
  | cons n ns ih =>
    have hnoted : Machine.SameMeanings (m.note (.evaluating package n.line))
        (m'.note (.evaluating package n.line)) :=
      ⟨hm.scopes, hm.host, hm.errors, hm.loopDepth, hm.callDepth⟩
    have hnode := Eval.ofNode_blind limit fuel n 0 _ _ hnoted.agreeUnder
    rw [evaluateNodes, evaluateNodes]
    generalize Eval.ofNode limit fuel n (m.note _) = r at hnode ⊢
    generalize Eval.ofNode limit fuel n (m'.note _) = r' at hnode ⊢
    cases hnode with
    | none => exact .none
    | @some r r' hr =>
      obtain ⟨flow, k⟩ := r
      obtain ⟨_, k'⟩ := r'
      obtain ⟨rfl, hk⟩ := hr
      exact ih ⟨hk.sameMeanings.scopes, hk.host, hk.errors, rfl, rfl⟩

namespace Eval

/-- On machines with `Machine.SameMeanings`, however their bindings are spread over scopes and
whatever these hide, `Eval.ofNode` has the same ending or none on both, and leaves machines with
the same meanings. So does `Package.evaluate`. -/
theorem depends_on_meanings (m m' : Machine) (hm : m.SameMeanings m') (limit fuel : Nat) :
    (∀ n, Option.Rel (fun r r' => r.1 = r'.1 ∧ r.2.SameMeanings r'.2)
      (ofNode limit fuel n m) (ofNode limit fuel n m')) ∧
    ∀ p : Package, Option.Rel (fun r r' => r.1 = r'.1 ∧ r.2.SameMeanings r'.2)
      (p.evaluate limit fuel m) (p.evaluate limit fuel m') := by
  constructor
  · intro n
    have hnode := ofNode_blind limit fuel n 0 m m' hm.agreeUnder
    generalize ofNode limit fuel n m = r at hnode ⊢
    generalize ofNode limit fuel n m' = r' at hnode ⊢
    cases hnode with
    | none => exact .none
    | some hr => exact .some ⟨hr.1, hr.2.sameMeanings⟩
  · intro p
    have hnodes : Option.Rel (fun r r' => r.1 = r'.1 ∧ r.2.SameMeanings r'.2)
        (evaluateNodes limit fuel p.name none p.nodes m)
        (evaluateNodes limit fuel p.name none p.nodes m') := evaluateNodes_sameMeanings hm
    rw [Package.evaluate, Package.evaluate]
    generalize evaluateNodes limit fuel p.name none p.nodes m = r at hnodes ⊢
    generalize evaluateNodes limit fuel p.name none p.nodes m' = r' at hnodes ⊢
    cases hnodes with
    | none => exact .none
    | @some r r' hr =>
      obtain ⟨value, k⟩ := r
      obtain ⟨_, k'⟩ := r'
      obtain ⟨rfl, hk⟩ := hr
      refine .some ⟨?_, hk.scopes, hk.host, rfl, hk.loopDepth, hk.callDepth⟩
      exact congrArg (Evaluation.mk value) hk.errors

/-- An empty scope inside of two others, one of which hides a binding of the other one, and the
same names in one scope: a block assigns to an outer name and then hides the other one. -/
theorem depends_on_meanings_hidden :
    let m : Machine :=
      { scopes := ⟨[], [[("x", .boolean true)], [("x", .boolean false), ("y", .null)]]⟩ }
    let m' : Machine := { scopes := ⟨[("y", .null), ("x", .boolean true)], []⟩ }
    let n : Node := .block ⟨1, [.assign 1 (.ident 1 "y") (.ident 1 "x"),
      .assign 1 (.declare (.ofKind .kwVar 1) ⟨1, "x"⟩) (.string 1 "inner")]⟩
    m.SameMeanings m' ∧ m.scopes.depth = 3 ∧ m'.scopes.depth = 1 ∧
      ∃ r r', ofNode 200 9 n m = some r ∧ ofNode 200 9 n m' = some r' ∧ r.1 = r'.1 ∧
        r.2.SameMeanings r'.2 := by
  intro m m' n
  have hm : m.SameMeanings m' := by
    refine ⟨fun x => ?_, rfl, rfl, rfl, rfl⟩
    by_cases hx : x = "x"
    · subst hx
      rfl
    · by_cases hy : x = "y"
      · subst hy
        rfl
      · simp [m, m', Scopes.get?, Scopes.find?, Table.get?, hx, hy]
  refine ⟨hm, rfl, rfl, ?_⟩
  obtain ⟨r, hr⟩ : ∃ r, ofNode 200 9 n m = some r := ⟨_, rfl⟩
  obtain ⟨r', hr'⟩ : ∃ r, ofNode 200 9 n m' = some r := ⟨_, rfl⟩
  have hnode := (depends_on_meanings m m' hm 200 9).1 n
  rw [hr, hr'] at hnode
  cases hnode with
  | some h => exact ⟨r, r', hr, hr', h.1, h.2⟩

end Eval
end ScriptLang
