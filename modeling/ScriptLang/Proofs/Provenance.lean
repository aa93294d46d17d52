import ScriptLang.Builtin.Call
import ScriptLang.Eval.Operator
import ScriptLang.Scopes

/-!
# Where values come from

A function is made by its declaration and by nothing else: operators and builtins give data, and
scopes give back what was stored in them. So whatever holds of data and of the functions that a
program declares holds of all values that it meets.

- `Value.IsData`, `Gives`: a value that is no function, and a result with some property.
- `OperatorReply`: what an operator may give.
- `Builtin.isData_call`: builtins give data.
- `Scopes.Stores`: all values in scopes have a property, with what each operation does to it.
-/

namespace ScriptLang

/-- A value that is no declared function. -/
def Value.IsData : Value → Prop
  | .function _ => False
  | _ => True

/-- If there is a `result`, then `P` holds of it. -/
def Gives (P : Value → Prop) (result : Option Value) : Prop := ∀ v ∈ result, P v

section Gives

variable {P : Value → Prop}

theorem gives_none : Gives P none := nofun

/-- A result has the property if its value has it. -/
theorem gives_some {v : Value} (h : P v) : Gives P (some v) := by
  rintro _ ⟨⟩
  exact h

/-- `P` holds of the result or, where there is none, of `Value.null`. -/
theorem Gives.getD {result : Option Value} (h : Gives P result) (hnull : P .null) :
    P (result.getD .null) := by
  cases result with
  | none => exact hnull
  | some v => exact h v rfl

/-- What `Gives` a property gives every weaker one. -/
theorem Gives.imp {Q : Value → Prop} {result : Option Value} (h : Gives P result)
    (himp : ∀ v, P v → Q v) : Gives Q result := fun v hv => himp v (h v hv)

end Gives

/-! ## Operators -/

/-- The causes that an operator may be refused for. -/
def Cause.IsOfOperator : Cause → Prop
  | invalidOperator | invalidCombination | divisionByZero | integerOverflow => True
  | _ => False

/-- What an operator may give: `Value.IsData`, or `Cause.IsOfOperator`. -/
def OperatorReply : Except Cause Value → Prop
  | .ok v => v.IsData
  | .error cause => cause.IsOfOperator

/-- `exact` gives an integer or an overflow. -/
theorem operatorReply_exact (n : Int) : OperatorReply (exact n) := by
  unfold exact
  split <;> trivial

/-- `infixIntegers` gives an integer or a boolean, or it overflows, divides by zero, or knows no
such operator. -/
theorem operatorReply_infixIntegers (o : TokenKind) (a b : Int64) :
    OperatorReply (infixIntegers o a b) := by
  unfold infixIntegers
  dsimp only
  split <;> first | exact operatorReply_exact _ | trivial | skip
  split
  · trivial
  · exact operatorReply_exact _

/-- Operators between any values: a combination that has no meaning is a cause
`IsOfOperator`. -/
theorem operatorReply_infixValue (o : TokenKind) (v w : Value) :
    OperatorReply (infixValue o v w) := by
  unfold infixValue
  split
  · exact operatorReply_infixIntegers o _ _
  · unfold infixStrings
    split <;> trivial
  · unfold infixBooleans
    split <;> trivial
  all_goals trivial

theorem operatorReply_prefixValue (o : TokenKind) (v : Value) :
    OperatorReply (prefixValue o v) := by
  unfold prefixValue
  split <;> first | exact operatorReply_exact _ | trivial

/-! ## Builtins -/

/-- `scanned` makes a value of the type asked for, and never a function. -/
theorem isData_scanned {like v : Value} {line : List Char} (h : scanned like line = .ok v) :
    v.IsData := by
  unfold scanned at h
  split at h
  · cases h
    trivial
  · split at h <;> cases h
    trivial
  · split at h
    · cases h
      trivial
    · split at h <;> cases h
      trivial
  · cases h

/-- What a result is mapped to `Gives` the property if every image does. -/
theorem gives_map {P : Value → Prop} {ε α : Type} {x : Except ε α} {f : α → Option Value}
    (hf : ∀ a, Gives P (f a)) {r : Option Value} (h : x.map f = .ok r) : Gives P r := by
  cases x with
  | error => cases h
  | ok a =>
    cases h
    exact hf a

/-- What is given in the end is given by `next`. -/
theorem Reply.gives_andThen {P : Value → Prop} {α : Type} {reply : Reply α}
    {next : α → Host → Reply (Option Value)}
    (hnext : ∀ a host r, (next a host).result = .ok r → Gives P r) {r : Option Value}
    (h : (reply.andThen next).result = .ok r) : Gives P r := by
  unfold andThen at h
  split at h
  · cases h
  · exact hnext _ _ _ h

/-- `Builtin.call` gives `Value.IsData`, so no function. -/
theorem Builtin.isData_call {builtin : Builtin} {vs : List Value} {host : Host}
    {r : Option Value} (h : (builtin.call vs host).result = .ok r) : Gives Value.IsData r := by
  have hnone : ∀ host : Host, ∀ r : Option Value,
      (⟨.ok none, host, []⟩ : Reply (Option Value)).result = .ok r → Gives Value.IsData r := by
    rintro _ _ ⟨⟩
    exact gives_none
  cases builtin with
  | len =>
    refine gives_map ?_ h
    exact fun _ => gives_some trivial
  | print =>
    refine Reply.gives_andThen (fun _ _ _ h => ?_) h
    exact Reply.gives_andThen (fun _ host _ h => hnone host _ h) h
  | println =>
    refine Reply.gives_andThen (fun _ _ _ h => Reply.gives_andThen (fun _ _ _ h => ?_) h) h
    exact Reply.gives_andThen (fun _ host _ h => hnone host _ h) h
  | type =>
    cases h
    exact gives_some trivial
  | scan =>
    change (host.readLine.1.bind fun line =>
      (scanned (vs.headD .null) (withoutEnd line.toList)).map some) = .ok r at h
    -- a scan has a result only if a line was read that fits the type, and then it is data
    cases hline : host.readLine.1 with
    | error => rw [hline] at h; cases h
    | ok line =>
      rw [hline] at h
      change (scanned (vs.headD .null) (withoutEnd line.toList)).map some = .ok r at h
      cases hv : scanned (vs.headD .null) (withoutEnd line.toList) with
      | error => rw [hv] at h; cases h
      | ok v =>
        rw [hv] at h
        cases h
        exact gives_some (isData_scanned hv)
  | fopen =>
    simp only [call] at h
    split at h
    · cases h
    · split at h <;> cases h <;> exact gives_some trivial
  | fread =>
    simp only [call] at h
    split at h
    · cases h
    · refine gives_map ?_ h
      exact fun _ => gives_some trivial
  | fwrite =>
    simp only [call] at h
    split at h
    · cases h
    · cases h
    · exact Reply.gives_andThen (fun _ host _ h => hnone host _ h) h
  | fclose =>
    simp only [call] at h
    split at h
    · cases h
    · split at h <;> cases h
      exact gives_none

/-! ## Scopes -/

/-- `P` holds of all values of the scope `s`. -/
def Scope.Stores (P : Value → Prop) (s : Scope) : Prop := ∀ e ∈ s, P e.2

/-- `P` holds of all values of all scopes of `s`. -/
def Scopes.Stores (P : Value → Prop) (s : Scopes) : Prop :=
  ∀ scope ∈ s.current :: s.enclosing, scope.Stores P

section Stores

variable {P : Value → Prop} {x : String} {v : Value}

/-- `Table.set` brings in no other value. -/
theorem Scope.Stores.set {s : Scope} (h : s.Stores P) (hv : P v) :
    Scope.Stores P (Table.set x v s) := by
  induction s with
  | nil =>
    intro e he
    rw [List.mem_singleton.mp he]
    exact hv
  | cons e s ih =>
    obtain ⟨hfirst, hrest⟩ := List.forall_mem_cons.mp h
    rw [Table.set]
    split
    · exact List.forall_mem_cons.mpr ⟨hv, hrest⟩
    · exact List.forall_mem_cons.mpr ⟨hfirst, ih hrest⟩

/-- What `Table.get?` finds in a scope is stored in it. -/
theorem Scope.Stores.get? {s : Scope} (h : s.Stores P) (hx : Table.get? x s = some v) :
    P v := by
  induction s with
  | nil => cases hx
  | cons e s ih =>
    obtain ⟨hfirst, hrest⟩ := List.forall_mem_cons.mp h
    rw [Table.get?] at hx
    split at hx
    · cases hx
      exact hfirst
    · exact ih hrest hx

/-- What `find?` finds is stored in one of the scopes. -/
theorem Scopes.stores_find? {scopes : List Scope} (h : ∀ scope ∈ scopes, scope.Stores P)
    (hx : find? x scopes = some v) : P v := by
  induction scopes with
  | nil => cases hx
  | cons scope scopes ih =>
    obtain ⟨hfirst, hrest⟩ := List.forall_mem_cons.mp h
    rw [find?, Option.or_eq_some_iff] at hx
    obtain hx | ⟨-, hx⟩ := hx
    · exact hfirst.get? hx
    · exact ih hrest hx

/-- `update?` brings in no other value. -/
theorem Scopes.stores_update? {scopes scopes' : List Scope}
    (h : ∀ scope ∈ scopes, scope.Stores P) (hv : P v) (hx : update? x v scopes = some scopes') :
    ∀ scope ∈ scopes', scope.Stores P := by
  induction scopes generalizing scopes' with
  | nil => cases hx
  | cons scope scopes ih =>
    obtain ⟨hfirst, hrest⟩ := List.forall_mem_cons.mp h
    rw [update?] at hx
    split at hx
    · cases hx
      exact List.forall_mem_cons.mpr ⟨hfirst.set hv, hrest⟩
    · obtain ⟨rest, hupdate, rfl⟩ := Option.map_eq_some_iff.mp hx
      exact List.forall_mem_cons.mpr ⟨hfirst, ih hrest hupdate⟩

namespace Scopes.Stores

variable {s t : Scopes} (h : s.Stores P)

include h

theorem get? (hx : s.get? x = some v) : P v := stores_find? h hx

theorem insert (hv : P v) : (s.insert x v).Stores P := by
  obtain ⟨hfirst, hrest⟩ := List.forall_mem_cons.mp h
  exact List.forall_mem_cons.mpr ⟨hfirst.set hv, hrest⟩

/-- `assign?` stores its value, in whichever scope. -/
theorem assign? (hv : P v) (hx : s.assign? x v = some t) : t.Stores P := by
  obtain ⟨hfirst, hrest⟩ := List.forall_mem_cons.mp h
  rw [Scopes.assign?] at hx
  split at hx
  · cases hx
    exact h.insert hv
  · obtain ⟨enclosing, hupdate, rfl⟩ := Option.map_eq_some_iff.mp hx
    exact List.forall_mem_cons.mpr ⟨hfirst, stores_update? hrest hv hupdate⟩

theorem nest : s.nest.Stores P := List.forall_mem_cons.mpr ⟨nofun, h⟩

theorem unnest : s.unnest.Stores P := by
  obtain ⟨current, enclosing⟩ := s
  cases enclosing with
  | nil => exact h
  | cons scope scopes => exact (List.forall_mem_cons.mp h).2

end Scopes.Stores
end Stores

end ScriptLang
