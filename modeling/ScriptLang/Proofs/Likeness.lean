import ScriptLang.Eval.Node
import ScriptLang.Proofs.Relined

/-!
# Values and scopes without lines

A declared function keeps the tree of its body, so there are lines in values, and in the scopes
that hold them. Nothing that a value is used for looks at them: neither an operator nor a
builtin, and lines may be erased before or after a scope is looked into or changed.

- `Value.bare`, `Scopes.bare`: values and scopes without lines.
- `Builtin.call_bare`: what a builtin does without the lines of its arguments.
- `Scopes.get?_bare`, `Scopes.assign?_bare`: what names mean and are given without lines.
-/

namespace ScriptLang

/-! ## Values -/

/-- A value without the lines of the body that it has if it is a function. -/
def Value.bare : Value → Value
  | .function f => .function { f with body := f.body.bare }
  | v => v

/-- The values `a` and `b` are the same but for lines. -/
abbrev SameValue (a b : Value) : Prop := a.bare = b.bare

/-- The results `a` and `b`, if there are any, are the same but for lines. -/
abbrev SameResult (a b : Option Value) : Prop := a.map Value.bare = b.map Value.bare

/-- The lists `as` and `bs` of values are the same but for lines. -/
abbrev SameValues (as bs : List Value) : Prop := as.map Value.bare = bs.map Value.bare

/-- A result that is missing counts as `Value.null`. -/
theorem SameResult.getD {a b : Option Value} (h : SameResult a b) :
    SameValue (a.getD .null) (b.getD .null) := by
  cases a with
  | none =>
    cases b with
    | none => rfl
    | some b => cases h
  | some a =>
    cases b with
    | none => cases h
    | some b => exact Option.some_inj.mp h

namespace Value

variable (v : Value)

/-- Of a value, builtins look at nothing that `Value.bare` changes: its type, its text, the
string or the handle that it is. -/
@[simp] theorem typeName_bare : v.bare.typeName = v.typeName := by cases v <;> rfl

@[simp] theorem printed?_bare : v.bare.printed? = v.printed? := by cases v <;> rfl

@[simp] theorem asString_bare : v.bare.asString = v.asString := by cases v <;> rfl

@[simp] theorem asHandle_bare : v.bare.asHandle = v.asHandle := by cases v <;> rfl

@[simp] theorem scanned_bare (line : List Char) : scanned v.bare line = scanned v line := by
  cases v <;> rfl

/-- `prefixValue` works on data, and `Value.bare` leaves data as it is. -/
@[simp] theorem prefixValue_bare (o : TokenKind) : prefixValue o v.bare = prefixValue o v := by
  cases v with
  | function f => cases o <;> rfl
  | _ => rfl

@[simp] theorem infixValue_bare (o : TokenKind) (a b : Value) :
    infixValue o a.bare b.bare = infixValue o a b := by
  cases a <;> cases b <;> rfl

end Value

namespace Builtin

/-- `printValues` fails at the same value, if at any, and writes the same texts. -/
@[simp] theorem printValues_bare (builtin : Builtin) (vs : List Value) (host : Host) :
    printValues builtin (vs.map Value.bare) host = printValues builtin vs host := by
  induction vs generalizing host with
  | nil => rfl
  | cons v vs ih =>
    rw [List.map_cons, printValues, printValues, v.printed?_bare, v.typeName_bare]
    simp only [ih]

/-- `Builtin.call` does not look at lines. -/
theorem call_bare (builtin : Builtin) (vs : List Value) (host : Host) :
    builtin.call (vs.map Value.bare) host = builtin.call vs host := by
  have hfirst : (vs.map Value.bare).headD .null = (vs.headD .null).bare := by cases vs <;> rfl
  have hsecond : (vs.map Value.bare).tail.headD .null = (vs.tail.headD .null).bare := by
    rw [← List.map_tail]
    cases vs.tail <;> rfl
  cases builtin <;> simp only [call, hfirst, hsecond, printValues_bare, Value.typeName_bare,
    Value.asString_bare, Value.asHandle_bare, Value.scanned_bare]

end Builtin

/-! ## Scopes -/

/-- A scope with `Value.bare` for each of its values. -/
def Scope.bare (s : Scope) : Scope := s.map fun e => (e.1, e.2.bare)

/-- Scopes with `Scope.bare` for each of them. -/
def Scopes.bare (s : Scopes) : Scopes := ⟨s.current.bare, s.enclosing.map Scope.bare⟩

namespace Scope

variable (s : Scope) (x : String)

/-- A scope finds the value without its lines. -/
theorem get?_bare : Table.get? x (bare s) = (Table.get? x s).map Value.bare := by
  induction s with
  | nil => rfl
  | cons e s ih =>
    show (if x = e.1 then some e.2.bare else Table.get? x (bare s)) =
      (if x = e.1 then some e.2 else Table.get? x s).map Value.bare
    by_cases h : x = e.1
    · rw [if_pos h, if_pos h]
      rfl
    · rw [if_neg h, if_neg h, ih]

theorem has_bare : Table.has x (bare s) = Table.has x s := by
  rw [Table.has, get?_bare, Option.isSome_map]
  rfl

/-- `Table.set` may be done before lines are erased or after. -/
theorem set_bare (v : Value) : bare (Table.set x v s) = Table.set x v.bare (bare s) := by
  induction s with
  | nil => rfl
  | cons e s ih =>
    show bare (if x = e.1 then (e.1, v) :: s else e :: Table.set x v s) =
      if x = e.1 then (e.1, v.bare) :: bare s else (e.1, e.2.bare) ::
        Table.set x v.bare (bare s)
    by_cases h : x = e.1
    · rw [if_pos h, if_pos h]
      rfl
    · rw [if_neg h, if_neg h, ← ih]
      rfl

end Scope

namespace Scopes

variable (s : Scopes) (x : String) (v : Value)

theorem nest_bare : s.nest.bare = s.bare.nest := rfl

/-- `Scopes.unnest` may be done before lines are erased or after. -/
theorem unnest_bare : s.unnest.bare = s.bare.unnest := by
  obtain ⟨current, enclosing⟩ := s
  cases enclosing <;> rfl

theorem insert_bare : (s.insert x v).bare = s.bare.insert x v.bare := by
  show Scopes.mk (Scope.bare (Table.set x v s.current)) _ = _
  rw [Scope.set_bare]
  rfl

/-- `find?` finds the value in the same scope, whether lines are erased or not. -/
theorem find?_bare (scopes : List Scope) :
    find? x (scopes.map Scope.bare) = (find? x scopes).map Value.bare := by
  induction scopes with
  | nil => rfl
  | cons scope scopes ih =>
    rw [List.map_cons, find?, find?, Scope.get?_bare, ih]
    cases Table.get? x scope <;> rfl

theorem get?_bare : s.bare.get? x = (s.get? x).map Value.bare :=
  find?_bare x (s.current :: s.enclosing)

/-- `update?` changes the same scope, whether lines are erased or not. -/
theorem update?_bare (scopes : List Scope) : update? x v.bare (scopes.map Scope.bare) =
    (update? x v scopes).map (List.map Scope.bare) := by
  induction scopes with
  | nil => rfl
  | cons scope scopes ih =>
    rw [List.map_cons, update?, update?, Scope.has_bare, ih, ← Scope.set_bare]
    by_cases h : Table.has x scope
    · rw [if_pos h, if_pos h]
      rfl
    · rw [if_neg h, if_neg h]
      cases update? x v scopes <;> rfl

/-- `Scopes.assign?` may be done before lines are erased or after, and succeeds in both cases or
in neither. -/
theorem assign?_bare : s.bare.assign? x v.bare = (s.assign? x v).map bare := by
  show (if Table.has x s.current.bare then some (s.bare.insert x v.bare) else
    (update? x v.bare (s.enclosing.map Scope.bare)).map _) = _
  rw [Scope.has_bare, update?_bare, ← insert_bare, assign?]
  by_cases h : Table.has x s.current
  · rw [if_pos h, if_pos h]
    rfl
  · rw [if_neg h, if_neg h]
    cases update? x v s.enclosing <;> rfl

end Scopes

end ScriptLang
