import ScriptLang.Table
import ScriptLang.Value

/-!
# Scopes

Bindings live in scopes, one inside the other. A name means its innermost binding. A call nests
its scope inside the scopes of the place it is called from, so a function body sees every
binding that its caller sees.

- `Scopes`: a current scope and those around it. There is always one, the root scope.
- `Scopes.nest`, `Scopes.unnest`: opens and closes a scope; the root scope is never closed.
- `Scopes.insert`: binds a name in the current scope.
- `Scopes.assign?`: gives the innermost binding of a name a new value, if the name is bound.
-/

namespace ScriptLang

/-- The bindings of one scope. -/
abbrev Scope := Table String Value

/-- Scopes one inside the other. -/
structure Scopes where
  /-- The innermost scope. -/
  current : Scope := []
  /-- The scopes around it, from the inside out. -/
  enclosing : List Scope := []

namespace Scopes

/-- Opens a scope inside the current one. -/
def nest (s : Scopes) : Scopes := ⟨[], s.current :: s.enclosing⟩

/-- Closes the current scope, unless it is the root scope. -/
def unnest : Scopes → Scopes
  | ⟨current, []⟩ => ⟨current, []⟩
  | ⟨_, scope :: enclosing⟩ => ⟨scope, enclosing⟩

/-- The number of scopes. -/
def depth (s : Scopes) : Nat := s.enclosing.length + 1

/-- Binds a name in the current scope. -/
def insert (name : String) (value : Value) (s : Scopes) : Scopes :=
  { s with current := s.current.set name value }

/-- The innermost value of a name among scopes. -/
def find? (name : String) : List Scope → Option Value
  | [] => none
  | scope :: scopes => (scope.get? name).or (find? name scopes)

/-- The value that a name means: what `find?` finds from the innermost scope on. -/
def get? (name : String) (s : Scopes) : Option Value :=
  find? name (s.current :: s.enclosing)

/-- Gives the innermost binding of a name among scopes a new value. -/
def update? (name : String) (value : Value) : List Scope → Option (List Scope)
  | [] => none
  | scope :: scopes =>
    if scope.has name then some (scope.set name value :: scopes)
    else (update? name value scopes).map (scope :: ·)

/-- Gives the binding that a name means a new value by `update?`, if the name is bound. -/
def assign? (name : String) (value : Value) (s : Scopes) : Option Scopes :=
  if s.current.has name then some (s.insert name value)
  else (update? name value s.enclosing).map fun enclosing => { s with enclosing }

/-! ## What the operations do to the depth -/

/-- `unnest` never closes the root scope. -/
theorem unnest_of_isEmpty {s : Scopes} (h : s.enclosing.isEmpty) : s.unnest = s := by
  obtain ⟨current, enclosing⟩ := s
  cases List.isEmpty_iff.mp h
  rfl

end Scopes
end ScriptLang
