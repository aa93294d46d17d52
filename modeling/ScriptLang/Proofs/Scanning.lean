import ScriptLang.Proofs.Bindings

/-!
# One scan, one line, one binding

A call of `scan` takes the next line from the input as soon as it has its argument, and only
then looks at what the line says and at what is wanted. So the line is gone whatever comes of
it: if it is no text, if it is not what the argument asks for, and if nothing can be scanned for
an argument of that type. Only where there is no line is nothing taken.

A result is stored where the argument is a name that is bound, in its nearest binding. That
binding need not be in the current scope, and the call need not be written as `scan`: any name
will do that means it.

- `Text.IsFirstLine`: the first line of a stream and what is behind it.
- `Scan`: what a scan takes from the input, and what it comes to.
- `Scopes.Stored`: what becomes of the bindings when a value is stored in a variable.
- `Eval.scan_takes_line`: every call that comes to a scan, through whatever name.
-/

namespace ScriptLang

/-! ## The next line -/

namespace Text

/-- A stream begins with this line: the bytes up to its first line feed and with it, or all
bytes of a stream without one. There is no line in an empty stream. -/
def IsFirstLine (line rest : List UInt8) : Prop :=
  (∃ bytes, 10 ∉ bytes ∧ line = bytes ++ [10]) ∨ line ≠ [] ∧ 10 ∉ line ∧ rest = []

/-- `Text.takeLine` takes a line for which `IsFirstLine` holds. -/
theorem isFirstLine_takeLine {bytes : List UInt8} (h : bytes ≠ []) :
    IsFirstLine (takeLine bytes).1 (takeLine bytes).2 := by
  induction bytes with
  | nil => exact absurd rfl h
  | cons b bytes ih =>
    by_cases hb : b = 10
    · simp only [takeLine, if_pos hb]
      exact .inl ⟨[], List.not_mem_nil, by rw [hb]; rfl⟩
    · simp only [takeLine, if_neg hb]
      by_cases hnil : bytes = []
      · subst hnil
        exact .inr ⟨List.cons_ne_nil _ _, by simp [takeLine, Ne.symm hb], rfl⟩
      · obtain ⟨line, hline, hline'⟩ | ⟨-, hline, hrest⟩ := ih hnil
        · rw [hline']
          exact .inl ⟨b :: line, by simp [Ne.symm hb, hline], rfl⟩
        · exact .inr ⟨List.cons_ne_nil _ _, by simp [Ne.symm hb, hline], hrest⟩

end Text

/-! ## The scan itself -/

/-- What a scan takes from the input and what it comes to, given a value of the type that is
wanted. The line is taken before `scanned` reads it. -/
inductive Scan (like : Value) : List UInt8 → Except Failure Value → List UInt8 → Prop
  /-- At the end of the input there is nothing to take. -/
  | ended : Scan like [] (.error .endOfInput) []
  /-- The line is no text. -/
  | unreadable {line rest : List UInt8} :
      Text.IsFirstLine line rest → Text.decode? line = none →
      Scan like (line ++ rest) (.error .notUtf8) rest
  /-- The line is a text, which is what is wanted or not. -/
  | read {line rest : List UInt8} {text : String} :
      Text.IsFirstLine line rest → Text.decode? line = some text →
      Scan like (line ++ rest) (scanned like (withoutEnd text.toList)) rest

/-- What is `scanned` has the type that was wanted. -/
theorem typeName_of_scanned {like v : Value} {line : List Char}
    (h : scanned like line = .ok v) : v.typeName = like.typeName := by
  cases like with
  | integer =>
    rw [scanned] at h
    split at h <;> cases h
    rfl
  | boolean =>
    rw [scanned] at h
    split_ifs at h <;> cases h <;> rfl
  | string => cases h; rfl
  | null | function | builtin => cases h

theorem Scan.typeName {like v : Value} {input rest : List UInt8}
    (h : Scan like input (.ok v) rest) : v.typeName = like.typeName := by
  generalize hresult : (Except.ok v : Except Failure Value) = result at h
  cases h with
  | ended | unreadable => cases hresult
  | read => exact typeName_of_scanned hresult.symm

/-- `Builtin.call` of `scan` is a `Scan` of the input of the host, and does nothing else to the
host. -/
theorem Builtin.scan_call_eq (like : Value) (h : Host) :
    ∃ result rest, Scan like h.input result rest ∧
      scan.call [like] h = ⟨result.map some, { h with input := rest }, []⟩ := by
  by_cases hinput : h.input = []
  · refine ⟨.error .endOfInput, [], ?_, ?_⟩
    · rw [hinput]
      exact .ended
    · have hread : h.readLine = (.error .endOfInput, h) := by rw [Host.readLine, if_pos hinput]
      simp only [call, hread]
      rw [← hinput]
      rfl
  · have hline := Text.isFirstLine_takeLine hinput
    have hwhole := Text.append_takeLine h.input
    rcases htaken : Text.takeLine h.input with ⟨line, rest⟩
    rw [htaken] at hline hwhole
    rw [← hwhole]
    cases hdecode : Text.decode? line with
    | none =>
      refine ⟨_, rest, .unreadable hline hdecode, ?_⟩
      simp only [call, Host.readLine, if_neg hinput, htaken, hdecode]
      rfl
    | some text =>
      refine ⟨_, rest, .read hline hdecode, ?_⟩
      simp only [call, Host.readLine, if_neg hinput, htaken, hdecode]
      rfl

/-! ## Storing the result -/

/-- The variable that an argument is, if it is one. -/
def Node.variable? : Node → Option String
  | .ident _ x => some x
  | _ => none

/-- `Scopes.depth` is as before, and so is each `binding?`, but for the nearest one of the
variable that the argument is, which has the value `v`. -/
structure Scopes.Stored (arg : Node) (v : Value) (s t : Scopes) : Prop where
  depth : t.depth = s.depth
  binding? (level : Nat) (x : String) : t.binding? level x =
    if arg.variable? = some x ∧ s.nearest? x = some level then some v else s.binding? level x

/-- Without a `nearest?` binding to store a value in, everything stays as it is. -/
theorem Scopes.Stored.refl {arg : Node} {s : Scopes}
    (h : ∀ x, arg.variable? = some x → s.nearest? x = none) (v : Value) : Stored arg v s s where
  depth := rfl
  binding? level x := by
    rw [if_neg]
    rintro ⟨hx, hlevel⟩
    cases (h x hx).symm.trans hlevel

namespace Eval

/-- `Eval.writeBack` leaves scopes in which the result is `Scopes.Stored`, and does nothing
else. -/
theorem writeBack_stores (arg : Node) (v : Value) (m : Machine) :
    ∃ scopes, writeBack [arg] (some v) m = some (.done (), { m with scopes }) ∧
      m.scopes.Stored arg v scopes := by
  by_cases hvariable : ∃ l x, arg = .ident l x
  · obtain ⟨l, x, rfl⟩ := hvariable
    show ∃ scopes, reassign x v (return ()) m = _ ∧ _
    rw [reassign, machine_bind]
    cases hassign : m.scopes.assign? x v with
    | none =>
      refine ⟨m.scopes, rfl, .refl ?_ v⟩
      rintro _ ⟨⟩
      exact Scopes.assign?_eq_none_iff.mp hassign
    | some scopes =>
      obtain ⟨level, hlevel, hdepth, hbinding⟩ := Scopes.rebound_of_assign? hassign
      refine ⟨scopes, rfl, hdepth, fun k y => ?_⟩
      rw [hbinding k y]
      refine if_congr ⟨?_, ?_⟩ rfl rfl
      · rintro ⟨rfl, rfl⟩
        exact ⟨rfl, hlevel⟩
      · rintro ⟨⟨⟩, hk⟩
        exact ⟨Option.some_inj.mp (hk.symm.trans hlevel), rfl⟩
  · refine ⟨m.scopes, ?_, .refl ?_ v⟩
    · cases arg with
      | ident l x => exact absurd ⟨l, x, rfl⟩ hvariable
      | _ => rfl
    · intro x hx
      cases arg with
      | ident l y => exact absurd ⟨l, y, rfl⟩ hvariable
      | _ => cases hx

/-- `Eval.callBuiltin` of a builtin with one parameter acts as soon as it has its argument. -/
theorem callBuiltin_single {run : Evaluator} {builtin : Builtin}
    (harity : builtin.arity = .fixed 1) (line : Nat) {arg : Node} {m n : Machine}
    {a : Option Value} (harg : run arg m = some (.done a, n)) :
    callBuiltin run line builtin [arg] m = (do
      let result ← act line builtin [a.getD .null]
      if builtin.writesBack then
        writeBack [arg] result
      return result) (n.note (.callingBuiltin builtin.name 1)) := by
  have harguments : arguments run [arg] m = some (.done [a.getD .null], n) := bind_of_done harg
  have hrefuses : builtin.arity.refuses? [arg].length = none := by rw [harity]; rfl
  rw [callBuiltin, hrefuses]
  exact bind_of_done harguments

/-- What a call of `scan` leaves behind, on the machine that its argument has left. -/
inductive Scans (line : Nat) (arg : Node) (like : Value) (n : Machine) :
    Flow (Option Value) → Machine → Prop
  /-- A value is scanned. It is the result, and is stored. -/
  | value {v : Value} {rest : List UInt8} {k : Machine} :
      Scan like n.host.input (.ok v) rest → v.typeName = like.typeName →
      k.host = { n.host with input := rest } → n.scopes.Stored arg v k.scopes →
      k.errors = n.errors → Scans line arg like n (.done (some v)) k
  /-- No value is scanned, which is a fault. -/
  | failure {failure : Failure} {rest : List UInt8} {k : Machine} :
      Scan like n.host.input (.error failure) rest → k.host = { n.host with input := rest } →
      k.scopes = n.scopes → k.errors = n.errors ++ [⟨line, .builtin "scan" failure.message⟩] →
      Scans line arg like n .faulted k

/-- If `lookup` finds `Builtin.scan` under the callee's name and the argument is evaluated to
the machine `n`, then the call has an ending, and it `Scans` from `n` on: it takes exactly one
line of the input unless that has ended, and changes exactly one binding unless it fails or
there is none to change. -/
theorem scan_takes_line {limit fuel line l : Nat} {callee : String} {arg : Node} {m n : Machine}
    {a : Option Value} (hcallee : lookup l callee m = some (.done (.builtin .scan), m))
    (harg : ofNode limit fuel arg m = some (.done a, n)) :
    ∃ flow k, ofNode limit (fuel + 1) (.call line (.ident l callee) [arg]) m = some (flow, k) ∧
      Scans line arg (a.getD .null) n flow k := by
  have hcall : ofNode limit (fuel + 1) (.call line (.ident l callee) [arg]) m =
      callBuiltin (ofNode limit fuel) line .scan [arg] m := bind_of_done hcallee
  rw [hcall, callBuiltin_single rfl line harg]
  obtain ⟨result, rest, hscan, hreply⟩ := Builtin.scan_call_eq (a.getD .null) n.host
  -- the machine behind the call of the builtin, before anything comes of its result
  let acted :=
    { n.note (.callingBuiltin Builtin.scan.name 1) with host := { n.host with input := rest } }
  have hact : act line .scan [a.getD .null] (n.note (.callingBuiltin Builtin.scan.name 1)) =
      orFault line ((result.map some).mapError fun failure => .builtin "scan" failure.message)
        acted := by
    have hreply :
        Builtin.scan.call [a.getD .null] (n.note (.callingBuiltin Builtin.scan.name 1)).host =
        _ :=
      hreply
    rw [act, machine_bind, hreply]
    rfl
  cases result with
  | error failure =>
    exact ⟨_, _, bind_of_faulted hact, .failure hscan rfl rfl rfl⟩
  | ok v =>
    obtain ⟨scopes, hwrite, hstored⟩ := writeBack_stores arg v acted
    exact ⟨_, _, (bind_of_done hact).trans (bind_of_done hwrite),
      .value hscan hscan.typeName rfl hstored rfl⟩

/-- So does a `scan` by another name into a variable that hides one of another type. -/
theorem scan_takes_line_alias :
    let m : Machine := {
      scopes := ⟨[("x", .integer 0)], [[("read", .builtin .scan), ("x", .string "")]]⟩
      host := { input := Text.encode "41\r\nrest" } }
    lookup 7 "read" m = some (.done (.builtin .scan), m) ∧
      ofNode 200 1 (.ident 7 "x") m = some (.done (some (.integer 0)), m) ∧
      ∃ flow k, ofNode 200 2 (.call 7 (.ident 7 "read") [.ident 7 "x"]) m = some (flow, k) ∧
        Scans 7 (.ident 7 "x") (.integer 0) m flow k := by
  intro m
  have hcallee : lookup 7 "read" m = some (.done (.builtin .scan), m) := rfl
  have harg : ofNode 200 1 (.ident 7 "x") m = some (.done (some (.integer 0)), m) := rfl
  exact ⟨hcallee, harg, scan_takes_line hcallee harg⟩

end Eval
end ScriptLang
