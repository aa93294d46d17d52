import ScriptLang.Proofs.History

/-!
# Programs that do not scan

The input of a host is there for one builtin, and no other looks at it. So a program that does
not call this one does the same whatever there is to be scanned, and leaves it all behind.

- `Builtin.call_withInput`: every other builtin gives the same reply on another input.
- `Eval.Overlooks`: an evaluation that makes no call of `scan` is the same on another input.
- `Session.run_withInput`: so is a run, and it leaves the input as it was.
-/

namespace ScriptLang

/-! ## Builtins -/

/-- The reply `r` with the bytes `input` to be scanned on its host. -/
def Reply.withInput {α : Type} (input : List UInt8) (r : Reply α) : Reply α :=
  { r with host := r.host.withInput input }

section Builtins

variable (input : List UInt8)

/-- `Reply.ofChange` with a `change` that does not look at the input may be done on any
input. -/
theorem Reply.withInput_ofChange (h : Host) (change : Except Failure Host) :
    (Reply.ofChange h change).withInput input =
      Reply.ofChange (h.withInput input) (change.map (Host.withInput input)) := by
  cases change <;> rfl

/-- `Reply.andThen` does not look at the input, if neither of the replies does. -/
theorem Reply.withInput_andThen {α β : Type} (r : Reply α) {next : α → Host → Reply β}
    (hnext : ∀ a h, next a (h.withInput input) = (next a h).withInput input) :
    (r.withInput input).andThen next = (r.andThen next).withInput input := by
  obtain ⟨_ | a, host, events⟩ := r
  · rfl
  · simp only [andThen, withInput, hnext]

namespace Host

/-- The operations of the host but `Host.readLine` leave the input alone and do not look at
it. -/
theorem write_withInput (text : String) (h : Host) :
    (h.withInput input).write text = (h.write text).map (withInput input) := by
  rw [write, write]
  show (if h.output.takes text then _ else _) = _
  split <;> rfl

theorem flush_withInput (h : Host) :
    (h.withInput input).flush = h.flush.map (withInput input) := by
  rw [flush, flush]
  show (if h.output.flushFails then _ else _) = _
  split <;> rfl

theorem openFile_withInput (path : String) (h : Host) :
    (h.withInput input).openFile path =
      (h.openFile path).map fun opened => (opened.1, opened.2.withInput input) := by
  show (h.files.openFile path >>= _) = (h.files.openFile path >>= _).map _
  cases h.files.openFile path <;> rfl

theorem files_withInput (h : Host) : (h.withInput input).files = h.files := rfl

theorem handle?_withInput (handle : Int64) (h : Host) :
    (h.withInput input).handle? handle = h.handle? handle := rfl

/-- `Host.read` is from a file, not from the input. -/
theorem read_withInput (handle : Int64) (h : Host) :
    (h.withInput input).read handle =
      ((h.read handle).1, (h.read handle).2.withInput input) := by
  rw [read, read, handle?_withInput]
  cases h.handle? handle with
  | none => rfl
  | some opened =>
    obtain ⟨id, opened⟩ := opened
    dsimp only
    rw [files_withInput]
    cases Text.decode? _ <;> rfl

theorem append_withInput (handle : Int64) (text : String) (h : Host) :
    (h.withInput input).append handle text = (h.append handle text).map (withInput input) := by
  rw [append, append, handle?_withInput]
  cases h.handle? handle with
  | none => rfl
  | some opened =>
    dsimp only
    split <;> rfl

theorem close_withInput (handle : Int64) (h : Host) :
    (h.withInput input).close handle =
      (h.close handle).map fun closed => (closed.1, closed.2.withInput input) := by
  rw [close, close, handle?_withInput]
  cases h.handle? handle <;> rfl

end Host

namespace Builtin

/-- `writeTexts` does not look at the input. -/
theorem writeTexts_withInput (texts : List String) (h : Host) :
    writeTexts texts (h.withInput input) = (writeTexts texts h).withInput input := by
  induction texts generalizing h with
  | nil => rfl
  | cons text texts ih =>
    rw [writeTexts, writeTexts, Host.write_withInput, ← Reply.withInput_ofChange]
    exact Reply.withInput_andThen input _ fun _ k => ih k

/-- `printValues` does not look at the input. -/
theorem printValues_withInput (builtin : Builtin) (values : List Value) (h : Host) :
    printValues builtin values (h.withInput input) = (printValues builtin values h).withInput
      input := by
  induction values generalizing h with
  | nil => rfl
  | cons value values ih =>
    rw [printValues, printValues]
    cases value.printed? with
    | none => exact Reply.withInput_andThen input ⟨.ok (), h, _⟩ fun _ k => ih k
    | some texts =>
      dsimp only
      rw [writeTexts_withInput]
      exact Reply.withInput_andThen input _ fun _ k => ih k

/-- `Builtin.call` of any builtin but `scan` gives the same reply whatever `input` there is, and
leaves it behind. -/
theorem call_withInput {builtin : Builtin} (hb : builtin ≠ scan) (values : List Value)
    (h : Host) :
    builtin.call values (h.withInput input) = (builtin.call values h).withInput input := by
  -- both ways to print end in a flush that gives nothing
  have flushed (h : Host) :
      (Reply.ofChange (h.withInput input) (h.withInput input).flush).andThen
          (fun _ host => (⟨.ok none, host, []⟩ : Reply (Option Value))) =
        ((Reply.ofChange h h.flush).andThen fun _ host => ⟨.ok none, host, []⟩).withInput
          input := by
    rw [Host.flush_withInput, ← Reply.withInput_ofChange]
    exact Reply.withInput_andThen input _ fun _ _ => rfl
  cases builtin with
  | len | type => rfl
  | print =>
    rw [call, call, printValues_withInput]
    exact Reply.withInput_andThen input _ fun _ k => flushed k
  | println =>
    rw [call, call, printValues_withInput]
    refine Reply.withInput_andThen input _ fun _ k => ?_
    rw [Host.write_withInput, ← Reply.withInput_ofChange]
    exact Reply.withInput_andThen input _ fun _ l => flushed l
  | scan => exact absurd rfl hb
  | fopen =>
    rw [call, call]
    cases (values.headD .null).asString with
    | error failure => rfl
    | ok path =>
      dsimp only
      rw [Host.openFile_withInput]
      cases h.openFile path <;> rfl
  | fread =>
    rw [call, call]
    cases (values.headD .null).asHandle with
    | error failure => rfl
    | ok handle =>
      dsimp only
      rw [Host.read_withInput]
      rfl
  | fwrite =>
    rw [call, call]
    cases (values.headD .null).asHandle with
    | error failure => rfl
    | ok handle =>
      cases (values.tail.headD .null).asString with
      | error failure => rfl
      | ok text =>
        dsimp only
        rw [Host.append_withInput, ← Reply.withInput_ofChange]
        exact Reply.withInput_andThen input _ fun _ _ => rfl
  | fclose =>
    rw [call, call]
    cases (values.headD .null).asHandle with
    | error failure => rfl
    | ok handle =>
      dsimp only
      rw [Host.close_withInput]
      cases h.close handle <;> rfl

end Builtin

end Builtins

/-! ## Evaluations -/

/-- The machine `m` with the bytes `input` to be scanned. -/
def Machine.withInput (input : List UInt8) (m : Machine) : Machine :=
  m.withHost (m.host.withInput input)

/-- What is done to a machine aside from its host may be done on another `input`. -/
theorem Machine.map_withInput {f : Machine → Machine}
    (hf : ∀ m host, f (m.withHost host) = (f m).withHost host) (input : List UInt8)
    (m : Machine) : f (m.withInput input) = (f m).withInput input := by
  have hkept : f m = (f m).withHost m.host := hf m m.host
  have hhost : (f m).host = m.host := by
    rw [hkept]
    rfl
  rw [withInput, withInput, hhost]
  exact hf m _

namespace Eval

/-- If none of the calls is one of `scan`, then the evaluation goes the same way whatever there
is to be scanned, and leaves it behind. -/
def Overlooks {α : Type} (e : Eval α) (m : Machine) (cs : List Call) : Prop :=
  (∀ c ∈ cs, c.builtin ≠ .scan) →
    ∀ input, e (m.withInput input) = (e m).map fun r => (r.1, r.2.withInput input)

section Overlooks

variable {α β : Type} {e : Eval α} {m : Machine} {cs : List Call}

/-- A bind overlooks the input if its first part does and, where that is done, what follows
does. -/
theorem bind_overlooks {f : α → Eval β} {calls : α → Machine → List Call}
    (he : Overlooks e m cs)
    (hf : ∀ a n, e m = some (.done a, n) → Overlooks (f a) n (calls a n)) :
    Overlooks (e >>= f) m (cs ++ behind e calls m) := by
  intro hcalls input
  have he := he (fun c hc => hcalls c (List.mem_append_left _ hc)) input
  show Eval.bind e f (m.withInput input) = (Eval.bind e f m).map _
  rw [Eval.bind, Eval.bind, he]
  rw [behind] at hcalls
  rcases hn : e m with _ | ⟨ending, n⟩
  · rfl
  · cases ending with
    | done a =>
      rw [hn] at hcalls
      exact hf a n hn (fun c hc => hcalls c (List.mem_append_right _ hc)) input
    | _ => rfl

/-- To `observe` an evaluation overlooks the input if the evaluation does. -/
theorem observe_overlooks (he : Overlooks e m cs) : Overlooks (observe e) m cs := by
  intro hcalls input
  rw [observe, observe, he hcalls input]
  rcases e m with _ | ⟨ending, n⟩ <;> rfl

theorem orFault_withInput (line : Nat) (x : Except Cause α) (input : List UInt8) (m : Machine) :
    orFault line x (m.withInput input) = (orFault line x m).map fun r =>
      (r.1, r.2.withInput input) := by
  cases x <;> rfl

/-- A builtin that is called overlooks the input unless it is `scan`. -/
theorem act_overlooks (line : Nat) (builtin : Builtin) (values : List Value) (m : Machine) :
    Overlooks (act line builtin values) m [⟨builtin, values, m.host⟩] := by
  intro hcalls input
  have hcall : builtin.call values (m.withInput input).host =
      (builtin.call values m.host).withInput input :=
    Builtin.call_withInput input (hcalls _ (List.mem_singleton_self _)) values m.host
  rw [act_eq, act_eq, hcall]
  exact orFault_withInput line _ input { m with
    host := (builtin.call values m.host).host
    journal := m.journal.noteAll (builtin.call values m.host).events }

end Overlooks

/-- To overlook the input is an `Attribution`, so every evaluation does that makes no call of
`scan`. -/
theorem overlooks_attribution : Attribution fun _ e m cs => Overlooks e m cs where
  outOfFuel _ _ _ := rfl
  raise _ _ _ _ := rfl
  fault _ _ _ _ _ := rfl
  change hf m _ input := congrArg (fun n => some (Flow.done (), n)) (m.map_withInput hf input)
  machine {α f m cs} hf he hcalls input := by
    have hsame : f (m.withInput input) = f m := hf _
    show f (m.withInput input) (m.withInput input) = (f m m).map _
    rw [hsame]
    exact he hcalls input
  bind := bind_overlooks
  observe := observe_overlooks
  act := act_overlooks

end Eval

/-! ## Packages and sessions -/

/-- `evaluateNodes` overlooks the input, if none of `nodesCalls` is of `scan`. -/
theorem evaluateNodes_withInput {limit fuel : Nat} {package : String} {last : Option Value}
    {ns : List Node} {m : Machine}
    (h : ∀ c ∈ nodesCalls limit fuel package ns m, c.builtin ≠ .scan) (input : List UInt8) :
    evaluateNodes limit fuel package last ns (m.withInput input) =
      (evaluateNodes limit fuel package last ns m).map fun r => (r.1, r.2.withInput input) := by
  induction ns generalizing last m with
  | nil => rfl
  | cons node ns ih =>
    rw [nodesCalls] at h
    simp only [evaluateNodes]
    have hnode :=
      Eval.overlooks_attribution.node limit fuel node (m.note (.evaluating package node.line))
        (fun c hc => h c (List.mem_append_left _ hc)) input
    have hnoted : (m.withInput input).note (.evaluating package node.line) =
        (m.note (.evaluating package node.line)).withInput input := rfl
    rw [hnoted, hnode]
    rcases hk : Eval.ofNode limit fuel node
      (m.note (.evaluating package node.line)) with _ | ⟨flow, k⟩
    · rfl
    · rw [hk] at h
      exact ih fun c hc => h c (List.mem_append_right _ hc)

/-- A package that makes no call of `scan` is evaluated alike on any input. -/
theorem Package.evaluate_withInput {limit fuel : Nat} {p : Package} {m : Machine}
    (h : ∀ c ∈ p.calls limit fuel m, c.builtin ≠ .scan) (input : List UInt8) :
    p.evaluate limit fuel (m.withInput input) =
      (p.evaluate limit fuel m).map fun r => (r.1, r.2.withInput input) := by
  rw [evaluate, evaluate, evaluateNodes_withInput h]
  rcases evaluateNodes limit fuel p.name none p.nodes m with _ | ⟨value, n⟩ <;> rfl

namespace Session

variable {s : Session} {fuel : Nat}

/-- `Session.evaluate` overlooks the input, if none of `Session.calls` is of `scan`. -/
theorem evaluate_withInput {p : Package} (h : ∀ c ∈ s.calls fuel p, c.builtin ≠ .scan)
    (input : List UInt8) :
    (s.withInput input).evaluate fuel p =
      (s.evaluate fuel p).map fun r => (r.1, r.2.withInput input) := by
  have hmachine : (s.withInput input).machine = s.machine.withInput input := rfl
  have hconfig : (s.withInput input).config = s.config := rfl
  rw [evaluate, evaluate, hmachine, hconfig, Package.evaluate_withInput h]
  rcases p.evaluate s.config.maxCallDepth fuel s.machine with _ | ⟨e, n⟩ <;> rfl

/-- Without errors, `Session.callsOfRun` are `Session.calls` of the package that is parsed. -/
theorem callsOfRun_of_parsed {source : String} (h : (s.parse source).1.errors = []) :
    s.callsOfRun fuel source = (s.parse source).2.calls fuel (s.parse source).1.package := by
  rw [callsOfRun]
  rcases hp : s.parse source with ⟨⟨package, errors⟩, t⟩
  rw [hp] at h
  cases h
  rfl

/-- A run that makes no call of `scan` comes to the same whatever there is to be scanned, and
leaves it as it was. -/
theorem run_withInput {source : String} (h : ∀ c ∈ s.callsOfRun fuel source, c.builtin ≠ .scan)
    (input : List UInt8) :
    (s.withInput input).run fuel source =
      (s.run fuel source).map fun r => (r.1, r.2.withInput input) := by
  have hparse : (s.withInput input).parse source =
      ((s.parse source).1, (s.parse source).2.withInput input) := rfl
  by_cases herrors : (s.parse source).1.errors = []
  · rw [callsOfRun_of_parsed herrors] at h
    rw [run_of_parsed herrors, run_of_parsed (by rw [hparse]; exact herrors), hparse,
      evaluate_withInput h, Option.map_map, Option.map_map]
    rfl
  · rw [run_of_errors herrors, run_of_errors (by rw [hparse]; exact herrors), hparse]
    rfl

end Session
end ScriptLang
