import ScriptLang.Proofs.Language
import ScriptLang.Proofs.Layout

/-!
# One source or many

Sources that parse without mistakes may be put into one text, each behind the line feed that
ends the one before it. The text parses into the nodes of all of them, and evaluating it comes
to what evaluating the sources one after the other in a session comes to.

The cut is in no string, because no string is left open in a source without mistakes, and it
parts no construct, because what the grammar derives from two lists of statements it derives
from both together. A run leaves nothing behind that the next one could see, but the bindings
and the host: the counts are reset behind every node, and the diagnostics are handed over.

- `Session.batch`, `Session.laidOut`: sources in one text, and their nodes on the lines they
  have there.
- `Session.evaluateAll`, `Session.runAll`: sources taken one after the other.
- `Session.Agrees`: what is the same on both sides.
- `Session.batch_agrees`: the batch parses into all nodes, and is evaluated alike.
-/

namespace ScriptLang

/-! ## Parsing a batch -/

namespace Grammar

section Terminated

variable {ts : List Token}

theorem Target.terminated {n : Node} (h : Target ts n) :
    .unterminatedString ∉ ts.map Token.kind := by
  induction h with
  | name ht => simp [ht]
  | group hl _ hr ih => simpa [hl, hr] using ih

theorem Names.terminated {bs : List Binder} (h : Names ts bs) :
    .unterminatedString ∉ ts.map Token.kind := by
  induction h with
  | one ht => simp [ht]
  | more ht hc _ ih => simpa [ht, hc] using ih

theorem Parameters.terminated {bs : List Binder} (h : Parameters ts bs) :
    .unterminatedString ∉ ts.map Token.kind := by
  obtain ⟨rfl, -⟩ | h := h
  · exact List.not_mem_nil
  · exact h.terminated

/-- What `Derives` anything has no string that is left open. -/
theorem Derives.terminated {form : Form} {ns : List Node} (h : Derives form ts ns) :
    .unterminatedString ∉ ts.map Token.kind := by
  have hoperator : ∀ k : TokenKind, k.isPrefix ∨ k.isInfix → .unterminatedString ≠ k := by
    rintro _ hk rfl
    revert hk
    decide
  induction h with
  | prefixed ho _ ih =>
    have ho := hoperator _ (.inl ho)
    simp_all
  | infixed ho _ _ ih ihs =>
    have ho := hoperator _ (.inr ho)
    simp_all
  | assign ht he _ ih =>
    have ht := ht.terminated
    simp_all
  | function _ _ _ hp =>
    have hp := hp.terminated
    simp_all
  | _ => simp_all

end Terminated
end Grammar

open Grammar

namespace Session

/-- The `sources` in one text, with a line feed between one and the next. -/
def batch (sources : List String) : String := "\n".intercalate sources

/-- The nodes of sources, each relined by the lines of the text in front of it. -/
def laidOut (s : Session) : Nat → List String → List Node
  | _, [] => []
  | lines, source :: sources =>
    (s.parse source).1.package.nodes.map (Node.relined (· + lines)) ++
      s.laidOut (lines + source.toList.count '\n' + 1) sources

section Parse

variable {s : Session}

theorem derives_of_parse {source : String} (h : (s.parse source).1.errors = []) :
    Derives .statements (Cursor.tokens ⟨source.toList, 1⟩).1 (s.parse source).1.package.nodes :=
  Package.derives_of_parse h

/-- What `Session.parse` makes of a source without mistakes depends on the configuration at
most. -/
theorem parse_eq_of_config {t : Session} (ht : t.config = s.config) {source : String}
    (h : (s.parse source).1.errors = []) : (t.parse source).1 = (s.parse source).1 := by
  have hparse : ∀ u : Session, (u.parse source).1 =
      ⟨⟨u.config.package, (s.parse source).1.package.nodes⟩, []⟩ := fun u =>
    Package.parse_of_derives (derives_of_parse h) u.machine.journal
  rw [hparse t, hparse s, ht]

/-- The tokens of a `batch` are derived as the nodes that are `laidOut`. -/
theorem derives_batch (lines : Nat) {sources : List String}
    (h : ∀ source ∈ sources, (s.parse source).1.errors = []) :
    Derives .statements (Cursor.tokens ⟨(batch sources).toList, 1 + lines⟩).1
      (s.laidOut lines sources) := by
  induction sources generalizing lines with
  | nil =>
    rw [show (batch []).toList = [] from rfl, Cursor.tokens_of_blank (l := 1 + lines) rfl]
    exact .noStatements
  | cons source sources ih =>
    have hfirst := derives_of_parse (h source List.mem_cons_self)
    have hshifted := (derives_relined_iff Cursor.kind_ne_eof (· + lines) _).mpr ⟨_, hfirst, rfl⟩
    have hrest := ih (lines + source.toList.count '\n' + 1) fun other hm =>
      h other (List.mem_cons_of_mem _ hm)
    cases sources with
    | nil =>
      rw [show batch [source] = source from String.intercalate_singleton, Cursor.tokens_shift,
        laidOut, laidOut, List.append_nil]
      exact hshifted
    | cons next sources =>
      have htext : (batch (source :: next :: sources)).toList =
          source.toList ++ '\n' :: (batch (next :: sources)).toList := by
        rw [batch, String.intercalate_cons_cons]
        simp [batch]
      -- no string is open where the line feed is
      have hclosed : ∀ t ∈ (Cursor.tokens ⟨source.toList, 1 + lines⟩).1,
          t.kind ≠ .unterminatedString := by
        intro t ht hk
        rw [Cursor.tokens_shift] at ht
        exact hshifted.terminated (hk ▸ List.mem_map_of_mem ht)
      rw [htext, Cursor.tokens_append hclosed, laidOut, Cursor.tokens_endLine]
      rw [Cursor.tokens_shift]
      refine hshifted.append ?_
      have hline : 1 + lines + source.toList.count '\n' + 1 =
          1 + (lines + source.toList.count '\n' + 1) := by
        omega
      rw [hline]
      exact hrest

/-- A `batch` parses into the nodes that are `laidOut`, and without errors. -/
theorem parse_batch {sources : List String}
    (h : ∀ source ∈ sources, (s.parse source).1.errors = []) :
    (s.parse (batch sources)).1 = ⟨⟨s.config.package, s.laidOut 0 sources⟩, []⟩ :=
  Package.parse_of_derives (derives_batch 0 h) s.machine.journal

end Parse

/-! ## Evaluating a batch -/

/-- `Session.parse` on a source, and `Session.evaluate` on what it parses into. -/
def evaluateSource (fuel : Nat) (source : String) (s : Session) :
    Option (Evaluation × Session) :=
  (s.parse source).2.evaluate fuel (s.parse source).1.package

/-- `evaluateSource` on sources one after the other. -/
def evaluateAll (fuel : Nat) : List String → Session → Option (List Evaluation × Session)
  | [], s => some ([], s)
  | source :: sources, s =>
    match s.evaluateSource fuel source with
    | none => none
    | some (e, s) => (evaluateAll fuel sources s).map fun (es, s) => (e :: es, s)

/-- `Session.run` on sources one after the other. -/
def runAll (fuel : Nat) : List String → Session → Option (List Outcome × Session)
  | [], s => some ([], s)
  | source :: sources, s =>
    match s.run fuel source with
    | none => none
    | some (o, s) => (runAll fuel sources s).map fun (os, s) => (o :: os, s)

/-- The value of the last of some evaluated sources that has any node, or else the given
`value`. -/
def lastValue (s : Session) (value : Option Value) (runs : List (String × Evaluation)) :
    Option Value :=
  (runs.filter fun run => !(s.parse run.1).1.package.nodes.isEmpty).getLast?.elim value
    fun run => run.2.value

/-- What `many`, which evaluating `sources` one after the other comes to, and `one`, which
evaluating them as one package comes to, have in common. The causes are those of all
evaluations, in order, and a session keeps no diagnostics. -/
structure Agrees (s : Session) (sources : List String) (many : List Evaluation × Session)
    (one : Evaluation × Session) : Prop where
  config : many.2.config = one.2.config
  host : many.2.machine.host = one.2.machine.host
  scopes : many.2.machine.scopes.bare = one.2.machine.scopes.bare
  loopDepth : many.2.machine.loopDepth = one.2.machine.loopDepth
  callDepth : many.2.machine.callDepth = one.2.machine.callDepth
  causes : (many.1.flatMap fun e => causes e.errors) ++ causes many.2.machine.errors =
    causes one.1.errors
  kept : many.2.machine.errors = (if sources.isEmpty then s.machine.errors else []) ∧
    one.2.machine.errors = []
  value : SameResult (s.lastValue none (sources.zip many.1)) one.1.value

end Session

theorem Machine.Alike.swap {as bs : List Cause} {m m' : Machine} (h : m.Alike (as, bs) m') :
    m'.Alike (bs, as) m :=
  ⟨h.host.symm, h.scopes.symm, h.causes.symm, h.loopDepth.symm, h.callDepth.symm⟩

/-- Diagnostics that are handed over, and so taken from the machine, count as reported
before. -/
theorem Machine.Alike.handedOver {as bs : List Cause} {m m' : Machine}
    (h : m.Alike (as, bs) m') :
    Machine.Alike (as ++ ScriptLang.causes m.errors, bs) { m with errors := [] } m' := by
  refine ⟨h.host, h.scopes, ?_, h.loopDepth, h.callDepth⟩
  rw [← h.causes]
  exact List.append_nil _

/-- `Option.Rel` holds of two answers if each side has one whenever the other has, and `R` holds
of them then. -/
theorem optionRel_of_forall {α β : Type} {R : α → β → Prop} {x : Option α} {y : Option β}
    (h : ∀ a, x = some a → ∃ b, y = some b ∧ R a b) (h' : ∀ b, y = some b → ∃ a, x = some a) :
    Option.Rel R x y := by
  cases x with
  | none =>
    cases y with
    | none => exact .none
    | some b =>
      obtain ⟨a, ha⟩ := h' b rfl
      cases ha
  | some a =>
    obtain ⟨b, rfl, hab⟩ := h a rfl
    exact .some hab

section Nodes

variable (limit fuel : Nat) (package : String)

/-- `evaluateNodes` of nodes in a row goes on with the value and the machine that the first ones
leave. -/
theorem evaluateNodes_append (last : Option Value) (ns ms : List Node) (m : Machine) :
    evaluateNodes limit fuel package last (ns ++ ms) m =
      match evaluateNodes limit fuel package last ns m with
      | none => none
      | some (value, m) => evaluateNodes limit fuel package value ms m := by
  induction ns generalizing last m with
  | nil => rfl
  | cons n ns ih =>
    rw [List.cons_append, evaluateNodes, evaluateNodes]
    rcases Eval.ofNode limit fuel n (m.note (.evaluating package n.line)) with _ | ⟨flow, m'⟩
    · rfl
    · exact ih _ _

/-- `evaluateNodes` within the same fuel, on nodes that agree but for lines, has answers on both
sides or on neither, and these are alike. -/
theorem evaluateNodes_alike {before : List Cause × List Cause} (package' : String)
    {ns ns' : List Node} (h : ns.map Node.bare = ns'.map Node.bare)
    {last last' : Option Value} (hl : SameResult last last') {m m' : Machine}
    (hm : m.Alike before m') :
    Option.Rel (fun r r' => SameResult r.1 r'.1 ∧ r.2.Alike before r'.2)
      (evaluateNodes limit fuel package last ns m)
        (evaluateNodes limit fuel package' last' ns' m') := by
  refine optionRel_of_forall ?_ ?_
  · rintro ⟨v, k⟩ hv
    obtain ⟨v', k', hv', hr⟩ :=
      evaluateNodes_follows limit (Nat.le_refl fuel) package package' h hl hm hv
    exact ⟨_, hv', hr⟩
  · rintro ⟨v', k'⟩ hv'
    obtain ⟨v, k, hv, -⟩ :=
      evaluateNodes_follows limit (Nat.le_refl fuel) package' package h.symm hl.symm hm.swap hv'
    exact ⟨_, hv⟩

/-- Nodes that are evaluated on their own begin without a value, and those in a row with the
`value` so far, which is only seen where there is no node. -/
theorem evaluateNodes_afresh {before : List Cause × List Cause} (package' : String)
    {ns ns' : List Node} (h : ns.map Node.bare = ns'.map Node.bare)
    {value value' : Option Value} (hv : SameResult value value') {m m' : Machine}
    (hm : m.Alike before m') :
    Option.Rel (fun r r' => SameResult (if ns.isEmpty then value else r.1) r'.1 ∧
      r.2.Alike before r'.2)
      (evaluateNodes limit fuel package none ns m)
        (evaluateNodes limit fuel package' value' ns' m') := by
  cases ns with
  | nil =>
    rw [List.map_nil] at h
    rw [List.map_eq_nil_iff.mp h.symm]
    exact .some ⟨hv, hm⟩
  | cons n ns =>
    cases ns' with
    | nil => cases h
    | cons n' ns' =>
      exact evaluateNodes_alike limit fuel package package' h
        (show SameResult none none from rfl) hm

end Nodes

namespace Session

section Value

variable (s : Session) (value : Option Value) (source : String) (e : Evaluation)
  (runs : List (String × Evaluation))

/-- A source without nodes leaves `lastValue` as it is. -/
theorem lastValue_cons : s.lastValue value ((source, e) :: runs) =
    s.lastValue (if (s.parse source).1.package.nodes.isEmpty then value else e.value) runs := by
  rw [lastValue, lastValue]
  by_cases h : (s.parse source).1.package.nodes.isEmpty
  · rw [List.filter_cons_of_neg (by simp [h]), if_pos h]
  · rw [List.filter_cons_of_pos (by simp [h]), if_neg h, List.getLast?_cons]
    cases (runs.filter _).getLast? <;> rfl

end Value

/-- `evaluateAll` on sources and `evaluateNodes` on the nodes `laidOut` go along with each
other, whatever has been `reported` so far. -/
theorem evaluateAll_alike (s : Session) (fuel : Nat) (package : String)
    {sources : List String} (h : ∀ source ∈ sources, (s.parse source).1.errors = [])
    (lines : Nat) {t : Session} (ht : t.config = s.config) {reported : List Cause}
    {m : Machine} (hm : t.machine.Alike (reported, []) m) {value value' : Option Value}
    (hv : SameResult value value') :
    Option.Rel
      (fun many one => many.2.config = s.config ∧
        many.2.machine.Alike (reported ++ many.1.flatMap (fun e => causes e.errors), []) one.2 ∧
        many.2.machine.errors = (if sources.isEmpty then t.machine.errors else []) ∧
        SameResult (s.lastValue value (sources.zip many.1)) one.1)
      (t.evaluateAll fuel sources)
      (evaluateNodes s.config.maxCallDepth fuel package value'
        (s.laidOut lines sources) m) := by
  induction sources generalizing lines t reported m value value' with
  | nil =>
    refine .some ⟨ht, ?_, rfl, hv⟩
    rw [List.flatMap_nil, List.append_nil]
    exact hm
  | cons source sources ih =>
    have hparsed := parse_eq_of_config ht (h source List.mem_cons_self)
    have hshifted : (s.parse source).1.package.nodes.map Node.bare =
        ((s.parse source).1.package.nodes.map (Node.relined (· + lines))).map Node.bare := by
      simp
    have hmachine : (t.parse source).2.machine.Alike (reported, []) m :=
      ⟨hm.host, hm.scopes, hm.causes, hm.loopDepth, hm.callDepth⟩
    rw [evaluateAll, laidOut, evaluateNodes_append, evaluateSource, evaluate, Package.evaluate,
      hparsed, show (t.parse source).2.config = s.config from ht]
    -- the session starts a source afresh and the batch
    -- goes on, which makes no difference to what it does
    have hfirst :=
      evaluateNodes_afresh s.config.maxCallDepth fuel (s.parse source).1.package.name package
        hshifted hv hmachine
    generalize evaluateNodes _ _ _ none _ _ = first at hfirst ⊢
    generalize evaluateNodes _ _ _ value' _ _ = first' at hfirst ⊢
    cases hfirst with
    | none => exact .none
    | @some r r' hr =>
      obtain ⟨v, k⟩ := r
      obtain ⟨v', k'⟩ := r'
      obtain ⟨hvalue, hk⟩ := hr
      -- the diagnostics of this source have been handed
      -- over, so the next one starts without any
      have hrest := ih (fun other hm => h other (List.mem_cons_of_mem _ hm))
        (lines + source.toList.count '\n' + 1)
        (t := ⟨s.config, { k with errors := [] }⟩) rfl hk.handedOver hvalue
      dsimp only at hrest ⊢
      generalize evaluateAll fuel sources _ = rest at hrest ⊢
      generalize evaluateNodes _ _ _ v' _ _ = rest' at hrest ⊢
      cases hrest with
      | none => exact .none
      | @some r r' hr =>
        obtain ⟨es, u⟩ := r
        obtain ⟨hconfig, halike, hkept, hlast⟩ := hr
        refine .some ⟨hconfig, ?_, ?_, ?_⟩
        · rw [List.flatMap_cons, ← List.append_assoc]
          exact halike
        · rw [hkept]
          exact ite_self []
        · rw [List.zip_cons_cons, lastValue_cons]
          exact hlast

/-- `runAll` on sources without mistakes gives the outcomes of `evaluateAll`. -/
theorem runAll_eq (s : Session) (fuel : Nat) {sources : List String}
    (h : ∀ source ∈ sources, (s.parse source).1.errors = []) {t : Session}
    (ht : t.config = s.config) :
    t.runAll fuel sources =
      (t.evaluateAll fuel sources).map fun r => (r.1.map Evaluation.outcome, r.2) := by
  induction sources generalizing t with
  | nil => rfl
  | cons source sources ih =>
    have hsource := h source List.mem_cons_self
    rw [← parse_eq_of_config ht hsource] at hsource
    rw [runAll, evaluateAll, run_of_parsed hsource, ← evaluateSource]
    rcases he : t.evaluateSource fuel source with _ | ⟨e, u⟩
    · rfl
    · have hu : u.config = s.config := by
        rw [evaluateSource, evaluate] at he
        split at he
        · cases he
        · cases he
          exact ht
      simp only [Option.map_some]
      rw [ih (fun other hm => h other (List.mem_cons_of_mem _ hm)) hu]
      cases u.evaluateAll fuel sources <;> rfl

/-- Sources that parse without errors are parsed as a `batch` into the nodes of all of them,
`Session.laidOut` on later lines. At each amount of fuel, `Session.evaluateAll` has an answer
for the sources exactly if `Session.evaluateSource` has one for the batch, and the two are then
such that `Session.Agrees` holds. What `Session.run` gives is read off the evaluations. -/
theorem batch_agrees (s : Session) (sources : List String)
    (h : ∀ source ∈ sources, (s.parse source).1.errors = []) :
    (s.parse (batch sources)).1 = ⟨⟨s.config.package, s.laidOut 0 sources⟩, []⟩ ∧
      ∀ fuel,
        Option.Rel (s.Agrees sources) (s.evaluateAll fuel sources)
          (s.evaluateSource fuel (batch sources)) ∧
        s.runAll fuel sources =
          (s.evaluateAll fuel sources).map (fun r => (r.1.map Evaluation.outcome, r.2)) ∧
        s.run fuel (batch sources) =
          (s.evaluateSource fuel (batch sources)).map fun r => (r.1.outcome, r.2) := by
  have hbatch := parse_batch h
  refine ⟨hbatch, fun fuel => ⟨?_, runAll_eq s fuel h rfl, run_of_parsed (by rw [hbatch])⟩⟩
  have hmachine : s.machine.Alike ([], []) (s.parse (batch sources)).2.machine :=
    ⟨rfl, rfl, rfl, rfl, rfl⟩
  have halike := evaluateAll_alike s fuel s.config.package h 0 rfl hmachine
    (show SameResult none none from rfl)
  rw [evaluateSource, evaluate, Package.evaluate, hbatch]
  dsimp only
  rw [show (s.parse (batch sources)).2.config = s.config from rfl]
  generalize s.evaluateAll fuel sources = many at halike ⊢
  generalize evaluateNodes _ _ _ _ _ _ = one at halike ⊢
  cases halike with
  | none => exact .none
  | @some r r' hr =>
    obtain ⟨es, t⟩ := r
    obtain ⟨v, m⟩ := r'
    obtain ⟨hconfig, hm, hkept, hvalue⟩ := hr
    exact .some {
      config := hconfig
      host := hm.host
      scopes := hm.scopes
      loopDepth := hm.loopDepth
      callDepth := hm.callDepth
      causes := hm.causes
      kept := ⟨hkept, rfl⟩
      value := hvalue }

/-- A declaration, a comment that the line feed ends, and a use. -/
theorem batch_agrees_comment :
    let s : Session := {}
    let sources := ["var a = 1; // one", "", "a = a + 1; a;"]
    (∀ source ∈ sources, (s.parse source).1.errors = []) ∧
      (s.parse (batch sources)).1 = ⟨⟨s.config.package, s.laidOut 0 sources⟩, []⟩ ∧
      ∀ fuel,
        Option.Rel (s.Agrees sources) (s.evaluateAll fuel sources)
          (s.evaluateSource fuel (batch sources)) ∧
        s.runAll fuel sources =
          (s.evaluateAll fuel sources).map (fun r => (r.1.map Evaluation.outcome, r.2)) ∧
        s.run fuel (batch sources) =
          (s.evaluateSource fuel (batch sources)).map fun r => (r.1.outcome, r.2) := by
  intro s sources
  have h : ∀ source ∈ sources, (s.parse source).1.errors = [] := by decide +kernel
  exact ⟨h, batch_agrees s sources h⟩

end Session

end ScriptLang
