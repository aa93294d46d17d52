import ScriptLang.Proofs.Displaced
import ScriptLang.Proofs.Running

/-!
# Layout

White space, comments and line breaks reach a program only as the lines of its tokens. So
sources with the same tokens but for lines parse alike, whether there are mistakes in them or
not, and a session runs them alike.

- `Package.parse_bare`: what a source parses into but for lines, read off its tokens but for
  lines.
- `Session.run_alike`: sources with the same tokens, run in sessions that agree but for lines.
-/

namespace ScriptLang

/-- The lists `ts` and `us` of tokens are the same but for lines. -/
abbrev SameTokens (ts us : List Token) : Prop := ts.map Token.bare = us.map Token.bare

/-- The lists `ms` and `ns` of nodes are the same but for lines. -/
abbrev SameTrees (ms ns : List Node) : Prop := ms.map Node.bare = ns.map Node.bare

/-! ## Sources with the same tokens -/

/-- With all lines erased, `Package.parse` comes to what `Rules.statements` comes to on tokens
without lines. -/
theorem Package.parse_bare (name source : String) (journal journal' : Journal) :
    let tokens := (Cursor.start source).tokens.1
    let run := (Grammar.rules (Grammar.depthFor tokens.length)).statements false
      ⟨tokens.map Token.bare, 0, [], journal'⟩
    (Package.parse name source journal).1.package.nodes.map Node.bare = run.1.getD [] ∧
      causes (Package.parse name source journal).1.errors = causes run.2.errors := by
  intro tokens run
  obtain ⟨hnodes, herrors⟩ :=
    Grammar.statements_relined (fun _ => 0) (Grammar.depthFor tokens.length)
      false tokens (Cursor.start source).tokens.2 []
    (journal.note (.scanned (Reading.headOf tokens (Cursor.start source).tokens.2))) journal'
  have hgetD (ns : Option (List Node)) :
      (ns.getD []).map Node.bare = (ns.map (List.map Node.bare)).getD [] := by cases ns <;> rfl
  constructor
  · exact (hgetD _).trans (congrArg (Option.getD · []) hnodes.symm)
  · rw [show run.2.errors = _ from herrors, List.nil_append, causes, causes, List.map_map]
    rfl

/-- `Package.parse` on sources that are `SameTokens` gives nodes that are `SameTrees`, and the
same causes. -/
theorem Package.parse_alike {a b : String}
    (h : SameTokens (Cursor.start a).tokens.1 (Cursor.start b).tokens.1) (name : String)
    (journal journal' : Journal) :
    SameTrees (Package.parse name a journal).1.package.nodes
        (Package.parse name b journal').1.package.nodes ∧
      causes (Package.parse name a journal).1.errors =
        causes (Package.parse name b journal').1.errors := by
  obtain ⟨hnodes, hcauses⟩ := parse_bare name a journal journal
  obtain ⟨hnodes', hcauses'⟩ := parse_bare name b journal' journal
  have hlength : (Cursor.start a).tokens.1.length = (Cursor.start b).tokens.1.length := by
    simpa using congrArg List.length h
  rw [SameTrees, hnodes, hcauses, hnodes', hcauses', h, hlength]
  exact ⟨rfl, rfl⟩

/-- Outcomes that are the same but for lines. -/
inductive Outcome.Alike : Outcome → Outcome → Prop
  | parseErrors {ds ds' : List Diagnostic} :
      causes ds = causes ds' → Alike (.parseErrors ds) (.parseErrors ds')
  | runtimeErrors {ds ds' : List Diagnostic} :
      causes ds = causes ds' → Alike (.runtimeErrors ds) (.runtimeErrors ds')
  | value {v v' : Option Value} : SameResult v v' → Alike (.value v) (.value v')

/-- By their `causes`, there are diagnostics on both sides or on neither. -/
theorem nil_iff_of_causes {ds ds' : List Diagnostic} (h : causes ds = causes ds') :
    ds = [] ↔ ds' = [] := by
  rw [← List.map_eq_nil_iff (f := Diagnostic.cause), ← List.map_eq_nil_iff
    (f := Diagnostic.cause)]
  exact iff_of_eq (congrArg (· = []) h)

/-- The outcomes of evaluations that are `Evaluation.Alike` are alike. -/
theorem Evaluation.Alike.outcome {e e' : Evaluation} (h : e.Alike ([], []) e') :
    e.outcome.Alike e'.outcome := by
  have hnil := nil_iff_of_causes h.causes
  rw [Evaluation.outcome, Evaluation.outcome]
  by_cases he : e.errors = []
  · rw [if_pos he, if_pos (hnil.mp he)]
    exact .value h.value
  · rw [if_neg he, if_neg (mt hnil.mpr he)]
    exact .runtimeErrors h.causes

namespace Session

/-- `Session.parse` on sources that are `SameTokens`, in sessions that are `Session.Alike`. -/
theorem parse_alike {s s' : Session} (hs : s.Alike ([], []) s') {a b : String}
    (h : SameTokens (Cursor.start a).tokens.1 (Cursor.start b).tokens.1) :
    SameTrees (s.parse a).1.package.nodes (s'.parse b).1.package.nodes ∧
      causes (s.parse a).1.errors = causes (s'.parse b).1.errors ∧
      (s.parse a).2.Alike ([], []) (s'.parse b).2 := by
  obtain ⟨hnodes, hcauses⟩ := Package.parse_alike h s.config.package s.machine.journal
    s'.machine.journal
  rw [parse, parse, ← hs.config]
  exact ⟨hnodes, hcauses, rfl, hs.machine.host, hs.machine.scopes, hs.machine.causes,
    hs.machine.loopDepth, hs.machine.callDepth⟩

theorem Alike.symm {s s' : Session} (hs : s.Alike ([], []) s') : s'.Alike ([], []) s :=
  ⟨hs.config.symm, hs.machine.host.symm, hs.machine.scopes.symm, hs.machine.causes.symm,
    hs.machine.loopDepth.symm, hs.machine.callDepth.symm⟩

/-- `Session.run` that ends on one source is followed by one that ends alike on any source with
the same tokens. -/
theorem run_follows {s s' : Session} (hs : s.Alike ([], []) s') {a b : String}
    (h : SameTokens (Cursor.start a).tokens.1 (Cursor.start b).tokens.1) {fuel : Nat}
    {o : Outcome} {t : Session} (ho : s.run fuel a = some (o, t)) :
    ∃ o' t', s'.run fuel b = some (o', t') ∧ o.Alike o' ∧ t.Alike ([], []) t' := by
  obtain ⟨hnodes, hcauses, hparsed⟩ := parse_alike hs h
  have hnil := nil_iff_of_causes hcauses
  by_cases herrors : (s.parse a).1.errors = []
  · rw [run_of_parsed herrors] at ho
    rw [run_of_parsed (hnil.mp herrors)]
    obtain ⟨⟨e, u⟩, he, ⟨⟩⟩ := Option.map_eq_some_iff.mp ho
    obtain ⟨e', t', he', hee', ht⟩ := evaluate_follows hparsed (Nat.le_refl fuel) hnodes he
    rw [he']
    exact ⟨_, _, rfl, hee'.outcome, ht⟩
  · rw [run_of_errors herrors] at ho
    rw [run_of_errors (mt hnil.mpr herrors)]
    cases ho
    exact ⟨_, _, rfl, .parseErrors hcauses, hparsed⟩

/-- White space, comments and line breaks change nothing. If the sources have the `SameTokens`
and the sessions are `Session.Alike`, then they are parsed into the `SameTrees` with the same
causes, and at each amount of fuel either both have an outcome or neither has: the outcomes are
`Outcome.Alike` and the sessions again. -/
theorem run_alike {s s' : Session} (hs : s.Alike ([], []) s') {a b : String}
    (h : SameTokens (Cursor.start a).tokens.1 (Cursor.start b).tokens.1) :
    SameTrees (s.parse a).1.package.nodes (s'.parse b).1.package.nodes ∧
      causes (s.parse a).1.errors = causes (s'.parse b).1.errors ∧
      ∀ fuel, Option.Rel (fun r r' => r.1.Alike r'.1 ∧ r.2.Alike ([], []) r'.2)
        (s.run fuel a) (s'.run fuel b) := by
  refine ⟨(parse_alike hs h).1, (parse_alike hs h).2.1, fun fuel => ?_⟩
  rcases ho : s.run fuel a with _ | ⟨o, t⟩
  · rcases ho' : s'.run fuel b with _ | ⟨o', t'⟩
    · exact .none
    · obtain ⟨o, t, ho'', -⟩ := run_follows hs.symm h.symm ho'
      rw [ho] at ho''
      cases ho''
  · obtain ⟨o', t', ho', halike⟩ := run_follows hs h ho
    rw [ho']
    exact .some halike

/-- A call with a comment and line breaks in it, of a function that was declared on another
line. -/
theorem run_alike_call :
    let declared (line : Nat) : Session :=
      { machine :=
        { scopes := ⟨[("f", .function ⟨"f", ["x"], ⟨line, [.ident line "x"]⟩⟩)], []⟩ } }
    let s := declared 1
    let s' := declared 3
    let a := "f(7);"
    let b := "f( // the answer\n7\n) ;"
    s.Alike ([], []) s' ∧ SameTokens (Cursor.start a).tokens.1 (Cursor.start b).tokens.1 ∧
      SameTrees (s.parse a).1.package.nodes (s'.parse b).1.package.nodes ∧
      causes (s.parse a).1.errors = causes (s'.parse b).1.errors ∧
      ∀ fuel, Option.Rel (fun r r' => r.1.Alike r'.1 ∧ r.2.Alike ([], []) r'.2)
        (s.run fuel a) (s'.run fuel b) := by
  intro declared s s' a b
  have hs : s.Alike ([], []) s' := ⟨rfl, rfl, rfl, rfl, rfl, rfl⟩
  have h : SameTokens (Cursor.start a).tokens.1 (Cursor.start b).tokens.1 := by decide +kernel
  exact ⟨hs, h, run_alike hs h⟩

end Session

end ScriptLang
