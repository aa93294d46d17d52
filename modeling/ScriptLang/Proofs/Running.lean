import Mathlib.Logic.Relation
import ScriptLang.Proofs.Following
import ScriptLang.Session

/-!
# What a run comes to

Running a source is parsing it and, if there are no mistakes in it, evaluating its package. Here
this is said once for all results about runs, along with what two evaluations in sessions that
agree but for lines have in common, and with what a session may go through from one state to
another.

- `Session.run_of_parsed`, `Session.run_of_errors`: a run of a source without and with mistakes.
- `Session.evaluate_follows`: packages that agree but for lines, evaluated in sessions that do.
- `Session.Step`, `Session.Leads`: what a session does, once and over again.
- `Session.Leads.preserves`: what all of these preserve.
-/

namespace ScriptLang

/-- The evaluations `e` and `e'` are the same but for lines; what has been reported `before` may
differ. -/
structure Evaluation.Alike (before : List Cause × List Cause) (e e' : Evaluation) : Prop where
  value : SameResult e.value e'.value
  causes : before.1 ++ causes e.errors = before.2 ++ causes e'.errors

/-- The sessions `s` and `s'` are set up alike, and their machines are `Machine.Alike`. -/
structure Session.Alike (before : List Cause × List Cause) (s s' : Session) : Prop where
  config : s.config = s'.config
  machine : s.machine.Alike before s'.machine

namespace Session

variable {s t : Session} {source : String} {fuel : Nat}

/-- `Session.run` evaluates a source without mistakes. -/
theorem run_of_parsed (h : (s.parse source).1.errors = []) :
    s.run fuel source = ((s.parse source).2.evaluate fuel (s.parse source).1.package).map
      fun result => (result.1.outcome, result.2) := by
  rcases hp : s.parse source with ⟨⟨package, errors⟩, s'⟩
  rw [hp] at h
  cases h
  rw [run, hp]

/-- `Session.run` on a source with mistakes changes nothing but the journal. -/
theorem run_of_errors (h : (s.parse source).1.errors ≠ []) :
    s.run fuel source = some (.parseErrors (s.parse source).1.errors, (s.parse source).2) := by
  rcases hp : s.parse source with ⟨⟨package, _ | ⟨d, ds⟩⟩, s'⟩
  · rw [hp] at h
    exact absurd rfl h
  · rw [run, hp]

/-- `Session.evaluate` on packages that agree but for lines comes to what is alike, whatever has
been reported `before`. -/
theorem evaluate_follows {before : List Cause × List Cause} {s s' : Session}
    (hs : s.Alike before s') {fuel fuel' : Nat} (hle : fuel ≤ fuel') {p p' : Package}
    (hp : p.nodes.map Node.bare = p'.nodes.map Node.bare) {e : Evaluation}
    (he : s.evaluate fuel p = some (e, t)) :
    ∃ e' t', s'.evaluate fuel' p' = some (e', t') ∧ e.Alike before e' ∧
      t.Alike ([], []) t' := by
  rw [evaluate, Package.evaluate] at he ⊢
  rw [← hs.config]
  rcases hn : evaluateNodes s.config.maxCallDepth fuel p.name none p.nodes s.machine with
    _ | ⟨v, m⟩ <;> rw [hn] at he
  · cases he
  · cases he
    obtain ⟨v', m', hn', hv, hm⟩ :=
      evaluateNodes_follows _ hle p.name p'.name hp rfl hs.machine hn
    rw [hn']
    exact ⟨_, _, rfl, ⟨hv, hm.causes⟩, rfl, hm.host, hm.scopes, rfl, hm.loopDepth, hm.callDepth⟩

/-! ## What a session goes through -/

/-- A session goes on by `Session.parse`, by `Session.evaluate` on a package that is `allowed`,
or by `Session.run`. -/
inductive Step (allowed : Package → Prop) : Session → Session → Prop
  | parse (s : Session) (source : String) : Step allowed s (s.parse source).2
  | evaluate {s t : Session} {fuel : Nat} {p : Package} {e : Evaluation} :
      allowed p → s.evaluate fuel p = some (e, t) → Step allowed s t
  | run {s t : Session} {fuel : Nat} {source : String} {o : Outcome} :
      s.run fuel source = some (o, t) → Step allowed s t

/-- A session comes from another one by any number of times `Step`. -/
abbrev Leads (allowed : Package → Prop) : Session → Session → Prop :=
  Relation.ReflTransGen (Step allowed)

/-- `Session.run` either ends with the mistakes of its source, or comes to what
`Session.evaluate` comes to. -/
theorem run_eq_some {o : Outcome} (h : s.run fuel source = some (o, t)) :
    t = (s.parse source).2 ∨
      ∃ e, (s.parse source).2.evaluate fuel (s.parse source).1.package = some (e, t) := by
  by_cases herrors : (s.parse source).1.errors = []
  · rw [run_of_parsed herrors] at h
    obtain ⟨⟨e, u⟩, he, ⟨⟩⟩ := Option.map_eq_some_iff.mp h
    exact .inr ⟨e, he⟩
  · rw [run_of_errors herrors] at h
    cases h
    exact .inl rfl

/-- What `Session.parse` and `Session.evaluate` preserve is preserved wherever `Leads` goes. -/
theorem Leads.preserves {allowed : Package → Prop} {I : Session → Prop}
    (hallowed : ∀ name source journal, allowed (Package.parse name source journal).1.package)
    (hparse : ∀ s source, I s → I (s.parse source).2)
    (hevaluate : ∀ s fuel p e t, allowed p → I s → s.evaluate fuel p = some (e, t) → I t)
    (h : Leads allowed s t) (hs : I s) : I t := by
  induction h with
  | refl => exact hs
  | tail _ hstep ih =>
    cases hstep with
    | parse source => exact hparse _ _ ih
    | evaluate hp he => exact hevaluate _ _ _ _ _ hp ih he
    | run hrun =>
      obtain rfl | ⟨e, he⟩ := run_eq_some hrun
      · exact hparse _ _ ih
      · exact hevaluate _ _ _ _ _ (hallowed _ _ _) (hparse _ _ ih) he

end Session
end ScriptLang
