import ScriptLang.Proofs.Advance

/-!
# What is behind does not matter

A parser looks at the current token and at the one behind it, and never at what has been
reported before. So some token of a source divides what is done in front of it from all that
follows: as long as a parser has not got to that token, it does the same whatever is behind it.
Either it ends in front of the token, in the same way each time, or it gets to the token or past
it each time.

- `Parser.Goes`: a run in front of a token, with a rule for each way to build a parser.
- `Parser.Local`: a parser that ends in front of a token or else gets there, whatever follows.
- `Parser.localizing`: so does every rule of the grammar.
-/

namespace ScriptLang.Parser

open Reading

/-- With the tokens `w` in front of `s`, the parser `p` gets to `v` in front of it, gives a
result or fails, and reports `ds`. It does so whatever is behind `s`, whatever line the source
ends on, and whatever has been reported before. -/
def Goes {α : Type} (s : Token) (p : Parser α) (w : List Token) (a : Option α)
    (ds : List Diagnostic) (v : List Token) : Prop :=
  ∀ rest e errors journal, ∃ journal',
    p ⟨w ++ s :: rest, e, errors, journal⟩ = (a, ⟨v ++ s :: rest, e, errors ++ ds, journal'⟩)

variable {s t : Token} {α β : Type} {p q : Parser α} {f : α → Parser β}
  {w v u : List Token} {a : α} {ds ds' : List Diagnostic}

/-- `headOf` the tokens `w` in front of `s` is `s` itself if there are none. -/
theorem headOf_append (w : List Token) (s : Token) (rest : List Token) (e : Nat) :
    headOf (w ++ s :: rest) e = w.headD s := by
  cases w <;> rfl

namespace Goes

theorem pure : Goes s (pure a : Parser α) w (some a) [] w :=
  fun _ _ _ journal => ⟨journal, by rw [List.append_nil]; rfl⟩

theorem fail : Goes s (fail : Parser α) w none [] w :=
  fun _ _ _ journal => ⟨journal, by rw [List.append_nil]; rfl⟩

/-- Runs that end in front of the token `s` follow on each other. -/
theorem bind {b : Option β} (hp : Goes s p w (some a) ds v) (hf : Goes s (f a) v b ds' u) :
    Goes s (p >>= f) w b (ds ++ ds') u := by
  intro rest e errors journal
  obtain ⟨journal', hp⟩ := hp rest e errors journal
  obtain ⟨journal'', hf⟩ := hf rest e (errors ++ ds) journal'
  refine ⟨journal'', ?_⟩
  rw [bind_of_some hp, hf, List.append_assoc]

/-- Where `p` fails, so does whatever is bound to it. -/
theorem bind_of_fails (hp : Goes s p w none ds v) : Goes s (p >>= f) w none ds v := by
  intro rest e errors journal
  obtain ⟨journal', hp⟩ := hp rest e errors journal
  exact ⟨journal', bind_of_none hp⟩

/-- An attempt at `p` ends where `p` does. -/
theorem attempt {a : Option α} (hp : Goes s p w a ds v) : Goes s p.attempt w (some a) ds v := by
  intro rest e errors journal
  obtain ⟨journal', hp⟩ := hp rest e errors journal
  exact ⟨journal', by rw [Parser.attempt, hp]⟩

/-- The current token is the first one of `w`, or `s` itself. -/
theorem current : Goes s current w (some (w.headD s)) [] w := by
  intro rest e errors journal
  refine ⟨journal, ?_⟩
  rw [Parser.current, Reading.current, headOf_append, List.append_nil]

/-- The token passed on to is the first one behind `t`, or `s` itself. -/
theorem advance : Goes s advance (t :: w) (some (w.headD s)) [] w := by
  intro rest e errors journal
  refine ⟨journal.note (.scanned (w.headD s)), ?_⟩
  rw [Parser.advance, Reading.ahead, List.cons_append, List.tail_cons, headOf_append,
    List.append_nil]

/-- `peek` sees the token ahead, without passing on. -/
theorem peek : Goes s peek (t :: w) (some (w.headD s)) [] (t :: w) := by
  intro rest e errors journal
  refine ⟨journal.note (.scanned (w.headD s)), ?_⟩
  rw [Parser.peek, Reading.ahead, List.cons_append, List.tail_cons, headOf_append,
    List.append_nil]
  rfl

theorem note {event : Event} : Goes s (note event) w (some ()) [] w :=
  fun _ _ _ journal => ⟨journal.note event, by rw [List.append_nil]; rfl⟩

theorem reportAt {line : Nat} {cause : Cause} :
    Goes s (reportAt line cause) w (some ()) [⟨line, cause⟩] w :=
  fun _ _ _ _ => ⟨_, rfl⟩

/-- A `report` is at the line of the current token, which is `s` where `w` is at its end. -/
theorem report {cause : Cause} :
    Goes s (report cause) w (some ()) [⟨(w.headD s).line, cause⟩] w :=
  current.bind reportAt

theorem reject {cause : Cause} :
    Goes s (reject cause : Parser α) w none [⟨(w.headD s).line, cause⟩] w :=
  report.bind fail

/-- A parser that `Advances` gets to the last of the tokens it has found. -/
theorem suffix {a : Option α} (ha : Advances p) (hp : Goes s p w a ds v) : v <:+ w := by
  obtain ⟨journal, hp⟩ := hp [] 0 [] {}
  have htokens := (ha ⟨w ++ [s], 0, [], {}⟩).tokens
  rw [hp] at htokens
  obtain ⟨front, hfront⟩ := htokens
  exact ⟨front, List.append_cancel_right (by rw [List.append_assoc]; exact hfront)⟩

section Statement

variable {statement : Parser Node}

/-- `orRecover` leaves a statement that is read as it is. -/
theorem orRecover {n : Node} (h : Goes s statement w (some n) ds v) :
    Goes s (Grammar.orRecover statement) w (some (some n)) ds v := by
  intro rest e errors journal
  obtain ⟨journal', h⟩ := h rest e errors journal
  exact ⟨journal', Grammar.orRecover_of_some h⟩

/-- `orRecover` does not recover from a statement that fails without a report. -/
theorem orRecover_of_silent (h : Goes s statement w none [] v) :
    Goes s (Grammar.orRecover statement) w (some none) [] v := by
  intro rest e errors journal
  obtain ⟨journal', h⟩ := h rest e errors journal
  exact ⟨journal', Grammar.orRecover_of_silent h (by simp)⟩

/-- One that has reported is followed by `recover`, which has to end in front of `s` too. -/
theorem orRecover_of_reported (hds : ds ≠ []) (h : Goes s statement w none ds v)
    (hr : Goes s (recover .statement) v (some ()) [] u) :
    Goes s (Grammar.orRecover statement) w (some none) ds u := by
  intro rest e errors journal
  obtain ⟨journal', h⟩ := h rest e errors journal
  obtain ⟨journal'', hr⟩ := hr rest e (errors ++ ds) journal'
  refine ⟨journal'', ?_⟩
  have hlength : 0 < ds.length := List.length_pos_iff.mpr hds
  rw [Grammar.orRecover_of_reported h (by simp [hlength]), hr, List.append_nil]

end Statement
end Goes

/-! ## Parsers that end in front of a token or get there -/

/-- With tokens in front of `s`, the parser `p` ends in front of it whatever follows, or else
gets there whatever follows. -/
def Local {α : Type} (s : Token) (p : Parser α) : Prop :=
  ∀ w, w ≠ [] → (∃ a ds v, v ≠ [] ∧ Goes s p w a ds v) ∨
    ∀ rest e errors journal, (p ⟨w ++ s :: rest, e, errors, journal⟩).2.tokens <:+ s :: rest

namespace Local

/-- A parser that does not move, and does the same each time, is `Local`. -/
theorem of_goes (h : ∀ w, w ≠ [] → ∃ a ds, Goes s p w a ds w) : Local s p := by
  intro w hw
  obtain ⟨a, ds, hp⟩ := h w hw
  exact .inl ⟨a, ds, w, hw, hp⟩

/-- A bind is `Local` if its parts are, and if what follows `Advances` from where it starts. -/
theorem bind (hp : Local s p) (hf : ∀ a, Local s (f a)) (ha : ∀ a, Advances (f a)) :
    Local s (p >>= f) := by
  intro w hw
  obtain ⟨a, ds, v, hv, hgoes⟩ | hthere := hp w hw
  · cases a with
    | none => exact .inl ⟨none, ds, v, hv, hgoes.bind_of_fails⟩
    | some a =>
      -- there are tokens in front of the given one for the second parser, too
      obtain ⟨b, ds', u, hu, hgoes'⟩ | hthere := hf a v hv
      · exact .inl ⟨b, ds ++ ds', u, hu, hgoes.bind hgoes'⟩
      · refine .inr fun rest e errors journal => ?_
        obtain ⟨journal', hgoes⟩ := hgoes rest e errors journal
        rw [bind_of_some hgoes]
        exact hthere rest e (errors ++ ds) journal'
  · -- once there, a parser that goes on stays there
    refine .inr fun rest e errors journal => ?_
    have htokens := hthere rest e errors journal
    rcases h : p ⟨w ++ s :: rest, e, errors, journal⟩ with ⟨_ | a, r⟩ <;> rw [h] at htokens
    · rw [bind_of_none h]
      exact htokens
    · rw [bind_of_some h]
      exact (ha a r).tokens.trans htokens

theorem attempt (hp : Local s p) : Local s p.attempt := by
  intro w hw
  obtain ⟨a, ds, v, hv, hgoes⟩ | hthere := hp w hw
  · exact .inl ⟨some a, ds, v, hv, hgoes.attempt⟩
  · exact .inr hthere

theorem current : Local s current := of_goes fun _ _ => ⟨_, _, .current⟩

theorem peek : Local s peek := by
  refine of_goes fun w hw => ?_
  obtain ⟨t, w, rfl⟩ := List.exists_cons_of_ne_nil hw
  exact ⟨_, _, .peek⟩

theorem advance : Local s advance := by
  intro w hw
  match w, hw with
  | [t], _ => exact .inr fun rest _ _ _ => List.suffix_refl (s :: rest)
  | t :: u :: w, _ => exact .inl ⟨_, _, u :: w, List.cons_ne_nil u w, .advance⟩

/-- `Recovery.skip` looks at the kind of one token ahead, and then stays where it is or passes a
token. -/
theorem skip_step (s : Token) (how : Recovery) (w : List Token) (t : Token) (depth : Nat) :
    (∀ rest e journal, ∃ journal',
        how.skip e depth (t :: (w ++ s :: rest)) journal = (t :: (w ++ s :: rest), journal')) ∨
      ∃ depth', ∀ rest e journal, ∃ journal',
        how.skip e depth (t :: (w ++ s :: rest)) journal =
          how.skip e depth' (w ++ s :: rest) journal' := by
  simp only [Recovery.skip, headOf_append]
  cases how.step depth t.kind with
  | none => exact .inl fun rest e journal => ⟨journal, rfl⟩
  | some depth' =>
    dsimp only
    split
    · split
      · exact .inl fun rest e journal => ⟨_, rfl⟩
      · exact .inr ⟨depth', fun rest e journal => ⟨_, rfl⟩⟩
    · exact .inr ⟨depth', fun rest e journal => ⟨_, rfl⟩⟩

/-- `Recovery.skip` ends in front of `s` or gets to it. -/
theorem skip (s : Token) (how : Recovery) (w : List Token) (t : Token) (depth : Nat) :
    (∃ v, v ≠ [] ∧ ∀ rest e journal, ∃ journal',
        how.skip e depth (t :: w ++ s :: rest) journal = (v ++ s :: rest, journal')) ∨
      ∀ rest e journal, (how.skip e depth (t :: w ++ s :: rest) journal).1 <:+ s :: rest := by
  induction w generalizing t depth with
  | nil =>
    obtain hstays | ⟨depth', hmoves⟩ := skip_step s how [] t depth
    · exact .inl ⟨[t], List.cons_ne_nil t [], hstays⟩
    · refine .inr fun rest e journal => ?_
      obtain ⟨journal', hmoves⟩ := hmoves rest e journal
      rw [List.cons_append, hmoves]
      exact Advances.skip_suffix how e depth' (s :: rest) journal'
  | cons u w ih =>
    obtain hstays | ⟨depth', hmoves⟩ := skip_step s how (u :: w) t depth
    · exact .inl ⟨t :: u :: w, List.cons_ne_nil t (u :: w), hstays⟩
    · obtain ⟨v, hv, hends⟩ | hthere := ih u depth'
      · refine .inl ⟨v, hv, fun rest e journal => ?_⟩
        obtain ⟨journal', hmoves⟩ := hmoves rest e journal
        rw [List.cons_append, hmoves]
        exact hends rest e journal'
      · refine .inr fun rest e journal => ?_
        obtain ⟨journal', hmoves⟩ := hmoves rest e journal
        rw [List.cons_append, hmoves]
        exact hthere rest e journal'

/-- `recover` in front of `s` ends there or gets to it. -/
theorem recover_cases (s : Token) (how : Recovery) {w : List Token} (hw : w ≠ []) :
    (∃ v, v ≠ [] ∧ Goes s (recover how) w (some ()) [] v) ∨
      ∀ rest e errors journal,
        (recover how ⟨w ++ s :: rest, e, errors, journal⟩).2.tokens <:+ s :: rest := by
  obtain ⟨t, w, rfl⟩ := List.exists_cons_of_ne_nil hw
  refine (skip s how w t 0).imp ?_ fun hthere rest e errors journal => hthere rest e journal
  rintro ⟨v, hv, hskip⟩
  refine ⟨v, hv, fun rest e errors journal => ?_⟩
  obtain ⟨journal', hskip⟩ := hskip rest e journal
  exact ⟨journal', by rw [Parser.recover, hskip, List.append_nil]⟩

theorem recover {how : Recovery} : Local s (recover how) := fun _ hw =>
  (recover_cases s how hw).imp_left fun ⟨v, hv, hgoes⟩ => ⟨some (), [], v, hv, hgoes⟩

theorem orRecover {statement : Parser Node} (h : Local s statement) :
    Local s (Grammar.orRecover statement) := by
  intro w hw
  obtain ⟨_ | n, ds, v, hv, hgoes⟩ | hthere := h w hw
  · -- recovery starts only behind a failure that has been reported
    by_cases hds : ds = []
    · subst hds
      exact .inl ⟨_, _, v, hv, hgoes.orRecover_of_silent⟩
    · obtain ⟨u, hu, hrecover⟩ | hthere := recover_cases s .statement hv
      · exact .inl ⟨_, _, u, hu, hgoes.orRecover_of_reported hds hrecover⟩
      · refine .inr fun rest e errors journal => ?_
        obtain ⟨journal', hgoes⟩ := hgoes rest e errors journal
        rw [Grammar.orRecover_of_reported hgoes (by simp [List.length_pos_iff.mpr hds])]
        exact hthere rest e (errors ++ ds) journal'
  · exact .inl ⟨_, _, v, hv, hgoes.orRecover⟩
  · refine .inr fun rest e errors journal => ?_
    have htokens := hthere rest e errors journal
    rcases hr : statement ⟨w ++ s :: rest, e, errors, journal⟩ with ⟨_ | n, r⟩ <;>
      rw [hr] at htokens
    · by_cases he : errors.length < r.errors.length
      · rw [Grammar.orRecover_of_reported hr he]
        exact (Advances.recover r).tokens.trans htokens
      · rw [Grammar.orRecover_of_silent hr (Nat.not_lt.mp he)]
        exact htokens
    · rw [Grammar.orRecover_of_some hr]
      exact htokens

end Local

/-- To be `Local` is a property that parsers are composed by. -/
theorem localizing (s : Token) : Composable fun p => Advances p ∧ Local s p where
  pure := ⟨.pure, .of_goes fun _ _ => ⟨_, _, .pure⟩⟩
  fail := ⟨.fail, .of_goes fun _ _ => ⟨_, _, .fail⟩⟩
  bind hp hf := ⟨.bind hp.1 fun a => (hf a).1, hp.2.bind (fun a => (hf a).2) fun a => (hf a).1⟩
  attempt hp := ⟨hp.1.attempt, hp.2.attempt⟩
  current := ⟨.current, .current⟩
  advance := ⟨.advance, .advance⟩
  peek := ⟨.peek, .peek⟩
  note := ⟨.note, .of_goes fun _ _ => ⟨_, _, .note⟩⟩
  reportAt := ⟨.reportAt, .of_goes fun _ _ => ⟨_, _, .reportAt⟩⟩
  recover := ⟨.recover, .recover⟩
  orRecover h := ⟨.orRecover h.1, .orRecover h.2⟩

end ScriptLang.Parser
