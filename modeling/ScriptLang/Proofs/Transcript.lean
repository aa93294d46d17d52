import ScriptLang.Proofs.Layout
import ScriptLang.Proofs.Unread
import ScriptLang.ReadLoop

/-!
# What the read loop does line by line

The loop does one of a few things with each line, and where it goes on from there is where it is
with the next line. What it does is told by the line and by the text that is pending, since a
program that has been run can change no more about it than the lines that are left, by scanning
them. So the *transcript* of a loop, what it does with one line after the other, is the same for
loops that agree but for their sessions' lines and inputs.

- `ReadLoop.visits`, `ReadLoop.transcript`, `ReadLoop.reached?`: what `ReadLoop.turn` and
  `ReadLoop.next?` give line after line.
- `ReadLoop.run_eq_reached`, `ReadLoop.endsBehind_run`: `ReadLoop.run` goes by them, and where
  it ends.
- `Visit.Scanless`: no program that is run at a line scans.
- `ReadLoop.Like`: loops that have the same ahead of them. `Like.step` says so for a line, and
  `Like.walk` for all of them. `Like.sameEnd`: so their runs end alike.
-/

namespace ScriptLang

namespace ReadLoop

@[simp] theorem pending_shown (loop : ReadLoop) (o : Outcome) :
    (loop.shown o).pending = loop.pending := by
  unfold shown
  by_cases ho : o.text = ""
  · simp only [ho, if_true]
  · cases o <;> simp only [ho, if_false]

@[simp] theorem position_shown (loop : ReadLoop) (o : Outcome) :
    (loop.shown o).position = loop.position := by
  unfold shown
  by_cases ho : o.text = ""
  · simp only [ho, if_true]
  · cases o <;> simp only [ho, if_false]

@[simp] theorem taken_shown (loop : ReadLoop) (o : Outcome) :
    (loop.shown o).taken = loop.taken := by
  unfold shown
  by_cases ho : o.text = ""
  · simp only [ho, if_true]
  · cases o <;> simp only [ho, if_false]

/-- `ReadLoop.runSource` does not read on. -/
theorem position_of_runSource {fuel : Nat} {source : String} {bytes : List UInt8}
    {loop place : ReadLoop} (h : loop.runSource fuel source bytes = some place) :
    place.position = loop.position := by
  unfold runSource at h
  dsimp only at h
  split at h
  · cases h
  · cases h
    rw [position_shown]

/-- Where `ReadLoop.next?` goes on, the line has been read. -/
theorem position_of_next? {fuel : Nat} {line : List UInt8} {rest : List (List UInt8)}
    {loop place : ReadLoop} (h : loop.next? fuel line rest = some place) :
    place.position = loop.position + line.length := by
  rw [next?] at h
  split at h
  · cases h; rfl
  · cases h
  · cases h
  · cases h; rfl
  · cases h; rfl
  · exact position_of_runSource h

end ReadLoop

/-- A line in front of the loop, with those behind it. -/
structure Visit where
  line : List UInt8
  rest : List (List UInt8)
  loop : ReadLoop

namespace Visit

/-- `ReadLoop.turn` at the visit's line. -/
def turn (v : Visit) : Turn := v.loop.turn v.line

/-- The session and the source of the run that the line leads to, if `ReadLoop.turn` leads to
one. -/
def handed? (v : Visit) : Option (Session × String) :=
  match v.turn with
  | .reacted (.run source) =>
    some (v.loop.session.withInput (v.loop.session.input ++ v.rest.flatten), source)
  | _ => none

/-- If the line leads to a run, then `Builtin.scan` is not among `Session.callsOfRun`. -/
def Scanless (fuel : Nat) (v : Visit) : Prop :=
  ∀ s source, v.handed? = some (s, source) → ∀ c ∈ s.callsOfRun fuel source, c.builtin ≠ .scan

end Visit

namespace ReadLoop

/-- The lines that `ReadLoop.next?` gets to, with `rest` behind the last of them. -/
def visits (fuel : Nat) : List (List UInt8) → List (List UInt8) → ReadLoop → List Visit
  | [], _, _ => []
  | line :: lines, rest, loop =>
    ⟨line, lines ++ rest, loop⟩ ::
      match loop.next? fuel line (lines ++ rest) with
      | none => []
      | some next => visits fuel lines rest next

/-- Where `ReadLoop.next?` leads behind all of the lines, if it gets there. -/
def reached? (fuel : Nat) : List (List UInt8) → List (List UInt8) → ReadLoop → Option ReadLoop
  | [], _, loop => some loop
  | line :: lines, rest, loop =>
    (loop.next? fuel line (lines ++ rest)).bind (reached? fuel lines rest)

/-- `Visit.turn` of one line after the other, as far as the loop gets: what it does. -/
def transcript (fuel : Nat) (lines rest : List (List UInt8)) (loop : ReadLoop) : List Turn :=
  (visits fuel lines rest loop).map Visit.turn

section Walk

variable {fuel : Nat} {line : List UInt8} {lines more rest : List (List UInt8)}
  {loop place next : ReadLoop}

theorem transcript_cons_of_some (h : loop.next? fuel line (lines ++ rest) = some next) :
    transcript fuel (line :: lines) rest loop = loop.turn line ::
      transcript fuel lines rest next := by
  rw [transcript, visits, h]
  rfl

theorem transcript_cons_of_none (h : loop.next? fuel line (lines ++ rest) = none) :
    transcript fuel (line :: lines) rest loop = [loop.turn line] := by
  rw [transcript, visits, h]
  rfl

/-- A line that is collected goes to what is pending, and `ReadLoop.next?` on behind it. -/
theorem next?_of_collect {pending : String} (h : loop.turn line = .reacted (.collect pending))
    (rest : List (List UInt8)) :
    loop.next? fuel line rest = some { loop.past line with pending } := by
  rw [next?, h]

/-- Where `ReadLoop.next?` leads, `ReadLoop.run` goes on with the lines that are left. -/
theorem run_of_next? (h : loop.next? fuel line lines = some next) :
    run fuel (line :: lines) loop = run fuel lines next := by
  rw [run, h]
  rw [next?] at h
  cases hturn : loop.turn line with
  | skipped => rfl
  | garbled =>
    rw [hturn] at h
    cases h
  | reacted reaction =>
    cases reaction with
    | leave =>
      rw [hturn] at h
      cases h
    | _ => rfl

/-- If `ReadLoop.next?` is `none` and the run has an answer, then that is `ReadLoop.past` the
line. -/
theorem eq_past_of_run {garbled : Bool} (h : loop.next? fuel line lines = none)
    (hrun : run fuel (line :: lines) loop = some (place, garbled)) :
    place = loop.past line := by
  rw [run, h] at hrun
  rcases hturn : loop.turn line with _ | _ | _ | _ | _ | _ <;> rw [hturn] at hrun <;> cases hrun
  · rfl
  · rfl

/-- `ReadLoop.run` goes by where the loop gets: from `reached?` on it runs on the lines
behind. -/
theorem run_eq_reached (h : reached? fuel lines more loop = some place) :
    run fuel (lines ++ more) loop = run fuel more place := by
  induction lines generalizing loop with
  | nil => cases h; rfl
  | cons line lines ih =>
    obtain ⟨next, hnext, hplace⟩ := Option.bind_eq_some_iff.mp h
    exact (run_of_next? hnext).trans (ih hplace)

theorem visits_singleton : visits fuel [line] rest loop = [⟨line, rest, loop⟩] := by
  rw [visits]
  cases loop.next? fuel line ([] ++ rest) <;> rfl

theorem visits_append :
    visits fuel (lines ++ more) [] loop = visits fuel lines more loop ++
      match reached? fuel lines more loop with
      | none => []
      | some place => visits fuel more [] place := by
  induction lines generalizing loop with
  | nil => rfl
  | cons line lines ih =>
    rw [List.cons_append, visits, visits, reached?, List.append_nil, List.cons_append]
    congr 1
    cases loop.next? fuel line (lines ++ more) with
    | none => rfl
    | some next => exact ih

theorem transcript_append_of_reached (h : reached? fuel lines more loop = some place) :
    transcript fuel (lines ++ more) [] loop =
      transcript fuel lines more loop ++ transcript fuel more [] place := by
  rw [transcript, visits_append, h, List.map_append]
  rfl

theorem transcript_append_of_stopped (h : reached? fuel lines more loop = none) :
    transcript fuel (lines ++ more) [] loop = transcript fuel lines more loop := by
  rw [transcript, visits_append, h, List.append_nil]
  rfl

/-- The `transcript` of a loop that gets behind the lines has a turn for each of them. -/
theorem length_transcript (h : reached? fuel lines rest loop = some place) :
    (transcript fuel lines rest loop).length = lines.length := by
  induction lines generalizing loop with
  | nil => rfl
  | cons line lines ih =>
    obtain ⟨next, hnext, hplace⟩ := Option.bind_eq_some_iff.mp h
    rw [transcript_cons_of_some hnext, List.length_cons, List.length_cons, ih hplace]

/-- A loop that gets behind the lines by `reached?` has read them. -/
theorem position_of_reached (h : reached? fuel lines rest loop = some place) :
    place.position = loop.position + lines.flatten.length := by
  induction lines generalizing loop with
  | nil => cases h; rfl
  | cons line lines ih =>
    obtain ⟨next, hnext, hplace⟩ := Option.bind_eq_some_iff.mp h
    rw [ih hplace, position_of_next? hnext, List.flatten_cons, List.length_append,
      Nat.add_assoc]

/-- If a run from the loop has an answer, then its position is behind the given lines. -/
def EndsBehind (lines : List (List UInt8)) (loop : ReadLoop)
    (answer : Option (ReadLoop × Bool)) : Prop :=
  ∀ place garbled, answer = some (place, garbled) →
    place.position = loop.position + lines.flatten.length

/-- `ReadLoop.run` ends behind the last line that there is a turn for in the `transcript`. -/
theorem endsBehind_run :
    EndsBehind (lines.take (transcript fuel lines [] loop).length) loop
      (run fuel lines loop) := by
  intro place garbled h
  induction lines generalizing loop with
  | nil =>
    cases h
    rfl
  | cons line lines ih =>
    rw [transcript, visits, List.append_nil]
    cases hnext : loop.next? fuel line lines with
    | none =>
      rw [eq_past_of_run hnext h]
      simp [past]
    | some next =>
      rw [run_of_next? hnext] at h
      rw [ih h, position_of_next? hnext]
      simp [transcript, Nat.add_assoc]

end Walk

/-! ## Loops that have the same ahead of them -/

/-- A relation between texts that are `SameTokens`, which may hold of texts that go on alike. -/
structure Lenient (R : String → String → Prop) : Prop where
  empty : R "" ""
  append {a b : String} (text : String) : R a b → R (a ++ text) (b ++ text)
  tokens {a b : String} : R a b → SameTokens (Cursor.start a).tokens.1 (Cursor.start b).tokens.1

end ReadLoop

/-- The loop does the same in both turns, but for the texts that are pending or run, between
which `R` holds. -/
inductive Turn.Alike (R : String → String → Prop) : Turn → Turn → Prop
  | skipped : Alike R .skipped .skipped
  | garbled : Alike R .garbled .garbled
  | leave : Alike R (.reacted .leave) (.reacted .leave)
  | clear : Alike R (.reacted .clear) (.reacted .clear)
  | collect {a b : String} : R a b → Alike R (.reacted (.collect a)) (.reacted (.collect b))
  | run {a b : String} : R a b → Alike R (.reacted (.run a)) (.reacted (.run b))

theorem Outcome.Alike.symm {o o' : Outcome} (h : o.Alike o') : o'.Alike o := by
  cases h with
  | parseErrors h => exact .parseErrors h.symm
  | runtimeErrors h => exact .runtimeErrors h.symm
  | value h => exact .value h.symm

theorem Value.text_bare (v : Value) : v.bare.text = v.text := by cases v <;> rfl

/-- Values that are the `SameResult` have the same `Outcome.text`. -/
theorem Outcome.text_of_sameResult {v v' : Option Value} (h : SameResult v v') :
    (Outcome.value v).text = (Outcome.value v').text := by
  cases v with
  | none =>
    cases v' with
    | none => rfl
    | some v' => cases h
  | some v =>
    cases v' with
    | none => cases h
    | some v' =>
      have h : v.bare = v'.bare := Option.some_inj.mp h
      show v.text = v'.text
      rw [← v.text_bare, h, v'.text_bare]

namespace Session

variable {s s' : Session}

theorem Alike.withInput (h : s.Alike ([], []) s') (input : List UInt8) :
    (s.withInput input).Alike ([], []) (s'.withInput input) where
  config := h.config
  machine := {
    host := congrArg (Host.withInput input) h.machine.host
    scopes := h.machine.scopes
    causes := h.machine.causes
    loopDepth := h.machine.loopDepth
    callDepth := h.machine.callDepth }

theorem Alike.print (h : s.Alike ([], []) s') (text : String) :
    (s.print text).Alike ([], []) (s'.print text) where
  config := h.config
  machine := {
    host :=
      congrArg (fun host : Host => { host with output := host.output.push text }) h.machine.host
    scopes := h.machine.scopes
    causes := h.machine.causes
    loopDepth := h.machine.loopDepth
    callDepth := h.machine.callDepth }

/-- Runs whose outcomes are `Outcome.Alike`, each with its own input before and behind it. -/
structure SameRun (input input' : List UInt8) (r r' : Outcome × Session) : Prop where
  outcome : r.1.Alike r'.1
  session (i : List UInt8) : (r.2.withInput i).Alike ([], []) (r'.2.withInput i)
  input : r.2.input = input
  input' : r'.2.input = input'

theorem SameRun.symm {input input' : List UInt8} {r r' : Outcome × Session}
    (h : SameRun input input' r r') : SameRun input' input r' r :=
  ⟨h.outcome.symm, fun i => (h.session i).symm, h.input', h.input⟩

/-- If sources have the `SameTokens` and the sessions are `Session.Alike`, then they come to the
`SameRun` on different inputs, provided that the first one makes no call of `Builtin.scan`. -/
theorem run_alike_of_scanless (hs : s.Alike ([], []) s') {a b : String}
    (hab : SameTokens (Cursor.start a).tokens.1 (Cursor.start b).tokens.1) {fuel : Nat}
    {input : List UInt8} (h : ∀ c ∈ (s.withInput input).callsOfRun fuel a, c.builtin ≠ .scan)
    (input' : List UInt8) :
    Option.Rel (SameRun input input') ((s.withInput input).run fuel a)
      ((s'.withInput input').run fuel b) := by
  -- the first run leaves its input, and is the same on the input of the second one
  have hkept : (s.withInput input).run fuel a =
      ((s.withInput input).run fuel a).map fun r => (r.1, r.2.withInput input) :=
    run_withInput h input
  have hmoved : (s.withInput input').run fuel a =
      ((s.withInput input).run fuel a).map fun r => (r.1, r.2.withInput input') :=
    run_withInput h input'
  have hrel := (run_alike (hs.withInput input') hab).2.2 fuel
  rw [hmoved] at hrel
  rcases ho : (s.withInput input).run fuel a with _ | ⟨o, t⟩ <;>
    rcases ho' : (s'.withInput input').run fuel b with _ | ⟨o', t'⟩ <;>
    rw [ho, ho'] at hrel
  · exact .none
  · cases hrel
  · cases hrel
  · rw [ho] at hkept
    have hinput : t.input = input := by
      have ht : t = t.withInput input := (Prod.mk.inj (Option.some_inj.mp hkept)).2
      rw [ht]
      rfl
    obtain ⟨houtcome, ht⟩ : o.Alike o' ∧ (t.withInput input').Alike ([], []) t' := by
      cases hrel with
      | some h => exact h
    have hinput' : t'.input = input' := congrArg Host.input ht.machine.host.symm
    exact .some ⟨houtcome, ht.withInput, hinput, hinput'⟩

/-- It does not matter which of the two makes no call of `Builtin.scan`. -/
theorem run_alike_of_scanless_or (hs : s.Alike ([], []) s') {a b : String}
    (hab : SameTokens (Cursor.start a).tokens.1 (Cursor.start b).tokens.1) {fuel : Nat}
    {input input' : List UInt8}
    (h : (∀ c ∈ (s.withInput input).callsOfRun fuel a, c.builtin ≠ .scan) ∨
      ∀ c ∈ (s'.withInput input').callsOfRun fuel b, c.builtin ≠ .scan) :
    Option.Rel (SameRun input input') ((s.withInput input).run fuel a)
      ((s'.withInput input').run fuel b) := by
  obtain h | h := h
  · exact run_alike_of_scanless hs hab h input'
  · have hrel := run_alike_of_scanless hs.symm hab.symm h input
    generalize (s'.withInput input').run fuel b = r' at hrel
    generalize (s.withInput input).run fuel a = r at hrel
    cases hrel with
    | none => exact .none
    | some hsame => exact .some hsame.symm

end Session

namespace ReadLoop

variable {fuel : Nat} {loop loop' : ReadLoop} {line : List UInt8}
  {rest rest' : List (List UInt8)}
  {R : String → String → Prop}

/-- Loops that do the same with the lines in front of them: their sessions are `Session.Alike`,
`R` holds of what is pending, and programs have taken over no line in front of them. -/
structure Like (R : String → String → Prop) (loop loop' : ReadLoop) : Prop where
  session : loop.session.Alike ([], []) loop'.session
  pending : R loop.pending loop'.pending
  taken : loop.taken ≤ loop.position
  taken' : loop'.taken ≤ loop'.position

/-- Both loops wait for more, or neither does. -/
def SameWait (loop loop' : ReadLoop) : Prop := loop.pending = "" ↔ loop'.pending = ""

/-- If `Session.run` leaves its input as it is, then `ReadLoop.runSource` comes to the same and
takes no line over. -/
theorem runSource_of_run {source : String} {bytes : List UInt8} {o : Outcome} {t : Session}
    (htaken : loop.taken ≤ loop.position)
    (h : (loop.session.withInput (loop.session.input ++ bytes)).run fuel source = some (o, t))
    (hinput : t.input = loop.session.input ++ bytes) :
    loop.runSource fuel source bytes =
      some
        ({ loop with session := t.withInput loop.session.input, pending := "" }.shown o) := by
  have hle : bytes.length ≤ t.input.length := by
    rw [hinput, List.length_append]
    exact Nat.le_add_left _ _
  have hleft : t.input.take (t.input.length - (bytes.length - (loop.taken - loop.position))) =
      loop.session.input := by
    rw [Nat.sub_eq_zero_of_le htaken, hinput, List.length_append, Nat.sub_zero,
      Nat.add_sub_cancel, List.take_left]
  simp only [runSource, h, if_pos hle, hleft]

theorem runSource_of_stuck {source : String} {bytes : List UInt8}
    (h : (loop.session.withInput (loop.session.input ++ bytes)).run fuel source = none) :
    loop.runSource fuel source bytes = none := by
  simp only [runSource, h]

/-- Outcomes that are `Outcome.Alike` are `shown` alike: only a value is shown where programs
print. -/
theorem Alike.shown {o o' : Outcome} (hs : loop.session.Alike ([], []) loop'.session)
    (h : o.Alike o') : (loop.shown o).session.Alike ([], []) (loop'.shown o').session := by
  unfold ReadLoop.shown
  cases h with
  | parseErrors | runtimeErrors =>
    dsimp only
    split_ifs <;> exact hs
  | value h =>
    rw [Outcome.text_of_sameResult h]
    dsimp only
    split_ifs
    · exact hs
    · exact hs.print _

/-- Sources with the same tokens are run alike by `ReadLoop.runSource`, and their outcomes
shown, if one of them makes no call of `Builtin.scan`. -/
theorem Like.runSource (hR : Lenient R) (h : Like R loop loop') {a b : String} (hab : R a b)
    {bytes bytes' : List UInt8}
    (hscan : (∀ c ∈ (loop.session.withInput (loop.session.input ++ bytes)).callsOfRun fuel a,
        c.builtin ≠ .scan) ∨
      ∀ c ∈ (loop'.session.withInput (loop'.session.input ++ bytes')).callsOfRun fuel b,
        c.builtin ≠ .scan) :
    Option.Rel (fun k k' => Like R k k' ∧ SameWait k k') (loop.runSource fuel a bytes)
      (loop'.runSource fuel b bytes') := by
  have hrel := Session.run_alike_of_scanless_or h.session (hR.tokens hab) hscan
  have hinput : loop.session.input = loop'.session.input :=
    congrArg Host.input h.session.machine.host
  rcases ho : (loop.session.withInput (loop.session.input ++ bytes)).run fuel a with
    _ | ⟨o, t⟩ <;>
    rcases ho' : (loop'.session.withInput (loop'.session.input ++ bytes')).run fuel b with
      _ | ⟨o', t'⟩ <;>
    rw [ho, ho'] at hrel
  · rw [runSource_of_stuck ho, runSource_of_stuck ho']
    exact .none
  · cases hrel
  · cases hrel
  · have hsame : Session.SameRun (loop.session.input ++ bytes) (loop'.session.input ++ bytes')
        (o, t) (o', t') := by
      cases hrel with
      | some h => exact h
    rw [runSource_of_run h.taken ho hsame.input, runSource_of_run h.taken' ho' hsame.input']
    refine .some ⟨⟨Alike.shown ?_ hsame.outcome, ?_, ?_, ?_⟩, ?_⟩
    · rw [hinput]
      exact hsame.session _
    · simpa using hR.empty
    · simpa using h.taken
    · simpa using h.taken'
    · simp [SameWait]

/-- The word of a command, which `ReadLoop.react` takes as one only where nothing is pending. -/
def IsCommandWord (word : List Char) : Prop := word = "exit".toList ∨ word = "clear".toList

instance : DecidablePred IsCommandWord := fun _ => inferInstanceAs (Decidable (_ ∨ _))

/-- A line with nothing but the word of a command. -/
def IsCommand (line : List UInt8) : Prop :=
  ∃ text, Text.decode? line = some text ∧ IsCommandWord (Text.trim (lineText text).toList)

/-- `ReadLoop.turn` at a line that is a text, if programs have taken over no line from here
on. -/
theorem turn_of_decode? {text : String} (htaken : loop.taken ≤ loop.position)
    (hline : line ≠ []) (htext : Text.decode? line = some text) :
    loop.turn line = .reacted (react loop.pending (lineText text)) := by
  rw [turn, Nat.sub_eq_zero_of_le htaken, List.drop_zero, if_neg hline, htext]

theorem turn_encode {text : String} (said : String) (htaken : loop.taken ≤ loop.position)
    (hline : Text.encode text ≠ []) (hsaid : lineText text = said) :
    loop.turn (Text.encode text) = .reacted (react loop.pending said) := by
  rw [turn_of_decode? htaken hline (Text.decode?_encode text), hsaid]

theorem turn_of_garbled (htaken : loop.taken ≤ loop.position) (hline : line ≠ [])
    (htext : Text.decode? line = none) : loop.turn line = .garbled := by
  rw [turn, Nat.sub_eq_zero_of_le htaken, List.drop_zero, if_neg hline, htext]

/-- `ReadLoop.react` takes a line as a command exactly if nothing is pending, so it reacts alike
if `R` holds of what is pending and that is empty on both sides or on neither, or if the line is
no command. -/
theorem react_alike (hR : Lenient R) {a b text : String} (h : R a b)
    (hcommand : (a = "" ↔ b = "") ∨ ¬IsCommandWord (Text.trim text.toList)) :
    Turn.Alike R (.reacted (react a text)) (.reacted (react b text)) := by
  -- a word is taken as a command on both sides or on neither
  have command {word : List Char} (hword : IsCommandWord word) :
      (a = "" ∧ Text.trim text.toList = word) ↔ (b = "" ∧ Text.trim text.toList = word) := by
    obtain hwait | hnot := hcommand
    · rw [hwait]
    · exact ⟨fun h => absurd (h.2 ▸ hword) hnot, fun h => absurd (h.2 ▸ hword) hnot⟩
  have hexit := command (.inl rfl)
  have hclear := command (.inr rfl)
  unfold react
  dsimp only
  by_cases hleaves : a = "" ∧ Text.trim text.toList = "exit".toList
  · rw [if_pos hleaves, if_pos (hexit.mp hleaves)]
    exact .leave
  · rw [if_neg hleaves, if_neg fun h => hleaves (hexit.mpr h)]
    by_cases hclears : a = "" ∧ Text.trim text.toList = "clear".toList
    · rw [if_pos hclears, if_pos (hclear.mp hclears)]
      exact .clear
    · rw [if_neg hclears, if_neg fun h => hclears (hclear.mpr h)]
      split_ifs
      · exact .run (hR.append _ (hR.append _ h))
      · exact .collect (hR.append _ (hR.append _ h))

/-- What `ReadLoop.react` collects is no empty text. -/
theorem ne_empty_of_collect {pending text collected : String}
    (h : react pending text = .collect collected) : collected ≠ "" := by
  unfold react at h
  dsimp only at h
  split_ifs at h
  cases h
  simp

/-- `ReadLoop.react` clears the screen only where nothing is pending. -/
theorem eq_empty_of_clear {pending text : String} (h : react pending text = .clear) :
    pending = "" := by
  unfold react at h
  dsimp only at h
  split_ifs at h with _ hclears
  exact hclears.1

theorem Like.past (h : Like R loop loop') (line : List UInt8) :
    Like R (loop.past line) (loop'.past line) where
  session := h.session
  pending := h.pending
  taken := h.taken.trans (Nat.le_add_right _ _)
  taken' := h.taken'.trans (Nat.le_add_right _ _)

/-- Loops that are `Like` each other do the same at a line, and are so again behind it. If only
one of them has anything pending then the line must not be a command. -/
theorem Like.step (hR : Lenient R) (h : Like R loop loop') (hline : line ≠ [])
    (hcommand : SameWait loop loop' ∨ ¬IsCommand line)
    (hscan : Visit.Scanless fuel ⟨line, rest, loop⟩ ∨
      Visit.Scanless fuel ⟨line, rest', loop'⟩) :
    (loop.turn line).Alike R (loop'.turn line) ∧
      Option.Rel (fun k k' => Like R k k' ∧ SameWait k k') (loop.next? fuel line rest)
        (loop'.next? fuel line rest') := by
  cases htext : Text.decode? line with
  | none =>
    rw [next?, next?, turn_of_garbled h.taken hline htext, turn_of_garbled h.taken' hline htext]
    exact ⟨.garbled, .none⟩
  | some text =>
    have hturn := turn_of_decode? h.taken hline htext
    have hturn' := turn_of_decode? h.taken' hline htext
    have halike :=
      react_alike hR h.pending (hcommand.imp_right fun hnot hword => hnot ⟨text, htext, hword⟩)
    have hpast := h.past line
    rw [next?, next?, hturn, hturn']
    refine ⟨halike, ?_⟩
    generalize hr : react loop.pending (lineText text) = r at halike hturn
    generalize hr' : react loop'.pending (lineText text) = r' at halike hturn'
    cases halike with
    | leave => exact .none
    | clear =>
      refine .some ⟨⟨h.session.print _, h.pending, hpast.taken, hpast.taken'⟩, ?_⟩
      exact iff_of_true (eq_empty_of_clear hr) (eq_empty_of_clear hr')
    | @collect a b hab =>
      refine .some ⟨⟨h.session, hab, hpast.taken, hpast.taken'⟩, ?_⟩
      exact iff_of_false (ne_empty_of_collect hr) (ne_empty_of_collect hr')
    | @run a b hab =>
      -- the source is run with the lines behind this
      -- one to be scanned, as the visit hands it over
      refine Like.runSource hR hpast hab ?_
      refine hscan.imp (fun hscan => ?_) fun hscan => ?_
      · refine hscan _ a ?_
        rw [Visit.handed?, Visit.turn, hturn]
        rfl
      · refine hscan _ b ?_
        rw [Visit.handed?, Visit.turn, hturn']
        rfl

/-- `Like.step` for the first of several lines. The one that scans at none of them scans at none
behind it. -/
theorem Like.front (hR : Lenient R) {lines : List (List UInt8)} (h : Like R loop loop')
    (hline : line ≠ []) (hcommand : SameWait loop loop' ∨ ¬IsCommand line)
    (hscan : (∀ v ∈ visits fuel (line :: lines) rest loop, v.Scanless fuel) ∨
      ∀ v ∈ visits fuel (line :: lines) rest' loop', v.Scanless fuel) :
    (loop.turn line).Alike R (loop'.turn line) ∧
      Option.Rel (fun k k' => Like R k k' ∧ SameWait k k' ∧
          ((∀ v ∈ visits fuel lines rest k, v.Scanless fuel) ∨
            ∀ v ∈ visits fuel lines rest' k', v.Scanless fuel))
        (loop.next? fuel line (lines ++ rest)) (loop'.next? fuel line (lines ++ rest')) := by
  rw [visits, visits] at hscan
  obtain ⟨hturn, hnext⟩ := h.step hR hline hcommand
    (hscan.imp (fun h => h _ List.mem_cons_self) fun h => h _ List.mem_cons_self)
  refine ⟨hturn, ?_⟩
  generalize loop.next? fuel line (lines ++ rest) = next at hnext hscan
  generalize loop'.next? fuel line (lines ++ rest') = next' at hnext hscan
  cases hnext with
  | none => exact .none
  | some hlike =>
    refine .some ⟨hlike.1, hlike.2, hscan.imp ?_ ?_⟩
    · exact fun h v hv => h v (List.mem_cons_of_mem _ hv)
    · exact fun h v hv => h v (List.mem_cons_of_mem _ hv)

/-- Both runs have an answer or neither has. They are stopped alike, the second one `bytes`
further on. -/
def SameEnd (bytes : Nat) : Option (ReadLoop × Bool) → Option (ReadLoop × Bool) → Prop :=
  Option.Rel fun r r' => r'.2 = r.2 ∧ r'.1.position = r.1.position + bytes

/-- Loops that do the same at a line and go on on neither side, by `ReadLoop.next?`, come to the
`SameEnd`. -/
theorem sameEnd_of_stopped {bytes : Nat} {lines lines' : List (List UInt8)}
    (hturn : (loop.turn line).Alike R (loop'.turn line))
    (hposition : loop'.position = loop.position + bytes) (h : loop.next? fuel line lines = none)
    (h' : loop'.next? fuel line lines' = none) :
    SameEnd bytes (run fuel (line :: lines) loop) (run fuel (line :: lines') loop') := by
  have hpast : (loop'.past line).position = (loop.past line).position + bytes := by
    show loop'.position + line.length = loop.position + line.length + bytes
    rw [hposition, Nat.add_right_comm]
  rw [run, run, h, h']
  generalize loop.turn line = turn at hturn
  generalize loop'.turn line = turn' at hturn
  cases hturn with
  | garbled | leave => exact .some ⟨rfl, hpast⟩
  | _ => exact .none

/-- Loops that are `Like` each other do the same with all of their lines, by `Like.step`, and
come to the `SameEnd` if they are stopped at one of them. If only one of them has anything
pending then the first line must not be a command; behind that line it is both or neither. -/
theorem Like.walk (hR : Lenient R) {lines : List (List UInt8)} {bytes : Nat}
    (h : Like R loop loop') (hposition : loop'.position = loop.position + bytes)
    (hcommand : ∀ line ∈ lines.head?, SameWait loop loop' ∨ ¬IsCommand line)
    (hlines : ∀ line ∈ lines, line ≠ [])
    (hscan : (∀ v ∈ visits fuel lines rest loop, v.Scanless fuel) ∨
      ∀ v ∈ visits fuel lines rest' loop', v.Scanless fuel) :
    List.Forall₂ (Turn.Alike R) (transcript fuel lines rest loop)
      (transcript fuel lines rest' loop') ∧
      Option.Rel (Like R) (reached? fuel lines rest loop) (reached? fuel lines rest' loop') ∧
      (reached? fuel lines rest loop = none →
        SameEnd bytes (run fuel (lines ++ rest) loop) (run fuel (lines ++ rest') loop')) := by
  induction lines generalizing loop loop' with
  | nil => exact ⟨.nil, .some h, nofun⟩
  | cons line lines ih =>
    obtain ⟨hline, hlines⟩ := List.forall_mem_cons.mp hlines
    obtain ⟨hturn, hrel⟩ := h.front hR hline (hcommand line rfl) hscan
    rw [transcript, transcript, reached?, reached?, visits, visits, List.cons_append,
      List.cons_append]
    rcases hnext : loop.next? fuel line (lines ++ rest) with _ | next <;>
      rcases hnext' : loop'.next? fuel line (lines ++ rest') with _ | next' <;>
      rw [hnext, hnext'] at hrel
    · exact ⟨.cons hturn .nil, .none, fun _ => sameEnd_of_stopped hturn hposition hnext hnext'⟩
    · cases hrel
    · cases hrel
    · obtain ⟨hlike, hwait, hscan⟩ : Like R next next' ∧ SameWait next next' ∧ _ := by
        cases hrel with
        | some hrel => exact hrel
      have hfurther : next'.position = next.position + bytes := by
        rw [position_of_next? hnext, position_of_next? hnext', hposition, Nat.add_right_comm]
      obtain ⟨hturns, hreached, hends⟩ := ih hlike hfurther (fun _ _ => .inl hwait) hlines hscan
      rw [run_of_next? hnext, run_of_next? hnext']
      exact ⟨.cons hturn hturns, hreached, hends⟩

/-- So `ReadLoop.run` over all of the input comes to the `SameEnd`. -/
theorem Like.sameEnd (hR : Lenient R) {lines : List (List UInt8)} {bytes : Nat}
    (h : Like R loop loop') (hposition : loop'.position = loop.position + bytes)
    (hcommand : ∀ line ∈ lines.head?, SameWait loop loop' ∨ ¬IsCommand line)
    (hlines : ∀ line ∈ lines, line ≠ [])
    (hscan : (∀ v ∈ visits fuel lines [] loop, v.Scanless fuel) ∨
      ∀ v ∈ visits fuel lines [] loop', v.Scanless fuel) :
    SameEnd bytes (run fuel lines loop) (run fuel lines loop') := by
  obtain ⟨-, hreached, hends⟩ := h.walk hR hposition hcommand hlines hscan
  rw [List.append_nil] at hends
  rcases hplace : reached? fuel lines [] loop with _ | place <;>
    rcases hplace' : reached? fuel lines [] loop' with _ | place' <;>
      rw [hplace, hplace'] at hreached
  · exact hends hplace
  · cases hreached
  · cases hreached
  · -- both get behind all of the lines, and stop there
    have hrun := run_eq_reached hplace
    have hrun' := run_eq_reached hplace'
    rw [List.append_nil] at hrun hrun'
    rw [hrun, hrun']
    refine .some ⟨rfl, ?_⟩
    rw [position_of_reached hplace, position_of_reached hplace', hposition, Nat.add_right_comm]

end ReadLoop

end ScriptLang
