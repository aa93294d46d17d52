import Mathlib.Data.List.Forall2
import ScriptLang.Proofs.Language
import ScriptLang.Proofs.Lexeme
import ScriptLang.Proofs.Transcript

/-!
# Blank lines

A line with nothing but white space in it makes the read loop wait, and is then what is pending.
So blank lines between statements change nothing but the white space in front of the next
source, and that is none of its tokens. But a command is one only where nothing is pending, not
even a blank line: a blank line in front of it makes it part of the next source.

- `IsBlankLine`, `BlankText`: a line that is blank, and what is pending behind such lines.
- `reached_blank_lines`: the loop waits at blank lines, and has changed by nothing but them
  then.
- `Unmoved`: what the loop does is the same, but for waiting at some more lines.
- `blank_lines_unmoved_iff`: when blank lines change nothing else.
-/

namespace ScriptLang

theorem Text.trim_of_isBlank {cs : List Char} (h : ∀ c ∈ cs, isBlank c) : trim cs = [] := by
  have hdrop : cs.dropWhile isBlank = [] := List.dropWhile_eq_nil_iff.mpr h
  rw [trim, hdrop]
  rfl

/-- The loop waits for more: it reacts with `Reaction.collect`. -/
def Turn.Waits (turn : Turn) : Prop := ∃ pending, turn = .reacted (.collect pending)

namespace ReadLoop

/-- Whole lines with nothing but white space in them. -/
structure BlankText (text : String) : Prop where
  blank : ∀ c ∈ text.toList, Text.isBlank c
  ended : text = "" ∨ text.toList.getLast? = some '\n'

namespace BlankText

theorem nothing : BlankText "" := ⟨by simp, .inl rfl⟩

theorem append {a b : String} (ha : BlankText a) (hb : BlankText b) : BlankText (a ++ b) where
  blank c hc := by
    rw [String.toList_append] at hc
    exact (List.mem_append.mp hc).elim (ha.blank c) (hb.blank c)
  ended := by
    obtain rfl | hended := hb.ended
    · rw [String.append_empty]
      exact ha.ended
    · exact .inr (by rw [String.toList_append, List.getLast?_append, hended]; rfl)

/-- A blank line with its end is a `BlankText`. -/
theorem line {text : String} (h : ∀ c ∈ text.toList, Text.isBlank c) :
    BlankText (text ++ "\n") where
  blank c hc := by
    rw [String.toList_append] at hc
    obtain hc | hc := List.mem_append.mp hc
    · exact h c hc
    · rw [List.mem_singleton.mp hc]
      decide
  ended := .inr (by rw [String.toList_append, List.getLast?_append]; rfl)

/-- A `BlankText` in front of a source adds no `Cursor.lexemes`. -/
theorem lexemes {w : List Char} (h : ∀ c ∈ w, Text.isBlank c) (cs : List Char) :
    Cursor.lexemes (w ++ cs) = Cursor.lexemes cs := by
  induction w with
  | nil => rfl
  | cons c w ih =>
    rw [List.cons_append, Cursor.lexemes_of_isBlank (h c List.mem_cons_self)]
    exact ih fun d hd => h d (List.mem_cons_of_mem c hd)

end BlankText

/-- Texts that are the same but for a `BlankText` in front of either one. -/
def SameText (a b : String) : Prop :=
  ∃ w w' text, BlankText w ∧ BlankText w' ∧ a = w ++ text ∧ b = w' ++ text

theorem lenient_eq : Lenient Eq where
  empty := rfl
  append text h := congrArg (· ++ text) h
  tokens h := by rw [h]

theorem lenient_sameText : Lenient SameText where
  empty := ⟨"", "", "", .nothing, .nothing, rfl, rfl⟩
  append := by
    rintro a b more ⟨w, w', text, hw, hw', rfl, rfl⟩
    exact ⟨w, w', text ++ more, hw, hw', String.append_assoc .., String.append_assoc ..⟩
  tokens := by
    rintro a b ⟨w, w', text, hw, hw', rfl, rfl⟩
    show _ = _
    rw [Cursor.start, Cursor.start, Cursor.map_bare_tokens, Cursor.map_bare_tokens,
      String.toList_append, String.toList_append, BlankText.lexemes hw.blank,
      BlankText.lexemes hw'.blank]

/-- Bytes whose `lineText` has nothing but white space in it. -/
def IsBlankLine (line : List UInt8) : Prop :=
  ∃ text, Text.decode? line = some text ∧ ∀ c ∈ text.toList, Text.isBlank c

theorem isBlankLine_encode {text : String} (h : text.toList.all Text.isBlank) :
    IsBlankLine (Text.encode text) :=
  ⟨text, Text.decode?_encode text, List.all_eq_true.mp h⟩

section Blank

variable {fuel : Nat} {line : List UInt8} {blanks rest : List (List UInt8)}
  {loop place : ReadLoop}

theorem mem_of_mem_withoutLineEnd {line : String} {c : Char}
    (h : c ∈ (withoutLineEnd line).toList) : c ∈ line.toList := by
  unfold withoutLineEnd at h
  split at h
  · next cs hcs =>
    rw [String.toList_ofList, List.mem_reverse] at h
    rw [← List.mem_reverse, hcs]
    exact List.mem_cons_of_mem _ (List.mem_cons_of_mem _ h)
  · next cs hcs =>
    rw [String.toList_ofList, List.mem_reverse] at h
    rw [← List.mem_reverse, hcs]
    exact List.mem_cons_of_mem _ h
  · exact h

/-- There is no backspace in a blank line, so `lineText` leaves it blank. -/
theorem isBlank_of_mem_lineText {text : String} (h : ∀ c ∈ text.toList, Text.isBlank c) :
    ∀ c ∈ (lineText text).toList, Text.isBlank c := by
  have hline : ∀ c ∈ (withoutLineEnd text).toList, Text.isBlank c :=
    fun c hc => h c (mem_of_mem_withoutLineEnd hc)
  have hbackspace : Text.backspace ∉ (withoutLineEnd text).toList := by
    intro hm
    exact absurd (hline _ hm) (by decide)
  rw [lineText, Text.typed_of_not_mem hbackspace, String.ofList_toList]
  exact hline

theorem react_of_isBlank {pending text : String} (h : ∀ c ∈ text.toList, Text.isBlank c) :
    react pending text = .collect (pending ++ text ++ "\n") := by
  have hsemicolon : ¬text.toList.contains ';' := by
    rw [List.contains_iff_mem]
    intro hm
    exact absurd (h _ hm) (by decide)
  have hword (word : List Char) (hword : word ≠ []) :
      ¬(pending = "" ∧ Text.trim text.toList = word) := by
    rw [Text.trim_of_isBlank h]
    exact fun h => hword h.2.symm
  unfold react
  dsimp only
  rw [if_neg (hword _ (by decide)), if_neg (hword _ (by decide)), if_neg hsemicolon]

/-- At a line that `IsBlankLine`, `ReadLoop.turn` collects a `BlankText` and waits. -/
theorem turn_of_isBlankLine (htaken : loop.taken ≤ loop.position) (hline : line ≠ [])
    (h : IsBlankLine line) :
    ∃ w, BlankText w ∧ w ≠ "" ∧ loop.turn line = .reacted (.collect (loop.pending ++ w)) := by
  obtain ⟨text, htext, hblank⟩ := h
  have hblank := isBlank_of_mem_lineText hblank
  refine ⟨lineText text ++ "\n", .line hblank, by simp, ?_⟩
  rw [turn_of_decode? htaken hline htext, react_of_isBlank hblank, String.append_assoc]

/-- Behind `blanks`, the loop is at `place`, and has changed by nothing but its position and a
`BlankText` behind what is pending. -/
structure Waited (blanks : List (List UInt8)) (loop place : ReadLoop) : Prop where
  session : place.session = loop.session
  taken : place.taken = loop.taken
  position : place.position = loop.position + blanks.flatten.length
  pending : ∃ w, BlankText w ∧ place.pending = loop.pending ++ w ∧ (w = "" ↔ blanks = [])

/-- `reached?` leads through lines that are all `IsBlankLine`, to a place where the loop has
`Waited`, and the `transcript` of it is nothing but `Turn.Waits`. -/
theorem reached_blank_lines (fuel : Nat) (rest : List (List UInt8))
    (htaken : loop.taken ≤ loop.position) (hlines : ∀ line ∈ blanks, line ≠ [])
    (hblanks : ∀ line ∈ blanks, IsBlankLine line) :
    (∃ place, reached? fuel blanks rest loop = some place ∧ Waited blanks loop place) ∧
      ∀ turn ∈ transcript fuel blanks rest loop, turn.Waits := by
  induction blanks generalizing loop with
  | nil =>
    refine ⟨⟨loop, rfl, rfl, rfl, rfl, "", .nothing, ?_, by simp⟩, by simp [transcript, visits]⟩
    rw [String.append_empty]
  | cons line blanks ih =>
    obtain ⟨w, hw, hne, hturn⟩ := turn_of_isBlankLine htaken (hlines _ List.mem_cons_self)
      (hblanks _ List.mem_cons_self)
    -- a blank line is collected, so the loop gets past it with more pending
    have hnext : loop.next? fuel line (blanks ++ rest) =
        some { loop.past line with pending := loop.pending ++ w } := next?_of_collect hturn _
    obtain ⟨⟨place, hplace, hwaited⟩, hturns⟩ :=
      @ih { loop.past line with pending := loop.pending ++ w }
        (htaken.trans (Nat.le_add_right _ _)) (fun line h =>
          hlines line (List.mem_cons_of_mem _ h))
        fun line h => hblanks line (List.mem_cons_of_mem _ h)
    constructor
    · obtain ⟨w', hw', hpending, -⟩ := hwaited.pending
      have hreached : reached? fuel (line :: blanks) rest loop = some place := by
        rw [reached?, hnext]
        exact hplace
      refine ⟨place, hreached, hwaited.session, hwaited.taken,
        position_of_reached hreached, w ++ w', hw.append hw', ?_, ?_⟩
      · rw [hpending, String.append_assoc]
      · -- no line is empty, so something is pending behind it
        refine iff_of_false (fun h => hne ?_) (List.cons_ne_nil _ _)
        exact (String.append_eq_empty_iff.mp h).1
    · rw [transcript_cons_of_some hnext]
      rintro turn (_ | ⟨_, hm⟩)
      · exact ⟨_, hturn⟩
      · exact hturns turn hm

end Blank

/-- The transcript `t'` is `t` with `blanks` more turns behind the first `before` ones, each of
which `Turn.Waits`. In front of them both are the same. Behind them they are `Turn.Alike`, but
for blank lines in front of the texts that are pending and of the sources that are run. -/
def Unmoved (before blanks : Nat) (t t' : List Turn) : Prop :=
  ∃ first waits last last', t = first ++ last ∧ t' = first ++ (waits ++ last') ∧
    first.length = before ∧ waits.length = blanks ∧ (∀ turn ∈ waits, turn.Waits) ∧
    List.Forall₂ (Turn.Alike SameText) last last'

/-- By their lengths, the parts of two transcripts that are `Unmoved` are known. -/
theorem unmoved_append_iff {before blanks : Nat} {first waits last last' : List Turn}
    (hfirst : first.length = before) (hwaits : waits.length = blanks)
    (hall : ∀ turn ∈ waits, turn.Waits) :
    Unmoved before blanks (first ++ last) (first ++ (waits ++ last')) ↔
      List.Forall₂ (Turn.Alike SameText) last last' := by
  refine ⟨?_, fun h => ⟨first, waits, last, last', rfl, rfl, hfirst, hwaits, hall, h⟩⟩
  rintro ⟨first₂, waits₂, last₂, last₂', ht, ht', hfirst₂, hwaits₂, -, h⟩
  obtain ⟨-, rfl⟩ := List.append_inj ht (hfirst.trans hfirst₂.symm)
  obtain ⟨-, ht'⟩ := List.append_inj ht' (hfirst.trans hfirst₂.symm)
  obtain ⟨-, rfl⟩ := List.append_inj ht' (hwaits.trans hwaits₂.symm)
  exact h

section Insert

variable {fuel : Nat} {before blanks rest : List (List UInt8)} {loop place : ReadLoop}

theorem taken_of_waited (h : Waited blanks loop place) (htaken : loop.taken ≤ loop.position) :
    place.taken ≤ place.position := by
  rw [h.taken, h.position]
  exact htaken.trans (Nat.le_add_right _ _)

/-- A loop that has `Waited` is `Like` the one that has not, but for blank lines in front of
what is pending. -/
theorem like_of_waited {place' : ReadLoop} (hlike : Like Eq loop place)
    (h : Waited blanks place place') (hblank : BlankText loop.pending) :
    Like SameText loop place' where
  session := by
    rw [h.session]
    exact hlike.session
  pending := by
    obtain ⟨w, hw, hpending, -⟩ := h.pending
    refine ⟨loop.pending, loop.pending ++ w, "", hblank, hblank.append hw, ?_, ?_⟩
    · rw [String.append_empty]
    · rw [String.append_empty, hpending, ← hlike.pending]
  taken := hlike.taken
  taken' := taken_of_waited h hlike.taken'

/-- The lines behind `before` make no difference to the `transcript` of `before`, nor to the
place that is `reached?`. -/
theorem walk_before {rest' : List (List UInt8)} (htaken : loop.taken ≤ loop.position)
    (hlines : ∀ line ∈ before, line ≠ [])
    (hscan : (∀ v ∈ visits fuel before rest loop, v.Scanless fuel) ∨
      ∀ v ∈ visits fuel before rest' loop, v.Scanless fuel) :
    transcript fuel before rest loop = transcript fuel before rest' loop ∧
      Option.Rel (Like Eq) (reached? fuel before rest loop) (reached? fuel before rest' loop) ∧
      (reached? fuel before rest loop = none →
        SameEnd 0 (run fuel (before ++ rest) loop) (run fuel (before ++ rest') loop)) := by
  -- the loop is like itself, so it can be walked over both inputs at once
  have hlike : Like Eq loop loop := ⟨⟨rfl, rfl, rfl, rfl, rfl, rfl⟩, rfl, htaken, htaken⟩
  have hposition : loop.position = loop.position + 0 := rfl
  obtain ⟨hturns, hreached⟩ :=
    hlike.walk lenient_eq hposition (fun _ _ => .inl Iff.rfl) hlines hscan
  refine ⟨?_, hreached⟩
  rw [← List.forall₂_eq_eq_eq]
  refine hturns.imp fun turn turn' h => ?_
  cases h with
  | collect h | run h => rw [h]
  | _ => rfl

section Scanless

variable (hscan : (∀ v ∈ visits fuel (before ++ rest) [] loop, v.Scanless fuel) ∨
  ∀ v ∈ visits fuel (before ++ (blanks ++ rest)) [] loop, v.Scanless fuel)
include hscan

/-- Programs that are run in front of the blank lines are `Visit.Scanless`, on one side or on
the other. -/
theorem scanless_before :
    (∀ v ∈ visits fuel before rest loop, v.Scanless fuel) ∨
      ∀ v ∈ visits fuel before (blanks ++ rest) loop, v.Scanless fuel := by
  rw [visits_append, visits_append] at hscan
  exact hscan.imp (fun h v hv => h v (List.mem_append_left _ hv))
    fun h v hv => h v (List.mem_append_left _ hv)

/-- Programs that are run behind the blank lines are `Visit.Scanless`, on one side or on the
other. -/
theorem scanless_behind {near place' : ReadLoop}
    (hplace : reached? fuel before rest loop = some place)
    (hnear : reached? fuel before (blanks ++ rest) loop = some near)
    (hplace' : reached? fuel blanks rest near = some place') :
    (∀ v ∈ visits fuel rest [] place, v.Scanless fuel) ∨
      ∀ v ∈ visits fuel rest [] place', v.Scanless fuel := by
  rw [visits_append, visits_append, hplace, hnear] at hscan
  dsimp only at hscan
  rw [visits_append, hplace'] at hscan
  exact hscan.imp (fun h v hv => h v (List.mem_append_right _ hv))
    fun h v hv => h v (List.mem_append_right _ (List.mem_append_right _ hv))

variable (htaken : loop.taken ≤ loop.position)
  (hlines : ∀ line ∈ before ++ (blanks ++ rest), line ≠ [])
  (hblanks : ∀ line ∈ blanks, IsBlankLine line)
include htaken hlines

/-- A loop for which `reached?` is `none` does not get to the blank lines. It has the same
`transcript` with them and without them, and ends at the same line by `SameEnd`. -/
theorem unmoved_of_stopped (hstopped : reached? fuel before rest loop = none) :
    transcript fuel (before ++ (blanks ++ rest)) [] loop =
      transcript fuel (before ++ rest) [] loop ∧
      SameEnd 0 (run fuel (before ++ rest) loop)
        (run fuel (before ++ (blanks ++ rest)) loop) := by
  have hbefore : ∀ line ∈ before, line ≠ [] :=
    fun line h => hlines line (List.mem_append_left _ h)
  obtain ⟨hturns, hreached, hends⟩ := walk_before htaken hbefore (scanless_before hscan)
  rw [hstopped] at hreached
  have hstops : reached? fuel before (blanks ++ rest) loop = none := by
    generalize reached? fuel before (blanks ++ rest) loop = near at hreached
    cases hreached
    rfl
  refine ⟨?_, hends hstopped⟩
  rw [transcript_append_of_stopped hstops, transcript_append_of_stopped hstopped, hturns]

include hblanks

/-- Otherwise the loop gets to a `place` in front of the blank lines and waits at each of them,
and both transcripts go on from there with the same lines ahead. -/
theorem transcript_of_reached (hplace : reached? fuel before rest loop = some place)
    (hblank : BlankText place.pending) :
    ∃ first waits place',
      transcript fuel (before ++ rest) [] loop = first ++ transcript fuel rest [] place ∧
      transcript fuel (before ++ (blanks ++ rest)) [] loop =
        first ++ (waits ++ transcript fuel rest [] place') ∧
      first.length = before.length ∧ waits.length = blanks.length ∧
      (∀ turn ∈ waits, turn.Waits) ∧
      run fuel (before ++ (blanks ++ rest)) loop = run fuel rest place' ∧
      place'.position = place.position + blanks.flatten.length ∧
      Like SameText place place' ∧ (place'.pending = "" ↔ place.pending = "" ∧ blanks = []) ∧
      ((∀ v ∈ visits fuel rest [] place, v.Scanless fuel) ∨
        ∀ v ∈ visits fuel rest [] place', v.Scanless fuel) := by
  have hbefore : ∀ line ∈ before, line ≠ [] :=
    fun line h => hlines line (List.mem_append_left _ h)
  have hbetween : ∀ line ∈ blanks, line ≠ [] := fun line h =>
    hlines line (List.mem_append_right _ (List.mem_append_left _ h))
  -- the lines in front are treated alike, whether or not blank lines are behind them
  obtain ⟨hturns, hreached, -⟩ := walk_before htaken hbefore (scanless_before hscan)
  obtain ⟨near, hnear, hlike⟩ : ∃ near, reached? fuel before (blanks ++ rest) loop = some near ∧
      Like Eq place near := by
    rw [hplace] at hreached
    generalize reached? fuel before (blanks ++ rest) loop = near at hreached
    cases hreached with
    | some hlike => exact ⟨_, rfl, hlike⟩
  obtain ⟨⟨place', hplace', hwaited⟩, hwaits⟩ :=
    reached_blank_lines fuel rest hlike.taken' hbetween hblanks
  refine ⟨transcript fuel before rest loop, transcript fuel blanks rest near, place', ?_, ?_,
    length_transcript hplace, length_transcript hplace', hwaits, ?_, ?_,
    like_of_waited hlike hwaited hblank, ?_, scanless_behind hscan hplace hnear hplace'⟩
  · exact transcript_append_of_reached hplace
  · rw [transcript_append_of_reached hnear, transcript_append_of_reached hplace', hturns]
  · rw [run_eq_reached hnear, run_eq_reached hplace']
  · rw [hwaited.position, position_of_reached hnear, position_of_reached hplace]
  · obtain ⟨w, -, hpending, hnil⟩ := hwaited.pending
    rw [hpending, ← hlike.pending, String.append_eq_empty_iff, hnil]

end Scanless

theorem react_of_command {text : String} (h : IsCommandWord (Text.trim text.toList)) :
    react "" text = .leave ∨ react "" text = .clear := by
  unfold react
  obtain h | h := h
  · exact .inl (if_pos ⟨rfl, h⟩)
  · refine .inr ?_
    rw [if_neg, if_pos ⟨rfl, h⟩]
    rw [h]
    decide

theorem eq_empty_of_leave {pending text : String} (h : react pending text = .leave) :
    pending = "" := by
  unfold react at h
  dsimp only at h
  split_ifs at h with hleaves
  exact hleaves.1

/-- By `ReadLoop.turn` a line that `IsCommand` is a command where nothing is pending, and only
there. -/
theorem not_alike_of_command {R : String → String → Prop} {loop' : ReadLoop}
    {line : List UInt8} (htaken : loop.taken ≤ loop.position)
    (htaken' : loop'.taken ≤ loop'.position) (hline : line ≠ []) (hcommand : IsCommand line)
    (hpending : loop.pending = "") (hpending' : loop'.pending ≠ "") :
    ¬(loop.turn line).Alike R (loop'.turn line) := by
  obtain ⟨text, htext, hword⟩ := hcommand
  rw [turn_of_decode? htaken hline htext, turn_of_decode? htaken' hline htext, hpending]
  generalize hr : react loop'.pending (lineText text) = r
  intro halike
  obtain h | h := react_of_command hword <;> rw [h] at halike
  · cases halike
    exact hpending' (eq_empty_of_leave hr)
  · cases halike
    exact hpending' (eq_empty_of_clear hr)

/-- Loops that are `Like` each other but for blank lines do the same with all of the input,
unless a command comes first and only `loop'` has something pending. -/
theorem alike_transcripts_iff {loop' : ReadLoop} {bytes : Nat} (h : Like SameText loop loop')
    (hposition : loop'.position = loop.position + bytes)
    (hwaits : loop'.pending = "" → loop.pending = "") (hlines : ∀ line ∈ rest, line ≠ [])
    (hscan : (∀ v ∈ visits fuel rest [] loop, v.Scanless fuel) ∨
      ∀ v ∈ visits fuel rest [] loop', v.Scanless fuel) :
    List.Forall₂ (Turn.Alike SameText) (transcript fuel rest [] loop)
        (transcript fuel rest [] loop') ↔
      ∀ line ∈ rest.head?, SameWait loop loop' ∨ ¬IsCommand line := by
  refine ⟨fun halike => ?_, fun hcommand =>
    (h.walk lenient_sameText hposition hcommand hlines hscan).1⟩
  intro line hline
  obtain ⟨lines, rfl⟩ : ∃ lines, rest = line :: lines := List.head?_eq_some_iff.mp hline
  rw [transcript, transcript, visits, visits] at halike
  by_contra hnot
  push Not at hnot
  obtain ⟨hdiffer, hcommand⟩ := hnot
  -- the loops differ in what is pending, and it is the second one that waits
  have hpending : loop.pending = "" ∧ loop'.pending ≠ "" := by
    rw [SameWait] at hdiffer
    tauto
  cases halike with
  | cons hturn =>
    exact not_alike_of_command h.taken h.taken' (hlines line List.mem_cons_self) hcommand
      hpending.1 hpending.2 hturn

/-- Blank lines where no statement is pending, that is where the pending text is a `BlankText`.
The `transcript` of the loop is `Unmoved` by them, unless they are put directly in front of a
command and nothing is pending there, not even a blank line: then the command is not taken as
one. Where it is `Unmoved`, the loop ends at the same line as well, that is behind as many more
bytes as the blank lines are. A loop that does not get to the blank lines does the same and ends
at the same place.

That `ReadLoop.run` goes by the transcript is part of this: it ends behind the lines that the
transcript is about, and from the blank lines on it goes on from where the loop is then. -/
theorem blank_lines_unmoved_iff (htaken : loop.taken ≤ loop.position)
    (hlines : ∀ line ∈ before ++ (blanks ++ rest), line ≠ [])
    (hblanks : ∀ line ∈ blanks, IsBlankLine line)
    (hscan : (∀ v ∈ visits fuel (before ++ rest) [] loop, v.Scanless fuel) ∨
      ∀ v ∈ visits fuel (before ++ (blanks ++ rest)) [] loop, v.Scanless fuel) :
    let t := transcript fuel (before ++ rest) [] loop
    let t' := transcript fuel (before ++ (blanks ++ rest)) [] loop
    let answer := run fuel (before ++ rest) loop
    let answer' := run fuel (before ++ (blanks ++ rest)) loop
    EndsBehind ((before ++ rest).take t.length) loop answer ∧
      EndsBehind ((before ++ (blanks ++ rest)).take t'.length) loop answer' ∧
      (reached? fuel before rest loop = none → t' = t ∧ SameEnd 0 answer answer') ∧
      ∀ place, reached? fuel before rest loop = some place →
        answer = run fuel rest place ∧
        (BlankText place.pending →
          (Unmoved before.length blanks.length t t' ↔
            blanks = [] ∨ place.pending ≠ "" ∨ ∀ line ∈ rest.head?, ¬IsCommand line) ∧
          (Unmoved before.length blanks.length t t' →
            SameEnd blanks.flatten.length answer answer')) := by
  intro t t' answer answer'
  refine ⟨endsBehind_run, endsBehind_run, unmoved_of_stopped hscan htaken hlines,
    fun place hplace => ⟨run_eq_reached hplace, fun hblank => ?_⟩⟩
  obtain ⟨first, waits, place', ht, ht', hfirst, hwaits, hall, hrun, hposition, hlike,
      hpending, hscan⟩ :=
    transcript_of_reached hscan htaken hlines hblanks hplace hblank
  have hrest : ∀ line ∈ rest, line ≠ [] := fun line h =>
    hlines line (List.mem_append_right _ (List.mem_append_right _ h))
  -- whether anything is pending matters to the first line
  -- only: behind it, both loops wait or neither does
  have hsame : SameWait place place' ↔ blanks = [] ∨ place.pending ≠ "" := by
    rw [SameWait, hpending]
    tauto
  have hwait : (∀ line ∈ rest.head?, SameWait place place' ∨ ¬IsCommand line) ↔
      blanks = [] ∨ place.pending ≠ "" ∨ ∀ line ∈ rest.head?, ¬IsCommand line := by
    rw [← or_assoc, ← hsame]
    by_cases h : SameWait place place' <;> simp [h]
  have hiff : Unmoved before.length blanks.length t t' ↔
      ∀ line ∈ rest.head?, SameWait place place' ∨ ¬IsCommand line := by
    show Unmoved _ _ (transcript ..) (transcript ..) ↔ _
    rw [ht, ht', unmoved_append_iff hfirst hwaits hall]
    exact alike_transcripts_iff hlike hposition (fun h => (hpending.mp h).1) hrest hscan
  refine ⟨hiff.trans hwait, fun hunmoved => ?_⟩
  show SameEnd _ (run fuel (before ++ rest) loop) (run fuel (before ++ (blanks ++ rest)) loop)
  rw [run_eq_reached hplace, hrun]
  exact hlike.sameEnd lenient_sameText hposition (hiff.mp hunmoved) hrest hscan

end Insert

/-- Blank lines of five bytes at the start, in front of a statement. -/
theorem blank_lines_unmoved_statement :
    let loop : ReadLoop := { session := {} }
    let blanks := [Text.encode " \t\n", Text.encode "\r\n"]
    let rest := [Text.encode "7;\n"]
    loop.taken ≤ loop.position ∧ (∀ line ∈ blanks ++ rest, line ≠ []) ∧
      (∀ line ∈ blanks, IsBlankLine line) ∧ (∀ v ∈ visits 9 rest [] loop, v.Scanless 9) ∧
      Unmoved 0 2 (transcript 9 rest [] loop) (transcript 9 (blanks ++ rest) [] loop) ∧
      SameEnd 5 (run 9 rest loop) (run 9 (blanks ++ rest) loop) := by
  intro loop blanks rest
  have hlines : ∀ line ∈ blanks ++ rest, line ≠ [] := by decide +kernel
  have hblanks : ∀ line ∈ blanks, IsBlankLine line := by
    rw [List.forall_mem_cons, List.forall_mem_singleton]
    exact ⟨isBlankLine_encode (by decide +kernel), isBlankLine_encode (by decide +kernel)⟩
  have hturn : loop.turn (Text.encode "7;\n") = .reacted (.run "7;\n") :=
    turn_encode "7;" le_rfl (by decide +kernel) (by decide +kernel)
  -- a literal calls no builtin, so nothing is scanned
  have hcalls (s : Session) : s.callsOfRun 9 "7;\n" = [] := by
    have hseven :
        Grammar.Derives .statements (Cursor.start "7;\n").tokens.1
          [.integer ⟨.integer, 1, "7"⟩ 7] :=
      Eq.mpr (congrArg (Grammar.Derives .statements · _) (by decide +kernel))
        (.statements (.expressionStatement (s := .ofKind .semicolon 1)
          (.chain (.integer (t := ⟨.integer, 1, "7"⟩) (v := 7) rfl (by decide +kernel)) .noTail)
            rfl)
          .noStatements)
    have hparse :
        (s.parse "7;\n").1 = ⟨⟨s.config.package, [.integer ⟨.integer, 1, "7"⟩ 7]⟩, []⟩ :=
      Package.parse_of_derives hseven _
    rw [Session.callsOfRun_of_parsed (by rw [hparse]), hparse]
    rfl
  have hscan : ∀ v ∈ visits 9 rest [] loop, v.Scanless 9 := by
    rw [visits_singleton, List.forall_mem_singleton]
    intro s source hs c hc
    rw [Visit.handed?, Visit.turn, hturn] at hs
    cases hs
    rw [hcalls] at hc
    cases hc
  refine ⟨le_rfl, hlines, hblanks, hscan, ?_⟩
  -- the line behind the blank ones is no command
  have hcommand : ∀ line ∈ rest.head?, ¬IsCommand line := by
    rintro line ⟨⟩ ⟨text, htext, hword⟩
    cases htext.symm.trans (Text.decode?_encode _)
    exact absurd hword (by decide +kernel)
  obtain ⟨-, -, -, h⟩ :=
    @blank_lines_unmoved_iff 9 [] blanks rest loop le_rfl hlines hblanks (.inl hscan)
  obtain ⟨hiff, hends⟩ := (h loop rfl).2 .nothing
  have hunmoved := hiff.mpr (.inr (.inr hcommand))
  have hlength : blanks.flatten.length = 5 := by decide +kernel
  exact ⟨hunmoved, hlength ▸ hends hunmoved⟩

/-- The loop leaves at `exit`, but not behind a blank line: there the command becomes part of a
source, and the loop goes on. -/
theorem exit_behind_blank_line :
    let loop : ReadLoop := { session := {} }
    let blank := Text.encode "\n"
    let rest := [Text.encode "exit\n", Text.encode "println(1);\n"]
    let t := transcript 9 rest [] loop
    let t' := transcript 9 (blank :: rest) [] loop
    IsBlankLine blank ∧ (∀ v ∈ visits 9 rest [] loop, v.Scanless 9) ∧ t = [.reacted .leave] ∧
      t' = [.reacted (.collect "\n"), .reacted (.collect "\nexit\n"),
        .reacted (.run "\nexit\nprintln(1);\n")] ∧
      ¬Unmoved 0 1 t t' ∧ ¬SameEnd 1 (run 9 rest loop) (run 9 (blank :: rest) loop) := by
  intro loop blank rest t t'
  have hexit {k : ReadLoop} (htaken : k.taken ≤ k.position) :
      k.turn (Text.encode "exit\n") = .reacted (react k.pending "exit") :=
    turn_encode "exit" htaken (by decide +kernel) (by decide +kernel)
  have hleave : loop.turn (Text.encode "exit\n") = .reacted .leave := hexit le_rfl
  have hnext (rest : List (List UInt8)) : loop.next? 9 (Text.encode "exit\n") rest = none := by
    rw [next?, hleave]
  have ht : t = [.reacted .leave] := by
    rw [← hleave]
    exact transcript_cons_of_none (hnext _)
  have ht' : t' = [.reacted (.collect "\n"), .reacted (.collect "\nexit\n"),
      .reacted (.run "\nexit\nprintln(1);\n")] := by
    have hblank : loop.turn blank = .reacted (.collect "\n") :=
      turn_encode "" le_rfl (by decide +kernel) (by decide +kernel)
    have hcollect : { loop.past blank with pending := "\n" }.turn (Text.encode "exit\n") =
        .reacted (.collect "\nexit\n") := hexit (Nat.zero_le _)
    rw [show t' = _ from transcript_cons_of_some (next?_of_collect hblank _),
      transcript_cons_of_some (next?_of_collect hcollect _), transcript, visits_singleton,
      hblank, hcollect]
    exact congrArg (fun turn => [_, _, turn])
      (turn_encode "println(1);" (Nat.zero_le _) (by decide +kernel) (by decide +kernel))
  refine ⟨isBlankLine_encode (by decide +kernel), ?_, ht, ht', ?_, ?_⟩
  · -- the command ends the loop, so its line is the only one that is visited
    have hvisits :
        visits 9 rest [] loop =
        [⟨Text.encode "exit\n", [Text.encode "println(1);\n"], loop⟩] := by
      show visits 9 (_ :: [_]) [] loop = _
      rw [visits, hnext]
      rfl
    rw [hvisits, List.forall_mem_singleton]
    intro s source hs
    rw [Visit.handed?, Visit.turn, hleave] at hs
    cases hs
  · rw [ht, ht']
    rintro ⟨first, waits, last, last', hu, hu', hfirst, hwaits, -, hlast⟩
    obtain rfl := List.eq_nil_of_length_eq_zero hfirst
    obtain ⟨turn, rfl⟩ := List.length_eq_one_iff.mp hwaits
    cases hu
    cases hu'
    -- one loop leaves at the command and the other collects it, which is not alike
    cases hlast with
    | cons h => cases h
  · -- by the transcripts, one run ends behind the command and the other one, if it does, behind
    -- all lines
    have hrun : run 9 rest loop = some (loop.past (Text.encode "exit\n"), false) := by
      show run 9 (_ :: [_]) loop = _
      rw [run, hleave]
    have hends :
        EndsBehind ((blank :: rest).take t'.length) loop (run 9 (blank :: rest) loop) :=
      endsBehind_run
    rw [hrun]
    intro hsame
    generalize run 9 (blank :: rest) loop = answer' at hends hsame
    cases hsame with
    | @some _ r' hsame =>
      have hposition := (hends r'.1 r'.2 rfl).symm.trans hsame.2
      rw [ht'] at hposition
      revert hposition
      decide +kernel

end ReadLoop
end ScriptLang
