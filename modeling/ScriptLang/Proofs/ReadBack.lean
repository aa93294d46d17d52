import Mathlib.Tactic.SplitIfs
import ScriptLang.Proofs.History

/-!
# Scanning what has been printed

A line that is printed can be scanned. The stream between the two is shared by all calls and has
no structure of its own but the line feeds, so a call must take from it just what one other call
has put there: the encoding of a value has no line feed in it, and what a scan strips from a
line is not part of the value. An integer and a boolean have no blanks around them, so that
trimming leaves them alone; a string is not trimmed, but loses the carriage returns at its end.

- `Text.takeLine_encode`: the first line of the bytes of a text.
- `Value.IsLine`: the values that are read back from their line, with `Value.scanned_line` for
  one of them.
- `Output.Open`: a stream that accepts everything, with `Builtin.println_call` for one call on
  it.
- `Builtin.Made`: calls of one builtin, each with one argument.
- `History.scan_println`: values that are printed line by line are scanned in their order, and
  no more.
-/

namespace ScriptLang

/-! ## The lines of a text in bytes -/

namespace Text

/-- `Text.encode` goes character by character. -/
theorem encode_eq_flatMap (text : String) :
    encode text = text.toList.flatMap String.utf8EncodeChar := by
  rw [encode, ← String.utf8Encode_toList, List.utf8Encode, List.toList_data_toByteArray]

theorem encode_append (s t : String) : encode (s ++ t) = encode s ++ encode t := by
  simp only [encode_eq_flatMap, String.toList_append, List.flatMap_append]

theorem encode_lineFeed : encode "\n" = [10] := by decide

/-- The byte of a line feed is in the encoding of no other character. -/
theorem lineFeed_notMem_utf8EncodeChar {c : Char} (h : c ≠ '\n') :
    10 ∉ String.utf8EncodeChar c := by
  have hc : c.val.toNat ≠ 10 := fun e => h (Char.ext (UInt32.toNat_inj.mp e))
  have hbyte (n : Nat) : (10 : UInt8) = UInt8.ofNat n ↔ n % 256 = 10 := by
    rw [← UInt8.toNat_inj, UInt8.toNat_ofNat', eq_comm]
    rfl
  simp only [String.utf8EncodeChar]
  split_ifs <;> simp only [List.mem_cons, List.not_mem_nil, or_false, hbyte] <;> omega

theorem lineFeed_notMem_encode {text : String} (h : '\n' ∉ text.toList) : 10 ∉ encode text := by
  rw [encode_eq_flatMap, List.mem_flatMap]
  rintro ⟨c, hc, hb⟩
  exact lineFeed_notMem_utf8EncodeChar (fun e => h (e ▸ hc)) hb

/-- `takeLine` ends at the first line feed. -/
theorem takeLine_append {line : List UInt8} (h : 10 ∉ line) (rest : List UInt8) :
    takeLine (line ++ 10 :: rest) = (line ++ [10], rest) := by
  induction line with
  | nil => rfl
  | cons b line ih =>
    rw [List.mem_cons, not_or] at h
    simp [takeLine, Ne.symm h.1, ih h.2]

/-- `takeLine` of an encoded text is its first line, encoded. -/
theorem takeLine_encode {line : String} (h : '\n' ∉ line.toList) (rest : String) :
    takeLine (encode (line ++ "\n" ++ rest)) = (encode (line ++ "\n"), encode rest) := by
  rw [encode_append, encode_append, encode_lineFeed, List.append_assoc, List.singleton_append,
    takeLine_append (lineFeed_notMem_encode h)]

/-- `Text.trim` leaves a text as it is that has no blank. -/
theorem trim_of_not_isBlank {cs : List Char} (h : ∀ c ∈ cs, ¬isBlank c) : trim cs = cs := by
  have hdrop : ∀ ds : List Char, (∀ c ∈ ds, ¬isBlank c) → ds.dropWhile isBlank = ds
    | [], _ => rfl
    | _ :: _, hd => List.dropWhile_cons_of_neg (hd _ List.mem_cons_self)
  rw [trim, hdrop cs h, trimEnd, hdrop _ fun c hc => h c (List.mem_reverse.mp hc),
    List.reverse_reverse]

theorem not_isBlank_of_isDigit {c : Char} (h : c.isDigit) : ¬isBlank c := by
  have hc : 48 ≤ c.toNat ∧ c.toNat ≤ 57 := by
    simpa [Char.isDigit, UInt32.le_iff_toNat_le] using h
  simp only [isBlank, Bool.or_eq_true, Bool.and_eq_true, decide_eq_true_eq, beq_iff_eq]
  omega

/-- `writeInt` gives digits, and perhaps a sign. -/
theorem of_mem_writeInt {n : Int} {c : Char} (h : c ∈ writeInt n) : c = '-' ∨ c.isDigit := by
  have hdigits (m : Nat) (hc : c ∈ Nat.toDigits 10 m) : c.isDigit :=
    Nat.isDigit_of_mem_toDigits (by decide) (by decide) hc
  unfold writeInt at h
  split at h
  · rcases List.mem_cons.mp h with rfl | h
    · exact .inl rfl
    · exact .inr (hdigits _ h)
  · exact .inr (hdigits _ h)

end Text

/-! ## One value -/

namespace Value

/-- A value that is read back from the line it is printed on: an integer, a boolean, or a string
on one line without a carriage return at its end. -/
def IsLine : Value → Prop
  | .integer _ | .boolean _ => True
  | .string s => '\n' ∉ s.toList ∧ s.toList.getLast? ≠ some '\r'
  | .null | .function _ | .builtin _ => False

instance decidableIsLine : (v : Value) → Decidable v.IsLine
  | .integer _ | .boolean _ => inferInstanceAs (Decidable True)
  | .string s => inferInstanceAs (Decidable ('\n' ∉ s.toList ∧ s.toList.getLast? ≠ some '\r'))
  | .null | .function _ | .builtin _ => inferInstanceAs (Decidable False)

/-- What `println` prints for the value `v`: its text and a line feed. -/
def line (v : Value) : String := v.text ++ "\n"

variable {v : Value}

/-- The text of an integer or a boolean has no blank. -/
theorem not_isBlank_of_mem_text (hv : ∀ s, v ≠ .string s) (hl : v.IsLine) :
    ∀ c ∈ v.text.toList, ¬Text.isBlank c := by
  intro c hc
  cases v with
  | integer n =>
    rw [text, String.toList_ofList] at hc
    rcases Text.of_mem_writeInt hc with rfl | hd
    · decide
    · exact Text.not_isBlank_of_isDigit hd
  | boolean b =>
    have hall : (Value.boolean b).text.toList.all (!Text.isBlank ·) := by cases b <;> decide
    simpa using List.all_eq_true.mp hall c hc
  | string s => exact absurd rfl (hv s)
  | null | function f | builtin b => exact hl.elim

/-- The text of a value that `IsLine` has no line feed, and no carriage return at its end. -/
theorem IsLine.text (hl : v.IsLine) :
    '\n' ∉ v.text.toList ∧ v.text.toList.getLast? ≠ some '\r' := by
  by_cases hs : ∃ s, v = .string s
  · obtain ⟨s, rfl⟩ := hs
    exact hl
  · have hclean := not_isBlank_of_mem_text (fun s hv => hs ⟨s, hv⟩) hl
    exact ⟨fun h => hclean _ h (by decide), fun h =>
      hclean _ (List.mem_of_getLast? h) (by decide)⟩

/-- `withoutEnd` undoes putting a line feed behind a text that has none, and no carriage return
at its end. -/
theorem withoutEnd_append {cs : List Char} (hfeed : '\n' ∉ cs)
    (hreturn : cs.getLast? ≠ some '\r') : withoutEnd (cs ++ ['\n']) = cs := by
  rw [withoutEnd, List.reverse_append]
  cases hrev : cs.reverse with
  | nil => simpa using hrev
  | cons c ds =>
    obtain rfl : cs = ds.reverse ++ [c] := by
      rw [← List.reverse_reverse cs, hrev, List.reverse_cons]
    have hc : ¬(c = '\r' ∨ c = '\n') := by
      rintro (rfl | rfl)
      · exact hreturn (by simp)
      · exact hfeed (by simp)
    simp [hc]

/-- What `scanned` makes of a line depends on the type of the value that is given, and not on
the value. -/
theorem scanned_eq_of_typeName {like like' : Value} (h : like.typeName = like'.typeName)
    (line : List Char) : scanned like line = scanned like' line := by
  cases like <;> cases like' <;> first
    | rfl
    | simp only [typeName, String.reduceEq] at h

/-- A value that `IsLine` is what `scanned` makes of its line, given any value of its type. -/
theorem scanned_line {like : Value} (hl : v.IsLine) (htype : like.typeName = v.typeName) :
    scanned like (withoutEnd v.line.toList) = .ok v := by
  have hend : withoutEnd v.line.toList = v.text.toList := by
    rw [line, String.toList_append]
    exact withoutEnd_append hl.text.1 hl.text.2
  rw [scanned_eq_of_typeName htype, hend]
  cases v with
  | integer n =>
    have htrim :=
      Text.trim_of_not_isBlank (not_isBlank_of_mem_text (v := .integer n) (by simp) hl)
    simp only [scanned, htrim]
    simp only [Value.text, String.toList_ofList, Text.readInt?_writeInt]
  | boolean b => cases b <;> rfl
  | string s => simp only [scanned, Value.text, String.ofList_toList]
  | null | function f | builtin b => exact hl.elim

theorem IsLine.exists_printed? (hl : v.IsLine) :
    ∃ texts, v.printed? = some texts ∧ String.join texts = v.text := by
  cases hp : v.printed? with
  | some texts => exact ⟨texts, rfl, join_of_printed? hp⟩
  | none => cases v <;> first | exact hl.elim | cases hp

end Value

/-! ## A stream that accepts everything -/

namespace Output

/-- The output `o` takes any text and passes it on. -/
def Open (o : Output) : Prop := o.limit = none ∧ o.flushFails = false

/-- The output `o` with more `texts` printed to it, one after the other. -/
def append (texts : List String) (o : Output) : Output :=
  { o with texts := texts.reverse ++ o.texts }

variable {o : Output}

@[simp] theorem append_push (text : String) (texts : List String) :
    (o.push text).append texts = o.append (text :: texts) := by
  simp [push, append]

theorem Open.push (h : o.Open) (text : String) : (o.push text).Open := h

theorem Open.takes (h : o.Open) (text : String) : o.takes text = true := by
  rw [Output.takes, h.1]

theorem written_append (texts : List String) :
    (o.append texts).written = o.written ++ String.join texts := by
  rw [written, append, List.reverse_append, List.reverse_reverse, String.join_append]
  rfl

end Output

namespace Host

/-- The host with more `texts` printed on it. -/
def printed (texts : List String) (h : Host) : Host :=
  { h with output := h.output.append texts }

end Host

theorem Output.Open.printed {h : Host} (ho : h.output.Open) (texts : List String) :
    (h.printed texts).output.Open := ho

namespace Builtin

variable {h : Host}

theorem writeTexts_of_open (ho : h.output.Open) (texts : List String) :
    writeTexts texts h = ⟨.ok (), h.printed texts, []⟩ := by
  induction texts generalizing h with
  | nil => rfl
  | cons text texts ih =>
    have hwrite : h.write text = .ok { h with output := h.output.push text } := by
      rw [Host.write, if_pos (ho.takes text)]
    have hrest := ih (h := { h with output := h.output.push text }) (ho.push text)
    simp only [writeTexts, hwrite, Reply.ofChange, Reply.andThen, hrest, Host.printed,
      Output.append_push, List.append_nil]

/-- `println` of a value that `IsLine` succeeds, and adds the line of the value to what has been
printed. -/
theorem println_call (ho : h.output.Open) {v : Value} (hl : v.IsLine) :
    ∃ texts, println.call [v] h = ⟨.ok none, h.printed texts, []⟩ ∧
      String.join texts = v.line := by
  obtain ⟨texts, hprinted, hjoin⟩ := hl.exists_printed?
  refine ⟨texts ++ ["\n"], ?_, ?_⟩
  · have hwrite : (h.printed texts).write "\n" = .ok (h.printed (texts ++ ["\n"])) := by
      rw [Host.write, if_pos (ho.printed texts |>.takes _)]
      simp [Host.printed, Output.push, Output.append]
    have hflush : (h.printed (texts ++ ["\n"])).flush = .ok (h.printed (texts ++ ["\n"])) := by
      rw [Host.flush, if_neg]
      exact Bool.eq_false_iff.mp (ho.printed (texts ++ ["\n"])).2
    simp only [call, printValues, hprinted, writeTexts_of_open ho, Reply.andThen,
      hwrite, hflush, Reply.ofChange, List.append_nil]
  · rw [String.join_append, String.join_cons, String.join_nil, String.append_empty, hjoin,
      Value.line]

/-- `scan` takes the line of the value `v` from the front of the input, and nothing else. -/
theorem scan_call {v like : Value} (hl : v.IsLine) (htype : like.typeName = v.typeName)
    {rest : String} (hinput : h.input = Text.encode (v.line ++ rest)) :
    scan.call [like] h = ⟨.ok (some v), { h with input := Text.encode rest }, []⟩ := by
  have hline : Text.takeLine h.input = (Text.encode v.line, Text.encode rest) := by
    rw [hinput, Value.line, Text.takeLine_encode hl.text.1]
  have hne : h.input ≠ [] := by
    rw [hinput, Value.line, Text.encode_append, Text.encode_append, Text.encode_lineFeed]
    simp
  simp [call, Host.readLine, hne, hline, Text.decode?_encode, Value.scanned_line hl htype,
    Except.bind, Except.map]

/-- `scan` fails when there is no input. -/
theorem scan_call_end (hinput : h.input = []) (like : Value) :
    scan.call [like] h = ⟨.error .endOfInput, h, []⟩ := by
  simp [call, Host.readLine, hinput, Except.bind]

/-- The calls `cs` are all of the builtin `b`, each with one of `values`. -/
def Made (b : Builtin) (values : List Value) (cs : List Call) : Prop :=
  cs.map (fun c => (c.builtin, c.values)) = values.map fun v => (b, [v])

theorem Made.of_nil {b : Builtin} {cs : List Call} (h : b.Made [] cs) : cs = [] :=
  List.map_eq_nil_iff.mp h

theorem Made.of_cons {b : Builtin} {v : Value} {values : List Value} {cs : List Call}
    (hcs : b.Made (v :: values) cs) :
    ∃ h ds, cs = ⟨b, [v], h⟩ :: ds ∧ b.Made values ds := by
  obtain ⟨⟨_, _, h⟩, ds, rfl, hc, hds⟩ := List.map_eq_cons_iff.mp hcs
  cases hc
  exact ⟨h, ds, rfl, hds⟩

end Builtin

/-! ## Many values -/

namespace History

variable {g h k l : Host} {cs printing scanning : List Call} {values likes : List Value}

theorem eq_of_nil (hcs : History h [] k) : k = h := by
  generalize hall : ([] : List Call) = all at hcs
  cases hcs with
  | none => rfl
  | call => exact absurd hall (by simp)

/-- A `History` of calls goes on behind its first call with the host of the reply to it. -/
theorem of_cons {c : Call} (hcs : History h (c :: cs) k) :
    c.host = h ∧ History c.reply.host cs k := by
  obtain ⟨l, hfirst, hrest⟩ := split (show History h ([c] ++ cs) k from hcs)
  obtain ⟨hnone, rfl⟩ := of_concat (show History h ([] ++ [c]) l from hfirst)
  exact ⟨hnone.eq_of_nil, hrest⟩

/-- Values that are printed one by one by `println` are all accepted, and add their lines to the
output. -/
theorem written_of_println (hall : History h printing k)
    (hmade : Builtin.println.Made values printing) (ho : h.output.Open)
    (hl : ∀ v ∈ values, v.IsLine) :
    (∀ c ∈ printing, c.reply.result = .ok Option.none) ∧
      k.output.written = h.output.written ++ String.join (values.map Value.line) := by
  induction values generalizing h printing with
  | nil =>
    obtain rfl := hmade.of_nil
    rw [hall.eq_of_nil, List.map_nil, String.join_nil, String.append_empty]
    exact ⟨by simp, rfl⟩
  | cons v values ih =>
    obtain ⟨h', rest, rfl, hrest⟩ := hmade.of_cons
    obtain ⟨hfirst, hbehind⟩ := hall.of_cons
    obtain rfl : h' = h := hfirst
    obtain ⟨texts, hcall, hjoin⟩ := Builtin.println_call ho (hl v List.mem_cons_self)
    have hreply : Call.reply ⟨.println, [v], h'⟩ = _ := hcall
    rw [hreply] at hbehind
    obtain ⟨hresults, hwritten⟩ :=
      ih hbehind hrest (ho.printed texts) fun w hw => hl w (List.mem_cons_of_mem v hw)
    refine ⟨List.forall_mem_cons.mpr ⟨by rw [hreply], hresults⟩, ?_⟩
    rw [hwritten, Host.printed, Output.written_append, hjoin, List.map_cons, String.join_cons,
      String.append_assoc]

/-- Values whose lines are all of the input are given back by as many calls of `scan`, which
leave nothing. -/
theorem results_of_scan (hall : History g scanning l)
    (hmade : Builtin.scan.Made likes scanning)
    (hinput : g.input = Text.encode (String.join (values.map Value.line)))
    (hl : ∀ v ∈ values, v.IsLine)
    (htypes : likes.map Value.typeName = values.map Value.typeName) :
    scanning.map (·.reply.result) = values.map (fun v => .ok (some v)) ∧ l.input = [] := by
  induction values generalizing g likes scanning with
  | nil =>
    obtain rfl := List.map_eq_nil_iff.mp htypes
    obtain rfl := hmade.of_nil
    rw [hall.eq_of_nil]
    exact ⟨rfl, hinput⟩
  | cons v values ih =>
    obtain ⟨like, likes, rfl, htype, htypes⟩ := List.map_eq_cons_iff.mp htypes
    obtain ⟨h', rest, rfl, hrest⟩ := hmade.of_cons
    obtain ⟨hfirst, hbehind⟩ := hall.of_cons
    obtain rfl : h' = g := hfirst
    rw [List.map_cons, String.join_cons] at hinput
    have hreply : Call.reply ⟨.scan, [like], h'⟩ = _ :=
      Builtin.scan_call (hl v List.mem_cons_self) htype hinput
    rw [hreply] at hbehind
    obtain ⟨hresults, hend⟩ :=
      ih hbehind hrest rfl (fun w hw => hl w (List.mem_cons_of_mem v hw)) htypes
    refine ⟨?_, hend⟩
    rw [List.map_cons, List.map_cons, hresults, hreply]

/-- Take values that are `Value.IsLine`, calls of `println` that print one of them each on a
host whose output is `Output.Open`, and calls of `scan` on a host whose input is the text so
written, each with a value of the type to be read. Then every `println` succeeds, the scans give
the values back in order, and a further `scan` finds the end of the input. -/
theorem scan_println (hl : ∀ v ∈ values, v.IsLine)
    (htypes : likes.map Value.typeName = values.map Value.typeName)
    (hprinting : History h printing k) (hprintln : Builtin.println.Made values printing)
    (ho : h.output.Open) :
    (∀ c ∈ printing, c.reply.result = .ok Option.none) ∧
      ∃ text, k.output.written = h.output.written ++ text ∧
        ∀ (g l : Host) (scanning : List Call), g.input = Text.encode text →
          History g scanning l →
          Builtin.scan.Made likes scanning →
            scanning.map (·.reply.result) = values.map (fun v => .ok (some v)) ∧
              ∀ like, (Builtin.scan.call [like] l).result = .error .endOfInput := by
  obtain ⟨hresults, hwritten⟩ := hprinting.written_of_println hprintln ho hl
  refine ⟨hresults, _, hwritten, fun g l scanning hinput hscanning hscan => ?_⟩
  obtain ⟨hvalues, hend⟩ := hscanning.results_of_scan hscan hinput hl htypes
  exact ⟨hvalues, fun like => congrArg Reply.result (Builtin.scan_call_end hend like)⟩

/-- So it is for the least integer, a string of blanks around a carriage return, and a
boolean. -/
theorem scan_println_three :
    ∃ (printing scanning : List Call) (k l : Host),
      History {} printing k ∧
        Builtin.println.Made
          [.integer Int64.minValue, .string " 1\r\u00a0", .boolean false] printing ∧
        History { input := Text.encode k.output.written } scanning l ∧
        scanning.map (·.reply.result) =
          [.ok (some (.integer Int64.minValue)), .ok (some (.string " 1\r\u00a0")),
            .ok (some (.boolean false))] ∧
        (Builtin.scan.call [.string ""] l).result = .error .endOfInput := by
  let values : List Value := [.integer Int64.minValue, .string " 1\r\u00a0", .boolean false]
  let likes : List Value := [.integer 0, .string "", .boolean true]
  obtain ⟨printing, k, hprinting, hprintln⟩ :=
    exists_of {} (values.map fun v => (.println, [v]))
  have hl : ∀ v ∈ values, v.IsLine := by
    decide
  have htypes : likes.map Value.typeName = values.map Value.typeName := rfl
  obtain ⟨-, text, htext, hback⟩ := scan_println hl htypes hprinting hprintln ⟨rfl, rfl⟩
  obtain ⟨scanning, l, hscanning, hscan⟩ :=
    exists_of { input := Text.encode k.output.written } (likes.map fun v => (.scan, [v]))
  have hinput : Text.encode k.output.written = Text.encode text := by
    rw [htext]
    exact congrArg Text.encode String.empty_append
  obtain ⟨hvalues, hend⟩ := hback _ l scanning hinput hscanning hscan
  exact ⟨printing, scanning, k, l, hprinting, hprintln, hscanning, hvalues, hend _⟩

end History
end ScriptLang
