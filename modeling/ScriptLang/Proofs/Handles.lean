import Mathlib.Algebra.Group.Nat.Defs
import Mathlib.Data.List.Basic
import ScriptLang.Proofs.History

/-!
# Handles

A handle is the number of an open file. The table of open files and the counter that numbers
them are all that a call knows of the calls before it, so what has to be shown is that they say
enough: the counter is as far as the openings have got, and the table holds just those files
that were opened and have not been closed since, each with the position where the last read or
write through its handle has left it.

One call does one of five things to the open files (`Deed`), or none of them. What it does to
the table is said once for each, and what a whole history comes to follows from there.

- `Call.deed?`, `Host.Does`, `Call.does`: what a call does to the open files, and what that does
  to a host.
- `Call.Opened`, `Call.position`: a file that has been opened and not been closed since, and
  where it is read from.
- `Host.Tracks`, `History.tracks`: the table and the counter are what the calls have made of
  them.
- `Host.InOrder`: handles go up, and a handle is good from its opening to its closing and not
  otherwise.
- `Session.handles_inOrder`: this holds of whatever calls are made, by a program or not.
-/

namespace ScriptLang

/-! ## What a call does to the open files -/

/-- What a call does to the open files: open one under a number, read or write one through the
handle of that number, or close it. -/
inductive Deed where
  | opened (id : Nat) (file : Location)
  | read (id : Nat) (file : Location)
  | wrote (id : Nat) (file : Location) (text : String)
  | closed (id : Nat)

/-- The `Deed` of a call, if it does anything to the open files. A read counts that gets past
the handle, even if what it reads is no text. -/
def Call.deed? (c : Call) : Option Deed :=
  match c.builtin, c.values with
  | .fopen, .string path :: _ =>
    match c.host.files.openFile path with
    | .ok (file, _) => some (.opened c.host.nextHandle file)
    | .error _ => none
  | .fread, .integer k :: _ => (c.host.handle? k).map fun (id, e) => .read id e.file
  | .fwrite, .integer k :: .string text :: _ =>
    (c.host.handle? k).map fun (id, e) => .wrote id e.file text
  | .fclose, .integer k :: _ => (c.host.handle? k).map fun (id, _) => .closed id
  | _, _ => none

/-- The builtin that does a `Deed`. -/
def Deed.builtin : Deed → Builtin
  | opened .. => .fopen
  | read .. => .fread
  | wrote .. => .fwrite
  | closed .. => .fclose

theorem Call.builtin_of_deed? {c : Call} {deed : Deed} (h : c.deed? = some deed) :
    c.builtin = deed.builtin := by
  rw [deed?] at h
  split at h
  next hbuiltin _ =>
    split at h <;> cases h
    exact hbuiltin
  next hbuiltin _ =>
    obtain ⟨_, -, rfl⟩ := Option.map_eq_some_iff.mp h
    exact hbuiltin
  next hbuiltin _ =>
    obtain ⟨_, -, rfl⟩ := Option.map_eq_some_iff.mp h
    exact hbuiltin
  next hbuiltin _ =>
    obtain ⟨_, -, rfl⟩ := Option.map_eq_some_iff.mp h
    exact hbuiltin
  next => cases h

namespace Host

/-- The host `h'` is `h` with more texts printed. The input may differ. -/
structure Printed (h h' : Host) : Prop where
  files : h'.files = h.files
  handles : h'.handles = h.handles
  nextHandle : h'.nextHandle = h.nextHandle
  texts : h.output.texts <:+ h'.output.texts

theorem Printed.refl (h : Host) : h.Printed h := ⟨rfl, rfl, rfl, List.suffix_refl _⟩

theorem Printed.trans {h k l : Host} (hk : h.Printed k) (hl : k.Printed l) : h.Printed l :=
  ⟨hl.files.trans hk.files, hl.handles.trans hk.handles, hl.nextHandle.trans hk.nextHandle,
    hk.texts.trans hl.texts⟩

/-- The change that a `Deed` makes to a host, or having none. -/
inductive Does (h : Host) : Option Deed → Host → Prop
  | nothing {h' : Host} : h.Printed h' → Does h none h'
  | opened {path : String} {file : Location} {files : FileStore} :
      h.files.openFile path = .ok (file, files) →
      Does h (some (.opened h.nextHandle file)) { h with
        files
        handles := h.handles.set h.nextHandle ⟨file, 0⟩
        nextHandle := h.nextHandle + 1 }
  | read {id : Nat} {e : Handle} :
      h.handles.get? id = some e →
      Does h (some (.read id e.file)) (h.moveTo id e (h.files.contents e.file).size)
  | wroteNothing {id : Nat} {e : Handle} :
      h.handles.get? id = some e → Does h (some (.wrote id e.file "")) h
  | wrote {id : Nat} {e : Handle} {text : String} {files : FileStore} :
      h.handles.get? id = some e → text ≠ "" → files = h.files.append e.file text.toByteArray →
      Does h (some (.wrote id e.file text))
        ({ h with files }.moveTo id e (files.contents e.file).size)
  | closed {id : Nat} {e : Handle} :
      h.handles.get? id = some e →
      Does h (some (.closed id)) { h with handles := h.handles.erase id }

/-- By `Host.handle?`, an integer is the handle of an open file exactly if the file is open
under that number. -/
theorem handle?_eq_some_iff {h : Host} {k : Int64} {id : Nat} {e : Handle} :
    h.handle? k = some (id, e) ↔ k.toInt = id ∧ h.handles.get? id = some e := by
  rw [handle?]
  split
  · constructor
    · rintro ⟨⟩
    · rintro ⟨hk, -⟩
      omega
  · rw [Option.map_eq_some_iff]
    constructor
    · rintro ⟨e', he, heq⟩
      cases heq
      exact ⟨by omega, he⟩
    · rintro ⟨hk, he⟩
      have hid : k.toInt.toNat = id := by omega
      rw [hid]
      exact ⟨e, he, rfl⟩

end Host

/-! ### Printing and scanning -/

section Printing

open Host

theorem Reply.printed_andThen {α β : Type} {h : Host} {r : Reply α} {next : α → Host → Reply β}
    (hr : h.Printed r.host) (hnext : ∀ a (k : Host), k.Printed (next a k).host) :
    h.Printed (r.andThen next).host := by
  rw [andThen]
  split
  · exact hr
  · exact hr.trans (hnext _ _)

theorem Host.printed_write (text : String) (h : Host) :
    h.Printed (Reply.ofChange h (h.write text)).host := by
  rw [write]
  split
  · exact ⟨rfl, rfl, rfl, List.suffix_cons _ _⟩
  · exact .refl h

theorem Host.printed_flush (h : Host) : h.Printed (Reply.ofChange h h.flush).host := by
  rw [flush]
  split <;> exact .refl h

theorem Builtin.printed_writeTexts (texts : List String) (h : Host) :
    h.Printed (writeTexts texts h).host := by
  induction texts generalizing h with
  | nil => exact .refl h
  | cons text texts ih => exact Reply.printed_andThen (printed_write text h) fun _ k => ih k

theorem Builtin.printed_printValues (builtin : Builtin) (values : List Value) (h : Host) :
    h.Printed (printValues builtin values h).host := by
  induction values generalizing h with
  | nil => exact .refl h
  | cons value values ih =>
    refine Reply.printed_andThen ?_ fun _ k => ih k
    split
    · exact printed_writeTexts _ h
    · exact .refl h

theorem Host.printed_readLine (h : Host) : h.Printed h.readLine.2 := by
  rw [readLine]
  split
  · exact .refl h
  · dsimp only
    split <;> exact ⟨rfl, rfl, rfl, List.suffix_refl _⟩

end Printing

/-! ### Each builtin -/

namespace Call

open Builtin Reply Host

theorem fopen_does (values : List Value) (h : Host) :
    h.Does (deed? ⟨.fopen, values, h⟩) (reply ⟨.fopen, values, h⟩).host := by
  rcases values with _ | ⟨_ | _ | _ | path | _ | _, rest⟩
  case cons.string =>
    rw [deed?, reply]
    simp only [Builtin.call, List.headD_cons, Value.asString, openFile, bind, Except.bind]
    rcases hopen : h.files.openFile path with error | ⟨file, files⟩
    · exact .nothing (.refl h)
    · exact .opened hopen
  all_goals exact .nothing (.refl h)

theorem fread_does (values : List Value) (h : Host) :
    h.Does (deed? ⟨.fread, values, h⟩) (reply ⟨.fread, values, h⟩).host := by
  rcases values with _ | ⟨_ | _ | k | _ | _ | _, rest⟩
  case cons.integer =>
    rw [deed?, reply]
    simp only [Builtin.call, List.headD_cons, Value.asHandle, Host.read]
    rcases hk : h.handle? k with _ | ⟨id, e⟩
    · exact .nothing (.refl h)
    · have hread := Does.read (handle?_eq_some_iff.mp hk).2
      dsimp only
      split <;> exact hread
  all_goals exact .nothing (.refl h)

theorem fwrite_does (values : List Value) (h : Host) :
    h.Does (deed? ⟨.fwrite, values, h⟩) (reply ⟨.fwrite, values, h⟩).host := by
  rcases values with _ | ⟨_ | _ | k | _ | _ | _, _ | ⟨_ | _ | _ | text | _ | _, rest⟩⟩
  case cons.integer.cons.string =>
    rw [deed?, reply]
    simp only [Builtin.call, List.headD_cons, List.tail_cons, Value.asHandle, Value.asString,
      Host.append]
    rcases hk : h.handle? k with _ | ⟨id, e⟩
    · exact .nothing (.refl h)
    · have he := (handle?_eq_some_iff.mp hk).2
      by_cases htext : text = ""
      · subst htext
        exact .wroteNothing he
      · dsimp only
        rw [if_neg fun h => htext (String.isEmpty_iff.mp h)]
        exact .wrote he htext rfl
  all_goals exact .nothing (.refl h)

theorem fclose_does (values : List Value) (h : Host) :
    h.Does (deed? ⟨.fclose, values, h⟩) (reply ⟨.fclose, values, h⟩).host := by
  rcases values with _ | ⟨_ | _ | k | _ | _ | _, rest⟩
  case cons.integer =>
    rw [deed?, reply]
    simp only [Builtin.call, List.headD_cons, Value.asHandle, Host.close]
    rcases hk : h.handle? k with _ | ⟨id, e⟩
    · exact .nothing (.refl h)
    · exact .closed (handle?_eq_some_iff.mp hk).2
  all_goals exact .nothing (.refl h)

/-- `Call.reply` does to the host what `Call.deed?` says, by `Host.Does`. -/
theorem does (c : Call) : c.host.Does c.deed? c.reply.host := by
  obtain ⟨builtin, values, h⟩ := c
  cases builtin with
  | len | type => exact .nothing (.refl h)
  | print =>
    exact .nothing (printed_andThen (printed_printValues _ _ h) fun _ k =>
      printed_andThen (printed_flush k) fun _ k => .refl k)
  | println =>
    exact .nothing (printed_andThen (printed_printValues _ _ h) fun _ k =>
      printed_andThen (printed_write _ k) fun _ k =>
        printed_andThen (printed_flush k) fun _ k => .refl k)
  | scan => exact .nothing (printed_readLine h)
  | fopen => exact fopen_does values h
  | fread => exact fread_does values h
  | fwrite => exact fwrite_does values h
  | fclose => exact fclose_does values h

/-! ## The table of open files -/

/-- The number under which a call has opened a file, if its `Call.deed?` is `Deed.opened`. -/
def number? (c : Call) : Option Nat :=
  match c.deed? with
  | some (.opened id _) => some id
  | _ => none

/-- The position at which a call leaves the file that is open under the number `id`, if the call
reads it or adds something to it: the end of the file. Adding the empty text is adding
nothing. -/
def leaves? (id : Nat) (c : Call) : Option Nat :=
  match c.deed? with
  | some (.read id' file) =>
    if id' = id then some (c.reply.host.files.contents file).size else none
  | some (.wrote id' file text) =>
    if id' = id ∧ text ≠ "" then some (c.reply.host.files.contents file).size else none
  | _ => none

/-- Where a file is read from after the calls `since` it was opened: the last of `leaves?`, or
the start. -/
def position (id : Nat) (since : List Call) : Nat :=
  since.foldl (fun p c => (c.leaves? id).getD p) 0

/-- Among the calls, one has `Deed.opened` the file under the number `id`, and of those made
`since` none has `Deed.closed` it. -/
def Opened (cs : List Call) (id : Nat) (file : Location) (since : List Call) : Prop :=
  ∃ before c, cs = before ++ c :: since ∧ c.deed? = some (.opened id file) ∧
    ∀ d ∈ since, d.deed? ≠ some (.closed id)

section Opened

variable {cs since : List Call} {c : Call} {id : Nat} {file : Location}

theorem position_concat :
    position id (since ++ [c]) = (c.leaves? id).getD (position id since) := by
  rw [position, List.foldl_append]
  rfl

/-- With one more call, `Opened` holds of the file that it opens and of those before, unless the
call closes them. -/
theorem opened_concat : Opened (cs ++ [c]) id file since ↔
    c.deed? = some (.opened id file) ∧ since = [] ∨
    ∃ since', since = since' ++ [c] ∧ Opened cs id file since' ∧
      c.deed? ≠ some (.closed id) := by
  constructor
  · rintro ⟨before, o, hcs, ho, hsince⟩
    -- without a call since then, the last call is the one that opens
    cases since using List.reverseRecOn with
    | nil =>
      obtain ⟨-, hlast⟩ := List.append_inj' hcs rfl
      cases hlast
      exact .inl ⟨ho, rfl⟩
    | append_singleton since' d =>
      rw [← List.cons_append, ← List.append_assoc] at hcs
      obtain ⟨rfl, hlast⟩ := List.append_inj' hcs rfl
      cases hlast
      refine .inr ⟨since', rfl, ⟨before, o, rfl, ho, fun d hd => ?_⟩, hsince c (by simp)⟩
      exact hsince d (List.mem_append_left _ hd)
  · rintro (⟨ho, rfl⟩ | ⟨since', rfl, ⟨before, o, rfl, ho, hsince⟩, hc⟩)
    · exact ⟨cs, c, rfl, ho, nofun⟩
    · refine ⟨before, o, by simp, ho, fun d hd => ?_⟩
      rcases List.mem_append.mp hd with hd | hd
      · exact hsince d hd
      · rw [List.mem_singleton.mp hd]
        exact hc

theorem Opened.mem_numbers (h : Opened cs id file since) : id ∈ cs.filterMap number? := by
  obtain ⟨before, c, rfl, hc, -⟩ := h
  refine List.mem_filterMap.mpr ⟨c, by simp, ?_⟩
  rw [number?, hc]

end Opened

/-- `Call.reply` leaves `nextHandle` as it is, or takes it for `number?` and adds one. -/
theorem nextHandle_reply (c : Call) :
    c.number? = none ∧ c.reply.host.nextHandle = c.host.nextHandle ∨
    c.number? = some c.host.nextHandle ∧ c.reply.host.nextHandle = c.host.nextHandle + 1 := by
  have hdoes := c.does
  rw [number?]
  generalize c.deed? = deed at hdoes
  generalize c.reply.host = l at hdoes
  cases hdoes with
  | nothing h => exact .inl ⟨rfl, h.nextHandle⟩
  | opened => exact .inr ⟨rfl, rfl⟩
  | _ => exact .inl ⟨rfl, rfl⟩

/-- A file that is left alone stays where it is, file and position. -/
theorem get?_handles_self {h : Host} {id : Nat} {e : Handle} : h.handles.get? id = some e ↔
    ∃ e', h.handles.get? id = some e' ∧ e'.file = e.file ∧ e.position = e'.position := by
  constructor
  · intro he
    exact ⟨e, he, rfl, rfl⟩
  · rintro ⟨e', he', hfile, hposition⟩
    rw [he', Option.some_inj]
    cases e
    cases e'
    congr
    exact hposition.symm

/-- A file that `Host.moveTo` moves is the same file at another position. -/
theorem get?_handles_moveTo {h : Host} {i id p : Nat} {d e : Handle}
    (hd : h.handles.get? i = some d) :
    (h.moveTo i d p).handles.get? id = some e ↔
      ∃ e', h.handles.get? id = some e' ∧ e'.file = e.file ∧
        e.position = (if i = id then some p else none).getD e'.position := by
  rw [moveTo, Table.get?_set]
  by_cases hid : i = id
  · subst hid
    rw [if_pos rfl, if_pos rfl, Option.some_inj]
    constructor
    · rintro rfl
      exact ⟨d, hd, rfl, rfl⟩
    · rintro ⟨e', he', hfile, hposition⟩
      cases he'.symm.trans hd
      cases e
      congr
      exact hposition.symm
  · rw [if_neg (Ne.symm hid), if_neg hid]
    exact get?_handles_self

/-- What `Call.reply` does to the table. A file that it opens is read from the start; one that
was open before stays open, unless the call closes it, and is read from where `leaves?` says. -/
theorem get?_handles_reply (c : Call) (hnext : c.host.handles.get? c.host.nextHandle = none)
    (id : Nat) (e : Handle) : c.reply.host.handles.get? id = some e ↔
      c.deed? = some (.opened id e.file) ∧ e.position = 0 ∨
      ∃ e', c.host.handles.get? id = some e' ∧ e'.file = e.file ∧ c.deed? ≠ some (.closed id) ∧
        e.position = (c.leaves? id).getD e'.position := by
  have hdoes := c.does
  rw [leaves?]
  generalize c.deed? = deed at hdoes
  generalize c.reply.host = l at hdoes
  -- whatever a call does, it touches one number at most
  cases hdoes with
  | nothing h =>
    simp only [reduceCtorEq, false_and, false_or, ne_eq, not_false_iff, true_and, h.handles]
    exact get?_handles_self
  | opened h =>
    simp only [Table.get?_set, Option.some_inj, Deed.opened.injEq, ne_eq, reduceCtorEq,
      not_false_iff, true_and]
    -- the number was free, so what is found at it is the file that has been opened
    by_cases hid : id = c.host.nextHandle
    · subst hid
      rw [if_pos rfl, hnext]
      constructor
      · intro he
        cases he
        exact .inl ⟨⟨rfl, rfl⟩, rfl⟩
      · rintro (⟨⟨-, rfl⟩, hposition⟩ | ⟨_, ⟨⟩, -⟩)
        cases e
        cases hposition
        rfl
    · rw [if_neg hid]
      refine get?_handles_self.trans ⟨.inr, ?_⟩
      rintro (⟨⟨hnumber, -⟩, -⟩ | he)
      · exact absurd hnumber.symm hid
      · exact he
  | read he =>
    simp only [reduceCtorEq, false_and, false_or, ne_eq, Option.some_inj,
      not_false_iff, true_and]
    exact get?_handles_moveTo he
  | wroteNothing he =>
    simp only [reduceCtorEq, false_and, false_or, ne_eq, Option.some_inj,
      not_false_iff, true_and, not_true_eq_false, and_false, if_false]
    exact get?_handles_self
  | wrote he htext hfiles =>
    simp only [reduceCtorEq, false_and, false_or, ne_eq, Option.some_inj, not_false_iff,
      true_and, htext, and_true]
    exact get?_handles_moveTo he
  | @closed i d he =>
    simp only [reduceCtorEq, false_and, false_or, ne_eq, Option.some_inj, Deed.closed.injEq,
      Table.get?_erase]
    by_cases hid : id = i
    · rw [if_pos hid]
      constructor
      · rintro ⟨⟩
      · rintro ⟨_, -, -, hopen, -⟩
        exact absurd hid.symm hopen
    · rw [if_neg hid]
      simp only [Ne.symm hid, not_false_iff, true_and]
      exact get?_handles_self

/-- A handle as some calls have left it: `Opened` holds of its file, and it is read from
`position` on. -/
def Held (cs : List Call) (id : Nat) (e : Handle) : Prop :=
  ∃ since, Opened cs id e.file since ∧ e.position = position id since

theorem held_concat {cs : List Call} {c : Call} {id : Nat} {e : Handle} :
    Held (cs ++ [c]) id e ↔
    c.deed? = some (.opened id e.file) ∧ e.position = 0 ∨
    ∃ e', Held cs id e' ∧ e'.file = e.file ∧ c.deed? ≠ some (.closed id) ∧
      e.position = (c.leaves? id).getD e'.position := by
  constructor
  · rintro ⟨since, hopened, hposition⟩
    rcases opened_concat.mp hopened with ⟨hc, rfl⟩ | ⟨since', rfl, hsince, hc⟩
    · exact .inl ⟨hc, hposition⟩
    · rw [position_concat] at hposition
      exact .inr ⟨⟨e.file, position id since'⟩, ⟨since', hsince, rfl⟩, rfl, hc, hposition⟩
  · rintro (⟨hc, hposition⟩ | ⟨e', ⟨since, hsince, hbefore⟩, hfile, hc, hposition⟩)
    · exact ⟨[], opened_concat.mpr (.inl ⟨hc, rfl⟩), hposition⟩
    · rw [hfile] at hsince
      refine ⟨since ++ [c], opened_concat.mpr (.inr ⟨since, rfl, hsince, hc⟩), ?_⟩
      rw [position_concat, ← hbefore, hposition]

end Call

/-! ## What the calls since the start have made -/

open Call

namespace Host

/-- No file has been opened on the host yet. -/
structure Unused (h : Host) : Prop where
  handles : h.handles = []
  nextHandle : h.nextHandle = 3

/-- `nextHandle` and the table are what some calls have made of them: the files opened are
numbered from 3 on, and the entries are those that are `Held`. -/
structure Tracks (h : Host) (cs : List Call) : Prop where
  numbers : cs.filterMap number? = List.range' 3 (cs.filterMap number?).length
  nextHandle : h.nextHandle = 3 + (cs.filterMap number?).length
  handles : ∀ id e, h.handles.get? id = some e ↔ Held cs id e

namespace Tracks

variable {h : Host} {cs : List Call}

theorem mem_numbers (ht : h.Tracks cs) {id : Nat} (hid : id ∈ cs.filterMap number?) :
    3 ≤ id ∧ id < h.nextHandle := by
  rw [ht.numbers, List.mem_range'_1] at hid
  rw [ht.nextHandle]
  exact hid

/-- On a host that `Tracks` its calls, `nextHandle` is not in use. -/
theorem get?_nextHandle (ht : h.Tracks cs) : h.handles.get? h.nextHandle = none := by
  rcases he : h.handles.get? h.nextHandle with _ | e
  · rfl
  · obtain ⟨since, hopened, -⟩ := (ht.handles _ e).mp he
    exact absurd (ht.mem_numbers hopened.mem_numbers).2 (Nat.lt_irrefl _)

theorem start (hnew : h.Unused) : h.Tracks [] where
  numbers := rfl
  nextHandle := hnew.nextHandle
  handles id e := by
    rw [hnew.handles]
    constructor
    · rintro ⟨⟩
    · rintro ⟨since, ⟨before, c, hcs, -⟩, -⟩
      exact absurd hcs (by simp)

theorem call {c : Call} (ht : c.host.Tracks cs) : c.reply.host.Tracks (cs ++ [c]) where
  numbers := by
    rw [List.filterMap_append, List.length_append, ht.numbers, List.length_range']
    rcases c.nextHandle_reply with ⟨hnone, -⟩ | ⟨hsome, -⟩
    · simp [hnone]
    · simp [hsome, ht.nextHandle, List.range'_concat]
  nextHandle := by
    rw [List.filterMap_append, List.length_append]
    rcases c.nextHandle_reply with ⟨hnone, hnext⟩ | ⟨hsome, hnext⟩
    · simp [hnone, hnext, ht.nextHandle]
    · simp [hsome, hnext, ht.nextHandle, Nat.add_assoc]
  handles id e := by
    rw [get?_handles_reply c ht.get?_nextHandle, held_concat]
    simp only [ht.handles]

end Tracks
end Host

/-- Behind any `History` from an `Unused` host on, the host `Tracks` the calls. -/
theorem History.tracks {h l : Host} {cs : List Call} (hnew : h.Unused) (hcs : History h cs l) :
    l.Tracks cs := by
  induction hcs with
  | none => exact .start hnew
  | call _ ih => exact ih.call

/-! ## Handles as a program sees them -/

namespace Call

/-- The handle that a call of `fopen` has returned, if it has opened a file. -/
def returned? (c : Call) : Option Int64 :=
  match c.builtin, c.reply.result with
  | .fopen, .ok (some (.integer k)) => if k = 0 then none else some k
  | _, _ => none

/-- The handle that a call of `fclose` has closed, if it has closed one. -/
def closed? (c : Call) : Option Int64 :=
  match c.builtin, c.values, c.reply.result with
  | .fclose, .integer k :: _, .ok _ => some k
  | _, _, _ => none

/-- The handle that a call of `fread`, `fwrite` or `fclose` asks for, if its arguments are of
the types that they should be. -/
def handle? (c : Call) : Option Int64 :=
  match c.builtin, c.values with
  | .fread, .integer k :: _ => some k
  | .fwrite, .integer k :: .string _ :: _ => some k
  | .fclose, .integer k :: _ => some k
  | _, _ => none

/-- A handle has been `returned?` by one of some calls, and none of those made since has
`closed?` it. -/
def IsOpen (cs : List Call) (k : Int64) : Prop :=
  ∃ before c since, cs = before ++ c :: since ∧ c.returned? = some k ∧
    ∀ d ∈ since, d.closed? ≠ some k

/-- The calls for which `handle?` is some handle. -/
theorem handle?_eq_some {c : Call} {k : Int64} (hk : c.handle? = some k) :
    (∃ rest h, c = ⟨.fread, .integer k :: rest, h⟩) ∨
    (∃ text rest h, c = ⟨.fwrite, .integer k :: .string text :: rest, h⟩) ∨
    ∃ rest h, c = ⟨.fclose, .integer k :: rest, h⟩ := by
  obtain ⟨builtin, values, h⟩ := c
  rw [handle?] at hk
  split at hk <;> simp_all

/-- A call that asks for a handle that `Host.handle?` does not know fails and does nothing
else. -/
theorem reply_of_no_handle {c : Call} {k : Int64} (hk : c.handle? = some k)
    (hnone : c.host.handle? k = none) :
    c.reply.result = .error (.invalidHandle k) ∧ c.reply.host = c.host := by
  rcases handle?_eq_some hk with ⟨rest, h, rfl⟩ | ⟨text, rest, h, rfl⟩ | ⟨rest, h, rfl⟩ <;>
    dsimp only at hnone
  · simp [reply, Builtin.call, Value.asHandle, Host.read, hnone, Except.map]
  · simp [reply, Builtin.call, Value.asHandle, Value.asString, Host.append, hnone,
      Reply.ofChange, Reply.andThen]
  · simp [reply, Builtin.call, Value.asHandle, Host.close, hnone]

/-- A call that asks for a handle that `Host.handle?` knows does not fail for the handle. -/
theorem reply_of_handle {c : Call} {k : Int64} {e : Nat × Handle} (hk : c.handle? = some k)
    (he : c.host.handle? k = some e) (j : Int64) :
    c.reply.result ≠ .error (.invalidHandle j) := by
  rcases handle?_eq_some hk with ⟨rest, h, rfl⟩ | ⟨text, rest, h, rfl⟩ | ⟨rest, h, rfl⟩ <;>
    dsimp only at he
  · simp only [reply, Builtin.call, Value.asHandle, List.headD_cons, Host.read, he]
    split <;> simp_all [Except.map]
  · simp only [reply, Builtin.call, Value.asHandle, Value.asString, List.headD_cons,
      List.tail_cons, Host.append, he]
    split <;> simp_all [Reply.ofChange, Reply.andThen]
  · simp [reply, Builtin.call, Value.asHandle, Host.close, he]

/-- A call of `fopen` for which `FileStore.openFile` fails returns 0 and does nothing else. -/
theorem reply_of_not_opened {c : Call} {path : String} {rest : List Value} {error : FileError}
    (hbuiltin : c.builtin = .fopen) (hvalues : c.values = .string path :: rest)
    (hopen : c.host.files.openFile path = .error error) :
    c.reply.result = .ok (some (.integer 0)) ∧ c.reply.host = c.host := by
  simp [reply, hbuiltin, hvalues, Builtin.call, Value.asString, Host.openFile, hopen, bind,
    Except.bind]

/-- `closed?` is some handle exactly if the `Call.deed?` is `Deed.closed` of its number. -/
theorem closed?_eq_some_iff {c : Call} {k : Int64} :
    c.closed? = some k ↔ ∃ id : Nat, k.toInt = id ∧ c.deed? = some (.closed id) := by
  by_cases hbuiltin : c.builtin = .fclose
  · obtain ⟨_, values, h⟩ := c
    cases hbuiltin
    -- anything but a word is no handle, and closes nothing
    rcases values with _ | ⟨_ | _ | j | _ | _ | _, rest⟩
    case cons.integer =>
      simp only [closed?, deed?, reply, Builtin.call, List.headD_cons, Value.asHandle,
        Host.close]
      rcases hj : h.handle? j with _ | ⟨id, e⟩
      · simp
      · have hid := (Host.handle?_eq_some_iff.mp hj).1
        simp only [Option.some_inj, Option.map_some, Deed.closed.injEq]
        constructor
        · rintro rfl
          exact ⟨id, hid, rfl⟩
        · rintro ⟨_, hk, rfl⟩
          exact Int64.toInt_inj.mp (hid.trans hk.symm)
    all_goals simp [closed?, deed?]
  · constructor
    · intro h
      rw [closed?] at h
      split at h
      next hfclose _ _ => exact absurd hfclose hbuiltin
      next => cases h
    · rintro ⟨id, -, hdeed⟩
      exact absurd (builtin_of_deed? hdeed) hbuiltin

/-- As long as the numbers fit a word, `returned?` is `number?`. -/
theorem returned?_eq {c : Call} (hfits : ∀ id, c.number? = some id → 3 ≤ id ∧ id < 2 ^ 63) :
    c.returned? = c.number?.map Int64.ofNat := by
  by_cases hbuiltin : c.builtin = .fopen
  · obtain ⟨_, values, h⟩ := c
    cases hbuiltin
    rcases values with _ | ⟨_ | _ | _ | path | _ | _, rest⟩
    case cons.string =>
      simp only [returned?, number?, deed?, reply, Builtin.call, List.headD_cons,
        Value.asString, Host.openFile, bind, Except.bind] at hfits ⊢
      rcases hopen : h.files.openFile path with error | ⟨file, files⟩
      · rfl
      · rw [hopen] at hfits
        obtain ⟨hpositive, hsmall⟩ := hfits h.nextHandle rfl
        refine if_neg fun hzero => ?_
        -- the number fits a word and is not zero, which is what a failure returns
        have hint := Int64.toInt_ofNat_of_lt hsmall
        rw [hzero] at hint
        have : (0 : Int64).toInt = 0 := rfl
        omega
    all_goals rfl
  · have hnumber : c.number? = none := by
      rw [number?]
      split
      next hdeed => exact absurd (builtin_of_deed? hdeed) hbuiltin
      next => rfl
    rw [returned?, hnumber]
    split
    next hfopen _ => exact absurd hfopen hbuiltin
    next => rfl

end Call

namespace Host.Tracks

variable {h : Host} {cs : List Call} (ht : h.Tracks cs)
  (hfew : (cs.filterMap number?).length < 2 ^ 63 - 3)

include ht hfew

/-- With fewer than `2 ^ 63 - 3` openings every `number?` fits a word. -/
theorem fits {c : Call} (hc : c ∈ cs) {id : Nat} (hid : c.number? = some id) :
    3 ≤ id ∧ id < 2 ^ 63 := by
  obtain ⟨hlow, hhigh⟩ := ht.mem_numbers (List.mem_filterMap.mpr ⟨c, hc, hid⟩)
  rw [ht.nextHandle] at hhigh
  omega

theorem returned?_eq {c : Call} (hc : c ∈ cs) : c.returned? = c.number?.map Int64.ofNat :=
  Call.returned?_eq fun _ => ht.fits hfew hc

/-- The handles that have been `returned?` go up. -/
theorem ascending : (cs.filterMap returned?).Pairwise (· < ·) := by
  rw [List.filterMap_congr fun c hc => ht.returned?_eq hfew hc, ← List.map_filterMap,
    List.pairwise_map]
  have hnumbers : (cs.filterMap number?).Pairwise (· < ·) := by
    rw [ht.numbers]
    exact List.pairwise_lt_range' 1
  refine hnumbers.imp_of_mem fun {a b} ha hb hab => ?_
  obtain ⟨c, hc, hca⟩ := List.mem_filterMap.mp ha
  obtain ⟨d, hd, hdb⟩ := List.mem_filterMap.mp hb
  rw [Int64.lt_iff_toInt_lt, Int64.toInt_ofNat_of_lt (ht.fits hfew hc hca).2,
    Int64.toInt_ofNat_of_lt (ht.fits hfew hd hdb).2]
  omega

/-- `IsOpen` holds of the handles that `Host.handle?` knows. -/
theorem isOpen_iff (k : Int64) : IsOpen cs k ↔ ∃ e, h.handle? k = some e := by
  constructor
  · rintro ⟨before, c, since, rfl, hreturned, hsince⟩
    have hc : c ∈ before ++ c :: since := by simp
    rw [ht.returned?_eq hfew hc, Option.map_eq_some_iff] at hreturned
    obtain ⟨id, hid, rfl⟩ := hreturned
    have hword := Int64.toInt_ofNat_of_lt (ht.fits hfew hc hid).2
    have hopened : ∃ file, c.deed? = some (.opened id file) := by
      rw [number?] at hid
      split at hid
      next hdeed =>
        cases hid
        exact ⟨_, hdeed⟩
      next => cases hid
    obtain ⟨file, hdeed⟩ := hopened
    have hheld : Held (before ++ c :: since) id ⟨file, position id since⟩ := by
      refine ⟨since, ⟨before, c, rfl, hdeed, fun d hd hclosed => ?_⟩, rfl⟩
      exact hsince d hd (closed?_eq_some_iff.mpr ⟨id, hword, hclosed⟩)
    exact ⟨_, handle?_eq_some_iff.mpr ⟨hword, (ht.handles _ _).mpr hheld⟩⟩
  · rintro ⟨⟨id, e⟩, he⟩
    obtain ⟨hk, he⟩ := handle?_eq_some_iff.mp he
    obtain ⟨since, ⟨before, c, rfl, hdeed, hsince⟩, -⟩ := (ht.handles id e).mp he
    have hc : c ∈ before ++ c :: since := by simp
    have hid : c.number? = some id := by rw [number?, hdeed]
    have hword := Int64.toInt_ofNat_of_lt (ht.fits hfew hc hid).2
    refine ⟨before, c, since, rfl, ?_, fun d hd hclosed => ?_⟩
    · rw [ht.returned?_eq hfew hc, hid]
      exact congrArg some (Int64.toInt_inj.mp (hword.trans hk.symm))
    · -- a word stands for one number only, so this call would have closed the file
      obtain ⟨id', hid', hdeed'⟩ := closed?_eq_some_iff.mp hclosed
      have hsame : id' = id := by omega
      exact hsince d hd (hsame ▸ hdeed')

end Host.Tracks

/-- After some calls on a host that no file has been opened on: the handles `returned?` so far
go up; each call of `fopen` that opens a file returns one that is greater than all before it,
and one that cannot returns 0 and does nothing; a call that asks for a handle gets past it
exactly if the handle `IsOpen`, and fails and does nothing otherwise. -/
structure Host.InOrder (h : Host) (cs : List Call) : Prop where
  between : ∀ id ∈ h.handles.keys, 3 ≤ id ∧ id < h.nextHandle
  ascending : (cs.filterMap returned?).Pairwise (· < ·)
  opening : ∀ {before c behind path rest}, cs = before ++ c :: behind → c.builtin = .fopen →
    c.values = .string path :: rest →
    match c.host.files.openFile path with
    | .ok _ => ∃ k, c.returned? = some k ∧ ∀ j ∈ before.filterMap returned?, j < k
    | .error _ => c.reply.result = .ok (some (.integer 0)) ∧ c.reply.host = c.host
  good : ∀ {before c behind k}, cs = before ++ c :: behind → c.handle? = some k →
    IsOpen before k → ∀ j, c.reply.result ≠ .error (.invalidHandle j)
  stale : ∀ {before c behind k}, cs = before ++ c :: behind → c.handle? = some k →
    ¬IsOpen before k → ∃ failure, failure.message = "invalid file handle " ++ toString k.toInt ∧
      c.reply.result = .error failure ∧ failure = .invalidHandle k ∧ c.reply.host = c.host

theorem History.inOrder {h l : Host} {cs : List Call} (hnew : h.Unused) (hcs : History h cs l)
    (hfew : (cs.filterMap number?).length < 2 ^ 63 - 3) : l.InOrder cs := by
  -- each call is made on a host that knows the calls
  -- before it, and these are no more than all of them
  have hbefore : ∀ {before c behind}, cs = before ++ c :: behind →
      c.host.Tracks before ∧ (before.filterMap number?).length < 2 ^ 63 - 3 := by
    rintro before c behind rfl
    refine ⟨(hcs.at_call).tracks hnew, ?_⟩
    rw [List.filterMap_append, List.length_append] at hfew
    omega
  have ht := hcs.tracks hnew
  constructor
  case between =>
    intro id hid
    obtain ⟨e, he⟩ := Table.exists_of_mem_keys hid
    obtain ⟨since, hopened, -⟩ := (ht.handles id e).mp he
    exact ht.mem_numbers hopened.mem_numbers
  case ascending => exact ht.ascending hfew
  case opening =>
    intro before c behind path rest hsplit hbuiltin hvalues
    rcases hopen : c.host.files.openFile path with error | ⟨file, files⟩
    · exact reply_of_not_opened hbuiltin hvalues hopen
    · have hc : c ∈ cs := by simp [hsplit]
      have hid : c.number? = some c.host.nextHandle := by
        rw [number?, deed?, hbuiltin, hvalues]
        simp only [hopen]
      have hreturned := ht.returned?_eq hfew hc
      rw [hid] at hreturned
      refine ⟨_, hreturned, fun j hj => ?_⟩
      have hascending := ht.ascending hfew
      rw [hsplit, List.filterMap_append, List.pairwise_append] at hascending
      exact hascending.2.2 j hj _ (List.mem_filterMap.mpr ⟨c, List.mem_cons_self, hreturned⟩)
  case good =>
    intro before c behind k hsplit hk hopen
    obtain ⟨htracks, hless⟩ := hbefore hsplit
    obtain ⟨e, he⟩ := (htracks.isOpen_iff hless k).mp hopen
    exact reply_of_handle hk he
  case stale =>
    intro before c behind k hsplit hk hopen
    obtain ⟨htracks, hless⟩ := hbefore hsplit
    rw [htracks.isOpen_iff hless k, not_exists] at hopen
    have hnone := Option.eq_none_iff_forall_ne_some.mpr hopen
    obtain ⟨hresult, hhost⟩ := reply_of_no_handle hk hnone
    exact ⟨.invalidHandle k, rfl, hresult, rfl, hhost⟩

/-- On a host that is `Host.Unused`, handles are `Host.InOrder` behind any `History` of calls,
as long as fewer than `2 ^ 63 - 3` files have been opened. Any builtins may be called with any
values, and those that a program calls are among them: `Session.calls`, up to each of its
moments and whether it has an answer or not, over any number of runs. -/
theorem Session.handles_inOrder (config : Config) (host : Host) (hnew : host.Unused) :
    (∀ cs l, History host cs l → (cs.filterMap number?).length < 2 ^ 63 - 3 → l.InOrder cs) ∧
    (∀ made, ∃ cs l, History host cs l ∧ cs.map (fun c => (c.builtin, c.values)) = made) ∧
    ∀ cs s, Goes (fresh config host) cs s →
      ∀ fuel p, ∃ l, History host (cs ++ s.calls fuel p) l ∧
      ∀ e t, s.evaluate fuel p = some (e, t) → t.machine.host = l := by
  exact ⟨fun cs l hcs hfew => hcs.inOrder hnew hfew, History.exists_of host, fun cs s hgoes =>
    hgoes.history_calls⟩

/-- Two files are opened, the first one is closed, and `read` on its handle then fails. -/
theorem Session.handles_inOrder_closed :
    let a : Call := ⟨.fopen, [.string "a"], {}⟩
    let b : Call := ⟨.fopen, [.string "b"], a.reply.host⟩
    let close : Call := ⟨.fclose, [.integer 3], b.reply.host⟩
    let read : Call := ⟨.fread, [.integer 3], close.reply.host⟩
    ({} : Host).Unused ∧ read.reply.host.InOrder [a, b, close, read] ∧
      [a, b, close, read].filterMap returned? = [3, 4] ∧
      read.reply.result = .error (.invalidHandle 3) := by
  intro a b close read
  have hcs : History {} [a, b, close, read] read.reply.host :=
    (((History.single a).append (.single b)).append (.single close)).append (.single read)
  refine ⟨⟨rfl, rfl⟩, (handles_inOrder {} {} ⟨rfl, rfl⟩).1 _ _ hcs ?_, ?_, ?_⟩
  · exact (List.length_filterMap_le _ _).trans_lt (by decide)
  · decide +kernel
  · have hnone : (read.host.handle? 3).isNone := by decide +kernel
    exact (reply_of_no_handle rfl (Option.isNone_iff_eq_none.mp hnone)).1

end ScriptLang
