import ScriptLang.Proofs.Handles

/-!
# Nothing is lost

Nothing shortens a file, and no byte of it is written twice: what is written goes behind all
that is there, through whichever handle. So all that a host has been told to keep it has kept,
in the order in which it was told, and a history of calls says what is in each file without a
word on positions.

Reading is the business of single handles. Each has a position of its own, which stays behind
while others write, so that what has been written since is read later, and which never goes
back, so that nothing is read twice through one handle.

- `FileStore.bytes`, `Call.written`: what is in a file, and what a call adds to it.
- `Host.Kept`: files and output go on from what they were by what the calls have added.
- `Call.read_reply`: what a read through an open handle gives.
- `Host.Within`, `History.position_le`: no position lies behind the end of its file, and none
  goes back.
- `Session.contents_kept`: all of this holds of whatever calls are made, by a program or not.
-/

namespace ScriptLang

/-! ## Files -/

namespace FileStore

variable {store store' : FileStore}

/-- `FileStore.contents` as a list. There is nothing in it where there is no file. -/
def bytes (store : FileStore) (file : Location) : List UInt8 :=
  (store.contents file).data.toList

theorem size_contents (store : FileStore) (file : Location) :
    (store.contents file).size = (store.bytes file).length := by
  rw [bytes, Array.length_toList, ByteArray.size_data]

theorem bytes_append (store : FileStore) (at' file : Location) (text : String) :
    (store.append at' text.toByteArray).bytes file =
      store.bytes file ++ if at' = file then Text.encode text else [] := by
  rw [bytes, contents, append, Table.get?_set]
  by_cases hfile : at' = file
  · subst hfile
    rw [if_pos rfl, if_pos rfl, Option.getD_some, ByteArray.data_append, Array.toList_append]
    rfl
  · rw [if_neg (Ne.symm hfile), if_neg hfile, List.append_nil]
    rfl

theorem has_append {at' file : Location} {bytes : ByteArray} (h : store.files.has file) :
    (store.append at' bytes).files.has file := by
  rw [append, Table.has, Table.get?_set]
  split
  · rfl
  · exact h

/-- `FileStore.openFile` leaves the store as it is, or makes an empty file where there was
none. -/
theorem openFile_ok {path : String} {file : Location}
    (h : store.openFile path = .ok (file, store')) :
    store' = store ∨
    ¬store.files.has file ∧ store' = { store with files := store.files.set file .empty } := by
  simp only [openFile, bind, Except.bind] at h
  split at h
  · cases h
  split at h
  · cases h
  · cases h
  · split_ifs at h with hlong hdirectory hhas <;> cases h
    · exact .inl rfl
    · exact .inr ⟨hhas, rfl⟩

theorem bytes_openFile {path : String} {opened : Location}
    (h : store.openFile path = .ok (opened, store')) (file : Location) :
    store'.bytes file = store.bytes file := by
  rcases openFile_ok h with rfl | ⟨hmissing, rfl⟩
  · rfl
  · rw [bytes, contents, Table.get?_set]
    by_cases hfile : file = opened
    · subst hfile
      have hnone : store.files.get? file = none := Option.not_isSome_iff_eq_none.mp hmissing
      rw [if_pos rfl, bytes, contents, hnone]
      rfl
    · rw [if_neg hfile]
      rfl

theorem has_openFile {path : String} {opened file : Location}
    (h : store.openFile path = .ok (opened, store')) (hfile : store.files.has file) :
    store'.files.has file := by
  rcases openFile_ok h with rfl | ⟨-, rfl⟩
  · exact hfile
  · rw [Table.has, Table.get?_set]
    split
    · rfl
    · exact hfile

end FileStore

/-! ## What calls add -/

namespace Call

/-- What a call adds to a file: the text of an `fwrite` that has succeeded, if its handle is one
on that file. -/
def written (file : Location) (c : Call) : List UInt8 :=
  match c.builtin, c.values, c.reply.result with
  | .fwrite, .integer k :: .string text :: _, .ok _ =>
    match c.host.handle? k with
    | some (_, e) => if e.file = file then Text.encode text else []
    | none => []
  | _, _, _ => []

theorem written_eq (file : Location) (c : Call) : c.written file =
    match c.deed? with
    | some (.wrote _ at' text) => if at' = file then Text.encode text else []
    | _ => [] := by
  by_cases hbuiltin : c.builtin = .fwrite
  · obtain ⟨_, values, h⟩ := c
    cases hbuiltin
    rcases values with _ | ⟨_ | _ | k | _ | _ | _, _ | ⟨_ | _ | _ | text | _ | _, rest⟩⟩
    case cons.integer.cons.string =>
      simp only [written, deed?, reply, Builtin.call, List.headD_cons, List.tail_cons,
        Value.asHandle, Value.asString, Host.append]
      rcases hk : h.handle? k with _ | ⟨id, e⟩
      · rfl
      · by_cases htext : text.isEmpty <;> simp [htext, hk, Reply.ofChange, Reply.andThen]
    all_goals rfl
  · rw [written]
    split
    next hfwrite _ _ => exact absurd hfwrite hbuiltin
    next =>
      split
      next hdeed => exact absurd (builtin_of_deed? hdeed) hbuiltin
      next => rfl

/-- `FileStore.bytes` after a call are those before it, with what the call has `written` behind
them. -/
theorem bytes_reply (c : Call) (file : Location) :
    c.reply.host.files.bytes file = c.host.files.bytes file ++ c.written file := by
  have hdoes := c.does
  rw [written_eq]
  generalize c.deed? = deed at hdoes
  generalize c.reply.host = l at hdoes
  cases hdoes with
  | nothing h => rw [h.files, List.append_nil]
  | opened h => rw [FileStore.bytes_openFile h, List.append_nil]
  | read | closed => exact (List.append_nil _).symm
  | wroteNothing he =>
    dsimp only
    split <;> exact (List.append_nil _).symm
  | wrote he htext hfiles =>
    subst hfiles
    exact FileStore.bytes_append _ _ _ _

/-- No `Call.reply` makes a file disappear. -/
theorem has_reply (c : Call) {file : Location} (hfile : c.host.files.files.has file) :
    c.reply.host.files.files.has file := by
  have hdoes := c.does
  generalize c.deed? = deed at hdoes
  generalize c.reply.host = l at hdoes
  cases hdoes with
  | nothing h => rwa [h.files]
  | opened h => exact FileStore.has_openFile h hfile
  | read | closed | wroteNothing => exact hfile
  | wrote he htext hfiles =>
    subst hfiles
    exact FileStore.has_append hfile

/-- No `Call.reply` takes back what has been printed. -/
theorem texts_reply (c : Call) : c.host.output.texts <:+ c.reply.host.output.texts := by
  have hdoes := c.does
  generalize c.deed? = deed at hdoes
  generalize c.reply.host = l at hdoes
  cases hdoes with
  | nothing h => exact h.texts
  | _ => exact List.suffix_refl _

end Call

/-- Some calls have kept what a host had before them: each file goes on from what was in it by
what they have `written` to it, no file has disappeared, and the output goes on from what had
been printed. -/
structure Host.Kept (h : Host) (cs : List Call) (l : Host) : Prop where
  bytes : ∀ file, l.files.bytes file = h.files.bytes file ++ cs.flatMap (·.written file)
  files : ∀ file, h.files.files.has file → l.files.files.has file
  output : ∃ text, l.output.written = h.output.written ++ text

theorem History.texts {h l : Host} {cs : List Call} (hcs : History h cs l) :
    h.output.texts <:+ l.output.texts := by
  induction hcs with
  | none => exact List.suffix_refl _
  | @call cs c _ ih => exact ih.trans c.texts_reply

/-- Behind any `History` of calls the host has `Host.Kept` what it had. -/
theorem History.kept {h l : Host} {cs : List Call} (hcs : History h cs l) : h.Kept cs l where
  bytes file := by
    induction hcs with
    | none => exact (List.append_nil _).symm
    | @call cs c _ ih =>
      rw [c.bytes_reply, ih, List.flatMap_append, List.flatMap_singleton, List.append_assoc]
  files file hfile := by
    induction hcs with
    | none => exact hfile
    | @call cs c _ ih => exact c.has_reply ih
  output := by
    obtain ⟨texts, htexts⟩ := hcs.texts
    refine ⟨String.join texts.reverse, ?_⟩
    rw [Output.written, ← htexts, List.reverse_append, String.join_append]
    rfl

/-! ## Reading -/

namespace Call

/-- What `fread` gives of some bytes: the text that they are, if `Text.decode?` makes them
one. -/
def delivered (bytes : List UInt8) : Except Failure (Option Value) :=
  match Text.decode? bytes with
  | some text => .ok (some (.string text))
  | none => .error .notUtf8

/-- The text that a call returns, if it returns one. -/
def text? (c : Call) : Option String :=
  match c.reply.result with
  | .ok (some (.string text)) => some text
  | _ => none

/-- `fread` gives what is in its file from the position of its handle on, `delivered`. -/
theorem read_reply {c : Call} {k : Int64} {rest : List Value} {id : Nat} {e : Handle}
    (hbuiltin : c.builtin = .fread) (hvalues : c.values = .integer k :: rest)
    (he : c.host.handle? k = some (id, e)) :
    c.reply.result = delivered ((c.host.files.bytes e.file).drop e.position) := by
  have hbytes : ((c.host.files.contents e.file).extract e.position
      (c.host.files.contents e.file).size).data.toList =
      (c.host.files.bytes e.file).drop e.position := by
    rw [ByteArray.data_extract, Array.toList_extract, List.extract_eq_take_drop,
      FileStore.size_contents]
    exact List.take_of_length_le (by simp [FileStore.bytes])
  rw [reply, hbuiltin, hvalues, delivered, ← hbytes]
  simp only [Builtin.call, List.headD_cons, Value.asHandle, Host.read, he]
  split <;> simp_all [Except.map]

/-- Where `leaves?` is some position, it is the end of the file. -/
theorem leaves?_eq {c : Call} {id p : Nat} {e : Handle} (he : c.host.handles.get? id = some e)
    (hp : c.leaves? id = some p) : p = (c.reply.host.files.bytes e.file).length := by
  have hdoes := c.does
  rw [leaves?] at hp
  generalize c.deed? = deed at hdoes hp
  generalize c.reply.host = l at hdoes hp ⊢
  -- only reading and writing move a position, and both move it to the end
  cases hdoes with
  | nothing | opened | closed => cases hp
  | read he' =>
    dsimp only at hp
    split at hp
    next hid =>
      subst hid
      cases he'.symm.trans he
      cases hp
      exact FileStore.size_contents _ _
    next => cases hp
  | wroteNothing =>
    dsimp only at hp
    split at hp
    next hid => exact absurd rfl hid.2
    next => cases hp
  | wrote he' =>
    dsimp only at hp
    split at hp
    next hid =>
      obtain ⟨rfl, -⟩ := hid
      cases he'.symm.trans he
      cases hp
      exact FileStore.size_contents _ _
    next => cases hp

end Call

/-! ### Positions do not go back -/

/-- No open file has a position behind its end. -/
def Host.Within (h : Host) : Prop :=
  ∀ id e, h.handles.get? id = some e → e.position ≤ (h.files.bytes e.file).length

namespace Call

variable {c : Call}

theorem length_bytes_le (c : Call) (file : Location) :
    (c.host.files.bytes file).length ≤ (c.reply.host.files.bytes file).length := by
  rw [c.bytes_reply, List.length_append]
  exact Nat.le_add_right _ _

/-- `leaves?` moves an open file forward, on a host that is `Host.Within` its files. -/
theorem position_le_leaves? (hwithin : c.host.Within) {id : Nat} {e : Handle}
    (he : c.host.handles.get? id = some e) : e.position ≤ (c.leaves? id).getD e.position := by
  rcases hp : c.leaves? id with _ | p
  · exact Nat.le_refl _
  · rw [Option.getD_some, leaves?_eq he hp]
    exact (hwithin id e he).trans (c.length_bytes_le e.file)

theorem within_reply (hnext : c.host.handles.get? c.host.nextHandle = none)
    (hwithin : c.host.Within) : c.reply.host.Within := by
  intro id e he
  rcases (get?_handles_reply c hnext id e).mp he with
    ⟨-, hstart⟩ | ⟨e', he', hfile, -, hposition⟩
  · rw [hstart]
    exact Nat.zero_le _
  · rw [hposition, ← hfile]
    rcases hp : c.leaves? id with _ | p
    · exact (hwithin id e' he').trans (c.length_bytes_le e'.file)
    · exact (leaves?_eq he' hp).le

/-- A file that was `Opened` before a call was so without the call. -/
theorem Opened.of_concat {cs since : List Call} {id : Nat} {file : Location}
    (h : Opened cs id file (since ++ [c])) :
    ∃ before, cs = before ++ [c] ∧ Opened before id file since := by
  obtain ⟨before, o, rfl, ho, hsince⟩ := h
  refine ⟨before ++ o :: since, by simp, before, o, rfl, ho, fun d hd => ?_⟩
  exact hsince d (List.mem_append_left _ hd)

end Call

open Call

theorem History.within {h l : Host} {cs : List Call} (hnew : h.Unused) (hcs : History h cs l) :
    l.Within := by
  induction hcs with
  | none =>
    intro id e he
    rw [hnew.handles] at he
    cases he
  | call hbefore ih => exact within_reply (hbefore.tracks hnew).get?_nextHandle ih

/-- However long a file is open, its `position` does not go back. -/
theorem History.position_le {h l : Host} {cs s t : List Call} (hnew : h.Unused)
    (hcs : History h cs l) {id : Nat} {file : Location} (hopened : Opened cs id file (s ++ t)) :
    position id s ≤ position id (s ++ t) := by
  induction t using List.reverseRecOn generalizing cs l with
  | nil => rw [List.append_nil]
  | append_singleton t d ih =>
    rw [← List.append_assoc] at hopened ⊢
    obtain ⟨before, rfl, hbefore⟩ := hopened.of_concat
    have hhistory := hcs.of_concat.1
    have hd := (hhistory.tracks hnew).handles id ⟨file, position id (s ++ t)⟩
    rw [position_concat]
    exact (ih hhistory hbefore).trans
      (position_le_leaves? (hhistory.within hnew) (hd.mpr ⟨_, hbefore, rfl⟩))

/-- An `fread` through the handle of an open file leaves it at its end, whatever it gives. -/
theorem Call.leaves?_read {c : Call} {k : Int64} {rest : List Value} {id : Nat} {e : Handle}
    (hbuiltin : c.builtin = .fread) (hvalues : c.values = .integer k :: rest)
    (he : c.host.handle? k = some (id, e)) :
    c.leaves? id = some (c.host.files.bytes e.file).length := by
  have hdeed : c.deed? = some (.read id e.file) := by
    rw [deed?, hbuiltin, hvalues]
    simp only [he, Option.map_some]
  have hleft : c.leaves? id = some (c.reply.host.files.contents e.file).size := by
    rw [leaves?, hdeed]
    exact if_pos rfl
  rw [hleft, FileStore.size_contents, bytes_reply, written_eq, hdeed, List.append_nil]

/-- Each `fread` through an open handle in the course of some calls gives what is in the file
from its `position` on, and counts as read all that is there, be it a text or not. The position
is no less than where any read or write through the handle before has ended. So what a read has
given is not given again. -/
structure Call.ReadOnce (cs : List Call) : Prop where
  result : ∀ {before c behind rest file since} {k : Int64} {id : Nat},
    cs = before ++ c :: behind → c.builtin = .fread → c.values = .integer k :: rest →
    k.toInt = id → Opened before id file since →
    c.reply.result = delivered ((c.host.files.bytes file).drop (position id since)) ∧
      c.leaves? id = some (c.host.files.bytes file).length
  onward : ∀ {before behind id file s d t p},
    cs = before ++ behind → Opened before id file (s ++ d :: t) → d.leaves? id = some p →
    p ≤ position id (s ++ d :: t)

theorem History.readOnce {h l : Host} {cs : List Call} (hnew : h.Unused)
    (hcs : History h cs l) : ReadOnce cs where
  result := by
    rintro before c behind rest file since k id rfl hbuiltin hvalues hk hopened
    have hheld :=
      ((hcs.at_call.tracks hnew).handles id ⟨file, position id since⟩).mpr ⟨since, hopened, rfl⟩
    have he := Host.handle?_eq_some_iff.mpr ⟨hk, hheld⟩
    exact ⟨read_reply hbuiltin hvalues he, leaves?_read hbuiltin hvalues he⟩
  onward := by
    rintro before behind id file s d t p rfl hopened hp
    obtain ⟨k, hbefore, -⟩ := hcs.split
    have hposition : position id (s ++ [d]) = p := by
      rw [position_concat, hp]
      rfl
    rw [List.append_cons] at hopened ⊢
    rw [← hposition]
    exact hbefore.position_le hnew hopened

/-- Whatever the `History` of calls on a host, the host has `Host.Kept` what it had; and from an
unused host on, by `Call.ReadOnce` nothing is read twice through one handle. Any builtins may be
called with any values, and those that a program calls are among them: `Session.calls`, up to
each of its moments and whether it has an answer or not, over any number of runs. -/
theorem Session.contents_kept (config : Config) (host : Host) (hnew : host.Unused) :
    (∀ h cs l, History h cs l → h.Kept cs l) ∧
    (∀ cs l, History host cs l → ReadOnce cs) ∧
    (∀ made, ∃ cs l, History host cs l ∧ cs.map (fun c => (c.builtin, c.values)) = made) ∧
    ∀ cs s, Goes (fresh config host) cs s →
      ∀ fuel p, ∃ l, History host (cs ++ s.calls fuel p) l ∧
      ∀ e t, s.evaluate fuel p = some (e, t) → t.machine.host = l := by
  exact ⟨fun h cs l hcs => hcs.kept, fun cs l hcs => hcs.readOnce hnew, History.exists_of host,
    fun cs s hgoes => hgoes.history_calls⟩

/-- Two handles are open on one file. What is written through the second one is read through the
first one, with what was there before. -/
theorem Session.contents_kept_shared :
    let host : Host := { files := ({} : FileStore).put "f" "abc".toByteArray }
    let a : Call := ⟨.fopen, [.string "f"], host⟩
    let b : Call := ⟨.fopen, [.string "f"], a.reply.host⟩
    let write : Call := ⟨.fwrite, [.integer 4, .string "X"], b.reply.host⟩
    let read : Call := ⟨.fread, [.integer 3], write.reply.host⟩
    host.Unused ∧ host.Kept [a, b, write, read] read.reply.host ∧ ReadOnce [a, b, write, read] ∧
      read.text? = some "abcX" := by
  intro host a b write read
  have hcs : History host [a, b, write, read] read.reply.host :=
    (((History.single a).append (.single b)).append (.single write)).append (.single read)
  have hkept := contents_kept {} host ⟨rfl, rfl⟩
  have honce := hkept.2.1 _ _ hcs
  refine ⟨⟨rfl, rfl⟩, hkept.1 _ _ _ hcs, honce, ?_⟩
  decide +kernel

/-- Writing the empty text leaves a handle where it is, which is not the end of the file if that
has not been read. -/
theorem Session.empty_write_keeps_position :
    let host : Host := { files := ({} : FileStore).put "f" "abc".toByteArray }
    let a : Call := ⟨.fopen, [.string "f"], host⟩
    let write : Call := ⟨.fwrite, [.integer 3, .string ""], a.reply.host⟩
    let read : Call := ⟨.fread, [.integer 3], write.reply.host⟩
    let bytes := read.host.files.bytes ["tmp", "work", "f"]
    History host [a, write, read] read.reply.host ∧ write.reply.result.isOk ∧
      Text.decode? (bytes.drop bytes.length) = some "" ∧ read.text? = some "abc" := by
  intro host a write read bytes
  refine ⟨((History.single a).append (.single write)).append (.single read), ?_, ?_, ?_⟩
  · decide +kernel
  · decide +kernel
  · decide +kernel

end ScriptLang
