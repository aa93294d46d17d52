import ScriptLang.FileStore
import ScriptLang.Text.Bytes

/-!
# The host

The host is what a program acts on besides its own bindings: the stream it prints to, the stream
it scans, and the files it has opened. Handles are numbered upwards from 3, since the three
standard streams have the numbers below, and no number is given out twice.

A handle reads from a position of its own to the end of its file. What is written through it
goes to the end of the file, whatever the position was, and leaves the position there.

- `Failure`: why an action on the host fails, with `Failure.message` as its wording.
- `Output`: a stream that is printed to, which may refuse to take more than a number of bytes.
- `Host`: the streams and files, with `write`, `flush`, `readLine`, `openFile`, `read`, `append`
  and `close`. A read that fails gives the host too, because what it read is gone.
-/

namespace ScriptLang

/-- Why an action on the host fails. -/
inductive Failure where
  | expectedString (typeName : String)
  | expectedHandle (typeName : String)
  | invalidHandle (handle : Int64)
  | notUtf8
  | endOfInput
  | notInteger (line : String)
  | notBoolean (line : String)
  | cannotScan (typeName : String)
  | outputFull
  | flushFailed
  deriving DecidableEq

/-- The wording of a failure. -/
def Failure.message : Failure → String
  | expectedString typeName => "expected string argument but got " ++ typeName
  | expectedHandle typeName => "expected file handle but got " ++ typeName
  | invalidHandle handle => "invalid file handle " ++ toString handle.toInt
  | notUtf8 => "stream did not contain valid UTF-8"
  | endOfInput => "end of input"
  | notInteger line => "\"" ++ line ++ "\" is not an integer"
  | notBoolean line => "\"" ++ line ++ "\" is not a boolean"
  | cannotScan typeName => "cannot scan into " ++ typeName
  | outputFull => "output full"
  | flushFailed => "flush failed"

/-- A stream that is printed to. -/
structure Output where
  /-- All that has been printed, the latest text first. -/
  texts : List String := []
  /-- The number of bytes the stream can take, if it is bounded. -/
  limit : Option Nat := none
  /-- Whether the stream fails to pass on what it has taken. -/
  flushFails : Bool := false

namespace Output

/-- All that has been printed. -/
def written (o : Output) : String := String.join o.texts.reverse

/-- The number of bytes that have been printed. -/
def size (o : Output) : Nat := o.texts.foldl (fun n text => n + text.utf8ByteSize) 0

/-- Whether a stream can take a text. -/
def takes (o : Output) (text : String) : Bool :=
  match o.limit with
  | none => true
  | some limit => o.size + text.utf8ByteSize ≤ limit

/-- The stream with one more text printed to it. -/
def push (text : String) (o : Output) : Output := { o with texts := text :: o.texts }

end Output

/-- An open file and the position that it is read from. -/
structure Handle where
  file : Location
  position : Nat

/-- What a program acts on. -/
structure Host where
  output : Output := {}
  /-- The bytes that have not been scanned yet. -/
  input : List UInt8 := []
  files : FileStore := {}
  /-- The open files. -/
  handles : Table Nat Handle := []
  /-- The number of the next file to be opened. -/
  nextHandle : Nat := 3

namespace Host

/-- Prints a text, all of it or nothing. -/
def write (text : String) (h : Host) : Except Failure Host :=
  if h.output.takes text then .ok { h with output := h.output.push text }
  else .error .outputFull

/-- Passes on what has been printed. -/
def flush (h : Host) : Except Failure Host :=
  if h.output.flushFails then .error .flushFailed else .ok h

/-- The host with other bytes to be scanned. -/
def withInput (input : List UInt8) (h : Host) : Host := { h with input }

/-- Takes the next line from the input. A line that is no text is taken all the same. -/
def readLine (h : Host) : Except Failure String × Host :=
  if h.input = [] then (.error .endOfInput, h)
  else
    let (line, rest) := Text.takeLine h.input
    let h := { h with input := rest }
    match Text.decode? line with
    | some text => (.ok text, h)
    | none => (.error .notUtf8, h)

/-- Opens the file that a path names, which is created if it is missing. -/
def openFile (path : String) (h : Host) : Except FileError (Nat × Host) := do
  let (file, files) ← h.files.openFile path
  return (h.nextHandle, { h with
    files
    handles := h.handles.set h.nextHandle ⟨file, 0⟩
    nextHandle := h.nextHandle + 1 })

/-- The number that a program's handle stands for, if it is the number of an open file. -/
def handle? (handle : Int64) (h : Host) : Option (Nat × Handle) :=
  if handle.toInt < 0 then none
  else (h.handles.get? handle.toInt.toNat).map (handle.toInt.toNat, ·)

/-- Moves an open file to a position. -/
def moveTo (id : Nat) (handle : Handle) (position : Nat) (h : Host) : Host :=
  { h with handles := h.handles.set id { handle with position } }

/-- Reads an open file from its position to the end. Bytes that are no text count as read. -/
def read (handle : Int64) (h : Host) : Except Failure String × Host :=
  match h.handle? handle with
  | none => (.error (.invalidHandle handle), h)
  | some (id, opened) =>
    let contents := h.files.contents opened.file
    let h := h.moveTo id opened contents.size
    match Text.decode? (contents.extract opened.position contents.size).data.toList with
    | some text => (.ok text, h)
    | none => (.error .notUtf8, h)

/-- Adds a text to an open file. An empty text does not even move the position. -/
def append (handle : Int64) (text : String) (h : Host) : Except Failure Host :=
  match h.handle? handle with
  | none => .error (.invalidHandle handle)
  | some (id, opened) =>
    if text.isEmpty then .ok h
    else
      let files := h.files.append opened.file text.toByteArray
      .ok ({ h with files }.moveTo id opened (files.contents opened.file).size)

/-- Closes an open file. -/
def close (handle : Int64) (h : Host) : Except Failure (Nat × Host) :=
  match h.handle? handle with
  | none => .error (.invalidHandle handle)
  | some (id, _) => .ok (id, { h with handles := h.handles.erase id })

/-- The number of open files. -/
def openFiles (h : Host) : Nat := h.handles.length

/-- The description of a host that an inspection of the session shows. -/
def description (h : Host) : String :=
  "Host \x7b output: \"<writer>\", input: \"<reader>\", files: [" ++
    ", ".intercalate (h.handles.keys.map Nat.repr) ++ "], next_handle: " ++ h.nextHandle.repr ++
    " \x7d"

end Host
end ScriptLang
