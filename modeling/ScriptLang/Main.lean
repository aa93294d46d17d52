import ScriptLang.CommandLine

/-!
# The program

The outer layer reads standard input and the files of the working directory, hands them to
`CommandLine.run`, and writes out what that leaves behind. Since programs only ever add to
files, it adds to each file what is new, and nothing on disk is overwritten.
-/

namespace ScriptLang

/-- More fuel than any run can use up. -/
def ampleFuel : Nat := 1 <<< 62

/-- The bytes of a file, unless it cannot be read. -/
def readIfPossible (path : String) : IO (Option ByteArray) := do
  try
    return some (← IO.FS.readBinFile path)
  catch _ =>
    return none

/-- The regular files of the working directory, and those that arguments name. -/
def reachableFiles (args : List String) : IO FileStore := do
  let directory ← IO.currentDir
  let base := (directory.toString.splitOn "/").filter (· ≠ "")
  let mut store : FileStore := { base }
  let mut paths := args
  for entry in ← directory.readDir do
    paths := entry.fileName :: paths
  for path in paths do
    if let some bytes ← readIfPossible path then
      store := store.put path bytes
  return store

/-- Adds to the files on disk what is new in a store. -/
def writeBack (before after : FileStore) : IO Unit := do
  for (location, bytes) in after.files do
    let old := (before.files.get? location).map (·.size)
    if old ≠ some bytes.size then
      let path := "/" ++ "/".intercalate location
      let handle ← IO.FS.Handle.mk path .append
      handle.write (bytes.extract (old.getD 0) bytes.size)

end ScriptLang

open ScriptLang in
/-- Runs the program on the arguments it was started with. -/
def main (args : List String) : IO UInt32 := do
  let files ← reachableFiles args
  let reads := match Invocation.ofArguments args with
    | .ok ⟨_, .readLoop _⟩ | .ok ⟨_, .onFile .run _⟩ => true
    | _ => false
  let stdin ← if reads then (← IO.getStdin).readBinToEnd else pure .empty
  match CommandLine.run ampleFuel args stdin.data.toList files with
  | none => return 1
  | some report =>
    IO.print report.stdout
    IO.eprint report.stderr
    writeBack files report.files
    return UInt32.ofNat report.code
