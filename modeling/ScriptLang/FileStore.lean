import ScriptLang.Table

/-!
# Files

A store holds the files that a program can reach, each at an absolute location, which is the
list of the names that lead to it from the root. A directory is whatever lies on the way to a
file or to the working directory. Nothing removes or shortens a file: it can be created, read,
and added to.

A path is resolved from left to right, and each step that cannot be taken has its own error. The
limits are a name of 255 bytes and a path of 4095.

- `FileError`: why a path cannot be opened.
- `FileStore.resolve`: the directory and the name that a path leads to.
- `FileStore.openFile`: the location of the file to be added to, which is created if need be.
- `FileStore.load`: the bytes of an existing file.
- `FileStore.append`: adds bytes to a file.
-/

namespace ScriptLang

/-- Why a path cannot be opened. -/
inductive FileError where
  | notFound
  | isDirectory
  | notDirectory
  | nameTooLong
  | nulInName
  deriving DecidableEq

/-- The wording of a file error. -/
def FileError.message : FileError → String
  | notFound => "No such file or directory (os error 2)"
  | isDirectory => "Is a directory (os error 21)"
  | notDirectory => "Not a directory (os error 20)"
  | nameTooLong => "File name too long (os error 36)"
  | nulInName => "file name contained an unexpected NUL byte"

/-- The names that lead from the root to a file or directory. -/
abbrev Location := List String

/-- The files that can be reached, and the directory that paths begin in. -/
structure FileStore where
  /-- The working directory. -/
  base : Location := ["tmp", "work"]
  files : Table Location ByteArray := []

namespace FileStore

/-- Whether a location is a directory: the working directory, or one on the way to it or to a
file. -/
def isDirectory (store : FileStore) (location : Location) : Bool :=
  location.isPrefixOf store.base ||
    store.files.keys.any fun file => location.isPrefixOf file && location ≠ file

/-- Where a path leads: to a name in a directory, perhaps with a slash behind it, or to a
directory without naming it. -/
inductive Target where
  | name (directory : Location) (name : String) (slash : Bool)
  | directory

/-- The longest name, in bytes. -/
def maxName : Nat := 255

/-- The longest path, in bytes. -/
def maxPath : Nat := 4095

/-- The directory that a step leads to. -/
def enter (store : FileStore) (directory : Location) (step : String) :
    Except FileError Location :=
  if step = "." then .ok directory
  else if step = ".." then .ok directory.dropLast
  else if maxName < step.utf8ByteSize then .error .nameTooLong
  else
    let location := directory ++ [step]
    if store.isDirectory location then .ok location
    else if store.files.has location then .error .notDirectory
    else .error .notFound

/-- Follows the steps of a path from a directory. -/
def follow (store : FileStore) (slash : Bool) : Location → List String → Except FileError Target
  | _, [] => .ok .directory
  | directory, [step] =>
    if step = "." ∨ step = ".." then .ok .directory else .ok (.name directory step slash)
  | directory, step :: steps => do
    store.follow slash (← store.enter directory step) steps

/-- The parts of a path between its slashes. -/
def parts : List Char → List (List Char)
  | [] => [[]]
  | c :: cs =>
    if c = '/' then [] :: parts cs
    else
      match parts cs with
      | [] => [[c]]
      | p :: ps => (c :: p) :: ps

/-- Where a path leads. -/
def resolve (store : FileStore) (path : String) : Except FileError Target :=
  let chars := path.toList
  if chars.contains '\x00' then .error .nulInName
  else if chars = [] then .error .notFound
  else if maxPath < path.utf8ByteSize then .error .nameTooLong
  else
    let steps := ((parts chars).filter (· ≠ [])).map String.ofList
    let start := if chars.head? = some '/' then [] else store.base
    store.follow (chars.getLast? = some '/') start steps

/-- The location of the file that a path names, for adding to it, and the store in which it
exists. A missing file is created empty. A slash behind the name asks for a directory, whatever
the name. -/
def openFile (store : FileStore) (path : String) : Except FileError (Location × FileStore) := do
  match ← store.resolve path with
  | .directory => .error .isDirectory
  | .name _ _ true => .error .isDirectory
  | .name directory name false =>
    let location := directory ++ [name]
    if maxName < name.utf8ByteSize then .error .nameTooLong
    else if store.isDirectory location then .error .isDirectory
    else if store.files.has location then .ok (location, store)
    else .ok (location, { store with files := store.files.set location .empty })

/-- The bytes of the file that a path names. -/
def load (store : FileStore) (path : String) : Except FileError ByteArray := do
  match ← store.resolve path with
  | .directory => .error .isDirectory
  | .name directory name slash =>
    let location := directory ++ [name]
    if maxName < name.utf8ByteSize then .error .nameTooLong
    else if store.isDirectory location then .error .isDirectory
    else
      match store.files.get? location with
      | none => .error .notFound
      | some bytes => if slash then .error .notDirectory else .ok bytes

/-- The bytes of the file at a location; there are none where there is no file. -/
def contents (store : FileStore) (location : Location) : ByteArray :=
  (store.files.get? location).getD .empty

/-- Adds bytes to the end of the file at a location. -/
def append (store : FileStore) (location : Location) (bytes : ByteArray) : FileStore :=
  { store with files := store.files.set location (store.contents location ++ bytes) }

/-- The location that a path names by its spelling alone. -/
def locate (store : FileStore) (path : String) : Location :=
  let chars := path.toList
  let start := if chars.head? = some '/' then [] else store.base
  ((parts chars).map String.ofList).foldl (fun location step =>
    if step = "" ∨ step = "." then location
    else if step = ".." then location.dropLast
    else location ++ [step]) start

/-- Enters a file under a path. -/
def put (store : FileStore) (path : String) (bytes : ByteArray) : FileStore :=
  { store with files := store.files.set (store.locate path) bytes }

/-- The files under the working directory, each by its path from there. -/
def listing (store : FileStore) : List (String × ByteArray) :=
  store.files.filterMap fun (location, bytes) =>
    if store.base.isPrefixOf location then
      some ("/".intercalate (location.drop store.base.length), bytes)
    else none

end FileStore
end ScriptLang
