/-!
# The builtin functions

Every program can call these functions without declaring them.

- `Builtin`: the functions, each with a `name`, an `arity`, and whether its result `writesBack`.
- `Builtin.ofName?`: the function that a name means.
-/

namespace ScriptLang

/-- How many arguments a function takes. -/
inductive Arity where
  | fixed (args : Nat)
  | variadic
  deriving DecidableEq

/-- The number of arguments that a call should have had, if it has another one. -/
def Arity.refuses? : Arity → Nat → Option Nat
  | .fixed expected, args => if expected = args then none else some expected
  | .variadic, _ => none

/-- A function that needs no declaration. -/
inductive Builtin where
  | len
  | print
  | println
  | type
  | scan
  | fopen
  | fread
  | fwrite
  | fclose
  deriving DecidableEq

namespace Builtin

/-- The name that a program calls it by. -/
def name : Builtin → String
  | len => "len"
  | print => "print"
  | println => "println"
  | type => "type"
  | scan => "scan"
  | fopen => "fopen"
  | fread => "fread"
  | fwrite => "fwrite"
  | fclose => "fclose"

/-- How many arguments it takes. -/
def arity : Builtin → Arity
  | print | println => .variadic
  | fwrite => .fixed 2
  | len | type | scan | fopen | fread | fclose => .fixed 1

/-- Whether its result is also stored in the variable that is its first argument. -/
def writesBack : Builtin → Bool
  | scan => true
  | _ => false

/-- All of them. -/
def all : List Builtin := [len, print, println, type, scan, fopen, fread, fwrite, fclose]

/-- The one with the given name. -/
def ofName? (word : String) : Option Builtin := all.find? (·.name = word)

/-- The description of a builtin that an inspection of the session shows. -/
def description (b : Builtin) : String :=
  "Builtin \x7b name: \"" ++ b.name ++ "\", arity: " ++
    (match b.arity with
      | .fixed args => "Fixed(" ++ args.repr ++ ")"
      | .variadic => "Variadic") ++
    ", writes_back: " ++ (if b.writesBack then "true" else "false") ++
    ", func: \"<function pointer>\" \x7d"

end Builtin

end ScriptLang
