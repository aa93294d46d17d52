import ScriptLang.ReadLoop

/-!
# The command line

    eldr [options] [-q | --quiet]       the read loop
    eldr [options] run FILE             runs a file and shows its outcome
    eldr [options] ast FILE             prints a file in canonical form
    eldr [options] tokens FILE          prints the tokens of a file

The options `--namespace NAME` and `--max-call-depth NUMBER` may stand before or behind the
command's name, and the ones behind it win. Arguments are taken one after the other: the first
one that makes no sense is refused, and a request for the version or for help is met at once.
The word `help` may have the name of one command behind it.

- `Arguments`: what the arguments have said so far, with `Arguments.take` for one more of them
  and `Arguments.takeAll` for all.
- `Invocation`: what they ask for, and `Invocation.ofArguments`.
- `Report`: what a run leaves behind: an exit code, two streams and the files.
- `Invocation.run`, `CommandLine.run`: the whole program.
-/

namespace ScriptLang

/-- The version of the language. -/
def version : String := "0.1.0"

/-- Why arguments are refused. -/
inductive UsageError where
  | unexpected (argument : String)
  | missingValue (option : String)
  | unexpectedValue (option : String)
  | invalidValue (option value : String)
  | repeated (option : String)
  | missingFile
  deriving DecidableEq

/-- The wording of a refusal. -/
def UsageError.message : UsageError → String
  | unexpected argument => "unexpected argument '" ++ argument ++ "'"
  | missingValue option => "a value is required for '" ++ option ++ "'"
  | unexpectedValue option => "no value is allowed for '" ++ option ++ "'"
  | invalidValue option value => "invalid value '" ++ value ++ "' for '" ++ option ++ "'"
  | repeated option => "'" ++ option ++ "' cannot be used multiple times"
  | missingFile => "a file is required"

/-- Why the arguments that follow are not looked at. -/
inductive Interruption where
  | refused (error : UsageError)
  | version
  | help

/-- The options that take a value. -/
inductive ValueOption where
  | package
  | maxCallDepth

/-- An option as it is spelled. -/
def ValueOption.text : ValueOption → String
  | package => "--namespace"
  | maxCallDepth => "--max-call-depth"

/-- The commands that work on a file. -/
inductive FileCommand where
  | run
  | ast
  | tokens

/-- The command with the given name. -/
def FileCommand.ofName? : String → Option FileCommand
  | "run" => some run
  | "ast" => some ast
  | "tokens" => some tokens
  | _ => none

/-- How an argument is spelled. -/
inductive Spelling where
  /-- Two dashes alone, behind which no argument is an option. -/
  | separator
  | long (name : String) (value : Option String)
  | short (letters : List Char)
  | plain

/-- How an argument is spelled. -/
def spelling (argument : String) : Spelling :=
  match argument.toList with
  | ['-', '-'] => .separator
  | '-' :: '-' :: cs =>
    let name := String.ofList (cs.takeWhile (· ≠ '='))
    match cs.dropWhile (· ≠ '=') with
    | [] => .long name none
    | _ :: value => .long name (some (String.ofList value))
  | '-' :: c :: cs => .short (c :: cs)
  | _ => .plain

/-- The option values given at one level. -/
structure OptionValues where
  package : Option String := none
  maxCallDepth : Option Nat := none

/-- What the arguments have said so far. -/
structure Arguments where
  /-- The options before the command's name. -/
  outer : OptionValues := {}
  /-- The options behind the command's name. -/
  inner : OptionValues := {}
  quiet : Bool := false
  command : Option FileCommand := none
  file : Option String := none
  /-- The option whose value comes next. -/
  awaiting : Option ValueOption := none
  separated : Bool := false

/-- The number that a text names, with or without a plus sign, if it fits 64 bits. -/
def readCount? (text : String) : Option Nat :=
  let digits := match text.toList with
    | '+' :: cs => cs
    | cs => cs
  (Text.readNat? digits).filter (· < UInt64.size)

namespace Arguments

/-- Refuses the arguments. -/
def refuse {α : Type} (error : UsageError) : Except Interruption α := .error (.refused error)

/-- Gives an option its value, at the level it stands at. -/
def assign (option : ValueOption) (value : String) (a : Arguments) :
    Except Interruption Arguments := do
  let level := if a.command.isSome then a.inner else a.outer
  let level ←
    match option with
    | .package =>
      if level.package.isSome then refuse (.repeated option.text)
      else pure { level with package := some value }
    | .maxCallDepth =>
      if level.maxCallDepth.isSome then refuse (.repeated option.text)
      else
        match readCount? value with
        | some depth => pure { level with maxCallDepth := some depth }
        | none => refuse (.invalidValue option.text value)
  if a.command.isSome then return { a with inner := level, awaiting := none }
  else return { a with outer := level, awaiting := none }

/-- Takes an option with a value, which may be the next argument. -/
def option (option : ValueOption) (value : Option String) (a : Arguments) :
    Except Interruption Arguments :=
  match value with
  | some value => a.assign option value
  | none => .ok { a with awaiting := some option }

/-- Takes an option without a value. Only help can be asked for behind a command's name. -/
def flag (text name : String) (a : Arguments) : Except Interruption Arguments :=
  if name = "help" then .error .help
  else if a.command.isSome then refuse (.unexpected text)
  else if name = "version" then .error .version
  else if name = "quiet" then
    if a.quiet then refuse (.repeated text) else .ok { a with quiet := true }
  else refuse (.unexpected text)

/-- The long name of an option that has a short one. -/
def longName : Char → String
  | 'q' => "quiet"
  | 'V' => "version"
  | 'h' => "help"
  | _ => ""

/-- Takes an argument that is no option. -/
def plain (text : String) (a : Arguments) : Except Interruption Arguments :=
  match a.command, a.file with
  | none, _ =>
    match FileCommand.ofName? text with
    | some command =>
      if a.separated then refuse (.unexpected text) else .ok { a with command := some command }
    | none => refuse (.unexpected text)
  | some _, none => .ok { a with file := some text }
  | some _, some _ => refuse (.unexpected text)

/-- Takes one more argument. -/
def take (a : Arguments) (text : String) : Except Interruption Arguments :=
  match a.awaiting with
  | some option =>
    match spelling text with
    | .plain => a.assign option text
    | _ => refuse (.missingValue option.text)
  | none =>
    if a.separated then a.plain text
    else
      match spelling text with
      | .separator => .ok { a with separated := true }
      | .long "namespace" value => a.option .package value
      | .long "max-call-depth" value => a.option .maxCallDepth value
      | .long name none => a.flag text name
      | .long _ (some _) => refuse (.unexpectedValue text)
      | .short letters => letters.foldlM (fun a c => a.flag text (longName c)) a
      | .plain => a.plain text

/-- Whether the next argument, if it is the word for help, stands for a command of that name. -/
def awaitsCommand (a : Arguments) : Bool :=
  a.awaiting.isNone && a.command.isNone && !a.separated

/-- What the word for help comes to with the arguments behind it, which may name one command. -/
def helpOn : List String → Interruption
  | [] => .help
  | topic :: rest =>
    if topic ≠ "help" ∧ (FileCommand.ofName? topic).isNone then .refused (.unexpected topic)
    else
      match rest with
      | [] => .help
      | text :: _ => .refused (.unexpected text)

/-- Takes arguments one after the other. The word for help takes all that follow it. -/
def takeAll (a : Arguments) : List String → Except Interruption Arguments
  | [] => .ok a
  | text :: rest =>
    if text = "help" ∧ a.awaitsCommand then .error (helpOn rest)
    else do (← a.take text).takeAll rest

end Arguments

/-- What the program is asked to do. -/
inductive Command where
  | readLoop (quiet : Bool)
  | onFile (command : FileCommand) (file : String)

/-- What the program is asked to do, and with which configuration. -/
structure Invocation where
  config : Config
  command : Command

/-- What the arguments ask for. -/
def Invocation.ofArguments (args : List String) : Except Interruption Invocation := do
  let a ← Arguments.takeAll {} args
  if let some option := a.awaiting then Arguments.refuse (.missingValue option.text)
  let initial : Config := {}
  let config : Config :=
    { package := (a.inner.package.or a.outer.package).getD initial.package
      maxCallDepth := (a.inner.maxCallDepth.or a.outer.maxCallDepth).getD initial.maxCallDepth }
  match a.command, a.file with
  | none, _ => return ⟨config, .readLoop a.quiet⟩
  | some command, some file => return ⟨config, .onFile command file⟩
  | some _, none => Arguments.refuse .missingFile

/-! ## Running -/

/-- What a run leaves behind. -/
structure Report where
  code : Nat
  stdout : String
  stderr : String
  files : FileStore

/-- How a failure that ends the program is shown, with the failure behind it. -/
def failureText (message source : String) : String :=
  "Error: " ++ message ++ "\n\nCaused by:\n    " ++ source ++ "\n"

/-- What the read loop begins with, unless it is told to be quiet. -/
def banner : String :=
  "Eldr (" ++ version ++ ")\nStatements run once a line contains ';'. Type 'exit' to quit.\n"

/-- The text of the file that a path names, or why it cannot be read. -/
def sourceOf (files : FileStore) (path : String) : Except String String :=
  match files.load path with
  | .error error => .error error.message
  | .ok bytes =>
    match Text.decode? bytes.data.toList with
    | some source => .ok source
    | none => .error Failure.notUtf8.message

/-- A token as a line of a token listing. -/
def tokenLine (t : Token) : String :=
  t.line.repr ++ "\t" ++ t.kind.label ++ "\t" ++ String.ofList (Text.quote t.literal.toList) ++
    "\n"

/-- What a session leaves behind. -/
def reportOf (code : Nat) (loop : ReadLoop) : Report :=
  let host := loop.session.machine.host
  ⟨code, host.output.written, String.join loop.complaints.reverse, host.files⟩

/-- Does what a command on a file asks for, given the text of the file. -/
def runOnSource (fuel : Nat) (command : FileCommand) (session : Session) (source : String) :
    Option Report :=
  let files := session.machine.host.files
  match command with
  | .run =>
    match session.run fuel source with
    | none => none
    | some (outcome, session) =>
      let code := if outcome.errors?.isSome then 1 else 0
      some (reportOf code (ReadLoop.shown outcome { session }))
  | .ast =>
    match Package.parse session.config.package source {} with
    | (⟨package, []⟩, _) => some ⟨0, package.text, "", files⟩
    | (⟨_, errors⟩, _) => some ⟨1, "", Diagnostic.report errors, files⟩
  | .tokens =>
    some ⟨0, String.join ((Cursor.start source).lex.1.map tokenLine), "", files⟩

/-- Does what an invocation asks for. There is no answer if the fuel runs out. -/
def Invocation.run (fuel : Nat) (stdin : List UInt8) (files : FileStore) (i : Invocation) :
    Option Report :=
  let session := Session.fresh i.config { files }
  match i.command with
  | .onFile command path =>
    match sourceOf files path with
    | .error reason =>
      some ⟨1, "", failureText ("problem reading file: " ++ path) reason, files⟩
    | .ok source => runOnSource fuel command (session.withInput stdin) source
  | .readLoop quiet =>
    let loop : ReadLoop := { session := if quiet then session else session.print banner }
    match loop.run fuel (Text.byteLines stdin) with
    | none => none
    | some (loop, false) => some (reportOf 0 loop)
    | some (loop, true) =>
      let reason := Failure.notUtf8.message
      some (reportOf 1 { loop with complaints := failureText reason reason :: loop.complaints })

/-- What is shown to a user who asks for help. -/
def helpText : String :=
  "Interpreter for the Eldr language\n\n" ++
  "Usage: eldr [OPTIONS] [COMMAND]\n\n" ++
  "Commands:\n" ++
  "  run     Execute an Eldr program\n" ++
  "  ast     Print the parsed program in canonical form\n" ++
  "  tokens  Print the token stream of a file\n\n" ++
  "Options:\n" ++
  "      --namespace <NAME>         Namespace parsed packages are tagged with\n" ++
  "      --max-call-depth <NUMBER>  Nested function calls allowed before evaluation stops\n" ++
  "  -q, --quiet                    Don't print the banner of the read loop\n" ++
  "  -h, --help                     Print help\n" ++
  "  -V, --version                  Print version\n"

/-- What is left behind when the arguments ask for nothing to be run. -/
def Interruption.report (files : FileStore) : Interruption → Report
  | refused error => ⟨2, "", "error: " ++ error.message ++ "\n", files⟩
  | .version => ⟨0, "eldr " ++ ScriptLang.version ++ "\n", "", files⟩
  | help => ⟨0, helpText, "", files⟩

/-- The whole program. There is no answer if the fuel runs out. -/
def CommandLine.run (fuel : Nat) (args : List String) (stdin : List UInt8) (files : FileStore) :
    Option Report :=
  match Invocation.ofArguments args with
  | .error interruption => some (interruption.report files)
  | .ok invocation => invocation.run fuel stdin files

end ScriptLang
