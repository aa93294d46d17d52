import ScriptLang.Host
import ScriptLang.Journal
import ScriptLang.Text.Blank
import ScriptLang.Value

/-!
# Calling a builtin

A builtin takes values and a host and gives a reply: a result, or the failure that kept it from
one, with the host it leaves behind and the events to be noted. What was done before a failure
stays done. The number of arguments has been checked by the caller; one that is missing all the
same is read as null, and one too many is not looked at.

- `Reply`: what an action gives back.
- `Builtin.call`: the effect of each builtin.
- `Value.printed?`: the texts that a value is printed as; `Value.join_of_printed?` says that
  they make up its text.
- `scanned`: the value that a scanned line is, by the type of the variable it is meant for.
-/

namespace ScriptLang

/-- What an action gives back: its result, the host it leaves, and the events to be noted. -/
structure Reply (α : Type) where
  result : Except Failure α
  host : Host
  events : List Event := []

namespace Reply

/-- One action after the other; `next` is taken only if `r` succeeds. -/
def andThen {α β : Type} (r : Reply α) (next : α → Host → Reply β) : Reply β :=
  match r.result with
  | .error failure => ⟨.error failure, r.host, r.events⟩
  | .ok a =>
    let following := next a r.host
    { following with events := r.events ++ following.events }

/-- An action that changes the host only if it succeeds. -/
def ofChange (host : Host) : Except Failure Host → Reply Unit
  | .ok changed => ⟨.ok (), changed, []⟩
  | .error failure => ⟨.error failure, host, []⟩

end Reply

/-- The texts that a value is printed as, each written on its own, if it is printed at all. The
sign of an integer is written apart from its digits. -/
def Value.printed? : Value → Option (List String)
  | .integer value =>
    let digits := String.ofList (Nat.toDigits 10 value.toInt.natAbs)
    some (if value.toInt < 0 then ["-", digits] else [digits])
  | .string value => some [value]
  | .boolean value => some [(Value.boolean value).text]
  | .null | .function _ | .builtin _ => none

/-- What is printed of a value is its `Value.text`. -/
theorem Value.join_of_printed? {value : Value} {texts : List String}
    (h : value.printed? = some texts) : String.join texts = value.text := by
  cases value with
  | integer value =>
    cases h
    apply String.toList_injective
    by_cases hn : value.toInt < 0 <;> simp [hn, Value.text, Text.writeInt, String.join]
  | string value =>
    cases h
    simp [Value.text, String.join]
  | boolean value =>
    cases h
    simp [String.join]
  | null | function value | builtin value => cases h

/-- The string that a value is. -/
def Value.asString : Value → Except Failure String
  | .string value => .ok value
  | value => .error (.expectedString value.typeName)

/-- The handle that a value is. -/
def Value.asHandle : Value → Except Failure Int64
  | .integer value => .ok value
  | value => .error (.expectedHandle value.typeName)

/-- The line without the line feeds and carriage returns at its end. -/
def withoutEnd (line : List Char) : List Char :=
  (line.reverse.dropWhile fun c => c = '\r' || c = '\n').reverse

/-- The value that a scanned line is, which has the type of the value `like` that it is meant to
replace. -/
def scanned (like : Value) (line : List Char) : Except Failure Value :=
  match like with
  | .string _ => .ok (.string (String.ofList line))
  | .integer _ =>
    match Text.readInt? (Text.trim line) with
    | some value => .ok (.integer value)
    | none => .error (.notInteger (String.ofList line))
  | .boolean _ =>
    if Text.trim line = "true".toList then .ok (.boolean true)
    else if Text.trim line = "false".toList then .ok (.boolean false)
    else .error (.notBoolean (String.ofList line))
  | other => .error (.cannotScan other.typeName)

namespace Builtin

/-- Writes texts one after the other. -/
def writeTexts : List String → Host → Reply Unit
  | [], host => ⟨.ok (), host, []⟩
  | text :: texts, host =>
    (Reply.ofChange host (host.write text)).andThen fun _ host => writeTexts texts host

/-- Prints values one after the other by `writeTexts`, leaving out those that have no text. -/
def printValues (builtin : Builtin) : List Value → Host → Reply Unit
  | [], host => ⟨.ok (), host, []⟩
  | value :: values, host =>
    let first : Reply Unit :=
      match value.printed? with
      | some texts => writeTexts texts host
      | none => ⟨.ok (), host, [.skipped builtin.name value.typeName]⟩
    first.andThen fun _ host => printValues builtin values host

/-- The effect of a builtin. -/
def call (builtin : Builtin) (args : List Value) (host : Host) : Reply (Option Value) :=
  let first := args.headD .null
  let second := args.tail.headD .null
  match builtin with
  | len =>
    ⟨first.asString.map fun s => some (.integer (Int64.ofNat s.utf8ByteSize)), host, []⟩
  | print =>
    (printValues print args host).andThen fun _ host =>
      (Reply.ofChange host host.flush).andThen fun _ host => ⟨.ok none, host, []⟩
  | println =>
    (printValues println args host).andThen fun _ host =>
      (Reply.ofChange host (host.write "\n")).andThen fun _ host =>
        (Reply.ofChange host host.flush).andThen fun _ host => ⟨.ok none, host, []⟩
  | type => ⟨.ok (some (.string first.typeName)), host, []⟩
  | scan =>
    let (line, host) := host.readLine
    ⟨line.bind fun line => (scanned first (withoutEnd line.toList)).map some, host, []⟩
  | fopen =>
    match first.asString with
    | .error failure => ⟨.error failure, host, []⟩
    | .ok path =>
      match host.openFile path with
      | .ok (handle, host) =>
        ⟨.ok (some (.integer (Int64.ofNat handle))), host, [.opened path handle]⟩
      | .error error => ⟨.ok (some (.integer 0)), host, [.openFailed path error.message]⟩
  | fread =>
    match first.asHandle with
    | .error failure => ⟨.error failure, host, []⟩
    | .ok handle =>
      let (text, host) := host.read handle
      ⟨text.map fun text => some (.string text), host, []⟩
  | fwrite =>
    match first.asHandle, second.asString with
    | .error failure, _ => ⟨.error failure, host, []⟩
    | _, .error failure => ⟨.error failure, host, []⟩
    | .ok handle, .ok text =>
      (Reply.ofChange host (host.append handle text)).andThen fun _ host => ⟨.ok none, host, []⟩
  | fclose =>
    match first.asHandle with
    | .error failure => ⟨.error failure, host, []⟩
    | .ok handle =>
      match host.close handle with
      | .error failure => ⟨.error failure, host, []⟩
      | .ok (id, host) => ⟨.ok none, host, [.closed id]⟩

end Builtin
end ScriptLang
