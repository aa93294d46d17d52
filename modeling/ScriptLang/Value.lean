import ScriptLang.Builtin
import ScriptLang.Syntax.Node
import ScriptLang.Text.Decimal

/-!
# Values

- `Function`: a declared function. It keeps no bindings: a call runs its body on top of the
  scopes that are live where it is called.
- `Value`: what an expression can give, with `Value.typeName` and `Value.text` as a program and
  its user see it.
-/

namespace ScriptLang

/-- A declared function. -/
structure Function where
  name : String
  params : List String
  body : Block

/-- A value of the language. -/
inductive Value where
  | null
  | boolean (value : Bool)
  | integer (value : Int64)
  | string (value : String)
  | function (value : Function)
  | builtin (value : Builtin)

namespace Value

/-- The name of a value's type. -/
def typeName : Value → String
  | null => "null"
  | boolean _ => "boolean"
  | integer _ => "integer"
  | string _ => "string"
  | function _ => "function"
  | builtin _ => "builtin function"

/-- A value as it is shown. Functions show no more than that they are functions. -/
def text : Value → String
  | null => "null"
  | boolean value => if value then "true" else "false"
  | integer value => String.ofList (Text.writeInt value.toInt)
  | string value => value
  | function _ => "function"
  | builtin _ => "builtin function"

end Value
end ScriptLang
