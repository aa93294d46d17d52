/-!
# Sets of characters given by spans of code points

A property of the Unicode standard is a table of inclusive spans. `inSpans` looks a character
up.
-/

namespace ScriptLang.Text

/-- Whether the character lies in one of the inclusive spans. -/
def inSpans (spans : List (Nat × Nat)) (c : Char) : Bool :=
  spans.any fun (first, last) => first ≤ c.toNat && c.toNat ≤ last

end ScriptLang.Text
