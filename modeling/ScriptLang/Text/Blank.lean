/-!
# White space

A program separates its tokens, and a typed line its command word, by the characters with the
Unicode property `White_Space`. That set is fixed by the standard and small enough to be written
out.

- `isBlank`: the property itself.
- `trimEnd`, `trim`: text without the blanks at its end, or at both ends.
-/

namespace ScriptLang.Text

/-- The characters with the Unicode property `White_Space`. -/
def isBlank (c : Char) : Bool :=
  let n := c.toNat
  (0x09 ≤ n && n ≤ 0x0D) || n == 0x20 || n == 0x85 || n == 0xA0 || n == 0x1680 ||
    (0x2000 ≤ n && n ≤ 0x200A) || n == 0x2028 || n == 0x2029 || n == 0x202F || n == 0x205F ||
    n == 0x3000

/-- The text without the blanks at its end. -/
def trimEnd (cs : List Char) : List Char :=
  (cs.reverse.dropWhile isBlank).reverse

/-- The text without the blanks at either end. -/
def trim (cs : List Char) : List Char :=
  trimEnd (cs.dropWhile isBlank)

end ScriptLang.Text
