/-!
# Text as lines

A line ends at a line feed, or at the pair of a carriage return and a line feed. What follows
the last line feed is a line of its own only if it is not empty, and keeps a carriage return
that no line feed follows.
-/

namespace ScriptLang.Text

/-- The lines of the text, without their ends. -/
def lines : List Char → List (List Char)
  | [] => []
  | '\n' :: cs => [] :: lines cs
  | '\r' :: '\n' :: cs => [] :: lines cs
  | c :: cs =>
    match lines cs with
    | [] => [[c]]
    | l :: ls => (c :: l) :: ls

end ScriptLang.Text
