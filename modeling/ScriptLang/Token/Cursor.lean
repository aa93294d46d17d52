import ScriptLang.Text.Name
import ScriptLang.Text.Blank
import ScriptLang.Token

/-!
# From characters to tokens

A `Cursor` is a place in a source: the characters that are left and the line they begin on.
`Cursor.next` takes one token off. Blanks and comments, from two slashes to the end of the line,
are passed over; then the longest run of characters that makes a token is taken, and a character
that begins none is a token of its own, of kind `illegal`. A string holds every character up to
the next quote, line feeds included, and has no escapes.

- `Cursor.skipTrivia`: past blanks and comments, counting lines.
- `Cursor.next`, `Cursor.peek`: the next token, taken or only seen.
- `Cursor.tokens`: all tokens up to the end of the source, and the line the source ends on.
- `Cursor.lex`: the tokens that `Cursor.next` gives, with the end of the source as the last one.
- `Cursor.length_scan_lt`: scanning takes at least one character, if there is one.
-/

namespace ScriptLang

open Text

/-- A place in a source text. -/
structure Cursor where
  rest : List Char
  line : Nat

namespace Cursor

/-- The beginning of a source text. -/
def start (source : String) : Cursor := ⟨source.toList, 1⟩

/-- Past blanks and comments. The flag tells whether the text begins inside a comment. -/
def skipTrivia : Bool → List Char → Nat → Cursor
  | _, [], line => ⟨[], line⟩
  | true, c :: cs, line =>
    if c = '\n' then skipTrivia false cs (line + 1) else skipTrivia true cs line
  | false, '/' :: '/' :: cs, line => skipTrivia true cs line
  | false, c :: cs, line =>
    if c = '\n' then skipTrivia false cs (line + 1)
    else if isBlank c then skipTrivia false cs line
    else ⟨c :: cs, line⟩

/-- The kind of a symbol written with one character. -/
def symbolKind : Char → TokenKind
  | '(' => .leftParen
  | ')' => .rightParen
  | '{' => .leftBrace
  | '}' => .rightBrace
  | ',' => .comma
  | ';' => .semicolon
  | '=' => .equal
  | '!' => .bang
  | '+' => .plus
  | '-' => .minus
  | '*' => .star
  | '/' => .slash
  | '<' => .lesser
  | '>' => .greater
  | _ => .illegal

/-- The kind that a symbol turns into when an equals sign follows it. -/
def withEqual? : TokenKind → Option TokenKind
  | .equal => some .equalEqual
  | .bang => some .bangEqual
  | .lesser => some .lesserEqual
  | .greater => some .greaterEqual
  | _ => none

/-- The string literal that begins after an opening quote. Without a closing quote it reaches to
the end of the source. -/
def string (cs : List Char) (line : Nat) : Token × Cursor :=
  let body := cs.takeWhile (· ≠ '"')
  let after := line + body.count '\n'
  match cs.dropWhile (· ≠ '"') with
  | [] => (⟨.unterminatedString, line, String.ofList body⟩, ⟨[], after⟩)
  | _ :: rest => (⟨.string, line, String.ofList body⟩, ⟨rest, after⟩)

/-- The integer literal that begins with the given characters. -/
def integer (cs : List Char) (line : Nat) : Token × Cursor :=
  (⟨.integer, line, String.ofList (cs.takeWhile Char.isDigit)⟩,
    ⟨cs.dropWhile Char.isDigit, line⟩)

/-- The name or keyword that begins with the given characters. -/
def word (cs : List Char) (line : Nat) : Token × Cursor :=
  let literal := String.ofList (cs.takeWhile isNameContinue)
  (⟨(TokenKind.ofKeyword? literal).getD .ident, line, literal⟩,
    ⟨cs.dropWhile isNameContinue, line⟩)

/-- The symbol of one or two characters that begins with `c`, by `symbolKind` and
`withEqual?`. -/
def symbol (c : Char) (cs : List Char) (line : Nat) : Token × Cursor :=
  match withEqual? (symbolKind c), cs with
  | some kind, '=' :: rest => (⟨kind, line, String.ofList [c, '=']⟩, ⟨rest, line⟩)
  | _, _ => (⟨symbolKind c, line, String.ofList [c]⟩, ⟨cs, line⟩)

/-- The token at the cursor, once blanks and comments are passed. -/
def scan : Cursor → Token × Cursor
  | ⟨[], line⟩ => (.eof line, ⟨[], line⟩)
  | ⟨c :: cs, line⟩ =>
    if c = '"' then string cs line
    else if c.isDigit then integer (c :: cs) line
    else if isNameStart c then word (c :: cs) line
    else symbol c cs line

/-- The next token, which `scan` finds behind trivia, and the place behind it. At the end of the
source it is the end token, again and again. -/
def next (c : Cursor) : Token × Cursor :=
  (skipTrivia false c.rest c.line).scan

/-- The token that `next` gives, without moving. -/
def peek (c : Cursor) : Token := c.next.1

/-! ## All tokens -/

theorem length_skipTrivia_le (inComment : Bool) (cs : List Char) (line : Nat) :
    (skipTrivia inComment cs line).rest.length ≤ cs.length := by
  fun_induction skipTrivia inComment cs line <;> simp_all <;> omega

/-- `scan` takes at least one character, if there is one. -/
theorem length_scan_lt (c : Char) (cs : List Char) (line : Nat) :
    (scan ⟨c :: cs, line⟩).2.rest.length < (c :: cs).length := by
  have drop (p : Char → Bool) : (cs.dropWhile p).length ≤ cs.length :=
    (List.dropWhile_suffix p).length_le
  simp only [scan]
  split
  · have h := drop (· ≠ '"')
    simp only [string]
    split
    · simp
    · rename_i hd
      rw [hd] at h
      simp only [List.length_cons] at h ⊢
      omega
  · split
    · rename_i hc
      simpa [integer, List.dropWhile_cons, hc] using Nat.lt_succ_of_le (drop _)
    · split
      · rename_i hc
        simpa [word, List.dropWhile_cons, isNameContinue_of_isNameStart hc]
          using Nat.lt_succ_of_le (drop _)
      · simp only [symbol]
        split
        · simp only [List.length_cons]
          omega
        · simp

/-- All tokens that `next` gives up to the end of the source, and the line the source ends
on. -/
def tokens (c : Cursor) : List Token × Nat :=
  match _h : skipTrivia false c.rest c.line with
  | ⟨[], line⟩ => ([], line)
  | ⟨x :: cs, line⟩ =>
    let scanned := scan ⟨x :: cs, line⟩
    let following := tokens scanned.2
    (scanned.1 :: following.1, following.2)
  termination_by c.rest.length
  decreasing_by
    have hs := length_skipTrivia_le false c.rest c.line
    rw [_h] at hs
    exact Nat.lt_of_lt_of_le (length_scan_lt x cs line) hs

/-- `next` takes at least one character, unless it comes to the end of the source. -/
theorem length_next_lt {c : Cursor} (h : c.next.1.kind ≠ .eof) :
    c.next.2.rest.length < c.rest.length := by
  obtain ⟨cs, line⟩ := c
  have hle := length_skipTrivia_le false cs line
  rw [next] at h ⊢
  dsimp only at h ⊢
  rcases hs : skipTrivia false cs line with ⟨_ | ⟨x, xs⟩, l⟩ <;> rw [hs] at h hle
  · exact absurd rfl h
  · exact Nat.lt_of_lt_of_le (length_scan_lt x xs l) hle

/-- The next tokens, one by one, up to the end of the source, which comes last. -/
def lex (c : Cursor) : List Token × Cursor :=
  if _h : c.next.1.kind = .eof then ([c.next.1], c.next.2)
  else (c.next.1 :: (lex c.next.2).1, (lex c.next.2).2)
  termination_by c.rest.length
  decreasing_by all_goals exact length_next_lt _h

end Cursor
end ScriptLang
