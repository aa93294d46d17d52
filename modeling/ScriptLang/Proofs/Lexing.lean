import Mathlib.Data.List.TakeWhile
import ScriptLang.Proofs.Relined
import ScriptLang.Token.Cursor

/-!
# What the lexer gives

Four facts about the tokens of a text. Each is written the way tokens of its kind are written.
The line that the text begins on moves their lines and nothing else. The line that it ends on
counts its line feeds. And a text may be cut at a line feed and lexed in two parts, as long as
the cut is in no string: a line feed ends every other token, and it ends a comment. It may be
cut in front of other symbols too, as long as they are in no comment.

- `TokenKind.Spells`: how tokens of a kind are written.
- `Cursor.tokens_lexed`: every token of a text is written in the way of its kind.
- `Cursor.tokens_shift`: a text that begins on a later line.
- `Cursor.tokens_endLine`: the line that a text ends on.
- `Cursor.tokens_append`: a text with a line feed in it, lexed in two parts.
- `Cursor.tokens_append_of_token`: a text cut in front of a symbol, lexed in two parts.
-/

namespace ScriptLang

open Text

/-! ## Strings and symbols -/

namespace Cursor

section Scan

variable {c : Char} {cs body rest : List Char} {kind : TokenKind}

/-- `string` ends on the first quote. -/
theorem string_of_quote (h : '"' ∉ body) (line : Nat) :
    string (body ++ '"' :: rest) line =
      (⟨.string, line, String.ofList body⟩, ⟨rest, line + body.count '\n'⟩) := by
  have hbody : ∀ c ∈ body, (decide (c ≠ '"')) = true := by
    rintro c hc
    exact decide_eq_true fun hq => h (hq ▸ hc)
  rw [string, List.takeWhile_append_of_pos hbody, List.dropWhile_append_of_pos hbody]
  simp

/-- `string` takes in all that is left if there is no quote, and is unterminated then. -/
theorem string_of_no_quote (h : '"' ∉ cs) (line : Nat) :
    string cs line =
      (⟨.unterminatedString, line, String.ofList cs⟩, ⟨[], line + cs.count '\n'⟩) := by
  have hcs : ∀ c ∈ cs, (decide (c ≠ '"')) = true := by
    rintro c hc
    exact decide_eq_true fun hq => h (hq ▸ hc)
  rw [string, List.takeWhile_eq_self_iff.mpr hcs, List.dropWhile_eq_nil_iff.mpr hcs]

/-- `symbol` takes an equals sign behind a character that `withEqual?` lets it go on with. -/
theorem symbol_of_equal (h : withEqual? (symbolKind c) = some kind) (line : Nat) :
    symbol c ('=' :: rest) line = (⟨kind, line, String.ofList [c, '=']⟩, ⟨rest, line⟩) := by
  simp only [symbol, h]

/-- In front of any other character, `symbol` takes one character only. -/
theorem symbol_of_ne (h : withEqual? (symbolKind c) = none ∨ cs.head? ≠ some '=') (line : Nat) :
    symbol c cs line = (⟨symbolKind c, line, String.ofList [c]⟩, ⟨cs, line⟩) := by
  rw [symbol]
  intro kind rest hk hcs
  subst hcs
  simp_all

end Scan
end Cursor

/-! ## How tokens are written -/

/-- Whether a word may be a name: it begins with `isNameStart`, goes on with `isNameContinue`,
and is no keyword. -/
def isName : List Char → Bool
  | [] => false
  | c :: cs => isNameStart c && cs.all isNameContinue &&
      (TokenKind.ofKeyword? (String.ofList (c :: cs))).isNone

/-- How tokens of a kind are written. No token is the end of a source, and what a faulty token
is written with is not described. -/
def TokenKind.Spells : TokenKind → List Char → Prop
  | .eof, _ => False
  | .illegal, _ | .unterminatedString, _ => True
  | .ident, cs => isName cs
  | .integer, cs => cs ≠ [] ∧ cs.all Char.isDigit
  | .string, cs => '"' ∉ cs
  | kind, cs => kind.text.toList = cs

/-- The literal of the token `t` is one that its kind `TokenKind.Spells`. -/
def Token.Lexed (t : Token) : Prop := t.kind.Spells t.literal.toList

namespace Cursor

/-- The `symbolKind` of a character `TokenKind.Spells` the character. -/
theorem spells_symbolKind (c : Char) : (symbolKind c).Spells [c] := by
  unfold symbolKind
  split <;> first | exact trivial | rfl

theorem spells_withEqual? {c : Char} {kind : TokenKind}
    (h : withEqual? (symbolKind c) = some kind) : kind.Spells [c, '='] := by
  have hc := spells_symbolKind c
  cases hk : symbolKind c <;> rw [hk] at h hc <;> cases h <;>
  · have hc : _ = [c] := hc
    rw [← (List.cons.inj hc).1]
    rfl

/-- A kind that `TokenKind.ofKeyword?` finds for a word `TokenKind.Spells` the word. -/
theorem spells_ofKeyword? {word : String} {kind : TokenKind}
    (h : TokenKind.ofKeyword? word = some kind) : kind.Spells word.toList := by
  have hw : kind.text = word := by simpa using List.find?_some h
  have hm : kind ∈ TokenKind.keywords := List.mem_of_find?_eq_some h
  subst hw
  revert hm
  cases kind <;> first | exact fun _ => rfl | exact fun hm => absurd hm (by decide)

/-- A token that `scan` finds is `Token.Lexed`. -/
theorem scan_lexed (c : Char) (cs : List Char) (line : Nat) :
    (scan ⟨c :: cs, line⟩).1.Lexed := by
  rw [scan]
  split
  · by_cases hq : '"' ∈ cs
    · obtain ⟨body, rest, rfl, hbody⟩ := List.eq_append_cons_of_mem hq
      rw [string_of_quote hbody]
      show '"' ∉ (String.ofList body).toList
      rwa [String.toList_ofList]
    · rw [string_of_no_quote hq]
      trivial
  · split
    · rename_i hc
      show (String.ofList _).toList ≠ [] ∧ (String.ofList _).toList.all Char.isDigit
      rw [String.toList_ofList]
      exact ⟨by simp [hc], List.all_takeWhile⟩
    · split
      · rename_i hc
        have hn : isNameContinue c := isNameContinue_of_isNameStart hc
        show ((TokenKind.ofKeyword? (String.ofList ((c :: cs).takeWhile isNameContinue))).getD
          .ident).Spells (String.ofList ((c :: cs).takeWhile isNameContinue)).toList
        cases hk : TokenKind.ofKeyword?
          (String.ofList ((c :: cs).takeWhile isNameContinue)) with
        | some kind => exact spells_ofKeyword? hk
        | none =>
          rw [List.takeWhile_cons_of_pos hn] at hk ⊢
          show isName (String.ofList _).toList
          rw [String.toList_ofList, isName, hc, List.all_takeWhile, hk]
          rfl
      · by_cases hs : withEqual? (symbolKind c) = none ∨ cs.head? ≠ some '='
        · rw [symbol_of_ne hs]
          show TokenKind.Spells _ (String.ofList _).toList
          rw [String.toList_ofList]
          exact spells_symbolKind c
        · obtain ⟨hk, hcs⟩ := not_or.mp hs
          obtain ⟨kind, hk⟩ := Option.ne_none_iff_exists'.mp hk
          obtain ⟨rest, rfl⟩ := List.head?_eq_some_iff.mp (not_not.mp hcs)
          rw [symbol_of_equal hk]
          show TokenKind.Spells _ (String.ofList _).toList
          rw [String.toList_ofList]
          exact spells_withEqual? hk

/-! ## One token after the other -/

@[simp] theorem skipTrivia_newline (inComment : Bool) (cs : List Char) (line : Nat) :
    skipTrivia inComment ('\n' :: cs) line = skipTrivia false cs (line + 1) := by
  cases inComment <;> simp [skipTrivia]

/-- `skipTrivia` passes a blank that ends no line. -/
theorem skipTrivia_of_isBlank {c : Char} (hb : isBlank c) (hc : c ≠ '\n') (cs : List Char)
    (line : Nat) : skipTrivia false (c :: cs) line = skipTrivia false cs line := by
  have hs : c ≠ '/' := by
    rintro rfl
    exact absurd hb (by decide)
  rw [skipTrivia]
  · rw [if_neg hc, if_pos hb]
  · rintro _ h
    exact absurd h hs

/-- `skipTrivia` stays in front of a token. -/
theorem skipTrivia_of_token {c : Char} {cs : List Char} (hb : ¬isBlank c)
    (hc : c ≠ '/' ∨ cs.head? ≠ some '/') (line : Nat) :
    skipTrivia false (c :: cs) line = ⟨c :: cs, line⟩ := by
  have hn : c ≠ '\n' := by
    rintro rfl
    exact absurd (by decide) hb
  rw [skipTrivia]
  · rw [if_neg hn, if_neg hb]
  · rintro ds h rfl
    simp_all

theorem tokens_of_blank {cs : List Char} {line l : Nat}
    (h : skipTrivia false cs line = ⟨[], l⟩) : tokens ⟨cs, line⟩ = ([], l) := by
  rw [tokens]
  split <;> simp_all

/-- The tokens are the one that `scan` finds and those behind it. -/
theorem tokens_of_cons {x : Char} {cs xs : List Char} {line l : Nat}
    (h : skipTrivia false cs line = ⟨x :: xs, l⟩) :
    tokens ⟨cs, line⟩ = ((scan ⟨x :: xs, l⟩).1 :: (tokens (scan ⟨x :: xs, l⟩).2).1,
      (tokens (scan ⟨x :: xs, l⟩).2).2) := by
  rw [tokens]
  split <;> simp_all

/-- The `tokens` of a text are those of what `skipTrivia` leaves of it. -/
theorem tokens_congr {cs ds : List Char} {line l : Nat}
    (h : skipTrivia false cs line = skipTrivia false ds l) :
    tokens ⟨cs, line⟩ = tokens ⟨ds, l⟩ := by
  rcases hd : skipTrivia false ds l with ⟨_ | ⟨x, xs⟩, k⟩ <;> rw [hd] at h
  · rw [tokens_of_blank h, tokens_of_blank hd]
  · rw [tokens_of_cons h, tokens_of_cons hd]

/-- Induction over the tokens of a text. -/
@[elab_as_elim]
theorem tokens_induct {P : List Char → Nat → Prop}
    (blank : ∀ cs line l, skipTrivia false cs line = ⟨[], l⟩ → P cs line)
    (cons : ∀ cs line x xs l, skipTrivia false cs line = ⟨x :: xs, l⟩ →
      P (scan ⟨x :: xs, l⟩).2.rest (scan ⟨x :: xs, l⟩).2.line → P cs line)
    (cs : List Char) (line : Nat) : P cs line :=
  match h : skipTrivia false cs line with
  | ⟨[], l⟩ => blank cs line l h
  | ⟨x :: xs, l⟩ =>
    cons cs line x xs l h (tokens_induct blank cons _ _)
  termination_by cs.length
  decreasing_by
    have hs := length_skipTrivia_le false cs line
    rw [h] at hs
    exact Nat.lt_of_lt_of_le (length_scan_lt x xs l) hs

/-- Every one of the `tokens` of a text is `Token.Lexed`. -/
theorem tokens_lexed (cs : List Char) (line : Nat) : ∀ t ∈ (tokens ⟨cs, line⟩).1, t.Lexed := by
  induction cs, line using tokens_induct with
  | blank cs line l h =>
    rw [tokens_of_blank h]
    rintro t ⟨⟩
  | cons cs line x xs l h ih =>
    rw [tokens_of_cons h]
    intro t ht
    rcases List.mem_cons.mp ht with rfl | ht
    · exact scan_lexed x xs l
    · exact ih t ht

/-- None of the `tokens` of a text is the end of the source. -/
theorem kind_ne_eof {cs : List Char} {line : Nat} :
    ∀ t ∈ (tokens ⟨cs, line⟩).1, t.kind ≠ .eof := by
  intro t ht hk
  have hl := tokens_lexed cs line t ht
  rw [Token.Lexed, hk] at hl
  exact hl

/-! ## A text on a later line -/

section Shift

variable (k : Nat)

/-- `skipTrivia` passes the same characters `k` lines below. -/
theorem skipTrivia_shift (inComment : Bool) (cs : List Char) (line : Nat) :
    skipTrivia inComment cs (line + k) =
      ⟨(skipTrivia inComment cs line).rest, (skipTrivia inComment cs line).line + k⟩ := by
  fun_induction skipTrivia inComment cs line <;> simp_all [skipTrivia, Nat.add_right_comm]

/-- `scan` finds the same token `k` lines below. -/
theorem scan_shift (cs : List Char) (line : Nat) :
    scan ⟨cs, line + k⟩ = ((scan ⟨cs, line⟩).1.relined (· + k),
      ⟨(scan ⟨cs, line⟩).2.rest, (scan ⟨cs, line⟩).2.line + k⟩) := by
  cases cs with
  | nil => rfl
  | cons c cs =>
    rw [scan, scan]
    split
    · rw [string, string]
      split <;> simp [Token.relined, Nat.add_right_comm]
    · split
      · rfl
      · split
        · rfl
        · by_cases hs : withEqual? (symbolKind c) = none ∨ cs.head? ≠ some '='
          · rw [symbol_of_ne hs, symbol_of_ne hs]
            rfl
          · obtain ⟨hk, hcs⟩ := not_or.mp hs
            obtain ⟨kind, hk⟩ := Option.ne_none_iff_exists'.mp hk
            obtain ⟨rest, rfl⟩ := List.head?_eq_some_iff.mp (not_not.mp hcs)
            rw [symbol_of_equal hk, symbol_of_equal hk]
            rfl

/-- The `tokens` of a text that begins `k` lines below are `k` lines below. -/
theorem tokens_shift (cs : List Char) (line : Nat) :
    tokens ⟨cs, line + k⟩ = ((tokens ⟨cs, line⟩).1.map (Token.relined (· + k)),
      (tokens ⟨cs, line⟩).2 + k) := by
  induction cs, line using tokens_induct with
  | blank cs line l h =>
    rw [tokens_of_blank h, tokens_of_blank (l := l + k) (by rw [skipTrivia_shift, h])]
    rfl
  | cons cs line x xs l h ih =>
    have hk : skipTrivia false cs (line + k) = ⟨x :: xs, l + k⟩ := by rw [skipTrivia_shift, h]
    rw [tokens_of_cons h, tokens_of_cons hk, scan_shift, ih]
    rfl

end Shift

/-! ## The line a text ends on -/

section Count

/-- Every line feed is either counted by `skipTrivia` or still ahead. -/
theorem skipTrivia_count (inComment : Bool) (cs : List Char) (line : Nat) :
    (skipTrivia inComment cs line).line + (skipTrivia inComment cs line).rest.count '\n' =
      line + cs.count '\n' := by
  fun_induction skipTrivia inComment cs line <;> simp_all <;> omega

theorem ne_newline_of_skipTrivia {inComment : Bool} {cs xs : List Char} {line l : Nat}
    {x : Char} (h : skipTrivia inComment cs line = ⟨x :: xs, l⟩) : x ≠ '\n' := by
  fun_induction skipTrivia inComment cs line with
  | case1 => cases h
  | case2 _ _ ih | case3 _ _ _ _ ih | case4 _ _ ih | case5 _ _ _ ih | case6 _ _ _ _ _ _ ih =>
    exact ih h
  | case7 c cs line hs hc hb =>
    cases h
    exact hc

/-- Line feeds that `p` fails on are not dropped. -/
theorem dropWhile_count {p : Char → Bool} (hp : p '\n' = false) (cs : List Char) :
    (cs.dropWhile p).count '\n' = cs.count '\n' := by
  induction cs with
  | nil => rfl
  | cons c cs ih =>
    rw [List.dropWhile_cons]
    split
    · rename_i hc
      have hne : c ≠ '\n' := by
        rintro rfl
        rw [hp] at hc
        cases hc
      rw [ih, List.count_cons_of_ne hne]
    · rfl

/-- Every line feed in a token is counted by `scan`. -/
theorem scan_count {c : Char} (hc : c ≠ '\n') (cs : List Char) (line : Nat) :
    (scan ⟨c :: cs, line⟩).2.line + (scan ⟨c :: cs, line⟩).2.rest.count '\n' =
      line + (c :: cs).count '\n' := by
  rw [scan]
  -- line feeds can only be in a string, which counts them
  split
  · rw [List.count_cons_of_ne hc]
    by_cases hq : '"' ∈ cs
    · obtain ⟨body, rest, rfl, hbody⟩ := List.eq_append_cons_of_mem hq
      rw [string_of_quote hbody, List.count_append, List.count_cons_of_ne (by decide),
        ← Nat.add_assoc]
    · rw [string_of_no_quote hq]
      rfl
  · split
    · exact congrArg (line + ·) (dropWhile_count (by decide) _)
    · split
      · exact congrArg (line + ·) (dropWhile_count (by decide) _)
      · rw [List.count_cons_of_ne hc]
        by_cases hs : withEqual? (symbolKind c) = none ∨ cs.head? ≠ some '='
        · rw [symbol_of_ne hs]
        · obtain ⟨hk, hcs⟩ := not_or.mp hs
          obtain ⟨kind, hk⟩ := Option.ne_none_iff_exists'.mp hk
          obtain ⟨rest, rfl⟩ := List.head?_eq_some_iff.mp (not_not.mp hcs)
          rw [symbol_of_equal hk, List.count_cons_of_ne (by decide)]

/-- The line that `tokens` end on is as many below the first one as there are line feeds in the
text. -/
theorem tokens_endLine (cs : List Char) (line : Nat) :
    (tokens ⟨cs, line⟩).2 = line + cs.count '\n' := by
  induction cs, line using tokens_induct with
  | blank cs line l h =>
    have hcount := skipTrivia_count false cs line
    rw [h] at hcount
    rw [tokens_of_blank h]
    exact hcount
  | cons cs line x xs l h ih =>
    have hcount := skipTrivia_count false cs line
    rw [h] at hcount
    rw [tokens_of_cons h, ih, scan_count (ne_newline_of_skipTrivia h)]
    exact hcount

end Count

/-! ## A text in two parts -/

section Append

variable {cs rest : List Char} {line l : Nat}

theorem takeWhile_append_of_stops {p : Char → Bool} {c : Char} (hc : p c = false) :
    (cs ++ c :: rest).takeWhile p = cs.takeWhile p := by
  rw [List.takeWhile_append]
  split
  · rename_i hl
    rw [List.takeWhile_cons_of_neg (by simp [hc]), List.append_nil]
    exact (List.takeWhile_prefix p).eq_of_length hl |>.symm
  · rfl

theorem dropWhile_append_of_stops {p : Char → Bool} {c : Char} (hc : p c = false) :
    (cs ++ c :: rest).dropWhile p = cs.dropWhile p ++ c :: rest := by
  rw [List.dropWhile_append]
  split
  · rename_i hd
    rw [List.isEmpty_iff.mp hd, List.dropWhile_cons_of_neg (by simp [hc]), List.nil_append]
  · rfl

/-- The character `d` ends every token but a string, and begins no comment. -/
structure Separates (d : Char) : Prop where
  isDigit : d.isDigit = false
  isNameContinue : isNameContinue d = false
  ne_equal : d ≠ '='
  ne_slash : d ≠ '/'

variable {d : Char} (hd : Separates d)

include hd

/-- A character that `Separates` ends any token but a string. -/
theorem scan_append {c : Char} (h : (scan ⟨c :: cs, line⟩).1.kind ≠ .unterminatedString) :
    scan ⟨c :: (cs ++ d :: rest), line⟩ = ((scan ⟨c :: cs, line⟩).1,
      ⟨(scan ⟨c :: cs, line⟩).2.rest ++ d :: rest, (scan ⟨c :: cs, line⟩).2.line⟩) := by
  rw [scan] at h
  rw [scan, scan]
  split
  · rename_i hc
    rw [if_pos hc] at h
    -- a string that is closed ends at its quote, whatever is behind it
    by_cases hq : '"' ∈ cs
    · obtain ⟨body, after, rfl, hbody⟩ := List.eq_append_cons_of_mem hq
      rw [List.append_assoc, List.cons_append, string_of_quote hbody, string_of_quote hbody]
    · rw [string_of_no_quote hq] at h
      exact absurd rfl h
  · split
    · rw [integer, integer, ← List.cons_append, takeWhile_append_of_stops hd.isDigit,
        dropWhile_append_of_stops hd.isDigit]
    · split
      · rw [word, word, ← List.cons_append, takeWhile_append_of_stops hd.isNameContinue,
          dropWhile_append_of_stops hd.isNameContinue]
      · -- a separator is no equals sign, so it does not become part of the symbol
        by_cases hs : withEqual? (symbolKind c) = none ∨ cs.head? ≠ some '='
        · rw [symbol_of_ne hs, symbol_of_ne]
          refine hs.imp_right fun hcs => ?_
          cases cs with
          | nil => simpa using hd.ne_equal
          | cons d cs => exact hcs
        · obtain ⟨hk, hcs⟩ := not_or.mp hs
          obtain ⟨kind, hk⟩ := Option.ne_none_iff_exists'.mp hk
          obtain ⟨after, rfl⟩ := List.head?_eq_some_iff.mp (not_not.mp hcs)
          rw [List.cons_append, symbol_of_equal hk, symbol_of_equal hk]

omit hd in
/-- If `skipTrivia` comes to the end of a text, it is either `within` a comment there or not. -/
theorem skipTrivia_append_of_blank {inComment : Bool}
    (h : skipTrivia inComment cs line = ⟨[], l⟩) :
    ∃ within, ∀ more, skipTrivia inComment (cs ++ more) line = skipTrivia within more l := by
  fun_induction skipTrivia inComment cs line with
  | case1 inComment line =>
    cases h
    exact ⟨inComment, fun _ => rfl⟩
  | case2 cs line ih | case5 cs line _ ih =>
    simpa only [List.cons_append, skipTrivia_newline] using ih h
  | case3 c cs line hc ih => simpa only [List.cons_append, skipTrivia, if_neg hc] using ih h
  | case4 cs line ih => simpa only [List.cons_append, skipTrivia] using ih h
  | case6 c cs line _ hc hb ih =>
    simpa only [List.cons_append, skipTrivia_of_isBlank hb hc] using ih h
  | case7 => cases h

theorem skipTrivia_append_of_cons {inComment : Bool} {x : Char} {xs : List Char}
    (h : skipTrivia inComment cs line = ⟨x :: xs, l⟩) :
    skipTrivia inComment (cs ++ d :: rest) line = ⟨x :: (xs ++ d :: rest), l⟩ := by
  fun_induction skipTrivia inComment cs line with
  | case1 => cases h
  | case2 cs line ih | case5 cs line _ ih =>
    rw [List.cons_append, skipTrivia_newline, ih h]
  | case3 c cs line hc ih => rw [List.cons_append, skipTrivia, if_neg hc, ih h]
  | case4 cs line ih => rw [List.cons_append, List.cons_append, skipTrivia, ih h]
  | case6 c cs line _ hc hb ih => rw [List.cons_append, skipTrivia_of_isBlank hb hc, ih h]
  | case7 c cs line hs hc hb =>
    cases h
    refine skipTrivia_of_token hb ?_ _
    by_cases hx : x = '/'
    · refine .inr ?_
      cases xs with
      | nil => simpa using hd.ne_slash
      | cons d ds =>
        intro hslash
        have hslash : d = '/' := Option.some_inj.mp hslash
        exact hs ds hx (by rw [hslash])
    · exact .inl hx

/-- What comes behind the first token of a text does not change that token, if it begins with a
character that `Separates`. -/
theorem tokens_append_of_cons {x : Char} {xs : List Char}
    (hs : skipTrivia false cs line = ⟨x :: xs, l⟩)
    (hx : (scan ⟨x :: xs, l⟩).1.kind ≠ .unterminatedString) :
    let following :=
      tokens ⟨(scan ⟨x :: xs, l⟩).2.rest ++ d :: rest, (scan ⟨x :: xs, l⟩).2.line⟩
    tokens ⟨cs ++ d :: rest, line⟩ = ((scan ⟨x :: xs, l⟩).1 :: following.1, following.2) := by
  intro following
  rw [tokens_of_cons (skipTrivia_append_of_cons hd hs), scan_append hd hx]

omit hd

theorem separates_newline : Separates '\n' := ⟨by decide, by decide, by decide, by decide⟩

/-- A text may be cut at a line feed, and its `tokens` are those of both parts, if the cut is in
no string. -/
theorem tokens_append (h : ∀ t ∈ (tokens ⟨cs, line⟩).1, t.kind ≠ .unterminatedString) :
    tokens ⟨cs ++ '\n' :: rest, line⟩ =
      ((tokens ⟨cs, line⟩).1 ++ (tokens ⟨rest, (tokens ⟨cs, line⟩).2 + 1⟩).1,
        (tokens ⟨rest, (tokens ⟨cs, line⟩).2 + 1⟩).2) := by
  induction cs, line using tokens_induct with
  | blank cs line l hs =>
    obtain ⟨within, hmore⟩ := skipTrivia_append_of_blank hs
    have hskip :
        skipTrivia false (cs ++ '\n' :: rest) line = skipTrivia false rest (l + 1) := by
      rw [hmore, skipTrivia_newline]
    rw [tokens_of_blank hs, tokens_congr hskip]
    rfl
  | cons cs line x xs l hs ih =>
    rw [tokens_of_cons hs] at h ⊢
    rw [tokens_append_of_cons separates_newline hs (h _ List.mem_cons_self),
      ih fun t ht => h t (List.mem_cons_of_mem _ ht)]
    rfl

/-- A text may be cut in front of a character that `Separates`, and its `tokens` are those of
both parts, if the cut is in no string and no comment. -/
theorem tokens_append_of_token (hd : Separates d)
    (h : ∀ t ∈ (tokens ⟨cs, line⟩).1, t.kind ≠ .unterminatedString)
    (htoken : (tokens ⟨cs ++ [d], line⟩).1 ≠ (tokens ⟨cs, line⟩).1) :
    tokens ⟨cs ++ d :: rest, line⟩ =
      ((tokens ⟨cs, line⟩).1 ++ (tokens ⟨d :: rest, (tokens ⟨cs, line⟩).2⟩).1,
        (tokens ⟨d :: rest, (tokens ⟨cs, line⟩).2⟩).2) := by
  induction cs, line using tokens_induct with
  | blank cs line l hs =>
    obtain ⟨within, hmore⟩ := skipTrivia_append_of_blank hs
    -- in a comment the separator would be no token, but it is one
    have hwithin : within = false := by
      refine Bool.eq_false_iff.mpr fun hwithin => htoken ?_
      obtain ⟨k, hskip⟩ : ∃ k, skipTrivia false (cs ++ [d]) line = ⟨[], k⟩ := by
        rw [hmore, hwithin, skipTrivia]
        split
        · exact ⟨l + 1, rfl⟩
        · exact ⟨l, rfl⟩
      rw [tokens_of_blank hskip, tokens_of_blank hs]
    subst hwithin
    rw [tokens_of_blank hs, tokens_congr (hmore (d :: rest))]
    rfl
  | cons cs line x xs l hs ih =>
    rw [tokens_of_cons hs] at h ⊢
    rw [tokens_append_of_cons hd hs (h _ List.mem_cons_self),
      ih (fun t ht => h t (List.mem_cons_of_mem _ ht)) ?_]
    · rfl
    · refine fun hsame => htoken ?_
      rw [tokens_append_of_cons hd hs (h _ List.mem_cons_self), tokens_of_cons hs, hsame]

end Append

end Cursor
end ScriptLang
