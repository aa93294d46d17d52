import ScriptLang.Proofs.Lexing

/-!
# Tokens without their lines

The *lexemes* of a text are its tokens without their lines. Text that is put together from
words, symbols and strings has the lexemes of its parts, as long as no part runs into the next
one: a word ends before a character that names do not go on with, and a symbol before one that
is neither an equals sign nor a slash.

- `Cursor.lexemes`: the tokens of a text, up to lines.
- `Cursor.lexemes_name`, `lexemes_integer`, `lexemes_string`, `lexemes_keyword`,
  `lexemes_ofKind`: a token of each sort in front of a text.
-/

namespace ScriptLang

open Text

/-! ## Characters of names -/

namespace Text

variable {c : Char}

/-- The code points of the characters that `isBlank` holds of. -/
theorem toNat_mem_of_isBlank (h : isBlank c) : c.toNat ∈
    [9, 10, 11, 12, 13, 0x20, 0x85, 0xA0, 0x1680] ++ List.range' 0x2000 11 ++
      [0x2028, 0x2029, 0x202F, 0x205F, 0x3000] := by
  simp only [isBlank, Bool.or_eq_true, Bool.and_eq_true, decide_eq_true_eq, beq_iff_eq] at h
  simp only [List.mem_append, List.mem_cons, List.not_mem_nil, List.mem_range'_1, or_false]
  omega

/-- `isNameStart` holds of no blank. -/
theorem not_isBlank_of_isNameStart (h : isNameStart c) : ¬isBlank c := by
  intro hb
  have hall : ∀ n ∈ [9, 10, 11, 12, 13, 0x20, 0x85, 0xA0, 0x1680] ++ List.range' 0x2000 11 ++
      [0x2028, 0x2029, 0x202F, 0x205F, 0x3000], isNameStart (Char.ofNat n) = false := by
    decide +kernel
  have hc := hall _ (toNat_mem_of_isBlank hb)
  rw [Char.ofNat_toNat, h] at hc
  cases hc

theorem toNat_of_isDigit (h : c.isDigit) : 48 ≤ c.toNat ∧ c.toNat ≤ 57 :=
  Char.isDigit_iff_toNat.mp h

/-- `isNameStart` holds of no digit. -/
theorem not_isDigit_of_isNameStart (h : isNameStart c) : ¬c.isDigit := by
  intro hd
  have hall : ∀ n ∈ List.range' 48 10, isNameStart (Char.ofNat n) = false := by decide
  have hmem : c.toNat ∈ List.range' 48 10 := by
    rw [List.mem_range'_1]
    have := toNat_of_isDigit hd
    omega
  have hc := hall _ hmem
  rw [Char.ofNat_toNat, h] at hc
  cases hc

/-- `isNameContinue` holds of digits. -/
theorem isNameContinue_of_isDigit (h : c.isDigit) : isNameContinue c := by
  have := toNat_of_isDigit h
  rw [isNameContinue, if_pos (by omega), Char.isAlphanum, h]
  simp

end Text

/-! ## Where tokens end -/

/-- What may stand behind a word or a symbol: `cs` begins with no character that goes on with
either. -/
def Ends (cs : List Char) : Prop :=
  ∀ c ∈ cs.head?, isNameContinue c = false ∧ c ≠ '=' ∧ c ≠ '/'

/-- What may stand behind a symbol: `cs` begins with neither an equals sign nor a slash. -/
def Opens (cs : List Char) : Prop := ∀ c ∈ cs.head?, c ≠ '=' ∧ c ≠ '/'

theorem ends_cons {c : Char} {cs : List Char}
    (h : isNameContinue c = false ∧ c ≠ '=' ∧ c ≠ '/') : Ends (c :: cs) := by
  rintro _ ⟨⟩
  exact h

theorem opens_cons {c : Char} {cs : List Char} (h : c ≠ '=' ∧ c ≠ '/') : Opens (c :: cs) := by
  rintro _ ⟨⟩
  exact h

/-- The kinds of tokens that are read by `symbol`. -/
def TokenKind.isSymbol : TokenKind → Bool
  | leftParen | rightParen | leftBrace | rightBrace | comma | semicolon | equal | bang | plus
  | minus | star | slash | lesser | greater | lesserEqual | greaterEqual | equalEqual
  | bangEqual => true
  | _ => false

namespace Cursor

/-- The `tokens` of a text without their lines. -/
def lexemes (cs : List Char) : List Token := (tokens ⟨cs, 0⟩).1.map Token.bare

/-- The `lexemes` of a text do not depend on the line it begins on. -/
theorem map_bare_tokens (cs : List Char) (line : Nat) :
    (tokens ⟨cs, line⟩).1.map Token.bare = lexemes cs := by
  rw [← Nat.zero_add line, tokens_shift, List.map_map]
  rfl

@[simp] theorem lexemes_nil : lexemes [] = [] := by
  rw [lexemes, tokens_of_blank (l := 0) rfl]
  rfl

/-- The `lexemes` of a text with a blank in front of it. -/
theorem lexemes_of_isBlank {c : Char} (h : isBlank c) (cs : List Char) :
    lexemes (c :: cs) = lexemes cs := by
  by_cases hc : c = '\n'
  · rw [hc, lexemes, tokens_congr (skipTrivia_newline false cs 0 |>.trans rfl), map_bare_tokens]
  · rw [lexemes, tokens_congr (skipTrivia_of_isBlank h hc cs 0), lexemes]

/-- Blank characters between tokens are skipped. -/
@[simp] theorem lexemes_space (cs : List Char) : lexemes (' ' :: cs) = lexemes cs :=
  lexemes_of_isBlank (by decide) cs

@[simp] theorem lexemes_newline (cs : List Char) : lexemes ('\n' :: cs) = lexemes cs :=
  lexemes_of_isBlank (by decide) cs

@[simp] theorem lexemes_tab (cs : List Char) : lexemes ('\t' :: cs) = lexemes cs :=
  lexemes_of_isBlank (by decide) cs

@[simp] theorem lexemes_tabs (n : Nat) (cs : List Char) :
    lexemes (List.replicate n '\t' ++ cs) = lexemes cs := by
  induction n with
  | zero => rfl
  | succ n ih => rw [List.replicate_succ, List.cons_append, lexemes_tab, ih]

section Scan

variable {c : Char} {cs rest : List Char}

/-- The `lexemes` of a text that begins with the token that `scan` finds. -/
theorem lexemes_of_scan {t : Token} {l : Nat} (hb : ¬isBlank c)
    (hc : c ≠ '/' ∨ cs.head? ≠ some '/') (hs : scan ⟨c :: cs, 0⟩ = (t, ⟨rest, l⟩)) :
    lexemes (c :: cs) = t.bare :: lexemes rest := by
  rw [lexemes, tokens_of_cons (skipTrivia_of_token hb hc 0), hs, List.map_cons, map_bare_tokens]

/-- The `lexemes` of a text with a string in front of it. -/
theorem lexemes_string {body : List Char} (h : '"' ∉ body) :
    lexemes ('"' :: (body ++ '"' :: rest)) =
      ⟨.string, 0, String.ofList body⟩ :: lexemes rest :=
  lexemes_of_scan (t := ⟨.string, 0, String.ofList body⟩) (by decide) (.inl (by decide))
    (by rw [scan, if_pos rfl, string_of_quote h])

/-- What is taken while `p` holds ends where `p` fails first. -/
theorem takeWhile_append_of_ends {p : Char → Bool} (hcs : ∀ c ∈ cs, p c)
    (hrest : ∀ c ∈ rest.head?, p c = false) :
    (cs ++ rest).takeWhile p = cs ∧ (cs ++ rest).dropWhile p = rest := by
  rw [List.takeWhile_append_of_pos hcs, List.dropWhile_append_of_pos hcs]
  cases rest with
  | nil => simp
  | cons d ds =>
    have hd := hrest d rfl
    rw [List.takeWhile_cons_of_neg (by simp [hd]), List.dropWhile_cons_of_neg (by simp [hd])]
    simp

/-- The `lexemes` of a text that `Ends` a name or a keyword in front of it. -/
theorem lexemes_word (hc : isNameStart c) (hcs : cs.all isNameContinue) (hrest : Ends rest) :
    lexemes (c :: cs ++ rest) =
      ⟨(TokenKind.ofKeyword? (String.ofList (c :: cs))).getD .ident, 0,
        String.ofList (c :: cs)⟩ ::
        lexemes rest := by
  have hall : ∀ x ∈ c :: cs, isNameContinue x := by
    rintro x hx
    rcases List.mem_cons.mp hx with rfl | hx
    · exact isNameContinue_of_isNameStart hc
    · exact List.all_eq_true.mp hcs x hx
  obtain ⟨htake, hdrop⟩ := takeWhile_append_of_ends hall fun x hx => (hrest x hx).1
  have hq : c ≠ '"' := by
    rintro rfl
    exact absurd hc (by decide)
  have hs : c ≠ '/' := by
    rintro rfl
    exact absurd hc (by decide)
  show lexemes (c :: (cs ++ rest)) = _
  refine lexemes_of_scan (l := 0)
    (t := ⟨(TokenKind.ofKeyword? (String.ofList (c :: cs))).getD .ident, 0,
      String.ofList (c :: cs)⟩)
    (not_isBlank_of_isNameStart hc) (.inl hs) ?_
  rw [scan, if_neg hq, if_neg (not_isDigit_of_isNameStart hc), if_pos hc, word,
    ← List.cons_append, htake, hdrop]

/-- The `lexemes` of a text that `Ends` an integer in front of it. -/
theorem lexemes_integer (hne : cs ≠ []) (hcs : cs.all Char.isDigit) (hrest : Ends rest) :
    lexemes (cs ++ rest) = ⟨.integer, 0, String.ofList cs⟩ :: lexemes rest := by
  have hstop : ∀ x ∈ rest.head?, x.isDigit = false := by
    intro x hx
    by_contra hd
    rw [Bool.not_eq_false] at hd
    have hn := isNameContinue_of_isDigit hd
    rw [(hrest x hx).1] at hn
    cases hn
  obtain ⟨htake, hdrop⟩ := takeWhile_append_of_ends (List.all_eq_true.mp hcs) hstop
  obtain ⟨c, cs, rfl⟩ := List.exists_cons_of_ne_nil hne
  have hc : c.isDigit := List.all_eq_true.mp hcs c List.mem_cons_self
  have hn := toNat_of_isDigit hc
  -- a digit is neither a quote nor a blank, by its code
  have hne {x : Char} (hx : x.toNat < 48 ∨ 57 < x.toNat) : c ≠ x := by
    rintro rfl
    omega
  have hb : ¬isBlank c := by
    intro hb
    have := toNat_mem_of_isBlank hb
    simp only [List.mem_append, List.mem_cons, List.not_mem_nil, List.mem_range'_1, or_false]
      at this
    omega
  show lexemes (c :: (cs ++ rest)) = _
  refine lexemes_of_scan (l := 0) (t := ⟨.integer, 0, String.ofList (c :: cs)⟩)
    hb (.inl (hne (by decide))) ?_
  rw [scan, if_neg (hne (by decide)), if_pos hc, integer, ← List.cons_append, htake, hdrop]

/-- A character that is a symbol begins nothing else. -/
theorem not_of_isSymbol (h : (symbolKind c).isSymbol) :
    ¬isBlank c ∧ c ≠ '"' ∧ ¬c.isDigit ∧ ¬isNameStart c := by
  unfold symbolKind at h
  split at h <;> first | decide | cases h

/-- The `lexemes` of a text that `Opens`, with a symbol of one character in front of it. -/
theorem lexemes_symbol (h : (symbolKind c).isSymbol) (hrest : Opens rest) :
    lexemes (c :: rest) = ⟨symbolKind c, 0, String.ofList [c]⟩ :: lexemes rest := by
  obtain ⟨hb, hq, hd, hn⟩ := not_of_isSymbol h
  have hslash : rest.head? ≠ some '/' := fun hs => (hrest '/' hs).2 rfl
  have hequal : rest.head? ≠ some '=' := fun hs => (hrest '=' hs).1 rfl
  refine lexemes_of_scan (l := 0) (t := ⟨symbolKind c, 0, String.ofList [c]⟩) hb
    (.inr hslash) ?_
  rw [scan, if_neg hq, if_neg hd, if_neg hn, symbol_of_ne (.inr hequal)]

/-- A character that `withEqual?` has nothing for is a symbol whatever stands behind it. -/
theorem lexemes_bracket (h : (symbolKind c).isSymbol) (hc : c ≠ '/')
    (hk : withEqual? (symbolKind c) = none) :
    lexemes (c :: rest) = ⟨symbolKind c, 0, String.ofList [c]⟩ :: lexemes rest := by
  obtain ⟨hb, hq, hd, hn⟩ := not_of_isSymbol h
  refine lexemes_of_scan (l := 0) (t := ⟨symbolKind c, 0, String.ofList [c]⟩) hb (.inl hc) ?_
  rw [scan, if_neg hq, if_neg hd, if_neg hn, symbol_of_ne (.inl hk)]

/-- The `lexemes` of a text with a symbol of two characters in front of it. -/
theorem lexemes_symbol_equal {kind : TokenKind} (h : (symbolKind c).isSymbol)
    (hk : withEqual? (symbolKind c) = some kind) :
    lexemes (c :: '=' :: rest) = ⟨kind, 0, String.ofList [c, '=']⟩ :: lexemes rest := by
  obtain ⟨hb, hq, hd, hn⟩ := not_of_isSymbol h
  refine lexemes_of_scan (l := 0) (t := ⟨kind, 0, String.ofList [c, '=']⟩) hb
    (.inr (by simp)) ?_
  rw [scan, if_neg hq, if_neg hd, if_neg hn, symbol_of_equal hk]

@[simp] theorem lexemes_leftParen :
    lexemes ('(' :: rest) = .ofKind .leftParen 0 :: lexemes rest :=
  lexemes_bracket rfl (by decide) rfl

@[simp] theorem lexemes_rightParen :
    lexemes (')' :: rest) = .ofKind .rightParen 0 :: lexemes rest :=
  lexemes_bracket rfl (by decide) rfl

@[simp] theorem lexemes_leftBrace :
    lexemes ('\x7b' :: rest) = .ofKind .leftBrace 0 :: lexemes rest :=
  lexemes_bracket rfl (by decide) rfl

@[simp] theorem lexemes_rightBrace :
    lexemes ('\x7d' :: rest) = .ofKind .rightBrace 0 :: lexemes rest :=
  lexemes_bracket rfl (by decide) rfl

@[simp] theorem lexemes_comma : lexemes (',' :: rest) = .ofKind .comma 0 :: lexemes rest :=
  lexemes_bracket rfl (by decide) rfl

@[simp] theorem lexemes_semicolon :
    lexemes (';' :: rest) = .ofKind .semicolon 0 :: lexemes rest :=
  lexemes_bracket rfl (by decide) rfl

end Scan

/-- The `lexemes` of a text that `Opens`, with the text of a symbol in front of it. -/
theorem lexemes_ofKind {kind : TokenKind} {rest : List Char} (h : kind.isSymbol)
    (hrest : Opens rest) :
    lexemes (kind.text.toList ++ rest) = .ofKind kind 0 :: lexemes rest := by
  cases kind <;> first
    | exact lexemes_symbol rfl hrest
    | exact lexemes_symbol_equal rfl rfl
    | cases h

/-- The `lexemes` of a text that `Ends` a keyword in front of it. -/
theorem lexemes_keyword {kind : TokenKind} {rest : List Char} (h : kind ∈ TokenKind.keywords)
    (hrest : Ends rest) :
    lexemes (kind.text.toList ++ rest) = .ofKind kind 0 :: lexemes rest := by
  revert h
  cases kind <;> first
    | exact fun h => absurd h (by decide)
    | exact fun _ => lexemes_word (by decide) (by decide) hrest

/-- The `lexemes` of a text that `Ends` a name in front of it. -/
theorem lexemes_name {x : String} {rest : List Char} (hx : isName x.toList)
    (hrest : Ends rest) : lexemes (x.toList ++ rest) = ⟨.ident, 0, x⟩ :: lexemes rest := by
  obtain ⟨c, cs, hcs⟩ : ∃ c cs, x.toList = c :: cs := by
    cases hx' : x.toList with
    | nil => rw [hx'] at hx; cases hx
    | cons c cs => exact ⟨c, cs, rfl⟩
  have hx' : x = String.ofList (c :: cs) := by rw [← hcs, String.ofList_toList]
  rw [hcs, isName, Bool.and_eq_true, Bool.and_eq_true] at hx
  obtain ⟨⟨hc, hall⟩, hk⟩ := hx
  rw [hcs, lexemes_word hc hall hrest, Option.isNone_iff_eq_none.mp hk, hx']
  rfl

end Cursor
end ScriptLang
