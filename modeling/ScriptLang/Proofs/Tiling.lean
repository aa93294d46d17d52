import ScriptLang.Proofs.Lexeme

/-!
# Tokens tile their source

Nothing of a source is lost between its tokens: it is the texts of its tokens one after the
other, with nothing but blanks and comments before, between and behind them. Each token has the
kind that the token table gives for its text, is as long as it can be, and is on the line that
the line feeds before it make.

A lexer that is asked for tokens, in whatever way, is at a place in this one sequence of tokens.
Asked for the next token, or for all of them, it hands out what comes and moves on; asked to
peek it stays.

- `TokenKind.ofText`: the token table.
- `Gap`: what may lie between tokens.
- `Token.written`, `Token.Stands`: the text of a token, and how it stands before another text.
- `Tiles`: tokens that tile a text.
- `Request`, `Cursor.serve`: asking a lexer for tokens, time and again.
- `Cursor.tokens_tile`: the tokens of a source, however they are asked for.
-/

namespace ScriptLang

open Text

/-! ## The token table -/

namespace TokenKind

/-- The symbols of the language. -/
def symbols : List TokenKind :=
  [leftParen, rightParen, leftBrace, rightBrace, comma, semicolon, equal, bang, plus,
    minus, star, slash, lesser, greater, lesserEqual, greaterEqual, equalEqual, bangEqual]

/-- The kind of a token with the given text, strings aside: a text that is `TokenKind.text` of a
keyword or symbol is that one, and what else is neither a number nor a name is `illegal`. -/
def ofText (text : String) : TokenKind :=
  match (keywords ++ symbols).find? (·.text = text) with
  | some kind => kind
  | none =>
    if text.toList ≠ [] ∧ text.toList.all Char.isDigit then integer
    else if isName text.toList then ident
    else illegal

/-- Whether a token of the kind would have gone on with the character. -/
def GoesOn (c : Char) : TokenKind → Prop
  | ident | kwVar | kwFun | kwReturn | kwTrue | kwFalse | kwIf | kwElse | kwLoop | kwBreak =>
    isNameContinue c
  | integer => c.isDigit
  | equal | bang | lesser | greater => c = '='
  | slash => c = '/'
  | _ => False

theorem ofText_text : ∀ kind ∈ keywords ++ symbols, ofText kind.text = kind := by decide +kernel

/-- A text with a property that no `TokenKind.text` has is no keyword and no symbol. -/
theorem find?_eq_none_of (p : List Char → Bool)
    (hp : ∀ kind ∈ keywords ++ symbols, p kind.text.toList = false) {cs : List Char}
    (h : p cs) : (keywords ++ symbols).find? (·.text = String.ofList cs) = none := by
  refine List.find?_eq_none.mpr fun kind hkind htext => ?_
  have hfalse := hp kind hkind
  rw [of_decide_eq_true htext, String.toList_ofList, h] at hfalse
  cases hfalse

theorem ofText_digits {cs : List Char} (hne : cs ≠ []) (h : cs.all Char.isDigit) :
    ofText (String.ofList cs) = integer := by
  rw [ofText, find?_eq_none_of (·.all Char.isDigit) (by decide +kernel) h]
  simp only [String.toList_ofList]
  exact if_pos ⟨hne, h⟩

theorem ofText_name {cs : List Char} (h : isName cs) : ofText (String.ofList cs) = ident := by
  have hdigits : ¬cs.all Char.isDigit := by
    cases cs with
    | nil => cases h
    | cons c cs =>
      rw [isName, Bool.and_eq_true, Bool.and_eq_true] at h
      intro hall
      rw [List.all_cons, Bool.and_eq_true] at hall
      exact not_isDigit_of_isNameStart h.1.1 hall.1
  rw [ofText, find?_eq_none_of isName (by decide +kernel) h]
  simp only [String.toList_ofList]
  rw [if_neg fun hcs => hdigits hcs.2, if_pos h]

/-- By `ofText`, a text that begins neither a number nor a name nor a symbol is `illegal`. -/
theorem ofText_illegal {c : Char} (hc : Cursor.symbolKind c = illegal) (hd : ¬c.isDigit)
    (hn : ¬isNameStart c) : ofText (String.ofList [c]) = illegal := by
  have hsymbol : ([c].map Cursor.symbolKind == [illegal]) = true := by
    rw [List.map_singleton, hc]
    rfl
  rw [ofText, find?_eq_none_of (·.map Cursor.symbolKind == [illegal])
    (by decide +kernel) hsymbol]
  simp only [String.toList_ofList]
  rw [if_neg, if_neg]
  · simp [isName, hn]
  · simp [hd]

/-- No text is a string by `ofText`: only what stands in quotes is. -/
theorem ofText_ne_string (text : String) :
    ofText text ≠ string ∧ ofText text ≠ unterminatedString := by
  have hfixed : ∀ kind ∈ keywords ++ symbols, kind ≠ string ∧
    kind ≠ unterminatedString := by decide
  unfold ofText
  split
  · next kind hkind => exact hfixed kind (List.mem_of_find?_eq_some hkind)
  · split
    · exact ⟨nofun, nofun⟩
    · split <;> exact ⟨nofun, nofun⟩

end TokenKind

/-! ## Texts and what lies between them -/

/-- What may lie before the text `behind` and behind a token: blanks, and comments that go on up
to a line feed or to the end. -/
inductive Gap (behind : List Char) : List Char → Prop
  | nil : Gap behind []
  | blank {c : Char} {g : List Char} : isBlank c → Gap behind g → Gap behind (c :: g)
  | comment {body g : List Char} :
      '\n' ∉ body → (∀ c ∈ (g ++ behind).head?, c = '\n') → Gap behind g →
      Gap behind ('/' :: '/' :: (body ++ g))

namespace Token

/-- The characters that a token is written with. A string stands in quotes, and without the
second one if it is an `unterminatedString`. -/
def written (t : Token) : List Char :=
  match t.kind with
  | .string => '"' :: t.literal.toList ++ ['"']
  | .unterminatedString => '"' :: t.literal.toList
  | _ => t.literal.toList

/-- A token as it stands before a text. A string has no quote in it and goes on up to one, or
else to the end. Any other token has the kind of its text by `ofText`, and by `GoesOn` does not
go on with the next character; what is `illegal` is a single character, but neither a quote nor
a blank. -/
inductive Stands (t : Token) (behind : List Char) : Prop
  | string : t.kind = .string → '"' ∉ t.literal.toList → Stands t behind
  | unterminatedString :
      t.kind = .unterminatedString → '"' ∉ t.literal.toList → behind = [] → Stands t behind
  | plain :
      t.kind = .ofText t.literal →
      (t.kind = .illegal → ∃ c, t.literal.toList = [c] ∧ c ≠ '"' ∧ ¬isBlank c) →
      (∀ c ∈ behind.head?, ¬t.kind.GoesOn c) → Stands t behind

theorem written_of_plain {t : Token} (h : t.kind = .ofText t.literal) :
    t.written = t.literal.toList := by
  obtain ⟨hstring, hunterminated⟩ := TokenKind.ofText_ne_string t.literal
  rw [← h] at hstring hunterminated
  unfold written
  split
  · next hk => exact absurd hk hstring
  · next hk => exact absurd hk hunterminated
  · rfl

end Token

/-- The tokens tile a text that stands behind another one: there is a `Gap` before each of them
and one at the end, each token is on the line that all line feeds before it make, and it
`Stands` before what is left. -/
inductive Tiles : List Char → List Token → List Char → Prop
  | gap {ahead g : List Char} : Gap [] g → Tiles ahead [] g
  | token {ahead g rest : List Char} {t : Token} {ts : List Token} :
      Gap (t.written ++ rest) g → t.line = 1 + (ahead ++ g).count '\n' → t.Stands rest →
      Tiles (ahead ++ g ++ t.written) ts rest → Tiles ahead (t :: ts) (g ++ t.written ++ rest)

theorem Token.Stands.written_ne_nil {t : Token} {behind : List Char} (h : t.Stands behind) :
    t.written ≠ [] := by
  cases h with
  | string hk | unterminatedString hk =>
    unfold written
    rw [hk]
    exact List.cons_ne_nil _ _
  | plain hk hillegal =>
    rw [written_of_plain hk]
    intro hempty
    have hliteral : t.literal = "" := String.toList_eq_nil_iff.mp hempty
    have hnone : TokenKind.ofText "" = .illegal := by decide +kernel
    obtain ⟨c, hc, -⟩ := hillegal (by rw [hk, hliteral, hnone])
    rw [hempty] at hc
    cases hc

/-- No token is `written` with nothing, so none tiles the empty text. -/
theorem Tiles.eq_nil {ahead cs : List Char} {ts : List Token} (h : Tiles ahead ts cs)
    (hcs : cs = []) : ts = [] := by
  cases h with
  | gap => rfl
  | token _ _ hstands =>
    obtain ⟨hwritten, -⟩ := List.append_eq_nil_iff.mp hcs
    exact absurd (List.append_eq_nil_iff.mp hwritten).2 hstands.written_ne_nil

/-- Behind an `unterminatedString` there is no token. -/
theorem Tiles.last_of_unterminatedString {ahead cs : List Char} {ts : List Token}
    (h : Tiles ahead ts cs) {before behind : List Token} {t : Token}
    (hts : ts = before ++ t :: behind) (ht : t.kind = .unterminatedString) : behind = [] := by
  induction h generalizing before with
  | gap => exact absurd hts (by simp)
  | token _ _ hstands hrest ih =>
    cases before with
    | nil =>
      cases hts
      cases hstands with
      | string hk => cases hk.symm.trans ht
      | unterminatedString _ _ hnone => exact hrest.eq_nil hnone
      | plain hk => exact absurd (hk.symm.trans ht) (TokenKind.ofText_ne_string _).2
    | cons first before =>
      cases hts
      exact ih rfl

namespace Cursor

/-! ## Passing gaps -/

/-- What `skipTrivia` may pass before a text: a `Gap` or, inside of a comment, what is left of
it and then a gap. -/
def Passed (behind : List Char) : Bool → List Char → Prop
  | false, cs => Gap behind cs
  | true, cs => ∃ body g, cs = body ++ g ∧ '\n' ∉ body ∧ (∀ c ∈ (g ++ behind).head?, c = '\n') ∧
      Gap behind g

theorem skipTrivia_passed (inComment : Bool) (cs : List Char) (line : Nat) :
    ∃ g, cs = g ++ (skipTrivia inComment cs line).rest ∧
      Passed (skipTrivia inComment cs line).rest inComment g := by
  fun_induction skipTrivia inComment cs line with
  | case1 inComment =>
    refine ⟨[], rfl, ?_⟩
    cases inComment with
    | false => exact .nil
    | true => exact ⟨[], [], rfl, List.not_mem_nil, by simp, .nil⟩
  | case2 cs line ih =>
    -- the comment ends, and its line feed is the first blank behind it
    obtain ⟨g, hcs, hgap⟩ := ih
    refine ⟨'\n' :: g, congrArg ('\n' :: ·) hcs, [], '\n' :: g, rfl, List.not_mem_nil, ?_, ?_⟩
    · rintro _ ⟨⟩
      rfl
    · exact .blank (by decide) hgap
  | case3 c cs line hc ih =>
    obtain ⟨_, hcs, body, g, rfl, hbody, hstop, hgap⟩ := ih
    refine ⟨c :: (body ++ g), congrArg (c :: ·) hcs, c :: body, g, rfl, ?_, hstop, hgap⟩
    exact List.not_mem_cons_of_ne_of_not_mem (Ne.symm hc) hbody
  | case4 cs line ih =>
    obtain ⟨_, hcs, body, g, rfl, hbody, hstop, hgap⟩ := ih
    exact ⟨'/' :: '/' :: (body ++ g), congrArg ('/' :: '/' :: ·) hcs, .comment hbody hstop hgap⟩
  | case5 cs line _ ih =>
    obtain ⟨g, hcs, hgap⟩ := ih
    exact ⟨'\n' :: g, congrArg ('\n' :: ·) hcs, .blank (by decide) hgap⟩
  | case6 c cs line _ _ hb ih =>
    obtain ⟨g, hcs, hgap⟩ := ih
    exact ⟨c :: g, congrArg (c :: ·) hcs, .blank hb hgap⟩
  | case7 => exact ⟨[], rfl, .nil⟩

/-- What `skipTrivia` passes is a `Gap`, with the line feeds that are counted. -/
theorem gap_of_skipTrivia {cs rest : List Char} {line l : Nat}
    (h : skipTrivia false cs line = ⟨rest, l⟩) :
    ∃ g, cs = g ++ rest ∧ Gap rest g ∧ l = line + g.count '\n' := by
  obtain ⟨g, hcs, hgap⟩ := skipTrivia_passed false cs line
  have hcount := skipTrivia_count false cs line
  rw [h] at hcs hgap hcount
  refine ⟨g, hcs, hgap, ?_⟩
  rw [hcs, List.count_append] at hcount
  dsimp only at hcount
  omega

/-- What `skipTrivia` stops at is no blank and begins no comment. -/
theorem stop_of_skipTrivia {inComment : Bool} {cs xs : List Char} {x : Char} {line l : Nat}
    (h : skipTrivia inComment cs line = ⟨x :: xs, l⟩) :
    ¬isBlank x ∧ (x = '/' → xs.head? ≠ some '/') := by
  fun_induction skipTrivia inComment cs line with
  | case1 => cases h
  | case2 _ _ ih | case3 _ _ _ _ ih | case4 _ _ ih | case5 _ _ _ ih | case6 _ _ _ _ _ _ ih =>
    exact ih h
  | case7 c cs line hs hc hb =>
    cases h
    refine ⟨hb, fun hx hhead => ?_⟩
    obtain ⟨ds, rfl⟩ := List.head?_eq_some_iff.mp hhead
    exact hs ds hx rfl

/-! ## Taking tokens -/

/-- A scan that takes its token off the text, all of it, on the line it is on: the token
`Stands` before the rest. -/
structure Takes (cs : List Char) (line : Nat) (scanned : Token × Cursor) : Prop where
  text : cs = scanned.1.written ++ scanned.2.rest
  line : scanned.1.line = line
  stands : scanned.1.Stands scanned.2.rest

theorem string_takes (cs : List Char) (line : Nat) :
    Takes ('"' :: cs) line (string cs line) := by
  by_cases hq : '"' ∈ cs
  · obtain ⟨body, rest, rfl, hbody⟩ := List.eq_append_cons_of_mem hq
    rw [string_of_quote hbody]
    constructor
    · simp [Token.written]
    · rfl
    · exact .string rfl (by rwa [String.toList_ofList])
  · rw [string_of_no_quote hq]
    constructor
    · simp [Token.written]
    · rfl
    · exact .unterminatedString rfl (by rwa [String.toList_ofList]) rfl

/-- A token that is no string `Takes` its text, from what there is to say of it. -/
theorem Takes.plain {kind : TokenKind} {taken rest : List Char} {line : Nat}
    (hkind : kind = .ofText (String.ofList taken))
    (hillegal : kind = .illegal → ∃ c, taken = [c] ∧ c ≠ '"' ∧ ¬isBlank c)
    (hend : ∀ c ∈ rest.head?, ¬kind.GoesOn c) :
    Takes (taken ++ rest) line (⟨kind, line, String.ofList taken⟩, ⟨rest, line⟩) := by
  constructor
  · rw [Token.written_of_plain hkind, String.toList_ofList]
  · rfl
  · exact .plain hkind (by rwa [String.toList_ofList]) hend

/-- What `dropWhile` leaves does not begin with one of the characters dropped. -/
theorem not_of_head?_dropWhile {p : Char → Bool} {cs : List Char} :
    ∀ c ∈ (cs.dropWhile p).head?, ¬p c := by
  intro c hc
  have hhead := List.head?_dropWhile_not p cs
  rw [Option.mem_def.mp hc] at hhead
  simpa using hhead

theorem integer_takes {c : Char} {cs : List Char} (hc : c.isDigit) (line : Nat) :
    Takes (c :: cs) line (integer (c :: cs) line) := by
  have hne : (c :: cs).takeWhile Char.isDigit ≠ [] := by simp [hc]
  have htakes : Takes _ line (integer (c :: cs) line) :=
    .plain (TokenKind.ofText_digits hne List.all_takeWhile).symm (fun h => absurd h (by decide))
      not_of_head?_dropWhile
  rwa [List.takeWhile_append_dropWhile] at htakes

theorem word_takes {c : Char} {cs : List Char} (hc : isNameStart c) (line : Nat) :
    Takes (c :: cs) line (word (c :: cs) line) := by
  have htakes : Takes ((c :: cs).takeWhile isNameContinue ++ (c :: cs).dropWhile isNameContinue)
      line (word (c :: cs) line) := by
    rw [word]
    -- a keyword is read back as itself, and any other word as a name
    cases hk : TokenKind.ofKeyword? (String.ofList ((c :: cs).takeWhile isNameContinue)) with
    | some kind =>
      have htext : kind.text = String.ofList ((c :: cs).takeWhile isNameContinue) := by
        simpa using List.find?_some hk
      have hmem : kind ∈ TokenKind.keywords := List.mem_of_find?_eq_some hk
      refine .plain ?_ ?_ fun d hd hgoes => not_of_head?_dropWhile d hd ?_
      · rw [Option.getD_some, ← htext]
        exact (TokenKind.ofText_text kind (List.mem_append_left _ hmem)).symm
      · rintro rfl
        exact absurd hmem (by decide)
      · rw [Option.getD_some] at hgoes
        revert hmem hgoes
        cases kind <;> first | exact fun _ h => h | exact fun h => absurd h (by decide)
    | none =>
      have hname : isNameContinue c := isNameContinue_of_isNameStart hc
      have hlexeme : isName ((c :: cs).takeWhile isNameContinue) := by
        rw [List.takeWhile_cons_of_pos hname] at hk ⊢
        rw [isName, hc, List.all_takeWhile, hk]
        rfl
      exact .plain (TokenKind.ofText_name hlexeme).symm (fun h => absurd h (by decide))
        not_of_head?_dropWhile
  rwa [List.takeWhile_append_dropWhile] at htakes

/-- `symbolKind` of a character is `illegal`, or a symbol with that character for its whole
text. -/
theorem symbolKind_cases (c : Char) : symbolKind c = .illegal ∨
    symbolKind c ∈ TokenKind.symbols ∧ (symbolKind c).text = String.ofList [c] := by
  unfold symbolKind
  split <;> first | exact .inl rfl | exact .inr (by decide)

theorem text_of_withEqual? {c : Char} {kind : TokenKind}
    (h : withEqual? (symbolKind c) = some kind) :
    kind ∈ TokenKind.symbols ∧ kind.text = String.ofList [c, '='] ∧ ∀ d, ¬kind.GoesOn d := by
  unfold symbolKind at h
  split at h <;> cases h <;> exact ⟨by decide, by decide, fun _ => id⟩

/-- A symbol of one character `GoesOn` with an equals sign, or with a second slash. -/
theorem symbolKind_goesOn {c d : Char} (h : (symbolKind c).GoesOn d) :
    withEqual? (symbolKind c) ≠ none ∧ d = '=' ∨ c = '/' ∧ d = '/' := by
  revert h
  unfold symbolKind
  split <;> intro h <;> first | exact h.elim | exact .inl ⟨nofun, h⟩ | exact .inr ⟨rfl, h⟩

theorem symbol_takes {c : Char} {cs : List Char} (hq : c ≠ '"') (hd : ¬c.isDigit)
    (hn : ¬isNameStart c) (hb : ¬isBlank c) (hslash : c = '/' → cs.head? ≠ some '/')
    (line : Nat) : Takes (c :: cs) line (symbol c cs line) := by
  by_cases hs : withEqual? (symbolKind c) = none ∨ cs.head? ≠ some '='
  · -- one character, because no equals sign follows or none would belong to it
    rw [symbol_of_ne hs]
    show Takes ([c] ++ cs) line _
    refine .plain ?_ (fun _ => ⟨c, rfl, hq, hb⟩) ?_
    · obtain hillegal | ⟨hmem, htext⟩ := symbolKind_cases c
      · rw [hillegal, TokenKind.ofText_illegal hillegal hd hn]
      · rw [← htext, TokenKind.ofText_text _ (List.mem_append_right _ hmem)]
    · intro d hd hgoes
      obtain ⟨hequal, rfl⟩ | ⟨hc, rfl⟩ := symbolKind_goesOn hgoes
      · exact hs.elim hequal fun hcs => hcs hd
      · exact hslash hc hd
  · -- two characters, and no symbol has a third one
    obtain ⟨hk, hcs⟩ := not_or.mp hs
    obtain ⟨kind, hk⟩ := Option.ne_none_iff_exists'.mp hk
    obtain ⟨rest, rfl⟩ := List.head?_eq_some_iff.mp (not_not.mp hcs)
    rw [symbol_of_equal hk]
    obtain ⟨hmem, htext, hend⟩ := text_of_withEqual? hk
    show Takes ([c, '='] ++ rest) line _
    refine .plain ?_ ?_ fun d _ => hend d
    · rw [← htext, TokenKind.ofText_text _ (List.mem_append_right _ hmem)]
    · rintro rfl
      exact absurd hmem (by decide)

/-- `scan` `Takes` its token off the text, if no blank and no comment comes first. -/
theorem scan_takes {c : Char} {cs : List Char} (hb : ¬isBlank c)
    (hslash : c = '/' → cs.head? ≠ some '/') (line : Nat) :
    Takes (c :: cs) line (scan ⟨c :: cs, line⟩) := by
  rw [scan]
  split
  · next hc =>
    rw [hc]
    exact string_takes cs line
  · next hq =>
    split
    · next hd => exact integer_takes hd line
    · next hd =>
      split
      · next hn => exact word_takes hn line
      · next hn => exact symbol_takes hq hd hn hb hslash line

/-- `Cursor.tokens` of a text tile it, by `Tiles`. -/
theorem tiles_tokens (ahead cs : List Char) (line : Nat) (hline : line = 1 + ahead.count '\n') :
    Tiles ahead (tokens ⟨cs, line⟩).1 cs := by
  -- the text ahead grows by each token, and its line feeds give the line of the next one
  induction cs, line using tokens_induct generalizing ahead with
  | blank cs line l h =>
    obtain ⟨g, rfl, hgap, -⟩ := gap_of_skipTrivia h
    rw [tokens_of_blank h, List.append_nil]
    exact .gap hgap
  | cons cs line x xs l h ih =>
    obtain ⟨g, hcs, hgap, hl⟩ := gap_of_skipTrivia h
    obtain ⟨hblank, hslash⟩ := stop_of_skipTrivia h
    obtain ⟨htext, htoken, hstands⟩ := scan_takes hblank hslash l
    have hcount := scan_count (ne_newline_of_skipTrivia h) xs l
    rw [tokens_of_cons h, hcs]
    revert ih htext htoken hstands hcount
    generalize scan ⟨x :: xs, l⟩ = scanned
    intro ih htext htoken hstands hcount
    obtain ⟨t, rest, l'⟩ := scanned
    dsimp only at htext htoken hstands hcount ih ⊢
    rw [htext] at hgap hcount ⊢
    rw [← List.append_assoc]
    refine .token hgap ?_ hstands (ih _ ?_)
    · rw [htoken, hl, hline, List.count_append, Nat.add_assoc]
    · -- the line feeds of the token itself are counted behind it
      rw [List.count_append] at hcount
      rw [List.count_append, List.count_append]
      omega

/-! ## Asking for tokens -/

theorem next_of_tokens_nil {c : Cursor} {l : Nat} (h : c.tokens = ([], l)) :
    c.next = (.eof l, ⟨[], l⟩) := by
  obtain ⟨cs, line⟩ := c
  rw [next]
  rcases hs : skipTrivia false cs line with ⟨_ | ⟨x, xs⟩, k⟩
  · rw [tokens_of_blank hs] at h
    cases h
    rfl
  · rw [tokens_of_cons hs] at h
    cases h

theorem next_of_tokens_cons {c : Cursor} {t : Token} {ts : List Token} {l : Nat}
    (h : c.tokens = (t :: ts, l)) : c.next.1 = t ∧ c.next.2.tokens = (ts, l) := by
  obtain ⟨cs, line⟩ := c
  rw [next]
  rcases hs : skipTrivia false cs line with ⟨_ | ⟨x, xs⟩, k⟩
  · rw [tokens_of_blank hs] at h
    cases h
  · rw [tokens_of_cons hs] at h
    cases h
    exact ⟨rfl, rfl⟩

theorem tokens_end (l : Nat) : tokens ⟨[], l⟩ = ([], l) := tokens_of_blank rfl

/-- `Cursor.lex` gives all tokens that there are to come, and the end. -/
theorem lex_eq (c : Cursor) :
    c.lex = (c.tokens.1 ++ [.eof c.tokens.2], ⟨[], c.tokens.2⟩) := by
  rcases hc : c.tokens with ⟨ts, l⟩
  induction ts generalizing c with
  | nil =>
    rw [lex, next_of_tokens_nil hc]
    rfl
  | cons t ts ih =>
    obtain ⟨ht, hts⟩ := next_of_tokens_cons hc
    have hkind : t.kind ≠ .eof := kind_ne_eof t (by rw [hc]; exact List.mem_cons_self)
    rw [lex, ht, dif_neg hkind, ih _ hts]
    rfl

end Cursor

/-- What a lexer may be asked for: `Cursor.next`, `Cursor.peek` and `Cursor.lex`. -/
inductive Request where
  | next
  | peek
  | lex
  deriving DecidableEq

namespace Cursor

/-- The tokens that a `Cursor` answers a request with, and where it is then. -/
def answer (c : Cursor) : Request → List Token × Cursor
  | .next => ([c.next.1], c.next.2)
  | .peek => ([c.peek], c)
  | .lex => c.lex

/-- The requests with each `Cursor.answer`. -/
def serve : List Request → Cursor → List (Request × List Token)
  | [], _ => []
  | r :: requests, c => (r, (c.answer r).1) :: serve requests (c.answer r).2

end Cursor

/-- The tokens that have been handed out by the log. What is only peeked at is not. -/
def delivered (log : List (Request × List Token)) : List Token :=
  log.flatMap fun e => if e.1 = .peek then [] else e.2

/-- The answer to a request once `k` of the tokens have been handed out: the token that comes
next, or all that are left, and the end. Behind the last token there is nothing but the end. -/
def Request.expected (ts : List Token) (last : Token) (k : Nat) : Request → List Token
  | .next | .peek => [ts.getD k last]
  | .lex => ts.drop k ++ [last]

/-- What is `Request.expected` comes first of what is left of the tokens and of the end behind
them. -/
theorem Request.expected_append {r : Request} (hr : r ≠ .peek) (ts : List Token)
    (last : Token) (k n : Nat) :
    ∃ j, r.expected ts last k ++
        (ts.drop (k + (r.expected ts last k).length) ++ List.replicate n last) =
      ts.drop k ++ List.replicate j last := by
  cases r with
  | peek => exact absurd rfl hr
  | next =>
    show ∃ j, [ts.getD k last] ++ (ts.drop (k + 1) ++ List.replicate n last) = _
    rw [List.getD_eq_getElem?_getD, ← List.head?_drop, ← List.tail_drop]
    cases ts.drop k with
    | nil => exact ⟨n + 1, rfl⟩
    | cons t rest => exact ⟨n, rfl⟩
  | lex =>
    have hdone : ts.drop (k + (Request.lex.expected ts last k).length) = [] := by
      refine List.drop_eq_nil_of_le ?_
      rw [Request.expected, List.length_append, List.length_drop, List.length_singleton]
      omega
    rw [hdone, Request.expected, List.append_assoc]
    exact ⟨n + 1, rfl⟩

namespace Cursor

section Serve

variable {c : Cursor} {ts : List Token} {l k : Nat}

/-- A cursor that has handed out `k` of the tokens. -/
def HasDelivered (ts : List Token) (l k : Nat) (c : Cursor) : Prop := c.tokens = (ts.drop k, l)

/-- `Cursor.answer` to one request is as `Request.expected`, and moves the cursor by what it has
`delivered`. -/
theorem HasDelivered.answer (h : c.HasDelivered ts l k) (r : Request) :
    (c.answer r).1 = r.expected ts (.eof l) k ∧
      (c.answer r).2.HasDelivered ts l (k + (delivered [(r, (c.answer r).1)]).length) := by
  have hnext : c.next.1 = ts.getD k (.eof l) ∧ c.next.2.HasDelivered ts l (k + 1) := by
    unfold HasDelivered at h ⊢
    rw [List.getD_eq_getElem?_getD, ← List.head?_drop, ← List.tail_drop]
    rcases hts : ts.drop k with _ | ⟨t, rest⟩ <;> rw [hts] at h
    · rw [next_of_tokens_nil h]
      exact ⟨rfl, tokens_end l⟩
    · exact next_of_tokens_cons h
  cases r with
  | next => exact ⟨congrArg ([·]) hnext.1, hnext.2⟩
  | peek => exact ⟨congrArg ([·]) hnext.1, h⟩
  | lex =>
    -- one more than what is left has been handed out then, so nothing is left to come
    have hlex : c.lex = (ts.drop k ++ [.eof l], ⟨[], l⟩) := by rw [lex_eq, h]
    refine ⟨congrArg Prod.fst hlex, ?_⟩
    have hlength : (delivered [(Request.lex, c.lex.1)]).length = (ts.length - k) + 1 := by
      simp [delivered, hlex]
    have hdone : ts.drop (k + ((ts.length - k) + 1)) = [] := List.drop_eq_nil_of_le (by omega)
    show tokens c.lex.2 = _
    rw [hlex, Cursor.answer, hlength, hdone]
    exact tokens_end l

/-- So is every answer by `Cursor.serve`. -/
theorem HasDelivered.serve (h : c.HasDelivered ts l k) (requests : List Request)
    (before behind : List (Request × List Token)) (r : Request) (answer : List Token)
    (hserve : Cursor.serve requests c = before ++ (r, answer) :: behind) :
    answer = r.expected ts (.eof l) (k + (delivered before).length) := by
  induction requests generalizing c k before with
  | nil => exact absurd hserve (by simp [Cursor.serve])
  | cons request requests ih =>
    obtain ⟨hanswer, hmoved⟩ := h.answer request
    rw [Cursor.serve] at hserve
    cases before with
    | nil =>
      cases hserve
      exact hanswer
    | cons first before =>
      rw [List.cons_append] at hserve
      obtain ⟨hfirst, hbehind⟩ := List.cons.inj hserve
      have hrest := ih hmoved before hbehind
      rw [Nat.add_assoc, ← List.length_append] at hrest
      rw [← hfirst]
      simpa [delivered] using hrest

/-- What is `delivered` is what is left of the tokens, and then the end over and over again. -/
theorem HasDelivered.delivered_isPrefix (h : c.HasDelivered ts l k) (requests : List Request) :
    ∃ n, delivered (Cursor.serve requests c) <+: ts.drop k ++ List.replicate n (.eof l) := by
  induction requests generalizing c k with
  | nil => exact ⟨0, List.nil_prefix⟩
  | cons r requests ih =>
    obtain ⟨hanswer, hmoved⟩ := h.answer r
    obtain ⟨n, hrest⟩ := ih hmoved
    have hlog : delivered (Cursor.serve (r :: requests) c) =
        delivered [(r, (c.answer r).1)] ++
          delivered (Cursor.serve requests (c.answer r).2) := by
      simp [Cursor.serve, delivered]
    rw [hlog]
    by_cases hr : r = .peek
    · subst hr
      exact ⟨n, hrest⟩
    · have hfirst : delivered [(r, (c.answer r).1)] = r.expected ts (.eof l) k := by
        rw [← hanswer]
        simp [delivered, hr]
      rw [hfirst] at hrest ⊢
      obtain ⟨j, hj⟩ := Request.expected_append hr ts (.eof l) k n
      exact ⟨j, hj ▸ (List.prefix_append_right_inj _).mpr hrest⟩

end Serve

/-- `Tiles` holds of the tokens of a source: with the white space and comments between them they
make it up again, each the longest that the table allows. None of them is the end, which is on
the line behind all line feeds, and only the last one may be a string without an end. Whatever
is requested of the lexer by `serve`, what it has `delivered` are these tokens in order and
then, again and again, the end; and every answer is the one `expected` after what was delivered
before, so that peeking shows what comes next and takes nothing off. -/
theorem tokens_tile (source : String) :
    Tiles [] (start source).tokens.1 source.toList ∧
      (start source).tokens.2 = 1 + source.toList.count '\n' ∧
      (∀ t ∈ (start source).tokens.1, t.kind ≠ .eof) ∧
      (∀ before t behind, (start source).tokens.1 = before ++ t :: behind →
        t.kind = .unterminatedString → behind = []) ∧
      ∀ requests,
        (∃ n, delivered (serve requests (start source)) <+:
          (start source).tokens.1 ++ List.replicate n (.eof (start source).tokens.2)) ∧
        ∀ before r answer behind,
          serve requests (start source) = before ++ (r, answer) :: behind →
          answer = r.expected (start source).tokens.1 (.eof (start source).tokens.2)
            (delivered before).length := by
  have htiles : Tiles [] (start source).tokens.1 source.toList :=
    tiles_tokens [] source.toList 1 rfl
  have hstart : (start source).HasDelivered (start source).tokens.1 (start source).tokens.2 0 :=
    rfl
  refine ⟨htiles, tokens_endLine source.toList 1, kind_ne_eof, ?_, fun requests => ⟨?_, ?_⟩⟩
  · exact fun before t behind hts ht => htiles.last_of_unterminatedString hts ht
  · exact hstart.delivered_isPrefix requests
  · intro before r answer behind hserve
    have hanswer := hstart.serve requests before behind r answer hserve
    rwa [Nat.zero_add] at hanswer

/-- A comment between a name and a string of two lines. The lexer is asked to `peek`, and then
for the token that it has shown. -/
theorem tokens_tile_comment :
    let source := "name // comment\n\"two\nlines\" <= 1"
    let ts := (start source).tokens.1
    ts.map (fun t => (t.kind, t.line)) = [(.ident, 1), (.string, 2), (.lesserEqual, 3),
      (.integer, 3)] ∧ Tiles [] ts source.toList ∧
      ∃ shown answer behind,
        serve [.peek, .next, .lex] (start source) =
          (.peek, shown) :: (.next, answer) :: behind ∧
        shown = Request.peek.expected ts (.eof 3) 0 ∧
        answer = Request.next.expected ts (.eof 3) 0 := by
  intro source ts
  obtain ⟨htiles, hlast, -, -, hserve⟩ := tokens_tile source
  have hlines : 1 + source.toList.count '\n' = 3 := by decide +kernel
  rw [hlast, hlines] at hserve
  refine ⟨by decide +kernel, htiles, _, _, _, rfl, ?_, ?_⟩
  · exact (hserve [.peek, .next, .lex]).2 [] _ _ _ rfl
  · exact (hserve [.peek, .next, .lex]).2 [(.peek, _)] _ _ _ rfl

end Cursor
end ScriptLang
