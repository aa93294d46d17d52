import ScriptLang.Proofs.Displaced
import ScriptLang.Proofs.Lexing
import ScriptLang.Proofs.Locality

/-!
# One source behind another

A source that ends on a symbol may be put in front of any other source: the tokens are those of
the first one and, on later lines, those of the second. If its statement ends on that symbol,
too, whatever follows, then the trees and the diagnostics are those of the two sources, one
behind the other.

- `Source.EndsOn`: a source that ends on a symbol.
- `Source.tokens_append`: the tokens of such a source and another one behind it.
- `Rules.statements_append`: a statement that ends on a token, and the statements behind it.
- `Package.parse_append`: the parses of two sources, one behind the other.
-/

namespace ScriptLang

open Text Grammar ScriptLang.Parser

/-! ## Tokens -/

/-- A character that `Cursor.Separates` what is around it and is a token of its own, except
inside of strings and comments. -/
structure Cursor.StandsAlone (c : Char) : Prop extends Cursor.Separates c where
  isBlank : ¬isBlank c
  ne_quote : c ≠ '"'
  isNameStart : ¬isNameStart c
  withEqual? : withEqual? (symbolKind c) = none

theorem Cursor.StandsAlone.tokens {c : Char} (h : StandsAlone c) (rest : List Char)
    (line : Nat) :
    tokens ⟨c :: rest, line⟩ =
      (⟨symbolKind c, line, String.ofList [c]⟩ :: (tokens ⟨rest, line⟩).1,
      (tokens ⟨rest, line⟩).2) := by
  have hscan :
      scan ⟨c :: rest, line⟩ = (⟨symbolKind c, line, String.ofList [c]⟩, ⟨rest, line⟩) := by
    rw [scan, if_neg h.ne_quote, if_neg (by simp [h.isDigit]), if_neg h.isNameStart,
      symbol_of_ne (.inl h.withEqual?)]
  rw [tokens_of_cons (skipTrivia_of_token h.isBlank (.inl h.ne_slash) line), hscan]

theorem Cursor.standsAlone_semicolon : StandsAlone ';' :=
  ⟨⟨by decide, by decide, by decide, by decide⟩, by decide, by decide, by decide, rfl⟩

theorem Cursor.standsAlone_rightBrace : StandsAlone '\x7d' :=
  ⟨⟨by decide, by decide, by decide, by decide⟩, by decide, by decide, by decide, rfl⟩

namespace Source

/-- The number of line feeds in a source, by which `Token.relined` moves what is behind it. -/
def lineFeeds (source : String) : Nat := source.toList.count '\n'

/-- The tokens of `source` are `us` and `s`, where `s` is the last character `c`. -/
structure EndsOn (source : String) (us : List Token) (c : Char) (s : Token) : Prop where
  kind : s.kind = Cursor.symbolKind c
  tokens : (Cursor.start source).tokens.1 = us ++ [s]
  body : ∃ body, source.toList = body ++ [c] ∧ (Cursor.tokens ⟨body, 1⟩).1 = us

variable {first : String} {us : List Token} {c : Char} {s : Token}

/-- If `first` `EndsOn` a character that `StandsAlone`, then `Cursor.start` of two sources has
the tokens of the one and, on later lines, those of the other. -/
theorem EndsOn.tokens_append (h : EndsOn first us c s) (hc : Cursor.StandsAlone c)
    (hus : ∀ t ∈ us, t.kind ≠ .unterminatedString) (second : String) :
    (Cursor.start (first ++ second)).tokens =
      (us ++ s :: (Cursor.start second).tokens.1.map (Token.relined (· + lineFeeds first)),
        (Cursor.start second).tokens.2 + lineFeeds first) := by
  obtain ⟨body, hbody, rfl⟩ := h.body
  have hfirst : (Cursor.start first).tokens = Cursor.tokens ⟨body ++ [c], 1⟩ := by
    rw [Cursor.start, hbody]
  have hcut (rest : List Char) :
      Cursor.tokens ⟨body ++ c :: rest, 1⟩ =
        ((Cursor.tokens ⟨body, 1⟩).1 ++ ⟨Cursor.symbolKind c, 1 + body.count '\n',
          String.ofList [c]⟩ ::
            (Cursor.tokens ⟨rest, 1 + body.count '\n'⟩).1,
          (Cursor.tokens ⟨rest, 1 + body.count '\n'⟩).2) := by
    rw [Cursor.tokens_append_of_token hc.toSeparates hus, Cursor.tokens_endLine, hc.tokens]
    rw [← hfirst, h.tokens]
    simp
  -- the token at the end is the one that the symbol makes by itself: cut the source where
  -- nothing is left
  have hs : s = ⟨Cursor.symbolKind c, 1 + body.count '\n', String.ofList [c]⟩ := by
    have hend (line : Nat) : Cursor.tokens ⟨[], line⟩ = ([], line) := Cursor.tokens_of_blank rfl
    have hlast := h.tokens
    rw [hfirst, hcut [], hend] at hlast
    exact (List.singleton_inj.mp (List.append_cancel_left hlast)).symm
  have hne : c ≠ '\n' := fun hn => hc.isBlank (by rw [hn]; decide)
  have hfeeds : lineFeeds first = body.count '\n' := by
    rw [lineFeeds, hbody, List.count_append, List.count_singleton, if_neg (by simpa using hne),
      Nat.add_zero]
  rw [hs, hfeeds, Cursor.start, String.toList_append, hbody, List.append_assoc,
    List.singleton_append, hcut, Cursor.tokens_shift (body.count '\n') second.toList 1]
  rfl

theorem EndsOn.kind_ne_eof (h : EndsOn first us c s) : ∀ t ∈ us ++ [s], t.kind ≠ .eof := by
  intro t ht
  rw [← h.tokens] at ht
  exact Cursor.kind_ne_eof t ht

end Source

/-! ## Statements -/

/-- `>>=` with `pure` behind it sends the result through a function. -/
theorem Parser.bind_pure {α β : Type} {p : Parser α} (g : α → β) (r : Reading) :
    (p >>= fun a => pure (g a)) r = ((p r).1.map g, (p r).2) := by
  rcases h : p r with ⟨_ | a, r'⟩
  · rw [bind_of_none h]
    rfl
  · rw [bind_of_some h]
    rfl

namespace Rules

variable {rules : Rules} {s : Token} {w : List Token} {o : Option Node} {ds : List Diagnostic}

/-- `statements` is `orRecover` of one statement, and `statements` of the rules below behind
it. -/
theorem statements_cons {inBlock : Bool} {r r' : Reading}
    (ho : orRecover rules.statement r = (some o, r'))
    (hgo : ¬(r.current.kind = .eof ∨ inBlock ∧ r.current.kind = .rightBrace)) :
    rules.level.statements inBlock r =
      let run := rules.statements inBlock (advance r').2
      (run.1.map (o.toList ++ ·), run.2) := by
  show (if _ then _ else _ : Parser (List Node)) r = _
  rw [if_neg hgo, bind_of_some ho]
  exact bind_pure (o.toList ++ ·) (advance r').2

/-- If `orRecover` of a statement `Goes` to `s`, then `statements` goes on with the tokens
behind `s`. -/
theorem statements_append (hw : (w.headD s).kind ≠ .eof)
    (h : Goes s (orRecover rules.statement) w (some o) ds []) (rest : List Token) (e : Nat)
    (errors : List Diagnostic) (journal : Journal) :
    ∃ journal', rules.level.statements false ⟨w ++ s :: rest, e, errors, journal⟩ =
      let run := rules.statements false ⟨rest, e, errors ++ ds, journal'⟩
      (run.1.map (o.toList ++ ·), run.2) := by
  obtain ⟨journal', h⟩ := h rest e errors journal
  have hcurrent : Reading.current ⟨w ++ s :: rest, e, errors, journal⟩ = w.headD s :=
    headOf_append w s rest e
  exact ⟨_, statements_cons h (by rw [hcurrent]; simpa using hw)⟩

end Rules

namespace Package

open Source

variable {first : String} {us : List Token} {c : Char} {s : Token} (h : EndsOn first us c s)
  (hc : Cursor.StandsAlone c) (hus : ∀ t ∈ us, t.kind ≠ .unterminatedString)

include h in
/-- If `orRecover` of a statement `Goes` to the last token, then `Package.parse` gives that
statement and nothing else. -/
theorem parse_of_goes {beyond : Rules} {depth : Nat} {o : Option Node} {ds : List Diagnostic}
    (hdepth : depthFor (us.length + 1) ≤ depth + 1)
    (hgoes : Goes s (orRecover (beyond.nest depth).statement) us (some o) ds []) (name : String)
    (journal : Journal) :
    (Package.parse name first journal).1.package.nodes = o.toList ∧
      (Package.parse name first journal).1.errors = ds := by
  rcases ht : (Cursor.start first).tokens with ⟨ts, e⟩
  obtain rfl : ts = us ++ [s] := by rw [← h.tokens, ht]
  obtain ⟨journal', hnodes, herrors⟩ :=
    parse_of_statements name _ journal beyond ht (depth + 1) (by simpa using hdepth)
  obtain ⟨journal'', hstep⟩ :=
    Rules.statements_append (h.kind_ne_eof _ (by cases us <;> simp)) hgoes [] e [] journal'
  obtain ⟨depth, rfl⟩ : ∃ k, depth = k + 1 :=
    Nat.exists_eq_add_of_le' (by rw [depthFor] at hdepth; omega)
  have hnil : (beyond.nest (depth + 1)).statements false ⟨[], e, [] ++ ds, journal''⟩ =
      (some [], ⟨[], e, [] ++ ds, journal''⟩) := rfl
  rw [Rules.nest, hstep, hnil] at hnodes herrors
  exact ⟨by simpa using (Option.some_inj.mp hnodes).symm, herrors.symm⟩

include h hc hus

/-- If so it goes whatever follows, then `Package.parse` of two sources gives what it gives for
the one and, on later lines, for the other. -/
theorem parse_append (beyond : Rules)
    (hgoes : ∀ depth, depthFor (us.length + 1) ≤ depth →
      ∃ o ds, Goes s (orRecover (beyond.nest depth).statement) us (some o) ds [])
    (name second : String) (journal : Journal) :
    let one := (Package.parse name first journal).1
    let two := (Package.parse name second journal).1
    let both := (Package.parse name (first ++ second) journal).1
    one.package.nodes.length ≤ 1 ∧
      both.package.nodes = one.package.nodes ++
        two.package.nodes.map (Node.relined (· + lineFeeds first)) ∧
      both.errors = one.errors ++
        two.errors.map (Diagnostic.relined (· + lineFeeds first)) := by
  intro one two both
  have ht := h.tokens_append hc hus second
  rcases ht₂ : (Cursor.start second).tokens with ⟨ts₂, e₂⟩
  rw [ht₂] at ht
  generalize hdepth : depthFor (us.length + 1 + ts₂.length) = depth
  rw [depthFor] at hdepth
  obtain ⟨o, ds, hgoes⟩ := hgoes depth (by rw [depthFor]; omega)
  obtain ⟨hone, rfl⟩ : one.package.nodes = o.toList ∧ one.errors = ds :=
    parse_of_goes h (by rw [depthFor]; omega) hgoes name journal
  -- in front of the second source the statement leaves those of
  -- that source, on other lines; they are read at whatever depth,
  -- over whatever rules, and so as the second source is by itself
  obtain ⟨j₂, hnodes₂, herrors₂⟩ :=
    parse_of_statements name _ journal .failing ht₂ depth (by rw [depthFor]; omega)
  obtain ⟨j, hnodes, herrors⟩ :=
    parse_of_statements name _ journal beyond ht (depth + 1) (by simp [depthFor]; omega)
  obtain ⟨j', hstep⟩ := Rules.statements_append (h.kind_ne_eof _ (by cases us <;> simp)) hgoes
    (ts₂.map (Token.relined (· + lineFeeds first))) (e₂ + lineFeeds first) [] j
  rw [Rules.nest, hstep, Rules.statements_nest_eq (by simp [depthFor]; omega)
    (Nat.le_refl depth) beyond .failing] at hnodes herrors
  obtain ⟨hrelined, hrelined'⟩ :=
    statements_relined (· + lineFeeds first) depth false ts₂ e₂ ([] ++ one.errors) j₂ j'
  rw [Grammar.rules] at hrelined hrelined'
  dsimp only at hnodes herrors hnodes₂ herrors₂ hrelined hrelined'
  rw [hrelined, hnodes₂, Option.map_some, Option.map_some, ← hone] at hnodes
  rw [hrelined', herrors₂, List.nil_append] at herrors
  refine ⟨?_, (Option.some_inj.mp hnodes).symm, herrors.symm⟩
  rw [hone]
  cases o <;> simp

end Package
end ScriptLang
