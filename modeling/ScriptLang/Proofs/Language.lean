import ScriptLang.Proofs.Acceptance
import ScriptLang.Proofs.Displaced
import ScriptLang.Proofs.Lexing
import ScriptLang.Proofs.Soundness

/-!
# The language of the parser

A source parses without a diagnostic exactly if `Grammar.Derives` derives its tokens, and then
its trees are those of the derivation. So a program has one derivation at most, and no token
order makes the parser drop a tree, or accept in silence what it could not read.

What the parser does with tokens does not depend on their lines, so derivations do not either.

- `Grammar.derives_statements_iff`: the tokens that `Grammar.statements` reads without a
  diagnostic.
- `Grammar.derives_relined_iff`: what is derived of the same tokens on other lines.
- `Package.parse_of_derives`, `Package.derives_of_parse`: the two directions for
  `Package.parse`.
- `Package.parse_iff_derives`: both of them, with the trees.
-/

namespace ScriptLang

open Grammar Reading ScriptLang.Parser

namespace Grammar

variable {ts : List Token} (hts : ∀ t ∈ ts, t.kind ≠ .eof)

include hts

/-- With enough depth, `Grammar.statements` gives the trees that `Derives` gives of the tokens,
without a diagnostic, and it does so only for tokens that are derived. -/
theorem derives_statements_iff {depth : Nat} (hdepth : depthFor ts.length ≤ depth) (e : Nat)
    (journal : Journal) (ns : List Node) :
    Derives .statements ts ns ↔
      ((rules depth).statements false ⟨ts, e, [], journal⟩).1 = some ns ∧
        ((rules depth).statements false ⟨ts, e, [], journal⟩).2.errors = [] := by
  constructor
  · intro h
    have hread : Reaches e ((rules depth).statements false) ns (ts ++ []) [] :=
      h.accepted depth false [] hdepth (.inl rfl)
    rw [List.append_nil] at hread
    obtain ⟨journal', hread⟩ := hread [] journal
    rw [hread]
    exact ⟨rfl, rfl⟩
  · rintro ⟨hnodes, herrors⟩
    obtain ⟨ns', r, hr, us, hus, htokens, hend⟩ :=
      (sound depth).statements ⟨ts, e, [], journal⟩ false hdepth herrors
    rw [hr] at hnodes
    cases hnodes
    -- the end of the source is no token, so nothing is left
    have hnil : r.tokens = [] := by
      obtain hend | ⟨⟨⟩, -⟩ := hend
      rw [Reading.current, headOf] at hend
      cases hrest : r.tokens with
      | nil => rfl
      | cons t rest =>
        rw [hrest] at hend htokens
        have hmem : t ∈ ts := by
          rw [show ts = us ++ t :: rest from htokens]
          exact List.mem_append_right _ List.mem_cons_self
        exact absurd hend (hts t hmem)
    rw [hnil, List.append_nil] at htokens
    rwa [← htokens] at hus

/-- `Derives` holds of tokens on other lines and the same trees on these lines. -/
theorem derives_relined_iff (f : Nat → Nat) (ns' : List Node) :
    Derives .statements (ts.map (Token.relined f)) ns' ↔
      ∃ ns, Derives .statements ts ns ∧ ns.map (Node.relined f) = ns' := by
  have hts' : ∀ t ∈ ts.map (Token.relined f), t.kind ≠ .eof := by
    intro t ht
    obtain ⟨u, hu, rfl⟩ := List.mem_map.mp ht
    exact hts u hu
  have hdepth : depthFor (ts.map (Token.relined f)).length ≤ depthFor ts.length := by
    rw [List.length_map]
  obtain ⟨hnodes, herrors⟩ := statements_relined f (depthFor ts.length) false ts 0 [] {} {}
  rw [derives_statements_iff hts' hdepth (f 0) {}, hnodes, herrors, List.nil_append,
    List.map_eq_nil_iff, Option.map_eq_some_iff]
  constructor
  · rintro ⟨⟨ns, hns, hmap⟩, hnone⟩
    exact ⟨ns, (derives_statements_iff hts le_rfl 0 {} ns).mpr ⟨hns, hnone⟩, hmap⟩
  · rintro ⟨ns, h, hmap⟩
    obtain ⟨hns, hnone⟩ := (derives_statements_iff hts le_rfl 0 {} ns).mp h
    exact ⟨⟨ns, hns, hmap⟩, hnone⟩

end Grammar

namespace Package

variable {name source : String} {ns : List Node}

/-- `Package.parse` gives what the grammar `Derives`, without a diagnostic. -/
theorem parse_of_derives (h : Derives .statements (Cursor.start source).tokens.1 ns)
    (journal : Journal) : (Package.parse name source journal).1 = ⟨⟨name, ns⟩, []⟩ := by
  obtain ⟨journal', hnodes, herrors⟩ :=
    parse_of_statements name source journal .failing rfl (depthFor _) le_rfl
  obtain ⟨hns, hnone⟩ := (derives_statements_iff Cursor.kind_ne_eof le_rfl _ journal' ns).mp h
  have hparse : (Package.parse name source journal).1 =
      ⟨⟨name, (Package.parse name source journal).1.package.nodes⟩,
        (Package.parse name source journal).1.errors⟩ := rfl
  rw [hparse, Option.some_inj.mp (hnodes.symm.trans hns), herrors.symm.trans hnone]

/-- What `Package.parse` gives without a diagnostic is what the grammar `Derives`. -/
theorem derives_of_parse {journal : Journal}
    (h : (Package.parse name source journal).1.errors = []) :
    Derives .statements (Cursor.start source).tokens.1
      (Package.parse name source journal).1.package.nodes := by
  obtain ⟨journal', hnodes, herrors⟩ :=
    parse_of_statements name source journal .failing rfl (depthFor _) le_rfl
  exact (derives_statements_iff Cursor.kind_ne_eof le_rfl _ journal' _).mpr
    ⟨hnodes, herrors.trans h⟩

/-- `Package.parse` has no diagnostics exactly if the grammar `Derives` some trees from the
tokens of the source, and then the package is made of these trees. -/
theorem parse_iff_derives (name source : String) (journal : Journal) :
    ((Package.parse name source journal).1.errors = [] ↔
      ∃ ns, Derives .statements (Cursor.start source).tokens.1 ns) ∧
    ∀ ns, Derives .statements (Cursor.start source).tokens.1 ns →
      (Package.parse name source journal).1.package = ⟨name, ns⟩ := by
  refine ⟨⟨fun h => ⟨_, derives_of_parse h⟩, ?_⟩, ?_⟩
  · rintro ⟨ns, h⟩
    rw [parse_of_derives h]
  · intro ns h
    rw [parse_of_derives h]

end Package

end ScriptLang
