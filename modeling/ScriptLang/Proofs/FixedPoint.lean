import ScriptLang.Proofs.Faithful
import ScriptLang.Proofs.RoundTrip
import ScriptLang.Proofs.Spotless
import ScriptLang.Proofs.Survivors

/-!
# Printing what was parsed

The statements that survive the parser may be printed and parsed again. They come back as they
were printed if and only if they are canonical. For then they are read back as themselves; and
whatever is printed alike after a second parse is derived from its own spelling, so it is
canonical, and what is spelled as a canonical tree is canonical as well.

- `reprint_fixed_iff`: formed statements are printed alike after a second parse if and only if
  they are canonical.
- `Package.parse_reprint_iff`: the same for the statements of every source.
-/

namespace ScriptLang

open Grammar

variable {ns ms : List Node}

/-- Trees with the same `Node.print` have the same `Node.spell`. -/
theorem Formed.spell_of_print {m n : Node} (hn : Formed .parsed 0 .statement n)
    (hm : Formed .parsed 0 .statement m) (h : n.print = m.print) : n.spell 0 = m.spell 0 := by
  have hn := hn.lexemes_print [] nofun
  have hm := hm.lexemes_print [] nofun
  rw [h, hm] at hn
  simpa using hn.symm

/-- What is derived from a `reprint` is derived from `spellStatements`, but for lines. -/
theorem derives_reprint (h : ∀ n ∈ ns, Formed .parsed 0 .statement n)
    (hms : Derives .statements (Cursor.start (reprint ns)).tokens.1 ms) :
    Derives .statements (spellStatements 0 ns) (ms.map Node.bare) := by
  rw [← lexemes_reprint h]
  exact (derives_lexemes_iff _ _).mpr ⟨ms, hms, rfl⟩

/-- Statements that are derived from their own `spellStatements` are `Canonical`. -/
theorem canonical_of_reprint (h : ∀ n ∈ ns, Formed .parsed 0 .statement n)
    (hns : Derives .statements (spellStatements 0 ns) (ns.map Node.bare)) :
    ∀ n ∈ ns, Canonical n :=
  (statements_faithful h (fun n hn => (h n hn).faithful) hns
    (rfl : spellStatements 0 ns ++ [] = _ ++ []) (by simp) (by simp)).1

theorem map_print_of_bare (h : ms.map Node.bare = ns.map Node.bare) :
    ms.map Node.print = ns.map Node.print := by
  have hprint : ∀ ks : List Node, ks.map Node.print = (ks.map Node.bare).map Node.print := by
    intro ks
    rw [List.map_map]
    exact List.map_congr_left fun n _ => (n.print_relined _).symm
  rw [hprint ms, hprint ns, h]

theorem reprint_eq_of_print (h : ms.map Node.print = ns.map Node.print) :
    reprint ms = reprint ns := by
  have hflat : ∀ ks : List Node, (ks.flatMap fun n => n.print ++ [';', '\n']) =
      (ks.map Node.print).flatMap fun cs => cs ++ [';', '\n'] := by
    intro ks
    rw [List.flatMap_map]
  rw [reprint, reprint, hflat ms, hflat ns, h]

namespace Package

/-- Statements that are `Formed` are printed alike after a second `Package.parse` if and only if
they are `Canonical`. -/
theorem reprint_fixed_iff (name : String) (journal : Journal)
    (hns : ∀ n ∈ ns, Formed .parsed 0 .statement n) :
    (parse name (reprint ns) journal).1.errors = [] ∧
      (parse name (reprint ns) journal).1.package.nodes.map Node.print = ns.map Node.print ↔
        ∀ n ∈ ns, Canonical n := by
  constructor
  · rintro ⟨herrors, hprint⟩
    have hms := formed_parse name (reprint ns) journal
    have hderives := derives_of_parse herrors
    generalize (parse name (reprint ns) journal).1.package.nodes = ms at hprint hms hderives
    -- the trees of the second parse are derived from their own spelling
    rw [← reprint_eq_of_print hprint] at hderives
    have hcanonical := canonical_of_reprint hms (derives_reprint hms hderives)
    -- and those of the first are spelled as they are
    rintro n hn
    have hmem : n.print ∈ ms.map Node.print := by
      rw [hprint]
      exact List.mem_map_of_mem hn
    obtain ⟨m, hm, hmn⟩ := List.mem_map.mp hmem
    exact (hns n hn).canonical_of_spell (hcanonical m hm)
      ((hns n hn).spell_of_print (hms m hm) hmn.symm)
  · intro h
    obtain ⟨ms, hms, hbare⟩ := derives_of_canonical h
    rw [parse_of_derives hms]
    exact ⟨rfl, map_print_of_bare hbare⟩

/-- What survives `Package.parse` is printed by `reprint` to a source that parses without
diagnostics into statements with the same `Node.print`, if and only if each of the statements is
`Canonical`. -/
theorem parse_reprint_iff (name source : String) (journal journal' : Journal) :
    let ns := (parse name source journal).1.package.nodes
    let second := (parse name (reprint ns) journal').1
    second.errors = [] ∧ second.package.nodes.map Node.print = ns.map Node.print ↔
      ∀ n ∈ ns, Canonical n :=
  reprint_fixed_iff name journal' (formed_parse name source journal)

/-- An assignment that is an operand is printed without its parentheses, so the second parse
assigns more than the first. -/
theorem reprint_assigned_operand :
    let first := (parse "main" "(a = b) + c;" {}).1
    let second := (parse "main" (reprint first.package.nodes) {}).1
    first.errors = [] ∧ second.errors = [] ∧
      first.package.nodes.map Node.print = ["(a = b + c)".toList] ∧
      second.package.nodes.map Node.print = ["a = (b + c)".toList] ∧
      second.package.nodes.map Node.print ≠ first.package.nodes.map Node.print := by
  decide +kernel

end Package

end ScriptLang
