import Mathlib.Tactic.Ring
import Mathlib.Tactic.Tauto
import ScriptLang.Syntax.Printed

/-!
# Indented text

A block puts each line of its statements behind a tab. So a statement inside of several blocks
is printed with as many tabs behind each of its line feeds, and a carriage return in front of a
line feed is lost. This holds for every line feed, and the lexer sees those inside of strings.

- `Text.tabbed`: text with a tab behind each line feed.
- `Text.sink`: text as it is printed inside of a number of blocks.
- `Text.indented_lines`: what a block does to the text of a statement.
- `Text.sink_ne`: text that spans lines is not the same inside of a block.
-/

namespace ScriptLang.Text

/-- Text with a tab behind each line feed, and without carriage returns in front of them: what
`indented` does to a statement. -/
def tabbed : List Char → List Char
  | [] => []
  | '\n' :: cs => '\n' :: '\t' :: tabbed cs
  | '\r' :: '\n' :: cs => '\n' :: '\t' :: tabbed cs
  | c :: cs => c :: tabbed cs

/-- Text as it is printed inside of a number of blocks, each of which has `tabbed` it. -/
def sink : Nat → List Char → List Char
  | 0, cs => cs
  | d + 1, cs => sink d (tabbed cs)

/-- The text `cs` does not end inside of a line end. -/
def Firm (cs : List Char) : Prop := cs.getLast? ≠ some '\r'

/-- The text `cs` ends on a character that ends no line. -/
def Solid (cs : List Char) : Prop := ∃ c, cs.getLast? = some c ∧ c ≠ '\r' ∧ c ≠ '\n'

/-- A text that is `Solid` is `Firm`. -/
theorem Solid.firm {cs : List Char} (h : Solid cs) : Firm cs := by
  obtain ⟨c, hc, hr, -⟩ := h
  rw [Firm, hc]
  simpa using hr

/-- A text stays `Firm` without its first character. -/
theorem Firm.of_cons {c : Char} {cs : List Char} (h : Firm (c :: cs)) : Firm cs := by
  intro hr
  cases cs with
  | nil => cases hr
  | cons d cs => exact h (by rw [List.getLast?_cons_cons, hr])

/-- A text is `Solid` by its end. -/
theorem Solid.append (cs : List Char) {ds : List Char} (h : Solid ds) : Solid (cs ++ ds) := by
  obtain ⟨c, hc, h⟩ := h
  refine ⟨c, ?_, h⟩
  rw [List.getLast?_append, hc]
  rfl

/-- The empty text is not `Solid`. -/
theorem Solid.ne_nil {cs : List Char} (h : Solid cs) : cs ≠ [] := by
  rintro rfl
  obtain ⟨c, hc, -⟩ := h
  cases hc

/-! ## Tabs behind line feeds -/

section Tabbed

variable {c : Char} {cs ds : List Char}

@[simp] theorem tabbed_nil : tabbed [] = [] := rfl

/-- The first rule of `tabbed`: a tab comes behind a line feed. -/
@[simp] theorem tabbed_newline : tabbed ('\n' :: cs) = '\n' :: '\t' :: tabbed cs := rfl

/-- The second rule of `tabbed`: the carriage return of a line end is lost. -/
@[simp] theorem tabbed_lineEnd : tabbed ('\r' :: '\n' :: cs) = '\n' :: '\t' :: tabbed cs := rfl

/-- `tabbed` leaves all else as it is: a carriage return is lost only if a line feed follows
it. -/
theorem tabbed_other (hn : c ≠ '\n') (hr : c = '\r' → cs.head? ≠ some '\n') :
    tabbed (c :: cs) = c :: tabbed cs := by
  rw [tabbed]
  · exact hn
  · rintro ds hc rfl
    exact hr hc rfl

theorem tabbed_cons (hc : c ≠ '\r' ∧ c ≠ '\n') : tabbed (c :: cs) = c :: tabbed cs :=
  tabbed_other hc.2 fun h => absurd h hc.1

/-- `tabbed` leaves a carriage return that ends no line. -/
theorem tabbed_return (h : cs.head? ≠ some '\n') : tabbed ('\r' :: cs) = '\r' :: tabbed cs :=
  tabbed_other (by decide) fun _ => h

/-- Induction over text by the cases of `tabbed`, line end by line end. -/
theorem induct_tabbed {P : List Char → Prop} (nil : P [])
    (newline : ∀ cs, P cs → P ('\n' :: cs)) (lineEnd : ∀ cs, P cs → P ('\r' :: '\n' :: cs))
    (other : ∀ c cs, c ≠ '\n' → (c = '\r' → cs.head? ≠ some '\n') → P cs → P (c :: cs))
    (cs : List Char) : P cs := by
  fun_induction tabbed cs with
  | case1 => exact nil
  | case2 cs ih => exact newline cs ih
  | case3 cs ih => exact lineEnd cs ih
  | case4 c cs hn hr ih =>
    refine other c cs hn (fun hc hd => ?_) ih
    cases cs with
    | nil => cases hd
    | cons d ds => exact hr ds hc (by rw [Option.some_inj.mp hd])

/-- `tabbed` goes through `++`, unless a line end is cut in two. -/
theorem tabbed_append (h : Firm cs ∨ ds.head? ≠ some '\n') :
    tabbed (cs ++ ds) = tabbed cs ++ tabbed ds := by
  induction cs using induct_tabbed with
  | nil => rfl
  | newline cs ih =>
    rw [List.cons_append, tabbed_newline, ih (h.imp_left Firm.of_cons)]
    rfl
  | lineEnd cs ih =>
    rw [List.cons_append, List.cons_append, tabbed_lineEnd,
      ih (h.imp_left fun h => h.of_cons.of_cons)]
    rfl
  | other c cs hn hr ih =>
    rw [tabbed_other hn hr]
    -- a carriage return at the cut could become part of a line end
    by_cases hc : c = '\r'
    · subst hc
      have hnext : (cs ++ ds).head? ≠ some '\n' := by
        cases cs with
        | nil => exact h.resolve_left fun h => h rfl
        | cons d cs => exact hr rfl
      have hcs : Firm cs ∨ ds.head? ≠ some '\n' := by
        cases cs with
        | nil => exact .inr hnext
        | cons d cs => exact h.imp_left Firm.of_cons
      rw [List.cons_append, tabbed_return hnext, ih hcs]
      rfl
    · rw [List.cons_append, tabbed_cons ⟨hc, hn⟩, ih (h.imp_left Firm.of_cons)]
      rfl

/-- `tabbed` leaves text of one line as it is. -/
theorem tabbed_of_not_mem (h : '\n' ∉ cs) : tabbed cs = cs := by
  induction cs with
  | nil => rfl
  | cons c cs ih =>
    obtain ⟨hc, hcs⟩ : '\n' ≠ c ∧ '\n' ∉ cs := by simpa using h
    rw [tabbed_other (Ne.symm hc) fun _ hd => hcs (List.mem_of_mem_head? hd), ih hcs]

/-- `tabbed` brings in tabs and nothing else. -/
theorem mem_of_mem_tabbed (h : c ∈ tabbed cs) : c ∈ cs ∨ c = '\t' := by
  induction cs using induct_tabbed with
  | nil => exact .inl h
  | newline cs ih =>
    simp only [tabbed_newline, List.mem_cons] at h ⊢
    tauto
  | lineEnd cs ih =>
    simp only [tabbed_lineEnd, List.mem_cons] at h ⊢
    tauto
  | other d cs hn hr ih =>
    simp only [tabbed_other hn hr, List.mem_cons] at h ⊢
    tauto

theorem tabbed_eq_nil : tabbed cs = [] ↔ cs = [] := by
  induction cs using induct_tabbed with
  | nil | newline | lineEnd => simp
  | other c cs hn hr => simp [tabbed_other hn hr]

theorem getLast?_of_cons {d : Char} (h : (c :: cs).getLast? = some d) (hc : c ≠ d) :
    cs.getLast? = some d := by
  cases cs with
  | nil => exact absurd (Option.some_inj.mp h) hc
  | cons => rwa [List.getLast?_cons_cons] at h

theorem getLast?_cons_of {d : Char} (h : cs.getLast? = some d) :
    (c :: cs).getLast? = some d := by
  cases cs with
  | nil => cases h
  | cons => rwa [List.getLast?_cons_cons]

/-- If `tabbed` text ends on a carriage return, it has done so before. -/
theorem getLast?_of_tabbed (h : (tabbed cs).getLast? = some '\r') :
    cs.getLast? = some '\r' := by
  induction cs using induct_tabbed with
  | nil => exact h
  | newline cs ih =>
    rw [tabbed_newline] at h
    exact getLast?_cons_of (ih (getLast?_of_cons (getLast?_of_cons h (by decide)) (by decide)))
  | lineEnd cs ih =>
    rw [tabbed_lineEnd] at h
    have h := getLast?_of_cons (getLast?_of_cons h (by decide)) (by decide)
    exact getLast?_cons_of (getLast?_cons_of (ih h))
  | other c cs hn hr ih =>
    rw [tabbed_other hn hr] at h
    by_cases hcs : cs = []
    · subst hcs
      exact h
    · obtain ⟨d, ds, hd⟩ := List.exists_cons_of_ne_nil (tabbed_eq_nil.not.mpr hcs)
      rw [hd] at h ih
      rw [List.getLast?_cons_cons] at h
      exact getLast?_cons_of (ih h)

/-- `tabbed` leaves the last character what it is, by `getLast?_of_tabbed`. -/
theorem Firm.tabbed (h : Firm cs) : Firm (tabbed cs) := fun hr => h (getLast?_of_tabbed hr)

/-- `tabbed` loses no line feed and adds none. -/
theorem count_newline_tabbed (cs : List Char) : (tabbed cs).count '\n' = cs.count '\n' := by
  induction cs using induct_tabbed with
  | nil => rfl
  | newline cs ih | lineEnd cs ih => simp [ih]
  | other c cs hn hr ih => simp [tabbed_other hn hr, hn, ih]

/-- `tabbed` adds a tab for each line feed. -/
theorem count_tab_tabbed (cs : List Char) :
    (tabbed cs).count '\t' = cs.count '\t' + cs.count '\n' := by
  induction cs using induct_tabbed with
  | nil => rfl
  | newline cs ih | lineEnd cs ih =>
    simp [ih]
    omega
  | other c cs hn hr ih =>
    simp [tabbed_other hn hr, List.count_cons, hn, ih]
    omega

end Tabbed

/-! ## Text inside of blocks -/

section Sink

variable {d : Nat} {c : Char} {cs ds : List Char}

theorem sink_succ : sink (d + 1) cs = sink d (tabbed cs) := rfl

@[simp] theorem sink_nil : sink d [] = [] := by
  induction d with
  | zero => rfl
  | succ d ih => exact ih

/-- `sink` goes through `++` where `tabbed` does at every one of the `d` blocks. -/
theorem sink_append (h : Firm cs) : sink d (cs ++ ds) = sink d cs ++ sink d ds := by
  induction d generalizing cs ds with
  | zero => rfl
  | succ d ih => rw [sink_succ, tabbed_append (.inl h), ih h.tabbed, sink_succ, sink_succ]

theorem sink_cons (hc : c ≠ '\r' ∧ c ≠ '\n') : sink d (c :: cs) = c :: sink d cs := by
  induction d generalizing cs with
  | zero => rfl
  | succ d ih => rw [sink_succ, tabbed_cons hc, ih, sink_succ]

/-- `sink` puts as many tabs behind a line feed as there are blocks. -/
theorem sink_newline : sink d ('\n' :: cs) = '\n' :: (List.replicate d '\t' ++ sink d cs) := by
  induction d generalizing cs with
  | zero => rfl
  | succ d ih =>
    rw [sink_succ, tabbed_newline, ih, sink_cons (by decide), sink_succ, List.replicate_succ',
      List.append_assoc]
    rfl

/-- `sink` leaves text of one line as it is. -/
theorem sink_of_not_mem (h : '\n' ∉ cs) : sink d cs = cs := by
  induction d with
  | zero => rfl
  | succ d ih => rw [sink_succ, tabbed_of_not_mem h, ih]

/-- `sink` brings in tabs and nothing else. -/
theorem not_mem_sink (hc : c ≠ '\t') (h : c ∉ cs) : c ∉ sink d cs := by
  induction d generalizing cs with
  | zero => exact h
  | succ d ih => exact ih fun hm => (mem_of_mem_tabbed hm).elim h hc

/-- A string inside of blocks. -/
theorem sink_string : sink d (cs ++ ['"']) = sink d cs ++ ['"'] := by
  induction d generalizing cs with
  | zero => rfl
  | succ d ih =>
    rw [sink_succ, tabbed_append (.inr (by decide))]
    exact ih

/-- `sink` loses no line feed and adds none. -/
theorem count_newline_sink : (sink d cs).count '\n' = cs.count '\n' := by
  induction d generalizing cs with
  | zero => rfl
  | succ d ih => rw [sink_succ, ih, count_newline_tabbed]

theorem newline_mem_sink : '\n' ∈ sink d cs ↔ '\n' ∈ cs := by
  rw [← List.count_pos_iff, count_newline_sink, List.count_pos_iff]

/-- `sink` adds a tab for each line feed and block. -/
theorem count_tab_sink : (sink d cs).count '\t' = cs.count '\t' + d * cs.count '\n' := by
  induction d generalizing cs with
  | zero => simp [sink]
  | succ d ih =>
    rw [sink_succ, ih, count_tab_tabbed, count_newline_tabbed]
    ring

/-- `sink` changes text that spans lines, if there is a block. -/
theorem sink_ne (hd : 0 < d) (h : '\n' ∈ cs) : sink d cs ≠ cs := by
  intro he
  have hcount := congrArg (List.count '\t') he
  have hpos := Nat.mul_pos hd (List.count_pos_iff.mpr h)
  rw [count_tab_sink] at hcount
  omega

end Sink

/-! ## The text of a statement in a block -/

theorem lines_eq_nil {cs : List Char} : lines cs = [] ↔ cs = [] := by
  fun_cases lines cs <;> simp

/-- `Solid` text stays so when a character in front is dropped, if any text is left. -/
theorem Solid.of_cons {c : Char} {cs : List Char} (h : Solid (c :: cs)) (hcs : cs ≠ []) :
    Solid cs := by
  obtain ⟨d, hd, h⟩ := h
  obtain ⟨e, es, rfl⟩ := List.exists_cons_of_ne_nil hcs
  exact ⟨d, by rwa [List.getLast?_cons_cons] at hd, h⟩

theorem not_solid_newline : ¬Solid ['\n'] := by
  rintro ⟨c, hc, -, hn⟩
  exact hn (Option.some_inj.mp hc).symm

/-- `indented` puts a tab in front of a statement, and behind each of its line feeds as `tabbed`
does. -/
theorem indented_lines {cs : List Char} (h : Solid cs) :
    indented (lines cs) = '\t' :: (tabbed cs ++ [';', '\n']) := by
  -- a line feed is never the last character, so there is a line behind it
  have newline {cs : List Char} (hcs : cs ≠ [])
      (ih : indented (lines cs) = '\t' :: (tabbed cs ++ [';', '\n'])) :
      indented ([] :: lines cs) = '\t' :: '\n' :: '\t' :: (tabbed cs ++ [';', '\n']) := by
    obtain ⟨l, ls, hl⟩ := List.exists_cons_of_ne_nil (lines_eq_nil.not.mpr hcs)
    rw [hl] at ih ⊢
    rw [indented, ih]
    · rfl
    · nofun
  fun_induction lines cs with
  | case1 => exact absurd rfl h.ne_nil
  | case2 cs ih =>
    have hcs : cs ≠ [] := by
      rintro rfl
      exact not_solid_newline h
    exact newline hcs (ih (h.of_cons hcs))
  | case3 cs ih =>
    have hcs : cs ≠ [] := by
      rintro rfl
      exact not_solid_newline (h.of_cons (by simp))
    exact newline hcs (ih ((h.of_cons (by simp)).of_cons hcs))
  | case4 c cs hn hr hl ih =>
    have hcs := lines_eq_nil.mp hl
    subst hcs
    have hc : tabbed [c] = [c] := tabbed_of_not_mem (by simpa using fun h => hn h.symm)
    rw [hc]
    rfl
  | case5 c cs hn hr l ls hl ih =>
    have hcs : cs ≠ [] := by
      rintro rfl
      cases hl
    have ih := ih (h.of_cons hcs)
    have hc : tabbed (c :: cs) = c :: tabbed cs := by
      refine tabbed_other hn fun hc hd => ?_
      obtain ⟨d, ds, rfl⟩ := List.exists_cons_of_ne_nil hcs
      exact hr ds hc (by rw [Option.some_inj.mp hd])
    rw [hc]
    rw [hl] at ih
    cases ls with
    | nil =>
      rw [indented, List.cons_append, List.cons_inj_right] at ih
      rw [indented, List.cons_append, List.cons_append, List.cons_append, ih]
    | cons m ms =>
      rw [indented, List.cons_append, List.cons_inj_right] at ih
      · rw [indented, List.cons_append, List.cons_append, List.cons_append, ih]
        nofun
      · nofun

end ScriptLang.Text
