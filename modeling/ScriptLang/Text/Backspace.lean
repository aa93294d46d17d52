import ScriptLang.Text.Grapheme

/-!
# Backspaces

A backspace in a line that was typed erases the character before it, as a reader sees
characters: a letter goes together with its marks. What was erased is not there to be erased
again, and at the beginning of the line a backspace does nothing.

- `typed`: what is left of a line that has backspaces in it.
- `typed_of_not_mem`: a line without backspaces is left as it is.
-/

namespace ScriptLang.Text

/-- The character that erases the one before it. -/
def backspace : Char := '\x08'

/-- The text without its first bytes. A character goes as a whole. -/
def dropBytes : Nat → List Char → List Char
  | 0, cs => cs
  | _, [] => []
  | n, c :: cs => dropBytes (n - c.utf8Size) cs

/-- A line while it is typed. -/
structure Typing where
  /-- What stands in the line, the latest character first. -/
  kept : List Char := []
  /-- How many bytes the next backspaces erase, one number for each cluster. -/
  sizes : List Nat := []

namespace Typing

/-- The number of bytes that a backspace erases of a cluster. It is held in one byte, so of a
cluster of 256 bytes or more only the last ones go. -/
def erasedSize (cluster : List Char) : Nat := (String.ofList cluster).utf8ByteSize % 256

/-- The line with one more cluster typed. -/
def type (t : Typing) (cluster : List Char) : Typing :=
  if cluster = [backspace] then
    match t.sizes with
    | [] => t
    | size :: sizes => { kept := dropBytes size t.kept, sizes }
  else { kept := cluster.reverse ++ t.kept, sizes := erasedSize cluster :: t.sizes }

/-- Clusters that are no backspaces are all kept. -/
theorem kept_foldl_type (clusters : List (List Char)) (t : Typing)
    (h : ∀ cluster ∈ clusters, cluster ≠ [backspace]) :
    (clusters.foldl type t).kept = clusters.flatten.reverse ++ t.kept := by
  induction clusters generalizing t with
  | nil => rfl
  | cons cluster clusters ih =>
    have hc := h cluster List.mem_cons_self
    have hcs := fun c hc => h c (List.mem_cons_of_mem cluster hc)
    rw [List.foldl_cons, ih _ hcs]
    simp [type, hc]

end Typing

/-- What is left of a line that has backspaces in it. -/
def typed (line : List Char) : List Char := ((graphemes line).foldl Typing.type {}).kept.reverse

/-- A line without backspaces is left as it is. -/
theorem typed_of_not_mem {line : List Char} (h : backspace ∉ line) : typed line = line := by
  have hc : ∀ cluster ∈ graphemes line, cluster ≠ [backspace] := by
    intro cluster hm heq
    apply h
    rw [← flatten_graphemes line]
    exact List.mem_flatten.mpr ⟨cluster, hm, by simp [heq]⟩
  simp [typed, Typing.kept_foldl_type _ _ hc, flatten_graphemes]

end ScriptLang.Text
