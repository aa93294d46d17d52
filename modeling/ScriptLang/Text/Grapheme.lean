import ScriptLang.Text.BreakClass

/-!
# Characters as a reader sees them

A reader takes a letter and the marks on it for one character, and so a flag, a syllable of
Hangul, a conjunct of consonants, or pictographs that are joined into one. `graphemes` cuts a
text into such clusters by the rules of the Unicode standard for extended grapheme clusters.
Whether there is a cut depends on the class of the next character and on a little of what is
before it.

- `Context`: what is remembered of the characters so far.
- `Context.joins`: whether the next character belongs to the cluster before it.
- `graphemes`: the clusters of a text.
- `flatten_graphemes`: the clusters make up the text.
-/

namespace ScriptLang.Text

/-- How far a conjunct of consonants has come. -/
inductive Conjunct where
  | none
  /-- A consonant, perhaps with marks. -/
  | consonant
  /-- A consonant with marks that link it to a next one. -/
  | linked
  deriving DecidableEq

/-- What is remembered of the characters before a place in a text. The beginning of a text is
like a place behind a control character. -/
structure Context where
  last : BreakClass := .control
  /-- Whether the halves of flags that come last are odd in number. -/
  halfFlag : Bool := false
  /-- Whether the last characters are a pictograph with marks, perhaps with a joiner behind
  it. -/
  pictograph : Bool := false
  conjunct : Conjunct := .none

namespace Context

/-- What is remembered with one more character. -/
def next (s : Context) (k : BreakClass) : Context :=
  { last := k
    halfFlag := k = .regional && !s.halfFlag
    pictograph :=
      match k with
      | .pictograph => true
      | .extend | .linker | .nonJoiner | .joiner => s.pictograph && s.last ≠ .joiner
      | _ => false
    conjunct :=
      match k with
      | .consonant => .consonant
      | .linker => if s.conjunct = .none then .none else .linked
      | .extend | .joiner => s.conjunct
      | _ => .none }

/-- Whether a character belongs to the cluster before it. -/
def joins (s : Context) (k : BreakClass) : Bool :=
  if s.last.isControl || k.isControl then s.last = .carriageReturn && k = .lineFeed
  else if k.attaches || s.last = .prepended then true
  else
    match k with
    | .consonant => s.conjunct = .linked
    | .pictograph => s.last = .joiner && s.pictograph
    | .regional => s.halfFlag
    | k => s.last.syllableGoesOn k

end Context

/-- What of a text belongs to the cluster before it, and the clusters behind that. -/
def cut : Context → List Char → List Char × List (List Char)
  | _, [] => ([], [])
  | s, c :: cs =>
    let k := breakClass c
    let (rest, clusters) := cut (s.next k) cs
    if s.joins k then (c :: rest, clusters) else ([], (c :: rest) :: clusters)

/-- The clusters of a text. -/
def graphemes (cs : List Char) : List (List Char) := (cut {} cs).2

/-- A cut loses nothing. -/
theorem append_cut (s : Context) (cs : List Char) :
    (cut s cs).1 ++ (cut s cs).2.flatten = cs := by
  induction cs generalizing s with
  | nil => rfl
  | cons c cs ih =>
    have h := ih (s.next (breakClass c))
    by_cases hj : s.joins (breakClass c) <;> simp [cut, hj, h]

/-- Nothing belongs to a cluster before the beginning. -/
theorem cut_start (cs : List Char) : (cut {} cs).1 = [] := by
  cases cs with
  | nil => rfl
  | cons c cs => simp [cut, Context.joins, BreakClass.isControl]

/-- The clusters make up the text. -/
theorem flatten_graphemes (cs : List Char) : (graphemes cs).flatten = cs := by
  have h := append_cut {} cs
  rwa [cut_start, List.nil_append] at h

end ScriptLang.Text
