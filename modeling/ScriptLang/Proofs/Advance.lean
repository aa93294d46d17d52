import ScriptLang.Proofs.Composition

/-!
# Parsers only go on

Whatever a parser does, the tokens it leaves are the last of those it found, and what it reports
comes behind what had been reported before. So a parser that ends with the diagnostics it began
with has reported nothing on the way.

- `Reading.Later`: a reading as it may be found further on.
- `Parser.Advances`: a parser that only goes on, with one rule for each way to build a parser.
- `Parser.advancing`: so every rule of the grammar only goes on.
-/

namespace ScriptLang

/-- The reading `r'` as it may be found further on than `r`: fewer tokens are left, and more has
been reported. -/
structure Reading.Later (r r' : Reading) : Prop where
  tokens : r'.tokens <:+ r.tokens
  errors : r.errors <+: r'.errors

namespace Reading.Later

variable {r r' r'' : Reading}

/-- A reading is `Later` than itself. -/
protected theorem refl : Later r r := ⟨List.suffix_rfl, List.prefix_rfl⟩

/-- To be `Later` is transitive. -/
protected theorem trans (h : Later r r') (h' : Later r' r'') : Later r r'' :=
  ⟨h'.tokens.trans h.tokens, h.errors.trans h'.errors⟩

/-- If nothing is reported up to `r''`, then nothing is reported up to the earlier `r'`. -/
theorem errors_eq (h : Later r r') (h' : Later r' r'') (he : r''.errors = r.errors) :
    r'.errors = r.errors := by
  refine (h.errors.eq_of_length_le ?_).symm
  rw [← he]
  exact h'.errors.length_le

end Reading.Later

namespace Parser

open Reading

/-- The parser `p` only goes on: it ends on a reading that is `Later`. -/
def Advances {α : Type} (p : Parser α) : Prop := ∀ r, Later r (p r).2

namespace Advances

variable {α β : Type} {p q : Parser α} {f : α → Parser β}

theorem pure {a : α} : Advances (pure a : Parser α) := fun _ => .refl

/-- `Advances` is kept by the monad: the first parser goes on, and so does whatever follows its
result. -/
theorem bind (hp : Advances p) (hf : ∀ a, Advances (f a)) : Advances (p >>= f) := by
  intro r
  have hr := hp r
  rcases h : p r with ⟨_ | a, r'⟩ <;> rw [h] at hr
  · rw [bind_of_none h]
    exact hr
  · rw [bind_of_some h]
    exact hr.trans (hf a r')

theorem ite {c : Prop} [Decidable c] (hp : Advances p) (hq : Advances q) :
    Advances (if c then p else q) := by
  split
  · exact hp
  · exact hq

theorem fail : Advances (fail : Parser α) := fun _ => .refl

/-- `Parser.attempt` reads what its parser reads; only the failure is different. -/
theorem attempt (hp : Advances p) : Advances p.attempt := hp

theorem current : Advances current := fun _ => .refl

/-- `advance` drops at most the first token. -/
theorem advance : Advances advance := fun _ => ⟨List.tail_suffix _, List.prefix_rfl⟩

/-- `peek` leaves the tokens alone, whatever it notes in the journal. -/
theorem peek : Advances peek := fun _ => ⟨List.suffix_rfl, List.prefix_rfl⟩

theorem note {event : Event} : Advances (note event) :=
  fun _ => ⟨List.suffix_rfl, List.prefix_rfl⟩

/-- `reportAt` adds its diagnostic behind the earlier ones. -/
theorem reportAt {line : Nat} {cause : Cause} : Advances (reportAt line cause) :=
  fun _ => ⟨List.suffix_rfl, List.prefix_append _ _⟩

theorem reported : Advances reported := fun _ => .refl

/-- `Recovery.skip` passes tokens from the front. -/
theorem skip_suffix (how : Recovery) (endLine depth : Nat) (tokens : List Token)
    (journal : Journal) : (how.skip endLine depth tokens journal).1 <:+ tokens := by
  induction tokens generalizing depth journal with
  | nil => exact List.suffix_rfl
  | cons token rest ih =>
    rw [Recovery.skip]
    split
    · exact List.suffix_rfl
    · dsimp only
      split
      · split
        · exact List.suffix_rfl
        · exact (ih _ _).trans (List.suffix_cons _ _)
      · exact (ih _ _).trans (List.suffix_cons _ _)

/-- `recover` skips tokens from the front, by `skip_suffix`. -/
theorem recover {how : Recovery} : Advances (recover how) :=
  fun _ => ⟨skip_suffix how _ _ _ _, List.prefix_rfl⟩

/-- `orRecover` only goes on: both ways out do. -/
theorem orRecover {statement : Parser Node} (h : Advances statement) :
    Advances (Grammar.orRecover statement) :=
  bind reported fun _ => bind (attempt h) fun _ => bind reported fun _ =>
    ite (bind recover fun _ => pure) pure

end Advances

/-- `Advances` is a property that parsers are composed by. -/
theorem advancing : Composable @Advances where
  pure := .pure
  fail := .fail
  bind := .bind
  attempt := .attempt
  current := .current
  advance := .advance
  peek := .peek
  note := .note
  reportAt := .reportAt
  recover := .recover
  orRecover := .orRecover

end Parser

/-! ## The rules of the grammar -/

namespace Grammar

open ScriptLang.Parser

/-- `Advances` is shared by all rules of the grammar, at any depth. -/
theorem rules_advance (depth : Nat) : (rules depth).Share @Advances := advancing.rules depth

end Grammar
end ScriptLang
