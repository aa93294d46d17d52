/-!
# Whole numbers in decimal

Integers of the language are 64-bit words with a sign. `word?` is the one gate by which a
mathematical integer becomes such a word: it refuses what does not fit, so no result ever wraps.

- `word?`: the word of an integer, if it has one.
- `readNat?`, `readInt?`: the number that a decimal text names.
- `writeInt`: the decimal text of an integer.
- `readNat?_toDigits`, `readInt?_writeInt`: a number is read back from its decimal text.
-/

namespace ScriptLang.Text

/-- The 64-bit word with the given value, if the value fits into one. -/
def word? (n : Int) : Option Int64 :=
  if Int64.minValue.toInt ≤ n ∧ n ≤ Int64.maxValue.toInt then some (Int64.ofInt n) else none

/-- A word that passed the gate has the value that was asked for. -/
theorem toInt_of_word? {n : Int} {w : Int64} (h : word? n = some w) : w.toInt = n := by
  unfold word? at h
  split at h
  · rename_i hn
    cases h
    rw [Int64.toInt_minValue, Int64.toInt_maxValue] at hn
    exact Int64.toInt_ofInt_of_le hn.1 (Int.le_sub_one_iff.mp hn.2)
  · cases h

/-- Every word passes the gate. -/
@[simp] theorem word?_toInt (w : Int64) : word? w.toInt = some w := by
  rw [word?, if_pos ⟨w.minValue_le_toInt, w.toInt_le⟩, Int64.ofInt_toInt]

/-- The number written by a nonempty run of digits. -/
def readNat? (cs : List Char) : Option Nat :=
  if cs ≠ [] ∧ cs.all Char.isDigit then some (Nat.ofDigitChars 10 cs 0) else none

/-- The word written by digits with at most one sign in front of them. -/
def readInt? : List Char → Option Int64
  | '-' :: cs => (readNat? cs).bind fun n => word? (-n)
  | '+' :: cs => (readNat? cs).bind fun n => word? n
  | cs => (readNat? cs).bind fun n => word? n

/-- The digits of an integer, after a minus sign if it is negative. -/
def writeInt (n : Int) : List Char :=
  if n < 0 then '-' :: Nat.toDigits 10 n.natAbs else Nat.toDigits 10 n.natAbs

/-- A number is read back from its digits. -/
theorem readNat?_toDigits (n : Nat) : readNat? (Nat.toDigits 10 n) = some n := by
  have hd : (Nat.toDigits 10 n).all Char.isDigit := by
    simp only [List.all_eq_true]
    exact fun c hc => Nat.isDigit_of_mem_toDigits (by decide) (by decide) hc
  simp [readNat?, hd, Nat.toDigits_ne_nil, Nat.ofDigitChars_toDigits]

/-- Digits are read without a sign. -/
theorem readInt?_of_isDigit {cs : List Char} (h : cs.all Char.isDigit) :
    readInt? cs = (readNat? cs).bind fun n => word? n := by
  rw [List.all_eq_true] at h
  unfold readInt?
  split
  · exact absurd (h '-' List.mem_cons_self) (by decide)
  · exact absurd (h '+' List.mem_cons_self) (by decide)
  · rfl

/-- A word is read back from its decimal text. -/
theorem readInt?_writeInt (w : Int64) : readInt? (writeInt w.toInt) = some w := by
  unfold writeInt
  split
  · have e : -((w.toInt.natAbs : Nat) : Int) = w.toInt := by omega
    show (readNat? (Nat.toDigits 10 w.toInt.natAbs)).bind (fun n => word? (-n)) = some w
    rw [readNat?_toDigits, Option.bind_some, e, word?_toInt]
  · have e : ((w.toInt.natAbs : Nat) : Int) = w.toInt := by omega
    have digits : (Nat.toDigits 10 w.toInt.natAbs).all Char.isDigit := by
      rw [List.all_eq_true]
      exact fun c hc => Nat.isDigit_of_mem_toDigits (by decide) (by decide) hc
    rw [readInt?_of_isDigit digits, readNat?_toDigits, Option.bind_some, e, word?_toInt]

end ScriptLang.Text
