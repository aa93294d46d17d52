/-!
# Bytes and text

Streams and files hold bytes; the text in them is UTF-8.

- `encode`, `decode?`: the bytes of a text, and the text of bytes if they are one.
- `takeLine`: the first line of a stream, with the line feed that ends it, and what is behind
  it.
- `byteLines`: all lines of a stream, each with the line feed that ends it.
- `append_takeLine`: a line and what is behind it make up the stream.
- `decode?_encode`: reading undoes writing.
-/

namespace ScriptLang.Text

/-- The bytes of a text. -/
def encode (text : String) : List UInt8 := text.toByteArray.data.toList

/-- The text that the bytes encode, if they encode one. -/
def decode? (bytes : List UInt8) : Option String := String.fromUTF8? ⟨bytes.toArray⟩

/-- The first line of a stream, with the line feed that ends it, and what is behind it. -/
def takeLine : List UInt8 → List UInt8 × List UInt8
  | [] => ([], [])
  | b :: bytes =>
    if b = 10 then ([b], bytes)
    else
      let (line, rest) := takeLine bytes
      (b :: line, rest)

/-- All lines of a stream, each with the line feed that ends it. -/
def byteLines : List UInt8 → List (List UInt8)
  | [] => []
  | b :: bytes =>
    if b = 10 then [b] :: byteLines bytes
    else
      match byteLines bytes with
      | [] => [[b]]
      | line :: lines => (b :: line) :: lines

/-- A line and what is behind it make up the stream. -/
theorem append_takeLine (bytes : List UInt8) :
    (takeLine bytes).1 ++ (takeLine bytes).2 = bytes := by
  induction bytes with
  | nil => rfl
  | cons b bytes ih =>
    by_cases h : b = 10 <;> simp [takeLine, h, ih]

/-- Bytes of a text are read back as that text. -/
theorem decode?_encode (text : String) : decode? (encode text) = some text := by
  have h : (⟨text.toByteArray.data⟩ : ByteArray) = text.toByteArray := rfl
  simp [decode?, encode, String.fromUTF8?, h, text.isValidUTF8, String.fromUTF8]

end ScriptLang.Text
