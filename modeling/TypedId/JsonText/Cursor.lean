import TypedId.Decimal.Natural
import TypedId.JsonText.Failure

/-!
Going through a JSON text.

A `Cursor` is what is left of a text together with the number of bytes before it, and a `Reader`
takes something from the front of it or fails. Some failures are blamed on the bytes already taken
(`Cursor.fail`), others on the byte that follows (`Cursor.failNext`).
-/

namespace TypedId.JsonText

/-- What is left of a text, and how many bytes precede it. -/
structure Cursor where
  index : Nat
  rest : List Char
deriving DecidableEq, Repr

/-- Takes something from the front of a text. -/
abbrev Reader (α : Type) := Cursor → Except Failure (α × Cursor)

/-- The characters that may stand between the parts of a text. -/
def isBlank (c : Char) : Bool :=
  c == ' ' || c == '\n' || c == '\t' || c == '\r'

namespace Cursor

/-- The beginning of a text. -/
def start (text : String) : Cursor := ⟨0, text.toList⟩

/-- A failure that is blamed on what was taken. -/
def fail (c : Cursor) (cause : Cause) : Except Failure α :=
  .error ⟨cause, c.index⟩

/-- A failure that is blamed on the next byte, if there is one. -/
def failNext (c : Cursor) (cause : Cause) : Except Failure α :=
  .error ⟨cause, if c.rest.isEmpty then c.index else c.index + 1⟩

/-- Skips blanks. -/
def skipBlanks (c : Cursor) : Cursor :=
  ⟨c.index + (c.rest.takeWhile isBlank).length, c.rest.dropWhile isBlank⟩

/-- Takes the decimal digits in front. -/
def digits (c : Cursor) : List Nat × Cursor :=
  let ds := c.rest.takeWhile Decimal.isDigit
  (ds.filterMap Decimal.digit?, ⟨c.index + ds.length, c.rest.dropWhile Decimal.isDigit⟩)

end Cursor

/-- Takes the characters of a word. -/
def word : List Char → Reader Unit
  | [], c => .ok ((), c)
  | _ :: _, ⟨index, []⟩ => .error ⟨.endOfValue, index⟩
  | w :: ws, ⟨index, d :: ds⟩ =>
    if d = w then word ws ⟨index + 1, ds⟩ else .error ⟨.noWord, index + 1⟩

/-- Reads the whole of a text; nothing but blanks may follow. -/
def readAll (reader : Reader α) (text : String) : Except Failure α := do
  let (a, c) ← reader (Cursor.start text)
  let c := c.skipBlanks
  if c.rest.isEmpty then return a else c.failNext .trailing

end TypedId.JsonText
