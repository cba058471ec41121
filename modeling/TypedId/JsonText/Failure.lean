import TypedId.Decimal.Format
import TypedId.Text.Quoted
import TypedId.Uuid.Reading

/-!
What can be wrong with a JSON text, and where.

A `Failure` keeps its place as a number of bytes; `Failure.message` turns that into a line and a
column, which takes the whole text.
-/

namespace TypedId.JsonText

/-- A value that was found. -/
inductive Found where
  | null
  | boolean (b : Bool)
  | integer (n : Int)
  | fraction (f : Float)
  | text (s : String)
  | list
  | object
deriving Repr

/-- What was wanted instead. -/
inductive Wanted where
  | identifier
  | list
  | object
  | integer
  | text
  | pair
deriving DecidableEq, Repr

/-- Why a text is refused. -/
inductive Cause where
  | endOfValue
  | endOfText
  | endOfList
  | endOfObject
  | noValue
  | noWord
  | noColon
  | noListEnd
  | noObjectEnd
  | keyNotText
  | trailingComma
  | trailing
  | escape
  | loneSurrogate
  | halfSurrogate
  | control
  | number
  | numberTooLarge
  | wrongKind (found : Found) (wanted : Wanted)
  | outOfRange (found : Found) (wanted : Wanted)
  | wrongLength (found : Nat) (wanted : Wanted)
  | notIdentifier (reason : Uuid.Reason)
deriving Repr

/-- How a fraction is written: without an exponent from `0.00001` on and below `10 ^ 16`, and with
an exponent as short as possible otherwise. -/
def fractionFormat : Decimal.Format where
  least := -4
  greatest := 16
  places := 0
  plus := "+"
  exponentDigits := 1
  signedZero := true

/-- A fraction in the fewest digits that read back. -/
def fractionText (f : Float) : String :=
  let d := Decimal.Dyadic.ofFloat f
  fractionFormat.write d (.shortest d)

/-- How a value is called. -/
def Found.describe : Found → String
  | null => "null"
  | boolean b => s!"boolean `{b}`"
  | integer n => s!"integer `{n}`"
  | fraction f => s!"floating point `{fractionText f}`"
  | text s => "string \"" ++ String.ofList (s.toList.flatMap (Text.escape · none)) ++ "\""
  | list => "sequence"
  | object => "map"

/-- How what was wanted is called. -/
def Wanted.describe : Wanted → String
  | identifier => "a formatted UUID string"
  | list => "a sequence"
  | object => "a map"
  | integer => "i64"
  | text => "a string"
  | pair => "a tuple of size 2"

/-- The sentence for a cause. -/
def Cause.message : Cause → String
  | endOfValue => "EOF while parsing a value"
  | endOfText => "EOF while parsing a string"
  | endOfList => "EOF while parsing a list"
  | endOfObject => "EOF while parsing an object"
  | noValue => "expected value"
  | noWord => "expected ident"
  | noColon => "expected `:`"
  | noListEnd => "expected `,` or `]`"
  | noObjectEnd => "expected `,` or `\x7d`"
  | keyNotText => "key must be a string"
  | trailingComma => "trailing comma"
  | trailing => "trailing characters"
  | escape => "invalid escape"
  | loneSurrogate => "lone leading surrogate in hex escape"
  | halfSurrogate => "unexpected end of hex escape"
  | control => "control character (\\u0000-\\u001F) found while parsing a string"
  | number => "invalid number"
  | numberTooLarge => "number out of range"
  | wrongKind found wanted => s!"invalid type: {found.describe}, expected {wanted.describe}"
  | outOfRange found wanted => s!"invalid value: {found.describe}, expected {wanted.describe}"
  | wrongLength found wanted => s!"invalid length {found}, expected {wanted.describe}"
  | notIdentifier reason => s!"UUID parsing failed: {reason.message}"

/-- Why a text is refused, and how many bytes precede the place. -/
structure Failure where
  cause : Cause
  index : Nat
deriving Repr

/-- A place in a text: a line, and the bytes before it in its line. -/
structure Place where
  line : Nat
  column : Nat
deriving DecidableEq, Repr

/-- The place behind so many more bytes. -/
def Place.advance (p : Place) : Nat → List Char → Place
  | count, [] => ⟨p.line, p.column + count⟩
  | count, c :: cs =>
    if count < c.utf8Size then ⟨p.line, p.column + count⟩
    else if c = '\n' then Place.advance ⟨p.line + 1, 0⟩ (count - 1) cs
    else Place.advance ⟨p.line, p.column + c.utf8Size⟩ (count - c.utf8Size) cs

/-- The place behind so many bytes of a text. -/
def Place.after (text : String) (index : Nat) : Place :=
  Place.advance ⟨1, 0⟩ index text.toList

/-- The sentence for a failure in a text. -/
def Failure.message (f : Failure) (text : String) : String :=
  let place := Place.after text f.index
  s!"{f.cause.message} at line {place.line} column {place.column}"

end TypedId.JsonText
