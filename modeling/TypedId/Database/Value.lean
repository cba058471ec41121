import TypedId.Decimal.Format

/-!
The values that a database stores.

Values are ordered by their kind first: numbers come before texts, and texts before blobs. Whole
numbers and fractions are compared as numbers, texts and blobs byte by byte.
-/

namespace TypedId.Database

/-- The kinds of values, and of columns. -/
inductive Kind where
  | null
  | integer
  | real
  | text
  | blob
  | boolean
deriving DecidableEq, Repr

/-- The name of a kind. -/
def Kind.name : Kind → String
  | null => "NULL"
  | integer => "INTEGER"
  | real => "REAL"
  | text => "TEXT"
  | blob => "BLOB"
  | boolean => "BOOLEAN"

/-- A stored value. Blobs are lists of bytes. -/
inductive Value where
  | null
  | integer (n : Int)
  | real (f : Float)
  | text (s : String)
  | blob (bytes : List Nat)
deriving Repr

/-- How fractions become texts: without an exponent from `0.0001` on and below `10 ^ 15`, with an
exponent of at least two digits otherwise, and always with a digit behind the point. -/
def realFormat : Decimal.Format where
  least := -3
  greatest := 15
  places := 1
  plus := "+"
  exponentDigits := 2
  signedZero := false

/-- A fraction with fifteen significant digits. -/
def realText (f : Float) : String :=
  let d := Decimal.Dyadic.ofFloat f
  let (a, b) := Decimal.Dyadic.ratio d.mantissa d.exponent
  realFormat.write d (.rounded 15 a b)

/-- The bytes of a text. -/
def textBytes (s : String) : List Nat :=
  (s.toList.flatMap String.utf8EncodeChar).map UInt8.toNat

namespace Value

/-- The kind of a value. -/
def kind : Value → Kind
  | null => .null
  | integer _ => .integer
  | real _ => .real
  | text _ => .text
  | blob _ => .blob

/-- The bytes of a value. Numbers become texts first, and null has none. -/
def bytes : Value → List Nat
  | null => []
  | integer n => textBytes (toString n)
  | real f => textBytes (realText f)
  | text s => textBytes s
  | blob bs => bs

/-- The place of a kind in the order of values. -/
def rank : Value → Nat
  | null => 0
  | integer _ | real _ => 1
  | text _ => 2
  | blob _ => 3

/-- The exact value of a number. -/
def number? : Value → Option Decimal.Dyadic
  | integer n => some (.ofInt n)
  | real f => some (.ofFloat f)
  | _ => none

/-- The order of values. -/
def order (v w : Value) : Ordering :=
  (compare v.rank w.rank).then <|
    match v.number?, w.number? with
    | some d, some e => d.compare e
    | _, _ => compare v.bytes w.bytes

end Value

end TypedId.Database
