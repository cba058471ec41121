import TypedId.Decimal.Significant

/-!
How numbers with a fraction are written.

The digits come from elsewhere; a `Format` says where the point stands, and from which size on an
exponent is written.
-/

namespace TypedId.Decimal

/-- How a number with a fraction is written. -/
structure Format where
  /-- No exponent is written if the point stands at one of these places, ends included. -/
  least : Int
  greatest : Int
  /-- How many digits stand at least behind the point before an exponent. -/
  places : Nat
  /-- What stands before an exponent that is not negative. -/
  plus : String
  /-- How many digits an exponent has at least. -/
  exponentDigits : Nat
  /-- Whether the sign of a zero is written. -/
  signedZero : Bool

/-- Digits as text. -/
def digitText (ds : List Nat) : String :=
  String.ofList (ds.map fun d => Char.ofNat (48 + d))

/-- Zeros as text. -/
def zeros (count : Nat) : String := String.ofList (List.replicate count '0')

/-- A fraction with a point at the given place and at least one digit behind it. -/
def positional (s : Significant) : String :=
  if s.point ≤ 0 then "0." ++ zeros (-s.point).toNat ++ digitText s.digits
  else
    let places := s.point.toNat
    let whole := digitText (s.digits.take places) ++ zeros (places - s.digits.length)
    let rest := s.digits.drop places
    whole ++ "." ++ (if rest.isEmpty then "0" else digitText rest)

namespace Format

/-- An exponent. -/
def exponent (format : Format) (e : Int) : String :=
  let text := toString e.natAbs
  let padded := zeros (format.exponentDigits - text.length) ++ text
  "e" ++ (if e < 0 then "-" else format.plus) ++ padded

/-- Writes digits. -/
def unsigned (format : Format) (s : Significant) : String :=
  if format.least ≤ s.point ∧ s.point ≤ format.greatest then positional s
  else
    let rest := digitText (s.digits.drop 1)
    let fraction := rest ++ zeros (format.places - rest.length)
    digitText (s.digits.take 1) ++ (if fraction.isEmpty then "" else "." ++ fraction) ++
      format.exponent (s.point - 1)

/-- Writes a number whose digits are given. -/
def write (format : Format) (d : Dyadic) (s : Significant) : String :=
  let signed := d.negative && (d.mantissa != 0 || format.signedZero)
  (if signed then "-" else "") ++ format.unsigned s

end Format

end TypedId.Decimal
