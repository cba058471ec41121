/-!
The exact values of floating-point numbers.

A finite one is a whole number times a power of two, which a `Dyadic` keeps apart. Comparing and
rounding are done on fractions of natural numbers, where nothing is lost.
-/

namespace TypedId.Decimal

/-- The number `mantissa * 2 ^ exponent`, or its negative. -/
structure Dyadic where
  negative : Bool
  mantissa : Nat
  exponent : Int
deriving DecidableEq, Repr

namespace Dyadic

/-- The number with the given bits: a sign, eleven bits of exponent and fifty-two of mantissa.
Where the exponent is not zero the mantissa has one more bit, which is set and not written. -/
def ofBits (bits : Nat) : Dyadic :=
  let negative : Bool := bits / Nat.pow 2 63 % 2 = 1
  let exponent : Nat := bits / Nat.pow 2 52 % Nat.pow 2 11
  let mantissa : Nat := bits % Nat.pow 2 52
  if exponent = 0 then ⟨negative, mantissa, -1074⟩
  else ⟨negative, mantissa + Nat.pow 2 52, (exponent : Int) - 1075⟩

/-- The exact value of a finite floating-point number. -/
def ofFloat (f : Float) : Dyadic := ofBits f.toBits.toNat

/-- `n * 2 ^ exponent` as a fraction. -/
def ratio (n : Nat) (exponent : Int) : Nat × Nat :=
  if 0 ≤ exponent then (n * Nat.pow 2 exponent.toNat, 1) else (n, Nat.pow 2 (-exponent).toNat)

/-- The number as a fraction. -/
def fraction (d : Dyadic) : Int × Nat :=
  let (a, b) := ratio d.mantissa d.exponent
  (if d.negative then -a else a, b)

/-- Compares two numbers. -/
def compare (d e : Dyadic) : Ordering :=
  let (a, b) := d.fraction
  let (a', b') := e.fraction
  Ord.compare (a * b') (a' * b)

/-- A whole number. -/
def ofInt (n : Int) : Dyadic := ⟨n < 0, n.natAbs, 0⟩

end Dyadic

end TypedId.Decimal
