import TypedId.Decimal.Dyadic

/-!
Significant decimal digits of exact numbers.

`Significant.rounded` keeps a fixed count of digits of a number. `Significant.shortest` finds the
fewest digits that still tell a floating-point number from its neighbours: no number with fewer
digits lies within half the distance to them.
-/

namespace TypedId.Decimal

/-- The number `0.d₁d₂… * 10 ^ point`. -/
structure Significant where
  digits : List Nat
  point : Int
deriving DecidableEq, Repr

/-- The decimal digits of a number, the most significant first. -/
def digitsOf (n : Nat) : List Nat :=
  (Nat.toDigits 10 n).map fun c => c.toNat - 48

/-- `a / b / 10 ^ e` as a fraction. -/
def scaled (a b : Nat) (e : Int) : Nat × Nat :=
  if 0 ≤ e then (a, b * Nat.pow 10 e.toNat) else (a * Nat.pow 10 (-e).toNat, b)

/-- The place of the first digit of a positive number `a / b`: the least power of ten that exceeds
it. -/
def magnitude (a b : Nat) : Int :=
  let estimate : Int := (digitsOf a).length - (digitsOf b).length
  let (x, y) := scaled a b estimate
  if y ≤ x then estimate + 1 else estimate

namespace Significant

/-- The digits of `n * 10 ^ e`, without the zeros at the end. -/
def ofScaled (n : Nat) (e : Int) : Significant :=
  let ds := digitsOf n
  ⟨(ds.reverse.dropWhile (· == 0)).reverse, e + ds.length⟩

/-- Zero, which has one digit. -/
def zero : Significant := ⟨[0], 1⟩

/-- The first digits of `a / b`, rounded to the nearest number with so many; a half goes up. -/
def rounded (count : Nat) (a b : Nat) : Significant :=
  if a = 0 then zero
  else
    let e := magnitude a b - count
    let (x, y) := scaled a b e
    ofScaled (if y ≤ 2 * (x % y) then x / y + 1 else x / y) e

/-- The nearest number with so many digits that lies between `low` and `high`; all are given in the
unit `1 / b`. The bounds count if `closed`. -/
def within? (a low high b : Nat) (closed : Bool) (count : Nat) : Option Significant :=
  let e := magnitude a b - count
  let (x, y) := scaled a b e
  let (l, _) := scaled low b e
  let (h, _) := scaled high b e
  let fits (n : Nat) : Bool :=
    if closed then l ≤ n * y && n * y ≤ h else l < n * y && n * y < h
  let n := x / y
  let up := y < 2 * (x % y) ∨ (y = 2 * (x % y) ∧ n % 2 = 1)
  let (nearer, farther) := if up then (n + 1, n) else (n, n + 1)
  if fits nearer then some (ofScaled nearer e)
  else if fits farther then some (ofScaled farther e)
  else none

/-- The fewest digits that tell a floating-point number from its neighbours, at most seventeen.

Half the distance to the neighbours is half a unit of the mantissa; below a power of two the
neighbours are twice as near. -/
def shortest (d : Dyadic) : Significant :=
  if d.mantissa = 0 then zero
  else
    let step := if d.mantissa = Nat.pow 2 52 ∧ -1074 < d.exponent then 1 else 2
    let unit (n : Nat) := (Dyadic.ratio n (d.exponent - 2)).1
    let b := (Dyadic.ratio 1 (d.exponent - 2)).2
    let a := unit (4 * d.mantissa)
    let found := (List.range' 1 17).findSome? fun count =>
      within? a (unit (4 * d.mantissa - step)) (unit (4 * d.mantissa + 2)) b
        (d.mantissa % 2 = 0) count
    found.getD (rounded 17 a b)

end Significant

end TypedId.Decimal
