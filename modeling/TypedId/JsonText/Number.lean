import TypedId.JsonText.Cursor

/-!
Numbers in JSON texts.

A number without a point and an exponent is whole if it fits in sixty-four bits. All others are
fractions, which are computed with floating-point arithmetic from the leading digits and a power of
ten: a single multiplication or division where the power is below `10 ^ 309`. Digits beyond those
that fit in sixty-four bits count only for the power of ten.
-/

namespace TypedId.JsonText

/-- A number. -/
inductive Number where
  | whole (n : Int)
  | fraction (f : Float)
deriving Repr

/-- What a number is called in a complaint. -/
def Number.found : Number → Found
  | whole n => .integer n
  | fraction f => .fraction f

/-- Reads digits behind those that gave `n` as long as the number stays below a limit: the number,
and how many digits were used. -/
def gather (limit : Nat) : Nat → List Nat → Nat × Nat
  | n, [] => (n, 0)
  | n, d :: ds =>
    if n * 10 + d < limit then
      let (m, used) := gather limit (n * 10 + d) ds
      (m, used + 1)
    else (n, 0)

/-- A power of ten. -/
def power (n : Nat) : Float := Float.ofScientific 1 false n

/-- The greatest power of ten that is a floating-point number. -/
def greatestPower : Nat := 308

/-- Divides by a power of ten, in steps if the power is no floating-point number. -/
def divide (f : Float) (n : Nat) : Float :=
  if n ≤ greatestPower then f / power n
  else if f == 0 then f
  else divide (f / power greatestPower) (n - greatestPower)
termination_by n
decreasing_by unfold greatestPower at *; omega

/-- `f * 10 ^ e`, unless that is too large. -/
def scale? (f : Float) (e : Int) : Option Float :=
  if e < 0 then some (divide f (-e).toNat)
  else if e.toNat ≤ greatestPower then
    let g := f * power e.toNat
    if g.isInf then none else some g
  else if f == 0 then some f
  else none

/-- A fraction with the given sign, digits and exponent. -/
def finish (negative : Bool) (digits : Nat) (e : Int) : Reader Number := fun c =>
  match scale? digits.toUInt64.toFloat e with
  | some f => .ok (.fraction (if negative then -f else f), c)
  | none => c.fail .numberTooLarge

/-- Takes the sign of an exponent: whether it is a minus. -/
def exponentSign (c : Cursor) : Bool × Cursor :=
  match c.rest with
  | '+' :: cs => (false, ⟨c.index + 1, cs⟩)
  | '-' :: cs => (true, ⟨c.index + 1, cs⟩)
  | _ => (false, c)

/-- Reads an exponent after its letter. `e` is the exponent that the point gives. -/
def exponent (negative : Bool) (digits : Nat) (e : Int) : Reader Number := fun c =>
  let (below, c) := exponentSign c
  let (ds, after) := c.digits
  match ds, c.rest with
  | [], [] => c.fail .endOfValue
  | [], _ :: _ => .error ⟨.number, c.index + 1⟩
  | _, _ =>
    let (n, used) := gather (Nat.pow 2 31) 0 ds
    if used = ds.length then finish negative digits (if below then e - n else e + n) after
    else if digits ≠ 0 ∧ ¬ below then .error ⟨.numberTooLarge, c.index + used + 1⟩
    else .ok (.fraction (if negative then -0.0 else 0.0), after)

/-- Reads an exponent if there is one. -/
def optionalExponent (negative : Bool) (digits : Nat) (e : Int) : Reader Number := fun c =>
  match c.rest with
  | 'e' :: cs | 'E' :: cs => exponent negative digits e ⟨c.index + 1, cs⟩
  | _ => finish negative digits e c

/-- Reads the digits after a point. `e` is how many digits before the point were left out. -/
def places (negative : Bool) (digits : Nat) (e : Nat) : Reader Number := fun c =>
  let (ds, after) := c.digits
  if ds.isEmpty then c.failNext (if c.rest.isEmpty then .endOfValue else .number)
  else
    let (n, used) := gather (Nat.pow 2 64) digits ds
    optionalExponent negative n ((e : Int) - used) after

/-- A number without a point and an exponent. -/
def whole (negative : Bool) (n : Nat) : Number :=
  if ¬ negative then .whole n
  else if n = 0 ∨ Nat.pow 2 63 < n then .fraction (-n.toUInt64.toFloat)
  else .whole (-n)

/-- Reads what follows the digits before the point. -/
def continued (negative : Bool) (digits leftOut : Nat) : Reader Number := fun c =>
  match c.rest with
  | '.' :: cs => places negative digits leftOut ⟨c.index + 1, cs⟩
  | 'e' :: cs | 'E' :: cs => exponent negative digits leftOut ⟨c.index + 1, cs⟩
  | _ => if leftOut = 0 then .ok (whole negative digits, c) else finish negative digits leftOut c

/-- Reads a number after its sign. No digit may follow a zero in front. -/
def number (negative : Bool) : Reader Number := fun c =>
  match c.rest with
  | [] => c.fail .endOfValue
  | '0' :: cs =>
    let after : Cursor := ⟨c.index + 1, cs⟩
    if cs.head?.any Decimal.isDigit then after.failNext .number
    else continued negative 0 0 after
  | d :: _ =>
    if Decimal.isDigit d then
      let (ds, after) := c.digits
      let (n, used) := gather (Nat.pow 2 64) 0 ds
      continued negative n (ds.length - used) after
    else .error ⟨.number, c.index + 1⟩

end TypedId.JsonText
