/-!
Natural numbers in decimal notation, below a limit.
-/

namespace TypedId.Decimal

/-- Why a text is no number below a limit. -/
inductive NumberFault where
  /-- There is nothing to read. -/
  | empty
  /-- A character is not a decimal digit. -/
  | digit
  /-- The number reaches the limit. -/
  | overflow
deriving DecidableEq, Repr

/-- The sentence for a fault. -/
def NumberFault.message : NumberFault → String
  | empty => "cannot parse integer from empty string"
  | digit => "invalid digit found in string"
  | overflow => "number too large to fit in target type"

/-- The value of a decimal digit. -/
def digit? (c : Char) : Option Nat :=
  if '0' ≤ c ∧ c ≤ '9' then some (c.toNat - 48) else none

/-- Whether a character is a decimal digit. -/
def isDigit (c : Char) : Bool := (digit? c).isSome

/-- Reads digits behind those that gave `n`. The first fault counts, and at one place a character
that is no digit counts before a number that is too large. -/
def continueBelow (limit : Nat) : Nat → List Char → Except NumberFault Nat
  | n, [] => .ok n
  | n, c :: cs =>
    match digit? c with
    | none => .error .digit
    | some d =>
      if n * 10 + d < limit then continueBelow limit (n * 10 + d) cs else .error .overflow

/-- Reads a number below a limit. One plus sign may stand before the digits. -/
def readBelow (limit : Nat) : List Char → Except NumberFault Nat
  | [] => .error .empty
  | ['+'] => .error .digit
  | '+' :: cs => continueBelow limit 0 cs
  | cs => continueBelow limit 0 cs

end TypedId.Decimal
