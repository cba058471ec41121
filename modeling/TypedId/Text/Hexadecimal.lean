/-!
Hexadecimal digits as characters.
-/

namespace TypedId.Text

/-- The lower-case character of a hexadecimal digit. -/
def hexCharacter (d : Nat) : Char :=
  if d < 10 then Char.ofNat (48 + d) else Char.ofNat (87 + d)

/-- The value of a hexadecimal digit in either case. -/
def hexValue? (c : Char) : Option Nat :=
  if '0' ≤ c ∧ c ≤ '9' then some (c.toNat - 48)
  else if 'a' ≤ c ∧ c ≤ 'f' then some (c.toNat - 87)
  else if 'A' ≤ c ∧ c ≤ 'F' then some (c.toNat - 55)
  else none

theorem hexValue?_hexCharacter {d : Nat} (h : d < 16) : hexValue? (hexCharacter d) = some d := by
  revert d
  decide

end TypedId.Text
