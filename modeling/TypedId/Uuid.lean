import TypedId.Positional
import TypedId.Text.Hexadecimal

/-!
The identifiers themselves: numbers of 128 bits with a byte form and a text form.

The byte form is the number's sixteen bytes, most significant first, and the text form is its
thirty-two lower-case hexadecimal digits in groups of 8, 4, 4, 4 and 12 with hyphens between.
-/

namespace TypedId

/-- A universally unique identifier: a number of 128 bits. -/
structure Uuid where
  /-- The identifier as one number. -/
  value : Nat
  value_lt : value < Nat.pow 2 128
deriving DecidableEq

namespace Uuid

/-- The identifier whose bits are the low 128 bits of a number. -/
def ofNat (n : Nat) : Uuid :=
  ⟨n % Nat.pow 2 128, Nat.mod_lt _ (by decide)⟩

/-- The identifier with no bit set. -/
def nil : Uuid := ofNat 0

instance : Inhabited Uuid := ⟨nil⟩

/-- The sixteen bytes, most significant first. -/
def bytes (u : Uuid) : List Nat :=
  Positional.digits 256 16 u.value

/-- Reads sixteen bytes; `none` if there are more or fewer. -/
def ofBytes? (bs : List Nat) : Option Uuid :=
  if bs.length = 16 then some (ofNat (Positional.value 256 bs)) else none

/-- The thirty-two hexadecimal digits, most significant first. -/
def nibbles (u : Uuid) : List Nat :=
  Positional.digits 16 32 u.value

/-- The lengths of the groups that hyphens separate. -/
def groupLengths : List Nat := [8, 4, 4, 4, 12]

/-- Cuts a list into groups of the given lengths and sets a hyphen between neighbours. -/
def hyphenate : List Nat → List Char → List Char
  | [], cs => cs
  | [_], cs => cs
  | n :: ns, cs => cs.take n ++ '-' :: hyphenate ns (cs.drop n)

/-- The text form: lower-case hexadecimal digits in hyphenated groups. -/
def render (u : Uuid) : String :=
  String.ofList (hyphenate groupLengths (u.nibbles.map Text.hexCharacter))

/-- Two hexadecimal digits for each byte, with nothing between them. -/
def hexText (bs : List Nat) : String :=
  String.ofList ((bs.flatMap (Positional.digits 16 2)).map Text.hexCharacter)

/-- Identifiers are ordered as numbers. -/
def order (a b : Uuid) : Ordering :=
  compare a.value b.value

instance : LE Uuid := ⟨fun a b => a.value ≤ b.value⟩
instance : LT Uuid := ⟨fun a b => a.value < b.value⟩
instance (a b : Uuid) : Decidable (a ≤ b) := inferInstanceAs (Decidable (a.value ≤ b.value))
instance (a b : Uuid) : Decidable (a < b) := inferInstanceAs (Decidable (a.value < b.value))

/-- The four bits that tell how the identifier was made. -/
def version (u : Uuid) : Nat :=
  u.value / Nat.pow 2 76 % 16

/-- The two bits that tell which layout the identifier follows; `2` is the layout of RFC 4122. -/
def variantBits (u : Uuid) : Nat :=
  u.value / Nat.pow 2 62 % 4

/-- The bits of a number that are left when so many are dropped, `count` of them. -/
def bitsFrom (n dropped count : Nat) : Nat :=
  n / Nat.pow 2 dropped % Nat.pow 2 count

/-- Sets the version to 4 and the variant to that of RFC 4122, and keeps the other 122 bits. -/
def randomised (seed : Nat) : Uuid :=
  let high := (bitsFrom seed 80 48 * Nat.pow 2 4 + 4) * Nat.pow 2 12 + bitsFrom seed 64 12
  ofNat ((high * 4 + 2) * Nat.pow 2 62 + bitsFrom seed 0 62)

@[simp] theorem length_bytes (u : Uuid) : u.bytes.length = 16 :=
  Positional.length_digits ..

@[simp] theorem length_nibbles (u : Uuid) : u.nibbles.length = 32 :=
  Positional.length_digits ..

/-- The byte form reads back. -/
theorem ofBytes?_bytes (u : Uuid) : ofBytes? u.bytes = some u := by
  have h : Positional.value 256 u.bytes = u.value := by
    rw [bytes, Positional.value_digits, Nat.mod_eq_of_lt]
    exact Nat.lt_of_lt_of_eq u.value_lt (by decide)
  rw [ofBytes?, length_bytes, if_pos rfl, h]
  cases u with
  | mk n hn => simp only [ofNat, Nat.mod_eq_of_lt hn]

end Uuid

end TypedId
