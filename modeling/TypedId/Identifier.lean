import TypedId.Entity

/-!
Identifiers as their users see them.

`Identifier entity` is an identifier of one entity. Its entity is part of its type and of nothing else: an
identifier has the texts, the order, the hash and the layout of the `Uuid` within.
-/

namespace TypedId

/-- An identifier of the entity with a name. -/
structure Identifier (entity : String) where
  uuid : Uuid
deriving DecidableEq

namespace Identifier

variable {entity other : String}

/-- Reads an identifier. -/
def read (entity text : String) : Except ReadFailure (Identifier entity) :=
  (readId entity text).map Identifier.mk

/-- The text form. -/
def render (i : Identifier entity) : String := i.uuid.render

/-- The text form in parentheses, behind the name of the type. -/
def inspect (i : Identifier entity) : String := s!"Id({i.render})"

/-- The same over several lines. -/
def inspectLines (i : Identifier entity) : String := s!"Id(\n    {i.render},\n)"

/-- The text form behind the name of the entity. -/
def describe (i : Identifier entity) : String := s!"{entity} {i.render}"

/-- The text form in columns. It is as long as it is: a column pads it as little as it cuts it. -/
def columns (i : Identifier entity) : String := "|".intercalate (List.replicate 4 i.render)

/-- The identifier of another entity with the same bits. -/
def convert (i : Identifier entity) (other : String) : Identifier other := ⟨i.uuid⟩

/-- Identifiers are ordered as numbers. -/
def order (i j : Identifier entity) : Ordering := i.uuid.order j.uuid

/-- The order as it is asked of things that need not be comparable; identifiers always are. -/
def order? (i j : Identifier entity) : Option Ordering := some (i.order j)

instance : LE (Identifier entity) := ⟨fun i j => i.uuid ≤ j.uuid⟩
instance : LT (Identifier entity) := ⟨fun i j => i.uuid < j.uuid⟩
instance : DecidableLE (Identifier entity) := fun i j => inferInstanceAs (Decidable (i.uuid ≤ j.uuid))
instance : DecidableLT (Identifier entity) := fun i j => inferInstanceAs (Decidable (i.uuid < j.uuid))

/-- The lesser of two identifiers. -/
def min (i j : Identifier entity) : Identifier entity := if j < i then j else i

/-- The greater of two identifiers. -/
def max (i j : Identifier entity) : Identifier entity := if j < i then i else j

/-- The nearest identifier within bounds. -/
def clamp (i low high : Identifier entity) : Identifier entity :=
  if i < low then low else if high < i then high else i

/-- What a hash function is given, piece by piece. -/
def hashInput (i : Identifier entity) : List (List Nat) := [i.uuid.bytes]

end Identifier

/-- The size and the alignment of a value in memory. -/
structure Layout where
  size : Nat
  alignment : Nat
deriving DecidableEq, Repr

namespace Layout

/-- The layout of bytes in a row. -/
def bytes (count : Nat) : Layout := ⟨count, 1⟩

/-- The layout of an optional value whose bits can form every pattern: something has to tell apart
whether there is one. -/
def optional (l : Layout) : Layout := ⟨l.size + l.alignment, l.alignment⟩

/-- The layout of an identifier. -/
def ofId : Layout := bytes 16

end Layout

end TypedId
