import TypedId.Uuid.Reading

/-!
Identifiers that belong to an entity.

An entity is a kind of thing that has identifiers, such as users or posts. Reading an identifier of
an entity is reading a `Uuid`; a failure remembers which entity was asked for and what was read.
-/

namespace TypedId

/-- A text was not an identifier of the entity it was read for. -/
structure ReadFailure where
  /-- The entity's name. -/
  entity : String
  /-- The text that was read, unchanged. -/
  input : String
  /-- What was wrong with it. -/
  reason : Uuid.Reason
deriving DecidableEq, Repr

/-- The sentence shown for a failed reading. -/
def ReadFailure.message (failure : ReadFailure) : String :=
  s!"`{failure.input}` is not a valid {failure.entity} id: {failure.reason.message}"

/-- Reads an identifier of the named entity. -/
def readId (entity text : String) : Except ReadFailure Uuid :=
  (Uuid.read text).mapError fun reason => ⟨entity, text, reason⟩

end TypedId
