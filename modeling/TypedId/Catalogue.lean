import TypedId.Identifier

/-!
The entities that there are.
-/

namespace TypedId

/-- An entity, with what its module declares besides the identifiers. -/
structure Entity where
  name : String
  /-- The table that holds what the identifiers stand for. -/
  table : Option String
  /-- An identifier that is known beforehand. -/
  admin : Option Uuid

namespace Catalogue

/-- An entity with nothing but identifiers. -/
def plain (name : String) : Entity := ⟨name, none, none⟩

/-- Users, with their table and their administrator. -/
def user : Entity where
  name := "user"
  table := some "users"
  admin := some (Uuid.ofNat 0x67e5504410b1426f9247bb680e5fe0c8)

/-- Entities whose identifiers are kept in a database. -/
def stored : List Entity := [plain "account", plain "ledger"]

/-- All entities. -/
def entities : List Entity :=
  [user, plain "post", plain "type"] ++ stored ++ [plain "größe", plain "Id"]

/-- The entity with a name. -/
def entityNamed? (name : String) : Option Entity :=
  entities.find? (·.name = name)

/-- The entity with a name whose identifiers are kept in a database. -/
def storedNamed? (name : String) : Option Entity :=
  stored.find? (·.name = name)

end Catalogue

end TypedId
