import TypedId.Database.Column

/-!
A table of users: names under keys.

Keys are identifiers where they were stored as such, but may be any value other than null. The rows
are listed in the order of their keys, and no two keys are equal.
-/

namespace TypedId.Database

/-- A row: a key and a name. -/
structure Row where
  key : Value
  name : String
deriving Repr

/-- Rows in the order of their keys. -/
abbrev Table := List Row

/-- Why a row is not inserted. -/
inductive Violation where
  /-- There is a row with that key. -/
  | unique
  /-- The key is null. -/
  | notNull
deriving DecidableEq, Repr

/-- The sentence for a violation. -/
def Violation.message : Violation → String
  | unique => "error returned from database: (code: 1555) UNIQUE constraint failed: users.id"
  | notNull => "error returned from database: (code: 1299) NOT NULL constraint failed: users.id"

/-- The sentence for a query that finds nothing. -/
def notFound : String :=
  "no rows returned by a query that expected to return at least one row"

namespace Table

/-- Inserts a row in front of the first with a greater key. -/
def place (row : Row) : Table → Except Violation Table
  | [] => .ok [row]
  | r :: rest =>
    match row.key.order r.key with
    | .lt => .ok (row :: r :: rest)
    | .eq => .error .unique
    | .gt => (place row rest).map (r :: ·)

/-- Inserts a row. -/
def insert (t : Table) (key : Value) (name : String) : Except Violation Table :=
  if key.kind = .null then .error .notNull else place ⟨key, name⟩ t

/-- Whether a row has the given key. -/
def hasKey (key : Value) (r : Row) : Bool := key.order r.key = .eq

/-- Deletes the row with a key: the other rows, and how many were deleted. -/
def delete (t : Table) (key : Value) : Table × Nat :=
  (t.filter (!hasKey key ·), (t.filter (hasKey key)).length)

/-- The name under a key. -/
def name? (t : Table) (key : Value) : Option String :=
  (t.find? (hasKey key)).map Row.name

/-- The least key with a name. -/
def key? (t : Table) (name : String) : Option Value :=
  (t.find? (·.name = name)).map Row.key

end Table

end TypedId.Database
