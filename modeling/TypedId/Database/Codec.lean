import TypedId.Database.Session

/-!
Columns of plain and of typed identifiers.

A `Codec` tells how the values of a type are stored in a column. That of a `Uuid` belongs to the
database. That of an identifier is an adapter: it asks the codec of the wrapped `Uuid` for everything,
whichever that codec is. A `Query` is what a client asks of the table of users, with keys of the type
of its codec; in a visit a client of either type asks something.
-/

namespace TypedId.Database

/-- How the values of a type are stored in a column. -/
structure Codec (α : Type) where
  /-- The kind of the column. -/
  kind : Kind
  /-- The kinds of values that are read. -/
  isCompatible : Kind → Bool
  encode : α → Value
  /-- The kind of a stored value, if it is another than that of the column. -/
  produces : α → Option Kind
  /-- How many bytes a stored value is expected to take. -/
  sizeHint : α → Nat
  decode : Value → Except ColumnFault α

namespace Codec

/-- The codec of plain identifiers: a blob of sixteen bytes, read from any sixteen bytes. -/
def plain : Codec Uuid where
  kind := columnKind
  isCompatible := Database.isCompatible
  encode u := .blob u.bytes
  produces _ := none
  sizeHint u := u.bytes.length
  decode v :=
    match Uuid.ofBytes? v.bytes with
    | some u => .ok u
    | none => .error (.count v.bytes.length)

/-- The codec of the identifiers of an entity, made of one for plain identifiers. -/
def adapted (c : Codec Uuid) (entity : String) : Codec (Identifier entity) where
  kind := c.kind
  isCompatible := c.isCompatible
  encode i := c.encode i.uuid
  produces i := c.produces i.uuid
  sizeHint i := c.sizeHint i.uuid
  decode v := (c.decode v).map Identifier.mk

variable {α β : Type}

/-- Reads a value; where kinds are checked, only one of a compatible kind. -/
def read (c : Codec α) (checked : Bool) (v : Value) : Except ColumnFault α :=
  if checked ∧ v.kind ≠ .null ∧ ¬ c.isCompatible v.kind then .error (.kind v.kind false)
  else c.decode v

/-- Reads a value that may be null. Its kind is checked. -/
def readOptional (c : Codec α) (v : Value) : Except ColumnFault (Option α) :=
  if v.kind = .null then .ok none
  else if ¬ c.isCompatible v.kind then .error (.kind v.kind true)
  else (c.decode v).map some

end Codec

/-- What a client asks of a table of users. -/
inductive Query (α : Type) where
  | insert (a : α) (name : String)
  | delete (a : α)
  | findName (a : α)
  | findId (name : String)
  | list
deriving Repr

/-- The same query with keys of another type. -/
def Query.map (f : α → β) : Query α → Query β
  | insert a name => .insert (f a) name
  | delete a => .delete (f a)
  | findName a => .findName (f a)
  | findId name => .findId name
  | list => .list

/-- What a client is told. -/
inductive Response (α : Type) where
  /-- How many rows changed. -/
  | rows (count : Nat)
  | name (name : String)
  | found (a : α)
  | listed (rows : List (α × String))
  | fault (fault : ColumnFault)
  | violation (violation : Violation)
  | notFound

/-- The same response with keys of another type. -/
def Response.map (f : α → β) : Response α → Response β
  | rows n => .rows n
  | name s => .name s
  | found a => .found (f a)
  | listed rs => .listed (rs.map fun (a, s) => (f a, s))
  | fault e => .fault e
  | violation e => .violation e
  | notFound => .notFound

/-- What a client is told who reads something. -/
def Response.ofRead (respond : α → Response β) : Except ColumnFault α → Response β
  | .ok a => respond a
  | .error e => .fault e

/-- Answers a query of a client with a codec: what it is told, and the table afterwards. -/
def Codec.ask (c : Codec α) (t : Table) : Query α → Response α × Table
  | .insert a name =>
    match t.insert (c.encode a) name with
    | .ok t' => (.rows 1, t')
    | .error violation => (.violation violation, t)
  | .delete a =>
    let (t', count) := t.delete (c.encode a)
    (.rows count, t')
  | .findName a =>
    match t.name? (c.encode a) with
    | some name => (.name name, t)
    | none => (.notFound, t)
  | .findId name =>
    match t.key? name with
    | some key => (.ofRead .found (c.read true key), t)
    | none => (.notFound, t)
  | .list => (.ofRead .listed (t.mapM fun r => (c.read true r.key).map (·, r.name)), t)

/-- A query of a client, be it one with identifiers of an entity or one with plain ones. -/
inductive Visit (entity : String) where
  | typed (query : Query (Identifier entity))
  | plain (query : Query Uuid)

namespace Visit

variable {entity : String}

/-- The query with plain identifiers. -/
def query : Visit entity → Query Uuid
  | typed query => query.map Identifier.uuid
  | plain query => query

/-- Answers the query of a visit. The response is told with plain identifiers. -/
def ask (t : Table) : Visit entity → Response Uuid × Table
  | typed query =>
    let (response, t) := (Codec.plain.adapted entity).ask t query
    (response.map Identifier.uuid, t)
  | plain query => Codec.plain.ask t query

/-- The table after some visits, the last of which is the first in the list. -/
def run : List (Visit entity) → Table
  | [] => []
  | v :: vs => (v.ask (run vs)).2

end Visit

end TypedId.Database
