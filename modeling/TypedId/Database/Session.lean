import TypedId.Database.Table

/-!
Working with a table of users through their identifiers.

`step` does one step on the table. A step that is given a text which is no identifier does nothing.
-/

namespace TypedId.Database

/-- What can be done. -/
inductive Step where
  /-- Ask for the kind of a column of identifiers. -/
  | columnKind
  /-- Ask for the kinds of values that are read as identifiers. -/
  | compatible (kinds : List Kind)
  | encode (id : String)
  | decode (value : Value) (checked : Bool)
  | decodeOptional (value : Value)
  | insert (id name : String)
  | insertValue (key : Value) (name : String)
  | delete (id : String)
  | findName (id : String)
  | findId (name : String)
  | list
deriving Repr

/-- What comes of a step. -/
inductive Reply (entity : String) where
  | kind (kind : Kind)
  | compatible (kinds : List (Kind × Bool))
  | encoded (value : Value)
  | decoded (i : Option (Identifier entity))
  /-- How many rows changed. -/
  | rows (count : Nat)
  | name (name : String)
  | listed (rows : List (Identifier entity × String))
  | unreadable (failure : ReadFailure)
  | fault (fault : ColumnFault)
  | violation (violation : Violation)
  | notFound

variable {entity : String}

/-- Does something with an identifier that is given as a text. -/
def reading (t : Table) (id : String) (act : Identifier entity → Reply entity × Table) :
    Reply entity × Table :=
  match Identifier.read entity id with
  | .ok i => act i
  | .error failure => (.unreadable failure, t)

/-- Inserts a row. -/
def inserting (t : Table) (key : Value) (name : String) : Reply entity × Table :=
  match t.insert key name with
  | .ok t' => (.rows 1, t')
  | .error violation => (.violation violation, t)

/-- What reading a value tells. -/
def told : Except ColumnFault (Option (Identifier entity)) → Reply entity
  | .ok i => .decoded i
  | .error fault => .fault fault

/-- Reads the keys of all rows; the first that is no identifier is told. -/
def readRows (entity : String) (t : Table) :
    Except ColumnFault (List (Identifier entity × String)) :=
  t.mapM fun r => (decode entity true r.key).map (·, r.name)

/-- Does a step. -/
def step (t : Table) : Step → Reply entity × Table
  | .columnKind => (.kind Database.columnKind, t)
  | .compatible kinds => (.compatible (kinds.map fun k => (k, isCompatible k)), t)
  | .encode id => reading t id fun i => (.encoded (Database.encode i), t)
  | .decode value checked => (told ((Database.decode entity checked value).map some), t)
  | .decodeOptional value => (told (Database.decodeOptional entity value), t)
  | .insert id name => reading t id fun i => inserting t (Database.encode i) name
  | .insertValue key name => inserting t key name
  | .delete id =>
    reading t id fun i =>
      let (t', count) := t.delete (Database.encode i)
      (.rows count, t')
  | .findName id =>
    reading t id fun i =>
      match t.name? (Database.encode i) with
      | some name => (.name name, t)
      | none => (.notFound, t)
  | .findId name =>
    match t.key? name with
    | some key => (told ((Database.decode entity true key).map some), t)
    | none => (.notFound, t)
  | .list =>
    match readRows entity t with
    | .ok rows => (.listed rows, t)
    | .error fault => (.fault fault, t)

end TypedId.Database
