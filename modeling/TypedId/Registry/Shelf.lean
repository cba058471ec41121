import TypedId.Catalogue
import TypedId.Decimal.Natural
import TypedId.Identifier.Binary
import TypedId.Identifier.Json

/-!
What is kept of one entity: identifiers in registers, a set of identifiers, and their titles.

`Shelf.step` does one step. A step that needs a register which is not in use changes nothing, and
neither does one that fails to read an identifier.
-/

namespace TypedId.Registry

/-- What is kept of one entity. -/
structure Shelf (entity : String) where
  registers : Named (Identifier entity)
  members : Ascending (Identifier entity)
  titles : Keyed (Identifier entity) String

/-- What can be done with a shelf. Registers are told by their names. -/
inductive Step where
  | read (register text : String)
  | ofNumber (register digits : String)
  | ofBytes (register : String) (bytes : List Nat)
  | copy (source register : String)
  | inspect (register : String)
  | view (register : String)
  | compare (left right : String)
  | clamp (register low high : String)
  | hash (register : String)
  | sort (reverse : Bool)
  | insert (register : String)
  | remove (register : String)
  | contains (register : String)
  | list
  | range (low high : String)
  | entitle (register title : String)
  | title (register : String)
  | toJson (register : String)
  | setToJson
  | ofJson (register text : String)
  | normalizeJson (collection : Identifier.Collection) (text : String)
  | toBinary (register : String)
  | ofBinary (register : String) (bytes : List Nat)
  | entity
deriving Repr

/-- How two identifiers compare. -/
structure Comparison (entity : String) where
  equal : Bool
  order : Ordering
  partialOrder : Option Ordering
  less : Bool
  atLeast : Bool
  greater : Identifier entity
  lesser : Identifier entity
  sameHash : Bool

/-- What comes of a step. -/
inductive Reply (entity : String) where
  | id (i : Identifier entity)
  | inspected (i : Identifier entity)
  | viewed (u : Uuid)
  | compared (comparison : Comparison entity)
  | hashed (pieces : List (List Nat))
  | ordered (registers : List String)
  /-- Whether the set changed, and how many members it has. -/
  | changed (changed : Bool) (size : Nat)
  | contained (found : Bool)
  | listed (members : List (Identifier entity))
  | ranged (members : List (Identifier entity))
  /-- The title before, and how many titles there are. -/
  | entitled (before : Option String) (size : Nat)
  | title (title : Option String)
  | json (text : String)
  | binary (bytes : List Nat)
  | layout (plain optional : Layout)
  | unreadable (failure : ReadFailure)
  | noNumber (fault : Decimal.NumberFault)
  | wrongCount (found : Nat)
  | noJson (message : String)
  | noBinary (fault : Binary.BinaryFault)
  | noRegister (name : String)
  /-- The bounds are in the wrong order. -/
  | noRange

namespace Shelf

variable {entity : String}

/-- Nothing. -/
def empty : Shelf entity := ⟨[], [], []⟩

/-- Puts an identifier into a register. -/
def store (s : Shelf entity) (register : String) (i : Identifier entity) : Shelf entity :=
  { s with registers := s.registers.put register i }

/-- Stores an identifier that was made, or tells why there is none. -/
def keep (s : Shelf entity) (register : String) (complain : ε → Reply entity) :
    Except ε (Identifier entity) → Reply entity × Shelf entity
  | .ok i => (.id i, s.store register i)
  | .error e => (complain e, s)

/-- Does something with the identifier in a register. -/
def withRegister (s : Shelf entity) (register : String)
    (act : Identifier entity → Reply entity × Shelf entity) : Reply entity × Shelf entity :=
  match s.registers.get? register with
  | some i => act i
  | none => (.noRegister register, s)

/-- Tells something of the identifier in a register. -/
def tell (s : Shelf entity) (register : String) (reply : Identifier entity → Reply entity) :
    Reply entity × Shelf entity :=
  s.withRegister register fun i => (reply i, s)

/-- Compares two identifiers. -/
def comparison (i j : Identifier entity) : Comparison entity where
  equal := i = j
  order := i.order j
  partialOrder := i.order? j
  less := i < j
  atLeast := j ≤ i
  greater := i.max j
  lesser := i.min j
  sameHash := i.hashInput = j.hashInput

/-- The names of the registers in use, in the order of their identifiers. -/
def sorted (s : Shelf entity) : List String :=
  (s.registers.mergeSort fun (_, i) (_, j) => i ≤ j).map Prod.fst

/-- The identifier that a number below `2 ^ 128` denotes. -/
def ofNumber (digits : String) : Except Decimal.NumberFault (Identifier entity) :=
  (Decimal.readBelow (Nat.pow 2 128) digits.toList).map fun n => ⟨Uuid.ofNat n⟩

/-- The identifier that sixteen bytes make up; other counts of bytes make none. -/
def ofBytes (bytes : List Nat) : Except Nat (Identifier entity) :=
  match Uuid.ofBytes? bytes with
  | some u => .ok ⟨u⟩
  | none => .error bytes.length

/-- Does a step. -/
def step (s : Shelf entity) : Step → Reply entity × Shelf entity
  | .read register text => s.keep register .unreadable (Identifier.read entity text)
  | .ofNumber register digits => s.keep register .noNumber (ofNumber digits)
  | .ofBytes register bytes => s.keep register .wrongCount (ofBytes bytes)
  | .copy source register => s.withRegister source fun i => (.id i, s.store register i)
  | .inspect register => s.tell register .inspected
  | .view register => s.tell register fun i => .viewed i.uuid
  | .compare left right =>
    s.withRegister left fun i => s.tell right fun j => .compared (comparison i j)
  | .clamp register low high =>
    s.withRegister register fun i => s.withRegister low fun l => s.tell high fun h =>
      if h < l then .noRange else .id (i.clamp l h)
  | .hash register => s.tell register fun i => .hashed i.hashInput
  | .sort reverse => (.ordered (if reverse then s.sorted.reverse else s.sorted), s)
  | .insert register =>
    s.withRegister register fun i =>
      let members := s.members.insert i
      (.changed (!s.members.contains i) members.length, { s with members })
  | .remove register =>
    s.withRegister register fun i =>
      let members := s.members.erase i
      (.changed (s.members.contains i) members.length, { s with members })
  | .contains register => s.tell register fun i => .contained (s.members.contains i)
  | .list => (.listed s.members, s)
  | .range low high =>
    s.withRegister low fun l => s.tell high fun h =>
      if h < l then .noRange else .ranged (s.members.between l h)
  | .entitle register title =>
    s.withRegister register fun i =>
      let titles := s.titles.put i title
      (.entitled (s.titles.get? i) titles.length, { s with titles })
  | .title register => s.tell register fun i => .title (s.titles.get? i)
  | .toJson register => s.tell register fun i => .json i.toJson
  | .setToJson => (.json (Identifier.listToJson s.members), s)
  | .ofJson register text =>
    s.keep register (fun f => .noJson (f.message text)) (Identifier.ofJson entity text)
  | .normalizeJson collection text =>
    match Identifier.normalizeJson collection text with
    | .ok json => (.json json, s)
    | .error f => (.noJson (f.message text), s)
  | .toBinary register => s.tell register fun i => .binary (Binary.encode i)
  | .ofBinary register bytes => s.keep register .noBinary (Binary.decode entity bytes)
  | .entity => (.layout Layout.ofId Layout.ofId.optional, s)

end Shelf

end TypedId.Registry
