import TypedId.Database.Value
import TypedId.Identifier.Binary

/-!
Identifiers as values of a column.

An identifier is stored as the blob of its sixteen bytes. Whatever has sixteen bytes is read back,
but where the kind of a value is checked, only texts and blobs are.
-/

namespace TypedId.Database

/-- The kind of a column of identifiers. -/
def columnKind : Kind := .blob

/-- The kinds of values that are read as identifiers. -/
def isCompatible (kind : Kind) : Bool :=
  kind = .text || kind = .blob

/-- The value that stores an identifier. -/
def encode (i : Identifier entity) : Value := .blob i.uuid.bytes

/-- Why a value is not read as an identifier. -/
inductive ColumnFault where
  /-- The value has another count of bytes. -/
  | count (found : Nat)
  /-- The value has another kind; `optional` tells whether null was admitted. -/
  | kind (found : Kind) (optional : Bool)
deriving DecidableEq, Repr

/-- The sentence for a fault. `type` is the full name of the type of the identifiers. -/
def ColumnFault.message (type : String) : ColumnFault → String
  | count found => s!"error occurred while decoding column 0: {Binary.wrongCount found}"
  | kind found optional =>
    let wanted := if optional then s!"core::option::Option<{type}>" else type
    s!"error occurred while decoding column 0: mismatched types; Rust type `{wanted}` " ++
      s!"(as SQL type `{columnKind.name}`) is not compatible with SQL type `{found.name}`"

/-- Reads the bytes of a value, whatever its kind. -/
def decodeBytes (entity : String) (v : Value) : Except ColumnFault (Identifier entity) :=
  match Uuid.ofBytes? v.bytes with
  | some u => .ok ⟨u⟩
  | none => .error (.count v.bytes.length)

/-- Reads a value. Null has no bytes, which is a wrong count and not a wrong kind. -/
def decode (entity : String) (checked : Bool) (v : Value) :
    Except ColumnFault (Identifier entity) :=
  if checked ∧ v.kind ≠ .null ∧ ¬ isCompatible v.kind then .error (.kind v.kind false)
  else decodeBytes entity v

/-- Reads a value that may be null. Its kind is checked. -/
def decodeOptional (entity : String) (v : Value) :
    Except ColumnFault (Option (Identifier entity)) :=
  if v.kind = .null then .ok none
  else if ¬ isCompatible v.kind then .error (.kind v.kind true)
  else (decodeBytes entity v).map some

/-- A stored identifier is read back. -/
theorem decode_encode (i : Identifier entity) (checked : Bool) :
    decode entity checked (encode i) = .ok i := by
  simp [decode, encode, decodeBytes, isCompatible, Value.kind, Value.bytes, Uuid.ofBytes?_bytes]

end TypedId.Database
