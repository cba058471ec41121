import TypedId.Identifier

/-!
The binary form of identifiers: a length in eight bytes, the least significant first, and as many
bytes.
-/

namespace TypedId.Binary

/-- Why bytes are not the binary form of an identifier. -/
inductive BinaryFault where
  /-- They end within the length. -/
  | length
  /-- They end before the announced count. -/
  | content
  /-- The announced count is not that of an identifier. -/
  | count (found : Nat)
deriving DecidableEq, Repr

/-- The sentence for bytes whose count is not that of an identifier. -/
def wrongCount (found : Nat) : String :=
  s!"invalid length: expected 16 bytes, found {found}"

/-- The sentence for a fault. -/
def BinaryFault.message : BinaryFault → String
  | length => "io error: unexpected end of file"
  | content => "io error: "
  | count found => s!"UUID parsing failed: {wrongCount found}"

/-- Writes bytes behind their count. -/
def encodeBytes (bs : List Nat) : List Nat :=
  (Positional.digits 256 8 bs.length).reverse ++ bs

/-- Reads bytes behind their count: the bytes, and what follows them. -/
def decodeBytes (bs : List Nat) : Except BinaryFault (List Nat × List Nat) :=
  if bs.length < 8 then .error .length
  else
    let count := Positional.value 256 (bs.take 8).reverse
    let rest := bs.drop 8
    if rest.length < count then .error .content
    else .ok (rest.take count, rest.drop count)

/-- Writes an identifier. -/
def encode (i : Identifier entity) : List Nat :=
  encodeBytes i.uuid.bytes

/-- Reads an identifier; what follows it does not count. -/
def decode (entity : String) (bs : List Nat) : Except BinaryFault (Identifier entity) := do
  let (content, _) ← decodeBytes bs
  match Uuid.ofBytes? content with
  | some u => .ok ⟨u⟩
  | none => .error (.count content.length)

end TypedId.Binary
