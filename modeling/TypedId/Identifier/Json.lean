import TypedId.Ascending
import TypedId.Identifier
import TypedId.JsonText.Collection
import TypedId.Keyed

/-!
Identifiers in JSON.

An identifier is its text form between quotes, and is read from any spelling that `Uuid.read`
accepts. It stands alone, in lists and sets, as a key of objects, with null, or in pairs.
-/

namespace TypedId.Identifier

variable {entity : String}

/-- Writes an identifier as a JSON text. -/
def toJson (i : Identifier entity) : String := JsonText.quote i.render

/-- Reads an identifier from a JSON text. -/
def ofJson (entity text : String) : Except JsonText.Failure (Identifier entity) :=
  (JsonText.readAll JsonText.identifier text).map Identifier.mk

/-- Writes identifiers as a JSON list. -/
def listToJson (is : List (Identifier entity)) : String := JsonText.writeList (is.map toJson)

/-- The values that can be made of identifiers. -/
inductive Collection where
  | list
  | set
  /-- Identifiers with whole numbers. -/
  | map
  | option
  /-- An identifier with a text. -/
  | pair
deriving DecidableEq, Repr

/-- Reads a value made of identifiers from a JSON text and writes it again. Sets and maps come out
in the order of their identifiers, and the last number of an identifier counts. -/
def normalizeJson (collection : Collection) (text : String) : Except JsonText.Failure String :=
  let id (u : Uuid) := JsonText.quote u.render
  match collection with
  | .list => do
    let us ← JsonText.readAll (JsonText.list JsonText.identifier) text
    return JsonText.writeList (us.map id)
  | .set => do
    let us ← JsonText.readAll (JsonText.list JsonText.identifier) text
    return JsonText.writeList ((Ascending.ofList us).map id)
  | .map => do
    let entries ← JsonText.readAll (JsonText.object JsonText.integer) text
    let sorted : Keyed Uuid Int := entries.foldl (fun m (u, n) => m.put u n) []
    return JsonText.writeObject (sorted.map fun (u, n) => (u.render, toString n))
  | .option => do
    match ← JsonText.readAll (JsonText.optional JsonText.identifier) text with
    | none => return "null"
    | some u => return id u
  | .pair => do
    let (u, s) ← JsonText.readAll
      (JsonText.pair JsonText.identifier (JsonText.text .text)) text
    return JsonText.writeList [id u, JsonText.quote s]

end TypedId.Identifier
