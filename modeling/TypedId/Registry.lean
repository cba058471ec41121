import TypedId.Registry.Shelf

/-!
The shelves of all entities.

A step concerns one entity, whose shelf it changes; only `Registry.convert` takes an identifier from
one shelf to another.
-/

namespace TypedId

/-- The shelves of all entities. -/
structure Registry where
  shelf : (entity : String) → Registry.Shelf entity

namespace Registry

/-- Shelves with nothing on them. -/
def empty : Registry := ⟨fun _ => Shelf.empty⟩

/-- Replaces the shelf of an entity. -/
def setShelf (r : Registry) {entity : String} (s : Shelf entity) : Registry where
  shelf other := if h : entity = other then h ▸ s else r.shelf other

/-- Does a step that concerns one entity. -/
def step (r : Registry) (entity : String) (step : Step) : Reply entity × Registry :=
  let (reply, s) := (r.shelf entity).step step
  (reply, r.setShelf s)

/-- What comes of a conversion. -/
inductive Conversion where
  /-- There is an identifier of another entity now. -/
  | converted (entity : String) (i : Identifier entity)
  | noRegister (name : String)
  | noEntity

/-- Makes an identifier of another entity from one in a register. -/
def convert (r : Registry) (entity source other register : String) : Conversion × Registry :=
  match (r.shelf entity).registers.get? source with
  | none => (.noRegister source, r)
  | some i =>
    match Catalogue.entityNamed? other with
    | none => (.noEntity, r)
    | some _ =>
      let j := i.convert other
      (.converted other j, r.setShelf ((r.shelf other).store register j))

end Registry

end TypedId
