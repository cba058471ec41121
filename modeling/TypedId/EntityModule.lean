import TypedId.Diagnostic
import TypedId.Grammar.Reading

/-!
The module that is annotated as an entity.

`EntityModule.read` accepts a module whose items stand in the text and declare none of the names
that will be generated.
-/

namespace TypedId

open Lexeme Grammar

/-- The names that are generated. -/
def reservedNames : List String := ["Id", "Tag", "Unsafe"]

/-- Whether a name is reserved. -/
def Grammar.Name.isReserved (n : Name) : Bool := reservedNames.contains n.text

/-- A name, if it is reserved. -/
def Grammar.Name.reserved? (n : Name) : Option Name :=
  if n.isReserved then some n else none

/-- The names that an import tree brings in, from left to right. -/
def Grammar.ImportTree.names : ImportTree → List Name
  | path _ tree => tree.names
  | name n => [n]
  | rename _ n => [n]
  | glob => []
  | group trees => namesOfAll trees
where
  /-- The names that several import trees bring in. -/
  namesOfAll : List ImportTree → List Name
    | [] => []
    | tree :: trees => tree.names ++ namesOfAll trees

/-- The first reserved name that an import tree brings in. -/
def Grammar.ImportTree.reserved? : ImportTree → Option Name
  | path _ tree => tree.reserved?
  | name n => n.reserved?
  | rename _ n => n.reserved?
  | glob => none
  | group trees => reservedOfAll? trees
where
  /-- The first reserved name that several import trees bring in. -/
  reservedOfAll? : List ImportTree → Option Name
    | [] => none
    | tree :: trees => tree.reserved? <|> reservedOfAll? trees

/-- The names that an item declares in its module. -/
def Grammar.ItemBody.names : ItemBody → List Name
  | constant n | enumeration n | function n | module _ n _ _ | staticItem n | structure_ n
  | traitItem n | traitAlias n | typeAlias n | union n => [n]
  | externCrate n rename => [rename.getD n]
  | invocation _ n => n.toList
  | import_ tree => tree.names
  | foreignModule | implementation _ _ | kept => []

/-- The first reserved name that an item declares in its module. -/
def Grammar.ItemBody.reserved? : ItemBody → Option Name
  | constant n | enumeration n | function n | module _ n _ _ | staticItem n | structure_ n
  | traitItem n | traitAlias n | typeAlias n | union n => n.reserved?
  | externCrate n rename => (rename.getD n).reserved?
  | invocation _ n => n.bind Name.reserved?
  | import_ tree => tree.reserved?
  | foreignModule | implementation _ _ | kept => none

/-- The first name among those of some items that is reserved. -/
def firstReserved (items : List ItemBody) : Option Name :=
  items.findSome? ItemBody.reserved?

/-- A module that can be an entity. -/
structure EntityModule where
  attributes : List Attribute
  innerAttributes : List Attribute
  visibility : List Lexeme
  name : String
  /-- Its items, each with the lexemes that it is written with. -/
  items : List (ItemBody × List Lexeme)
deriving Repr

namespace EntityModule

/-- The name of the entity: the module's name, without the mark of a raw word. -/
def entity (m : EntityModule) : String :=
  match m.name.toList with
  | 'r' :: '#' :: cs => String.ofList cs
  | _ => m.name

/-- Makes an entity of an item. -/
def ofItem (found : OuterItem) : Except Diagnostic EntityModule :=
  match found.item.body with
  | .module unsafeAt name innerAttributes members =>
    match unsafeAt, members with
    | some position, _ => .error ⟨.unsafeModule, .single position⟩
    | none, none => .error ⟨.outOfLine, .single name.position⟩
    | none, some items =>
      match firstReserved (items.map Prod.fst) with
      | some n => .error ⟨.reserved n.text name.text, .single n.position⟩
      | none =>
        .ok ⟨found.attributes, innerAttributes, found.visibility, name.text, items⟩
  | _ => .error ⟨.noModule, found.stretch⟩

/-- Reads the module that is annotated. Whatever is wrong within it, the fault is found at its
beginning. -/
def read (ls : List Lexeme) : Except Diagnostic EntityModule :=
  match (Rule.call .item).read ls with
  | .error _ => .error ⟨.noModule, .single 0⟩
  | .ok (found, r) =>
    match r.rest with
    | _ :: _ => .error ⟨.noModule, .single r.position⟩
    | [] => do
      let m ← ofItem found
      match r.strayFault? with
      | some fault => .error (.ofFault fault)
      | none => .ok m

end EntityModule

end TypedId
