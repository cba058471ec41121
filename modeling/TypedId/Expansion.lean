import TypedId.EntityModule
import TypedId.Expansion.Generated

/-!
The module that an entity's module is replaced by.
-/

namespace TypedId

open Lexeme Grammar

/-- The items that are put into the module of an entity. -/
def EntityModule.generated (options : Options) (m : EntityModule) : List (List Lexeme) :=
  Generated.generatedItems m.entity ++
    if options.database then [Generated.databaseAdapter] else []

/-- The items of an entity: the generated ones, and then its own. -/
def EntityModule.expandedItems (options : Options) (m : EntityModule) : List (List Lexeme) :=
  m.generated options ++ m.items.map Prod.snd

/-- An entity's module with its generated items. -/
def EntityModule.expand (options : Options) (m : EntityModule) : List Lexeme :=
  m.attributes.flatMap Attribute.text ++ m.visibility ++ [word "mod", word m.name] ++
    braces (m.innerAttributes.flatMap Attribute.text ++ (m.expandedItems options).flatten)

end TypedId
