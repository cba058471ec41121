import TypedId.Expansion

/-!
What is found in expanded code when it is read again.
-/

namespace TypedId

open Lexeme Grammar

/-- The kind of an item. -/
def Grammar.ItemBody.kind : ItemBody → String
  | constant _ => "const"
  | enumeration _ => "enum"
  | externCrate _ _ => "extern crate"
  | function _ => "fn"
  | foreignModule => "foreign mod"
  | implementation _ _ => "impl"
  | invocation _ _ => "macro"
  | module _ _ _ _ => "mod"
  | staticItem _ => "static"
  | structure_ _ => "struct"
  | traitItem _ => "trait"
  | traitAlias _ => "trait alias"
  | typeAlias _ => "type"
  | union _ => "union"
  | import_ _ => "use"
  | kept => "verbatim"

/-- The kind of an item and what it is about: its name, or the types or path that it mentions. -/
def Grammar.ItemBody.label (body : ItemBody) : String :=
  match body with
  | constant n | enumeration n | function n | module _ n _ _ | structure_ n | traitItem n
  | typeAlias n => body.kind ++ " " ++ n.text
  | invocation path _ => body.kind ++ " " ++ render path
  | implementation (some ofTrait) type =>
    body.kind ++ " " ++ render ofTrait ++ " for " ++ render type
  | implementation none type => body.kind ++ " " ++ render type
  | _ => body.kind

/-- Whether an item is a constant without a name. -/
def Grammar.ItemBody.isAnonymousConstant : ItemBody → Bool
  | constant n => n.text == "_"
  | _ => false

/-- Whether a text stands within another. -/
def occursIn (part : List Char) : List Char → Bool
  | [] => part.isEmpty
  | c :: cs => part.isPrefixOf (c :: cs) || occursIn part cs

/-- What is found in expanded code. -/
structure Summary where
  visibility : List Lexeme
  name : String
  outerAttributes : Nat
  innerAttributes : Nat
  labels : List String
  anonymousConstants : Nat
  mentionsDatabase : Bool
  /-- Whether the module's own items are the last ones, as they were. -/
  bodyKept : Bool
  /-- Whether another expansion gives the same code. -/
  sameAgain : Bool
deriving DecidableEq, Repr

/-- Reads expanded code again. `none` if it is no module. -/
def EntityModule.summary? (options : Options) (m : EntityModule) : Option Summary :=
  let output := m.expand options
  match (Rule.call .item).read output with
  | .ok (found, r) =>
    match found.item.body, r.rest with
    | .module _ n innerAttributes (some items), [] =>
      some {
        visibility := found.visibility
        name := n.text
        outerAttributes := found.attributes.length
        innerAttributes := innerAttributes.length
        labels := items.map fun (body, _) => body.label
        anonymousConstants := (items.filter fun (body, _) => body.isAnonymousConstant).length
        mentionsDatabase := occursIn "sqlx".toList (render output).toList
        bodyKept := (m.items.map Prod.snd).isSuffixOf (items.map Prod.snd)
        sameAgain := render output == render (m.expand options) }
    | _, _ => none
  | .error _ => none

end TypedId
