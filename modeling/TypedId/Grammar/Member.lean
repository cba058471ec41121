import TypedId.Grammar.Function

/-!
Members of items: fields and variants, and what traits, implementations and foreign modules hold.

Some members are admitted although they lack something or have too much; those are kept in their
source spelling.
-/

namespace TypedId.Grammar.Rule

open Lexeme

/-! ### Fields and variants -/

/-- Reads a field with a name. The type of a nameless field may be given by its own fields. -/
def namedField : Rule Unit := do
  let _ ← outerAttributes
  let _ ← visibility
  let anonymous := seesWord "_" (← ahead)
  let _ ← identifierOr ["_"]
  operator ":"
  let ls ← ahead
  if anonymous &&
      (seesWord "struct" ls || (seesWord "union" ls && seesGroup .brace (second ls))) then
    kept do
      let _ ← anyWord
      call .namedFields
  else
    let _ ← call (.type true)

/-- Reads fields with names, in braces. -/
def namedFields : Rule Unit :=
  within .brace do
    let _ ← commaList namedField

/-- Reads fields without names, in parentheses. -/
def positionalFields : Rule Unit :=
  within .parenthesis do
    let _ ← commaList do
      let _ ← outerAttributes
      let _ ← visibility
      call (.type true)

/-- Reads a variant of an enumeration. Its visibility is not written. -/
def variant : Rule Unit := do
  let _ ← outerAttributes
  let _ ← hold visibility
  let _ ← identifier
  let ls ← ahead
  if seesGroup .brace ls then call .namedFields
  else if seesGroup .parenthesis ls then positionalFields
  if ← operator? "=" then
    let _ ← call (.expression true)

/-! ### Constants and types -/

/-- What is known of a constant: its name, and whether nothing is lacking or too much. -/
structure ConstantShape where
  name : Name
  general : Bool
  valued : Bool

/-- Reads a constant. -/
def constant : Rule ConstantShape := do
  keyword "const"
  let ls ← ahead
  let name ← if seesIdentifier ls || seesWord "_" ls then anyWord
    else expected [.identifier, .keyword "_"]
  let bracketed ← genericParameters
  operator ":"
  let _ ← call (.type true)
  let valued ← operator? "="
  if valued then let _ ← call (.expression true)
  let conditional ← whereClause
  operator ";"
  return ⟨name, bracketed || conditional, valued⟩

/-- Where the conditions of a type definition may stand. -/
inductive ConditionPlace where
  | beforeDefinition
  | behindDefinition
  | either
deriving DecidableEq

/-- What is known of a type definition. -/
structure DefinitionShape where
  name : Name
  bounded : Bool
  defined : Bool

/-- Reads a type definition; it may lack its definition and have bounds. -/
def typeDefinition (place : ConditionPlace) : Rule DefinitionShape := do
  keyword "type"
  let name ← identifier
  let _ ← genericParameters
  let stop (ls : List Lexeme) := seesWord "where" ls || sees "=" ls || sees ";" ls
  let bounded ← bounds? <| separated (operator "+") stop (call (.bound false true))
  let conditional ← if place == .behindDefinition then pure false else whereClause
  let defined ← operator? "="
  if defined then let _ ← call (.type true)
  unless place == .beforeDefinition || conditional do let _ ← whereClause
  operator ";"
  return ⟨name, bounded, defined⟩

/-! ### Members of traits and implementations -/

/-- What a member may begin with, apart from paths that name macros. -/
def memberBeginnings : List Expectation :=
  [.keyword "fn", .keyword "const", .keyword "type"]

/-- Reads a member of a trait. -/
def traitMember : Rule Unit := do
  let _ ← keptIf id do
    let _ ← outerAttributes
    let visible := !(← visibility).isEmpty
    let default ← keyword? "default"
    let unusual := visible || default
    let ls ← ahead
    if seesSignature false ls then
      let _ ← signature false
      let ls ← ahead
      if seesGroup .brace ls then attributedBlock
      else if sees ";" ls then operator ";"
      else expected [.group .brace, .operator ";"]
      return unusual
    else if seesWord "const" ls then
      let found ← constant
      return unusual || found.general
    else if seesWord "type" ls then
      let _ ← typeDefinition .behindDefinition
      return unusual
    else if !unusual && seesMacroPath ls then
      memberInvocation
      return false
    else expected (memberBeginnings ++ if unusual then [] else macroPathBeginnings)
  return ()

/-- Reads a member of an implementation. -/
def implementationMember : Rule Unit := do
  let _ ← keptIf id do
    let _ ← outerAttributes
    let visible := !(← visibility).isEmpty
    let ls ← ahead
    let default := seesWord "default" ls && !sees "!" (second ls)
    if default then keyword "default"
    let unusual := visible || default
    let ls ← ahead
    if seesSignature false ls then
      let _ ← signature false
      if ← operator? ";" then return true
      else
        attributedBlock
        return false
    else if seesWord "const" ls then
      let found ← constant
      return found.general || !found.valued
    else if seesWord "type" ls then
      let found ← typeDefinition .behindDefinition
      return found.bounded || !found.defined
    else if !unusual && seesMacroPath ls then
      memberInvocation
      return false
    else expected <|
      (if default then [] else [.keyword "default"]) ++ memberBeginnings ++
        if unusual then [] else macroPathBeginnings
  return ()

/-! ### Members of foreign modules -/

/-- Whether a static comes next, with or without the words that may stand before it. -/
def seesForeignStatic (ls : List Lexeme) : Bool :=
  seesWord "static" ls ||
    ((seesWord "unsafe" ls || seesWord "safe" ls) && seesWord "static" (second ls))

/-- Reads a static of a foreign module; tells whether it has too much. -/
def foreignStatic : Rule Bool := do
  let declaredUnsafe ← keyword? "unsafe"
  let declaredSafe ← if declaredUnsafe then pure false else keyword? "safe"
  keyword "static"
  let _ ← keyword? "mut"
  let _ ← identifier
  operator ":"
  let _ ← call (.type true)
  let valued ← operator? "="
  if valued then let _ ← call (.expression true)
  operator ";"
  return declaredUnsafe || declaredSafe || valued

/-- Reads a member of a foreign module. -/
def foreignMember : Rule Unit := do
  let _ ← keptIf id do
    let _ ← outerAttributes
    let visible := !(← visibility).isEmpty
    let ls ← ahead
    if seesSignature true ls then
      let (_, declaredSafe) ← signature true
      if seesGroup .brace (← ahead) then
        attributedBlock
        return true
      else
        operator ";"
        return declaredSafe
    else if seesForeignStatic ls then foreignStatic
    else if seesWord "type" ls then
      let found ← typeDefinition .either
      return found.bounded || found.defined
    else if !visible && seesMacroPath ls then
      memberInvocation
      return false
    else expected <|
      [.keyword "fn", .keyword "static", .keyword "type"] ++
        if visible then [] else macroPathBeginnings
  return ()

end TypedId.Grammar.Rule
