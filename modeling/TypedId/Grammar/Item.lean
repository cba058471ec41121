import TypedId.Grammar.Member

/-!
Items: what modules and blocks declare.
-/

namespace TypedId.Grammar.Rule

open Lexeme

/-! ### Imports -/

/-- What an import tree may begin with. -/
def importBeginnings : List Expectation :=
  [.identifier, .keyword "self", .keyword "super", .keyword "crate", .keyword "try",
    .operator "*", .group .brace]

/-- Whether a word comes next that an import tree may begin with. -/
def seesImportWord (ls : List Lexeme) : Bool :=
  seesIdentifier ls || ["self", "super", "crate", "try"].any fun w => seesWord w ls

/-- Reads the new name of an import. -/
def newName : Rule Name := do
  let ls ← ahead
  if seesIdentifier ls || seesWord "_" ls then anyWord else complain .rename

/-- Reads the trees of an import in braces. Where a tree may begin with `::` and one does, nothing
is remembered of all of them. -/
def importGroup (rootAdmitted : Bool) : Rule (Option ImportTree) :=
  within .brace <| repeating (fun (soFar : Option (List ImportTree)) => do
    if ends (← ahead) then return .inr (soFar.map fun trees => .group trees.reverse)
    else
      let rooted ← if rootAdmitted then operator? "::" else pure false
      let tree ← call (.importTree (rootAdmitted && !rooted))
      let soFar := if rooted then none else do return (← tree) :: (← soFar)
      if ends (← ahead) then return .inr (soFar.map fun trees => .group trees.reverse)
      else
        operator ","
        return .inl soFar) (some [])

/-- Reads what an import brings in. -/
def importTree (rootAdmitted : Bool) : Rule (Option ImportTree) := do
  let ls ← ahead
  if seesImportWord ls then
    let name ← anyWord
    let ls ← ahead
    if sees "::" ls then
      operator "::"
      return (← call (.importTree false)).map (.path name)
    else if seesWord "as" ls then
      keyword "as"
      return some (.rename name (← newName))
    else return some (.name name)
  else if sees "*" ls then
    operator "*"
    return some .glob
  else if seesGroup .brace ls then importGroup rootAdmitted
  else expected importBeginnings

/-- Reads an import. -/
def import? : Rule ItemBody := do
  keyword "use"
  let rooted ← operator? "::"
  let tree ← call (.importTree !rooted)
  operator ";"
  return match tree with
    | some tree => .import_ tree
    | none => .kept

/-! ### Functions, values and types -/

/-- Reads a function. -/
def functionItem : Rule ItemBody := do
  let (name, _) ← signature false
  if ← operator? ";" then return .kept
  else
    attributedBlock
    return .function name

/-- Reads a constant. -/
def constantItem : Rule ItemBody := do
  let found ← constant
  return if found.valued && !found.general then .constant found.name else .kept

/-- Reads a static. -/
def staticItem : Rule ItemBody := do
  keyword "static"
  let _ ← keyword? "mut"
  let name ← identifier
  if ← operator? "=" then
    let _ ← call (.expression true)
    operator ";"
    return .kept
  else
    operator ":"
    let _ ← call (.type true)
    if ← operator? ";" then return .kept
    else
      operator "="
      let _ ← call (.expression true)
      operator ";"
      return .staticItem name

/-- Reads a type alias. -/
def typeItem : Rule ItemBody := do
  let found ← typeDefinition .beforeDefinition
  return if found.defined && !found.bounded then .typeAlias found.name else .kept

/-- Reads a structure. -/
def structureItem : Rule ItemBody := do
  keyword "struct"
  let name ← identifier
  let _ ← genericParameters
  let conditional ← whereClause
  let ls ← ahead
  if !conditional && seesGroup .parenthesis ls then
    positionalFields
    let conditional ← whereClause
    if sees ";" (← ahead) then operator ";"
    else expected ((if conditional then [] else [.keyword "where"]) ++ [.operator ";"])
  else if seesGroup .brace ls then call .namedFields
  else if sees ";" ls then operator ";"
  else expected <|
    (if conditional then [] else [.keyword "where", .group .parenthesis]) ++
      [.group .brace, .operator ";"]
  return .structure_ name

/-- Reads an enumeration. -/
def enumerationItem : Rule ItemBody := do
  keyword "enum"
  let name ← identifier
  let _ ← genericParameters
  let _ ← whereClause
  within .brace do
    let _ ← commaList variant
  return .enumeration name

/-- Reads a union. -/
def unionItem : Rule ItemBody := do
  keyword "union"
  let name ← identifier
  let _ ← genericParameters
  let _ ← whereClause
  call .namedFields
  return .union name

/-! ### Traits and implementations -/

/-- Reads a trait from behind its parameters. -/
def restOfTrait : Rule Unit := do
  let stop (ls : List Lexeme) := seesWord "where" ls || seesGroup .brace ls
  let _ ← bounds? <| separated (operator "+") stop (call (.bound false true))
  let _ ← whereClause
  within .brace do
    let _ ← innerAttributes
    let _ ← while_ (fun ls => !ends ls) traitMember

/-- Reads a trait. -/
def traitItem : Rule ItemBody := do
  let _ ← keyword? "unsafe"
  let _ ← keyword? "auto"
  keyword "trait"
  let name ← identifier
  let _ ← genericParameters
  restOfTrait
  return .traitItem name

/-- Reads a trait or a trait alias. -/
def traitOrAlias : Rule ItemBody := do
  keyword "trait"
  let name ← identifier
  let _ ← genericParameters
  let ls ← ahead
  if seesGroup .brace ls || sees ":" ls || seesWord "where" ls then
    restOfTrait
    return .traitItem name
  else if sees "=" ls then
    operator "="
    let stop (ls : List Lexeme) := seesWord "where" ls || sees ";" ls
    let _ ← separated (operator "+") stop (call (.bound false true))
    let _ ← whereClause
    operator ";"
    return .traitAlias name
  else expected [.group .brace, .operator ":", .keyword "where", .operator "="]

/-- Reads the mark of an implementation that is constant; tells whether it was there. -/
def constImplementation : Rule Bool := do
  let ls ← ahead
  if seesWord "const" ls || (sees "?" ls && seesWord "const" (second ls)) then
    let _ ← operator? "?"
    keyword "const"
    return true
  else return false

/-- Reads an implementation. One with a visibility is kept in its source spelling, and so are some
others that only have the form of one. -/
def implementationItem (visible : Bool) : Rule ItemBody := do
  let _ ← keyword? "default"
  let _ ← keyword? "unsafe"
  keyword "impl"
  if seesParameters (← ahead) then let _ ← genericParameters
  let const ← constImplementation
  let start ← look
  let negative := sees "!" start.rest && !seesGroup .brace (second start.rest)
  let ((shape, first), whole) ← hold do
    if negative then operator "!"
    let (shape, text) ← hold (call (.type true))
    write text
    return (shape, text)
  let forType := seesWord "for" (← ahead)
  let stop ← here
  let body ← if forType then do
      write whole
      keyword "for"
      let (_, type) ← hold (call (.type true))
      write type
      let ofTrait := match shape with
        | .path shape => if shape.qualified then none else some first
        | _ => none
      pure <| if visible || const || ofTrait.isNone then .kept else .implementation ofTrait type
    else do
      let type := if negative then start.rest.take (stop - start.position) else whole
      write type
      pure <| if visible || const then .kept else .implementation none type
  let _ ← whereClause
  within .brace do
    let _ ← innerAttributes
    let _ ← while_ (fun ls => !ends ls) implementationMember
  return body

/-! ### Modules, crates and macros -/

/-- Reads a module. -/
def moduleItem : Rule ItemBody := do
  let start ← here
  let unsafeAt := if ← keyword? "unsafe" then some start else none
  keyword "mod"
  let name ← identifierOr ["try"]
  let ls ← ahead
  if sees ";" ls then
    operator ";"
    return .module unsafeAt name [] none
  else if seesGroup .brace ls then
    let (attributes, items) ← within .brace do
      let attributes ← innerAttributes
      let items ← while_ (fun ls => !ends ls) (call .item)
      return (attributes, items)
    return .module unsafeAt name attributes
      (some (items.map fun found => (found.item.body, found.item.text)))
  else expected [.operator ";", .group .brace]

/-- Reads a foreign module. -/
def foreignModuleItem : Rule ItemBody := do
  let _ ← keyword? "unsafe"
  convention
  within .brace do
    let _ ← innerAttributes
    let _ ← while_ (fun ls => !ends ls) foreignMember
  return .foreignModule

/-- Reads the declaration of a crate. -/
def externCrateItem : Rule ItemBody := do
  keyword "extern"
  keyword "crate"
  let name ← identifierOr ["self"]
  let rename ← if ← keyword? "as" then some <$> identifierOr ["_"] else pure none
  operator ";"
  return .externCrate name rename

/-- Reads an item that begins with `extern` and is no function. A foreign module has no
visibility, and `start` is where it stands or would stand. -/
def externItem (start : View) (visible : Bool) : Rule ItemBody := do
  let ls ← ahead
  let next := second ls
  let foreign := do
    if visible then fail (start.fault (.keyword "extern"))
    foreignModuleItem
  if seesWord "crate" next then externCrateItem
  else if seesGroup .brace next || (seesText next && seesGroup .brace (third ls)) then foreign
  else
    keyword "extern"
    if seesText next then
      literal
      expected [.group .brace]
    else expected [.keyword "crate", .group .brace, .text]

/-- Reads an item that begins with `unsafe` and is no function. -/
def unsafeItem (start : View) (visible : Bool) : Rule ItemBody := do
  let ls ← ahead
  let next := second ls
  if seesWord "trait" next || (seesWord "auto" next && seesWord "trait" (third ls)) then traitItem
  else if seesWord "impl" next then implementationItem visible
  else if seesWord "extern" next then
    if visible then fail (start.fault (.keyword "extern"))
    foreignModuleItem
  else if seesWord "mod" next then moduleItem
  else
    keyword "unsafe"
    expected [.keyword "trait", .keyword "auto", .keyword "impl", .keyword "extern",
      .keyword "mod"]

/-- Reads the definition of a macro, which is kept in its source spelling. -/
def macroDefinition : Rule ItemBody := do
  keyword "macro"
  let _ ← identifier
  let bracketed := seesGroup .parenthesis (← ahead)
  if bracketed then group .parenthesis
  if seesGroup .brace (← ahead) then group .brace
  else expected ((if bracketed then [] else [.group .parenthesis]) ++ [.group .brace])
  return .kept

/-- Reads the use of a macro. A name may stand before its arguments. -/
def invocationItem : Rule ItemBody := do
  let ((), path) ← hold plainPath
  write path
  operator "!"
  let ls ← ahead
  let name ← if seesIdentifier ls || seesWord "try" ls then some <$> anyWord else pure none
  macroEnd (← anyGroup)
  return .invocation path name

/-! ### All kinds of items -/

/-- What an item may begin with, apart from paths that name macros. -/
def itemBeginnings : List Expectation :=
  [.keyword "fn", .keyword "extern", .keyword "use", .keyword "static", .keyword "const",
    .keyword "unsafe", .keyword "mod", .keyword "type", .keyword "struct", .keyword "enum",
    .keyword "union", .keyword "trait", .keyword "auto", .keyword "impl", .keyword "default",
    .keyword "macro"]

/-- Reads an item from behind its visibility, which stands at `start`. -/
def itemBody (start : View) (visible : Bool) : Rule ItemBody := do
  let ls ← ahead
  let next := second ls
  if seesSignature false ls then functionItem
  else if seesWord "extern" ls then externItem start visible
  else if seesWord "use" ls then import?
  else if seesWord "static" ls then staticItem
  else if seesWord "const" ls then constantItem
  else if seesWord "unsafe" ls then unsafeItem start visible
  else if seesWord "mod" ls then moduleItem
  else if seesWord "type" ls then typeItem
  else if seesWord "struct" ls then structureItem
  else if seesWord "enum" ls then enumerationItem
  else if seesWord "union" ls && seesIdentifier next then unionItem
  else if seesWord "trait" ls then traitOrAlias
  else if seesWord "auto" ls && seesWord "trait" next then traitItem
  else if seesWord "impl" ls || (seesWord "default" ls && !sees "!" next) then
    implementationItem visible
  else if seesWord "macro" ls then macroDefinition
  else if !visible && seesMacroPath ls then invocationItem
  else expected (itemBeginnings ++ if visible then [] else macroPathBeginnings)

/-- Reads an item from behind its attributes; they were written as `text`, and the item begins at
`start`. -/
def restOfItem (start : View) (attributes : List Attribute) (text : List Lexeme) :
    Rule OuterItem := do
  let ((seen, body), own) ← hold do
    let v ← look
    let seen ← visibility
    let body ← itemBody v !seen.isEmpty
    return (seen, body)
  let stop ← here
  let text := match body with
    | .kept => start.rest.take (stop - start.position)
    | _ => text ++ own
  write text
  return ⟨attributes, seen, ⟨body, text⟩, ⟨start.position, stop - 1⟩⟩

/-- Reads an item. -/
def item : Rule OuterItem := do
  let start ← look
  let (attributes, text) ← hold outerAttributes
  restOfItem start attributes text

end TypedId.Grammar.Rule
