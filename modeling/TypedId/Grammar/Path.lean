import TypedId.Grammar.Attribute

/-!
Paths, with their arguments in angle brackets and in parentheses.
-/

namespace TypedId.Grammar.Rule

open Lexeme

/-! ### Arguments -/

/-- Reads an argument that is a value: a literal, an identifier or a block. -/
def constArgument : Rule Unit := do
  let ls ← ahead
  if seesLiteral ls then literal
  else if seesIdentifier ls then let _ ← identifier
  else if seesGroup .brace ls then attributedBlock
  else complain (.oneOf [])

/-- Whether a value comes next that is no type. -/
def seesConstArgument (ls : List Lexeme) : Bool :=
  seesLiteral ls || seesGroup .brace ls

/-- Whether an argument may name an item of a trait: a single word, with arguments or not. -/
def TypeShape.isNameable : TypeShape → Bool
  | .path shape => !shape.qualified && !shape.rooted && shape.segments == 1
  | _ => false

/-- Reads an argument in angle brackets; tells whether it is a lifetime. -/
def angleArgument : Rule Bool := do
  let ls ← ahead
  if seesLifetime ls && !sees "+" (second ls) then
    let _ ← lifetime
    return true
  else
    if seesConstArgument ls then constArgument
    else
      let shape ← call (.type true)
      if TypeShape.isNameable shape then
        if ← operator? "=" then
          if seesConstArgument (← ahead) then constArgument
          else let _ ← call (.type true)
        else if ← operator? ":" then
          let _ ← joined "+" (fun ls => sees "," ls || sees ">" ls) (call (.bound false true))
    return false

/-- Reads things in angle brackets, of which some are lifetimes. -/
def angleBrackets (separator : Rule Unit) (element : Rule Bool) : Rule (List AngleItem) := do
  operator "<"
  let (items, _) ← hold <| separated separator (sees ">") (hold element)
  let angleItems := items.map fun ((isLifetime, text), comma) => ⟨isLifetime, text, comma⟩
  write (lifetimesFirst angleItems)
  operator ">"
  return angleItems

/-- Reads arguments in angle brackets. -/
def angleArguments : Rule Unit := do
  let _ ← angleBrackets (operator ",") angleArgument

/-- Reads the result of a function, which may be left out. -/
def returnType (plus : Bool) : Rule Unit := do
  if ← operator? "->" then let _ ← call (.type plus)

/-- Reads arguments in parentheses, as those of functions are written. -/
def parenthesizedArguments : Rule Unit := do
  within .parenthesis do
    let _ ← commaList (call (.type true))
  returnType false

/-! ### Paths -/

/-- Whether an opening angle bracket comes next that is no part of another operator. -/
def seesAngle (ls : List Lexeme) : Bool :=
  sees "<" ls && !sees "<=" ls && !sees "<<=" ls

/-- Reads a word of a path with its arguments; tells whether it has some. In an expression `::` has
to stand before them. -/
def pathSegment (inExpression : Bool) : Rule Bool := do
  let ls ← ahead
  if ["super", "self", "crate", "try"].any fun w => seesWord w ls then
    let _ ← anyWord
    return false
  else
    let _ ← identifierOr ["Self"]
    let ls ← ahead
    if (!inExpression && seesAngle ls) || (sees "::" ls && sees "<" (third ls)) then
      let _ ← operator? "::"
      angleArguments
      return true
    else return false

/-- Reads the words of a path, as long as it goes on; tells of each whether it has arguments. -/
def pathSegments (inExpression : Bool) (goesOn : List Lexeme → Bool) : Rule (List Bool) := do
  let first ← pathSegment inExpression
  let more ← while_ goesOn do
    operator "::"
    pathSegment inExpression
  return first :: more

/-- Reads a path that does not begin with a type. -/
def path (inExpression : Bool) : Rule PathShape := do
  let rooted ← operator? "::"
  let segments ← pathSegments inExpression fun ls =>
    sees "::" ls && !seesGroup .parenthesis (third ls)
  return {
    segments := segments.length
    rooted := rooted
    plain := segments.all (!·)
    bareEnd := segments.getLast?.all (!·)
    qualified := false }

/-- Reads a path, which may begin with a type in angle brackets. -/
def qualifiedPath (inExpression : Bool) : Rule PathShape := do
  if ← operator? "<" then
    let _ ← call (.type true)
    if ← keyword? "as" then let _ ← path false
    operator ">"
    operator "::"
    let segments ← pathSegments inExpression (sees "::")
    return {
      segments := segments.length
      rooted := false
      plain := false
      bareEnd := segments.getLast?.all (!·)
      qualified := true }
  else path inExpression

/-! ### Captured parameters -/

/-- Reads the comma behind a captured parameter. -/
def captureSeparator : Rule Unit := do
  if sees "," (← ahead) then operator "," else expected [.operator ",", .operator ">"]

/-- Reads a list of captured parameters; tells the position of its end. -/
def captureList : Rule Nat := do
  keyword "use"
  let _ ← angleBrackets captureSeparator do
    let ls ← ahead
    if seesLifetime ls then
      let _ ← lifetime
      return true
    else if seesIdentifier ls || seesWord "Self" ls then
      let _ ← anyWord
      return false
    else expected [.lifetime, .identifier, .operator ">"]
  return (← here) - 1

end TypedId.Grammar.Rule
