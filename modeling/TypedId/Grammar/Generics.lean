import TypedId.Grammar.Path

/-!
Generic parameters and the conditions on them.
-/

namespace TypedId.Grammar.Rule

open Lexeme

/-- Whether a colon comes next that is no part of `::`. -/
def seesColon (ls : List Lexeme) : Bool :=
  sees ":" ls && !sees "::" ls

/-! ### Parameters -/

/-- Reads the bounds behind a colon, which may be left out. A colon without bounds is not
written. Tells whether the colon was there. -/
def bounds? (bounds : Rule (List α)) : Rule Bool := do
  let (found, text) ← hold do
    if ← operator? ":" then return some (← bounds).isEmpty else return none
  unless found == some true do write text
  return found.isSome

/-- Reads a parameter for a lifetime. -/
def lifetimeParameter : Rule Unit := do
  let _ ← lifetime
  let _ ← bounds? <| joined "+" (fun ls => sees "," ls || sees ">" ls) lifetime

/-- Reads a parameter for a type. -/
def typeParameter : Rule Unit := do
  let _ ← identifier
  let _ ← bounds? <|
    joined "+" (fun ls => sees "," ls || sees ">" ls || sees "=" ls) (call (.bound false true))
  if ← operator? "=" then let _ ← call (.type true)

/-- Reads a parameter for a value. -/
def constParameter : Rule Unit := do
  keyword "const"
  let _ ← identifier
  operator ":"
  let _ ← call (.type true)
  if ← operator? "=" then constArgument

/-- Reads a parameter, of one of the kinds that are looked for in order; tells whether it is a
lifetime. -/
def genericParameter (kinds : List Expectation) (wildcard : Bool) : Rule Bool := do
  let _ ← outerAttributes
  let ls ← ahead
  if seesLifetime ls then
    lifetimeParameter
    return true
  else
    if seesIdentifier ls then typeParameter
    else if seesWord "const" ls then constParameter
    else if wildcard && seesWord "_" ls then let _ ← anyWord
    else expected kinds
    return false

/-- Reads the parameters of an item, which may be left out. Empty brackets are not written. Tells
whether there were brackets. -/
def genericParameters : Rule Bool := do
  if sees "<" (← ahead) then
    let (items, text) ← hold <| angleBrackets (operator ",") <|
      genericParameter [.lifetime, .identifier, .keyword "const"] true
    unless items.isEmpty do write text
    return true
  else return false

/-- Reads the parameters that a type or bound is general in, which may be left out; tells whether
there were some. -/
def binder? : Rule Bool := do
  if ← keyword? "for" then
    operator "<"
    let _ ← separated (operator ",") (sees ">") <|
      genericParameter [.identifier, .lifetime, .keyword "const"] false
    operator ">"
    return true
  else return false

/-- Whether an opening angle bracket begins a list of parameters and not a type. -/
def seesParameters (ls : List Lexeme) : Bool :=
  let inner := second ls
  let further := third ls
  sees "<" ls &&
    (sees ">" inner || sees "#" inner || seesWord "const" inner ||
      ((seesLifetime inner || seesIdentifier inner) &&
        (sees ">" further || sees "," further || seesColon further || sees "=" further)))

/-! ### Conditions -/

/-- Whether conditions may not go on: a definition or the content of an item comes next. -/
def endsConditions (ls : List Lexeme) : Bool :=
  ends ls || seesGroup .brace ls || [",", ";", "="].any (sees · ls)

/-- Reads a condition on a lifetime or a type. -/
def condition : Rule Unit := do
  let ls ← ahead
  if seesLifetime ls && sees ":" (second ls) then
    let _ ← lifetime
    operator ":"
    let _ ← joined "+" (fun ls => endsConditions ls || sees ":" ls) lifetime
  else
    let _ ← binder?
    let _ ← call (.type true)
    operator ":"
    let _ ← joined "+" (fun ls => endsConditions ls || seesColon ls) (call (.bound false true))

/-- Reads the conditions of an item, which may be left out. No conditions are not written. Tells
whether `where` was there. -/
def whereClause : Rule Bool := do
  let (found, text) ← hold do
    if ← keyword? "where" then
      if seesParameters (← ahead) then complain .genericWhere
      let conditions ← joined "," (fun ls => endsConditions ls || seesColon ls) condition
      return some conditions.length
    else return none
  unless found.all (· == 0) do write text
  return found.isSome

end TypedId.Grammar.Rule
