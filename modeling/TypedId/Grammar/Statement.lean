import TypedId.Grammar.Item

/-!
Statements.
-/

namespace TypedId.Grammar.Rule

open Lexeme

/-- What follows the words of a plain path; `none` if there are none. -/
def afterPathWords : List Lexeme → Option (List Lexeme)
  | word w :: rest =>
    if seesPathWord [word w] then
      match rest with
      | punct ':' true :: punct ':' _ :: rest => afterPathWords rest
      | _ => some rest
    else none
  | _ => none

/-- What follows a plain path. -/
def afterPlainPath (ls : List Lexeme) : Option (List Lexeme) :=
  afterPathWords (if sees "::" ls then ls.drop 2 else ls)

/-- Whether the use of a macro comes next that declares a name. -/
def seesDeclaringMacro (ls : List Lexeme) : Bool :=
  (afterPlainPath ls).any fun rest =>
    sees "!" rest && (seesIdentifier (second rest) || seesWord "try" (second rest))

/-- Whether the use of a macro comes next that is a statement: its arguments stand in braces, and
nothing follows that makes it part of an expression. -/
def seesMacroStatement (ls : List Lexeme) : Bool :=
  (afterPlainPath ls).any fun rest =>
    let further := third rest
    sees "!" rest && seesGroup .brace (second rest) &&
      !((sees "." further && !sees ".." further) || sees "?" further)

/-- Whether an item comes next, and no expression. -/
def seesItem (ls : List Lexeme) : Bool :=
  let next := second ls
  let further := third ls
  let nextWord (ws : List String) := ws.any fun w => seesWord w next
  ["pub", "extern", "use", "fn", "mod", "type", "struct", "enum", "trait", "impl", "macro"].any
      (fun w => seesWord w ls) ||
    (seesWord "crate" ls && !sees "::" next) ||
    (seesWord "static" ls && (seesWord "mut" next || seesIdentifier next)) ||
    (seesWord "const" ls &&
      !(seesGroup .brace next || nextWord ["static", "move"] || sees "|" next ||
        (seesWord "async" next &&
          !(["unsafe", "extern", "fn"].any fun w => seesWord w further)))) ||
    (seesWord "unsafe" ls && !seesGroup .brace next) ||
    (seesWord "async" ls && nextWord ["unsafe", "extern", "fn"]) ||
    (seesWord "union" ls && seesIdentifier next) ||
    (seesWord "auto" ls && seesWord "trait" next) ||
    (seesWord "default" ls && nextWord ["unsafe", "impl"]) ||
    seesDeclaringMacro ls

/-- Reads a declaration of a variable. -/
def localStatement : Rule Unit := do
  keyword "let"
  let _ ← call .pattern
  if ← operator? ":" then
    let _ ← call (.type true)
  if ← operator? "=" then
    let (_, text) ← hold (call (.expression true))
    write text
    unless text.getLast? == some (closing .brace) do
      if ← keyword? "else" then block
  operator ";"

/-- Reads a statement; tells whether it needs a semicolon unless it is the last. -/
def statement : Rule Bool := do
  let start ← look
  let (attributes, text) ← hold outerAttributes
  let ls ← ahead
  if seesMacroStatement ls then
    write text
    plainPath
    let _ ← macroArguments
    let _ ← operator? ";"
    return false
  else if seesWord "let" ls then
    write text
    localStatement
    return false
  else if seesItem ls then
    let _ ← restOfItem start attributes text
    return false
  else
    let shape ← statementExpression text
    let closed ← operator? ";"
    return !(closed || shape == .block || shape == .invocation true)

/-- Reads the statements of a block. -/
def statements : Rule Unit :=
  repeating (fun () => do
    let _ ← while_ (sees ";") (operator ";")
    if ends (← ahead) then return .inr ()
    else
      let open_ ← statement
      if ends (← ahead) then return .inr ()
      else if open_ then complain .semicolon
      else return .inl ()) ()

end TypedId.Grammar.Rule
