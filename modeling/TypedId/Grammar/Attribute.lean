import TypedId.Grammar.Rule

/-!
What stands before items: attributes and visibility. Paths of plain words belong here too, for both
are made of them.
-/

namespace TypedId.Grammar.Rule

open Lexeme

/-! ### Plain paths -/

/-- Whether a word begins or continues a plain path. -/
def seesPathWord (ls : List Lexeme) : Bool :=
  seesIdentifier ls || ["super", "self", "Self", "crate"].any fun w => seesWord w ls

/-- Reads a path of words without arguments. -/
def plainPath : Rule Unit := do
  let _ ← operator? "::"
  repeating (fun further : Bool => do
    if seesPathWord (← ahead) then
      let _ ← anyWord
      if ← operator? "::" then return .inl true else return .inr ()
    else if further then complain .pathSegment
    else
      let _ ← identifier
      return .inr ()) false

/-! ### Attributes -/

/-- Reads the value of an attribute behind its path: a group, an expression or nothing. -/
def attributeValue : Rule Unit := do
  let ls ← ahead
  if seesAnyGroup ls then let _ ← anyGroup
  else if sees "=" ls && !sees "==" ls && !sees "=>" ls then
    operator "="
    let ls ← ahead
    if sees "#" ls && seesGroup .bracket (second ls) then complain .attributeInAttribute
    else let _ ← call (.expression true)

/-- Reads an attribute. -/
def singleAttribute (inner : Bool) : Rule Attribute := do
  let ((), text) ← hold do
    operator "#"
    if inner then operator "!"
    within .bracket do
      if seesWord "unsafe" (← ahead) then keyword "unsafe" else plainPath
      attributeValue
  write text
  return ⟨inner, text⟩

/-- Reads the attributes before a thing. -/
def outerAttributes : Rule (List Attribute) :=
  while_ (sees "#") (singleAttribute false)

/-- Reads the attributes at the beginning of a thing's content. -/
def innerAttributes : Rule (List Attribute) :=
  while_ (fun ls => sees "#" ls && sees "!" (second ls)) (singleAttribute true)

/-! ### Blocks -/

/-- Reads a block. -/
def block : Rule Unit :=
  within .brace (call .statements)

/-- Reads a block that may begin with attributes. -/
def attributedBlock : Rule Unit :=
  within .brace do
    let _ ← innerAttributes
    call .statements

/-! ### Visibility -/

/-- Whether parentheses behind `pub` hold a single word that restricts it. -/
def seesRestriction : List Lexeme → Bool
  | opening .parenthesis :: word w :: closing _ :: _ => ["crate", "self", "super"].contains w
  | _ => false

/-- Whether parentheses behind `pub` hold a path that restricts it. -/
def seesRestrictingPath : List Lexeme → Bool
  | opening .parenthesis :: word "in" :: _ => true
  | _ => false

/-- Reads a visibility, which may be left out. -/
def visibility : Rule (List Lexeme) := do
  let ((), text) ← hold do
    if ← keyword? "pub" then
      let ls ← ahead
      if seesRestriction ls then copy 3
      else if seesRestrictingPath ls then
        within .parenthesis do
          keyword "in"
          plainPath
  write text
  return text

/-! ### Uses of macros -/

/-- Reads the arguments of a macro and the exclamation mark before them; tells their delimiter. -/
def macroArguments : Rule Delimiter := do
  operator "!"
  anyGroup

/-- Whether an exclamation mark that is no part of an operator comes next. -/
def seesBang (ls : List Lexeme) : Bool :=
  sees "!" ls && !sees "!=" ls

end TypedId.Grammar.Rule
