import TypedId.Grammar.Operator

/-!
Expressions.
-/

namespace TypedId.Grammar.Rule

open Lexeme

/-! ### What follows an expression -/

/-- The indices that a number with points denotes which names fields of nested tuples. -/
def tupleIndices (text : String) : Except Complaint (List Nat) :=
  (text.toList.splitOn '.').filter (· ≠ []) |>.mapM fun cs => tupleIndex (String.ofList cs)

/-- Reads a number with a point that names fields of nested tuples, behind a first point; tells
whether a point follows it that belongs to something else. -/
def nestedIndex (text : String) (stretch : Stretch) (negative : Bool) : Rule Bool := do
  let trailing := text.endsWith "."
  match if negative then .error .digits else tupleIndices text with
  | .error complaint => fail ⟨stretch, complaint, false⟩
  | .ok indices =>
    let point := punct '.' false
    let lexemes := (indices.map indexLexeme).intersperse point
    take 1 (if trailing then lexemes ++ [point] else lexemes)
    return trailing

/-- Reads a method or field behind a point. -/
def namedMember : Rule Unit := do
  if ← keyword? "await" then return
  let named ← member
  let ls ← ahead
  let turbofish := named && sees "::" ls
  if turbofish then
    operator "::"
    angleArguments
  if turbofish || (named && seesGroup .parenthesis ls) then
    within .parenthesis do
      let _ ← commaList (call (.expression true))

/-- Reads a point and what it selects. -/
def selection : Rule Unit := do
  operator "."
  let v ← look
  let goesOn ← match v.rest with
    | Lexeme.literal text :: _ =>
      if Number.isFraction text then nestedIndex text (.single v.position) false else pure true
    | punct '-' _ :: Lexeme.literal text :: _ =>
      if Number.isFraction text then
        nestedIndex text ⟨v.position, v.position + 1⟩ true
      else pure true
    | _ => pure true
  if goesOn then namedMember

/-- Reads calls, selections and the like behind an expression. -/
def trailers (shape : ExprShape) : Rule ExprShape :=
  repeating (fun shape : ExprShape => do
    let ls ← ahead
    let isRange := match shape with
      | .range _ => true
      | _ => false
    if seesGroup .parenthesis ls then
      within .parenthesis do
        let _ ← commaList (call (.expression true))
      return .inl .other
    else if sees "." ls && !sees ".." ls && !isRange then
      selection
      return .inl .other
    else if seesGroup .bracket ls then
      within .bracket do
        let _ ← call (.expression true)
      return .inl .other
    else if sees "?" ls && !isRange then
      operator "?"
      return .inl .other
    else return .inr shape) shape

/-! ### Paths, structures, tuples and arrays -/

/-- Reads a field of a structure and its value. -/
def fieldValue : Rule Unit := do
  let _ ← outerAttributes
  let named ← member
  if sees ":" (← ahead) || !named then
    operator ":"
    let _ ← call (.expression true)

/-- Reads the fields of a structure in braces. -/
def fieldValues : Rule Unit :=
  within .brace <| repeating (fun () => do
    let ls ← ahead
    if ends ls then return .inr ()
    else if sees ".." ls then
      operator ".."
      unless ends (← ahead) do
        let _ ← call (.expression true)
      return .inr ()
    else
      fieldValue
      if ends (← ahead) then return .inr ()
      else
        operator ","
        return .inl ()) ()

/-- Reads an expression that begins with a path. -/
def pathExpression (braces : Bool) : Rule ExprShape := do
  let shape ← qualifiedPath true
  let ls ← ahead
  if seesBang ls && shape.plain then
    let delimiter ← macroArguments
    return .invocation (delimiter == .brace)
  else if braces && seesGroup .brace ls then
    fieldValues
    return .other
  else return .other

/-- Reads expressions in parentheses. -/
def parenthesizedExpression : Rule Unit :=
  within .parenthesis do
    let _ ← commaList (call (.expression true))

/-- Reads expressions in brackets. -/
def bracketedExpression : Rule Unit :=
  within .bracket do
    unless ends (← ahead) do
      let _ ← call (.expression true)
      let ls ← ahead
      if ends ls then return
      else if sees "," ls then
        operator ","
        let _ ← commaList (call (.expression true))
      else if sees ";" ls then
        operator ";"
        let _ ← call (.expression true)
      else complain .commaOrSemicolon

/-! ### Closures and jumps -/

/-- Reads a parameter of a closure. Attributes are not written before a pattern that is kept in
its source spelling. -/
def closureParameter : Rule Unit := do
  let (_, attributes) ← hold outerAttributes
  let (shape, text) ← hold (call .pattern)
  let typed := sees ":" (← ahead)
  unless shape == .kept && !typed do write attributes
  write text
  if typed then
    operator ":"
    let _ ← call (.type true)

/-- Reads a closure. -/
def closure (braces : Bool) : Rule Unit := do
  let _ ← binder?
  let _ ← keyword? "const"
  let _ ← keyword? "static"
  let _ ← keyword? "async"
  let _ ← keyword? "move"
  operator "|"
  let _ ← separated (operator ",") (sees "|") closureParameter
  operator "|"
  if ← operator? "->" then
    let _ ← call (.type true)
    block
  else
    let _ ← call (.expression braces)

/-- Whether an expression may come next. -/
def seesExpression (ls : List Lexeme) : Bool :=
  let startsAs (text : String) (but : List String) := sees text ls && !but.any (sees · ls)
  (seesAnyWord ls && !seesWord "as" ls) || seesAnyGroup ls || seesLiteral ls ||
    startsAs "!" ["!="] || startsAs "-" ["-=", "->"] || startsAs "*" ["*="] ||
    startsAs "|" ["|="] || startsAs "&" ["&="] || sees ".." ls || startsAs "<" ["<=", "<<="] ||
    sees "::" ls || seesLifetime ls || sees "#" ls

/-- Reads an expression, which may be left out. -/
def expression? : Rule Unit := do
  if seesExpression (← ahead) then let _ ← call (.expression true)

/-- Reads a way out of a loop. A labelled expression has to stand in parentheses there. -/
def breakExpression (braces : Bool) : Rule Unit := do
  keyword "break"
  let v ← look
  if seesLifetime v.rest && sees ":" (second v.rest) then
    let _ ← call (.expression true)
    fail ⟨⟨v.position, (← here) - 1⟩, .labelledBreak, false⟩
  let _ ← lifetime?
  let ls ← ahead
  if braces || !seesGroup .brace ls then expression?

/-! ### Blocks -/

/-- Reads a choice between blocks. -/
def ifExpression : Rule Unit :=
  repeating (fun () => do
    keyword "if"
    let _ ← call (.expression false)
    block
    if ← keyword? "else" then
      let ls ← ahead
      if seesWord "if" ls then return .inl ()
      else if seesGroup .brace ls then
        block
        return .inr ()
      else expected [.keyword "if", .group .brace]
    else return .inr ()) ()

/-- Reads a loop over the elements of something. -/
def forExpression : Rule Unit := do
  keyword "for"
  let _ ← alternatives
  keyword "in"
  let _ ← call (.expression false)
  attributedBlock

/-- Reads a loop with a condition. -/
def whileExpression : Rule Unit := do
  keyword "while"
  let _ ← call (.expression false)
  attributedBlock

/-- Reads a block behind a keyword. -/
def keywordBlock (w : String) : Rule Unit := do
  keyword w
  attributedBlock

/-- Reads a loop or block behind a label. -/
def labelledExpression : Rule Unit := do
  let _ ← lifetime
  operator ":"
  let ls ← ahead
  if seesWord "while" ls then whileExpression
  else if seesWord "for" ls then forExpression
  else if seesWord "loop" ls then keywordBlock "loop"
  else if seesGroup .brace ls then attributedBlock
  else complain .loopOrBlock

/-- Whether the keyword `for` begins a closure that is general in some parameters. -/
def seesGeneralClosure (ls : List Lexeme) : Bool :=
  seesWord "for" ls && seesParameters (second ls)

/-- Whether an expression begins that ends with a block, and with a statement. -/
def seesBlockExpression (ls : List Lexeme) : Bool :=
  let braced := seesGroup .brace (second ls)
  seesGroup .brace ls || seesLifetime ls ||
    (seesWord "for" ls && !seesGeneralClosure ls) ||
    ["if", "while", "loop", "match", "unsafe"].any (fun w => seesWord w ls) ||
    ((seesWord "try" ls || seesWord "const" ls) && braced)

/-- Reads an expression where one that ends with a block ends all; `before` are the attributes that
stand before it. Attributes are not written before an expression that is kept in its source
spelling. -/
def statementExpression (before : List Lexeme) : Rule ExprShape := do
  let (_, own) ← hold outerAttributes
  if seesBlockExpression (← ahead) then
    write (before ++ own)
    let shape ← call (.atom true)
    let ls ← ahead
    if (sees "." ls && !sees ".." ls) || sees "?" ls then
      let shape ← trailers shape
      call (.operators true shape .jump)
    else return shape
  else
    let (shape, text) ← hold (call (.operand true))
    unless shape == .kept do write (before ++ own)
    write text
    call (.operators true shape .jump)

/-- Reads one case of a choice by patterns. -/
def matchArm : Rule Unit := do
  let _ ← outerAttributes
  let _ ← alternatives
  if ← keyword? "if" then
    let _ ← call (.expression true)
  operator "=>"
  let shape ← statementExpression []
  if shape == .block || ends (← ahead) then
    let _ ← operator? ","
  else operator ","

/-- Reads a choice by patterns. -/
def matchExpression : Rule Unit := do
  keyword "match"
  let _ ← call (.expression false)
  within .brace do
    let _ ← innerAttributes
    let _ ← while_ (fun ls => !ends ls) matchArm

/-! ### All kinds of expressions -/

/-- Whether a closure comes next. -/
def seesClosure (ls : List Lexeme) : Bool :=
  let next := second ls
  sees "|" ls || seesWord "move" ls || seesGeneralClosure ls || seesWord "static" ls ||
    (seesWord "const" ls && !seesGroup .brace next) ||
    (seesWord "async" ls && (sees "|" next || seesWord "move" next))

/-- Whether a block that runs later comes next. -/
def seesAsyncBlock (ls : List Lexeme) : Bool :=
  let next := second ls
  seesWord "async" ls &&
    (seesGroup .brace next || (seesWord "move" next && seesGroup .brace (third ls)))

/-- Whether an expression begins with a path. -/
def seesPathExpression (ls : List Lexeme) : Bool :=
  let next := second ls
  seesPath ls || (seesWord "try" ls && (sees "!" next || sees "::" next))

/-- Reads an expression that is kept in its source spelling: one that the compiler builds in. -/
def builtinExpression : Rule Unit := kept do
  keyword "builtin"
  operator "#"
  let _ ← identifier
  group .parenthesis

/-- Reads an expression that is neither built by operators nor followed by anything. -/
def atom (braces : Bool) : Rule ExprShape := do
  let v ← look
  let ls := v.rest
  if seesLiteral ls then
    literal
    return if seesText ls then .text v.position else .other
  else if seesAsyncBlock ls then
    keyword "async"
    let _ ← keyword? "move"
    block
    return .other
  else if seesWord "try" ls && seesGroup .brace (second ls) then
    keyword "try"
    block
    return .block
  else if seesClosure ls then closure braces; return .other
  else if seesWord "builtin" ls && sees "#" (second ls) then builtinExpression; return .kept
  else if seesPathExpression ls then pathExpression braces
  else if seesGroup .parenthesis ls then parenthesizedExpression; return .other
  else if seesWord "break" ls then breakExpression braces; return .other
  else if seesWord "continue" ls then
    keyword "continue"
    let _ ← lifetime?
    return .other
  else if seesWord "return" ls then
    keyword "return"
    expression?
    return .other
  else if seesWord "become" ls then
    kept do
      keyword "become"
      let _ ← call (.expression true)
    return .kept
  else if seesGroup .bracket ls then bracketedExpression; return .other
  else if seesWord "let" ls then
    keyword "let"
    let _ ← alternatives
    operator "="
    let shape ← call (.operand braces)
    let _ ← call (.operators braces shape .compare)
    return .other
  else if seesWord "if" ls then ifExpression; return .block
  else if seesWord "while" ls then whileExpression; return .block
  else if seesWord "for" ls then forExpression; return .block
  else if seesWord "loop" ls then keywordBlock "loop"; return .block
  else if seesWord "match" ls then matchExpression; return .block
  else if seesWord "yield" ls then
    keyword "yield"
    expression?
    return .other
  else if seesWord "unsafe" ls then keywordBlock "unsafe"; return .block
  else if seesWord "const" ls then keywordBlock "const"; return .block
  else if seesGroup .brace ls then attributedBlock; return .block
  else if sees ".." ls then restOfRange braces
  else if seesWord "_" ls then keyword "_"; return .other
  else if seesLifetime ls then labelledExpression; return .block
  else complain .expression

/-- Reads an expression without infix operators. Attributes are not admitted before a range that
begins with its dots. -/
def operand (braces : Bool) : Rule ExprShape := do
  let start ← look
  let (attributes, text) ← hold outerAttributes
  let ls ← ahead
  if sees "&" ls then
    write text
    operator "&"
    let ls ← ahead
    let next := second ls
    let raw := seesWord "raw" ls && (seesWord "mut" next || seesWord "const" next)
    if raw then keyword "raw"
    let mutable ← keyword? "mut"
    if raw && !mutable then keyword "const"
    let _ ← call (.operand braces)
    return .other
  else if sees "*" ls || sees "!" ls || sees "-" ls then
    write text
    operator (if sees "*" ls then "*" else if sees "!" ls then "!" else "-")
    let _ ← call (.operand braces)
    return .other
  else
    let (shape, body) ← hold do
      trailers (← call (.atom braces))
    match shape with
    | .kept => writeSince start
    | .range dots =>
      unless attributes.isEmpty do fail ⟨dots, .attributesOnRange, false⟩
      write body
    | _ => write (text ++ body)
    return shape

/-- Reads an expression. -/
def expression (braces : Bool) : Rule ExprShape := do
  let shape ← call (.operand braces)
  call (.operators braces shape .jump)

end TypedId.Grammar.Rule
