import TypedId.Grammar.Pattern

/-!
Infix operators and what may follow them.
-/

namespace TypedId.Grammar.Rule

open Lexeme

/-- The infix operators, in the order in which they are looked for, with their precedences. -/
def infixOperators : List (String × Precedence) :=
  [("+=", .assign), ("-=", .assign), ("*=", .assign), ("/=", .assign), ("%=", .assign),
    ("^=", .assign), ("&=", .assign), ("|=", .assign), ("<<=", .assign), (">>=", .assign),
    ("&&", .and), ("||", .or), ("<<", .shift), (">>", .shift), ("==", .compare), ("<=", .compare),
    ("!=", .compare), (">=", .compare), ("+", .sum), ("-", .sum), ("*", .product),
    ("/", .product), ("%", .product), ("^", .bitXor), ("&", .bitAnd), ("|", .bitOr),
    ("<", .compare), (">", .compare)]

/-- The infix operator that comes next. -/
def infixOperator? (ls : List Lexeme) : Option (String × Precedence) :=
  infixOperators.find? fun (text, _) => sees text ls

/-- Whether an equals sign comes next that assigns. -/
def seesAssignment (ls : List Lexeme) : Bool :=
  sees "=" ls && !sees "=>" ls

/-- How tightly that binds which comes next. -/
def nextPrecedence (ls : List Lexeme) : Precedence :=
  match infixOperator? ls with
  | some (_, precedence) => precedence
  | none =>
    if seesAssignment ls then .assign
    else if sees ".." ls then .range
    else if seesWord "as" ls then .cast
    else .jump

/-- Reads what stands on the right of an infix operator of a precedence. -/
def rightOperand (braces : Bool) (precedence : Precedence) : Rule Unit := do
  let first ← call (.operand braces)
  repeating (fun right : ExprShape => do
    let v ← look
    let next := nextPrecedence v.rest
    if precedence.rank < next.rank || (next == precedence && precedence == .assign) then
      let right ← call (.operators braces right next)
      if (← here) == v.position then return .inr () else return .inl right
    else return .inr ()) first

/-- Whether a range has no end: what comes next cannot begin one. -/
def endsRange (braces : Bool) (ls : List Lexeme) : Bool :=
  ends ls || (sees "." ls && !sees ".." ls) || (!braces && seesGroup .brace ls) ||
    seesWord "as" ls ||
    [",", ";", "?", "=>", "=", "+", "/", "%", "^", ">", "<=", "!=", "-=", "*=", "&=", "|=",
      "<<="].any (sees · ls)

/-- Reads the dots of a range and its end, which may be left out unless the range includes it. -/
def restOfRange (braces : Bool) : Rule ExprShape := do
  let between ← dots
  unless !between.closed && endsRange braces (← ahead) do rightOperand braces .range
  return .range between.stretch

/-- Complains of something that may not follow a cast. -/
def checkCast : Rule Unit := do
  let ls ← ahead
  let next := second ls
  let further := third ls
  if sees "." ls && !sees ".." ls then
    if seesWord "await" next then complain (.castFollowedBy "`.await`")
    else if seesIdentifier next && (seesGroup .parenthesis further || sees "::" further) then
      complain (.castFollowedBy "a method call")
    else complain (.castFollowedBy "a field access")
  else if sees "?" ls then complain (.castFollowedBy "`?`")
  else if seesGroup .bracket ls then complain (.castFollowedBy "indexing")
  else if seesGroup .parenthesis ls then complain (.castFollowedBy "a function call")

/-- Reads one infix operator that binds at least as tightly as `least`, and what stands on its
right; tells what the whole is then. A range is never on the left of one. -/
def operatorStep (braces : Bool) (least : Precedence) (left : ExprShape) :
    Rule (ExprShape ⊕ ExprShape) := do
  let ls ← ahead
  match left with
  | .range _ => return .inr left
  | _ =>
    match infixOperator? ls with
    | some (text, precedence) =>
      if precedence.rank < least.rank then return .inr left
      else
        if precedence == .compare && left == .comparison then complain .chainedComparison
        operator text
        rightOperand braces precedence
        return .inl (if precedence == .compare then .comparison else .other)
    | none =>
      if least.rank ≤ Precedence.assign.rank && seesAssignment ls then
        operator "="
        rightOperand braces .assign
        return .inl .other
      else if least.rank ≤ Precedence.range.rank && sees ".." ls then
        return .inl (← restOfRange braces)
      else if seesWord "as" ls then
        keyword "as"
        let _ ← call (.type false)
        checkCast
        return .inl .other
      else return .inr left

/-- Reads infix operators that bind at least as tightly as `least`. -/
def operators (braces : Bool) (left : ExprShape) (least : Precedence) : Rule ExprShape :=
  repeating (operatorStep braces least) left

end TypedId.Grammar.Rule
