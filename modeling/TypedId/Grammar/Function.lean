import TypedId.Grammar.Expression

/-!
Functions: their signatures and their bodies.
-/

namespace TypedId.Grammar.Rule

open Lexeme

/-! ### Signatures -/

/-- What follows a keyword that may be left out. -/
def dropWord (w : String) (ls : List Lexeme) : List Lexeme :=
  if seesWord w ls then ls.drop 1 else ls

/-- What follows a calling convention that may be left out. -/
def dropConvention (ls : List Lexeme) : List Lexeme :=
  if seesWord "extern" ls then
    let ls := ls.drop 1
    if seesText ls then ls.drop 1 else ls
  else ls

/-- Whether a function comes next, with or without the words that may stand before it; `safe` if
`safe` is one of them. -/
def seesSignature (safe : Bool) (ls : List Lexeme) : Bool :=
  let ls := dropWord "async" (dropWord "const" ls)
  let ls := if safe && seesWord "safe" ls then ls.drop 1 else dropWord "unsafe" ls
  seesWord "fn" (dropConvention ls)

/-- Reads the receiver of a method; tells the position of its word. -/
def receiver : Rule Nat := do
  let byReference ← operator? "&"
  if byReference then let _ ← lifetime?
  let _ ← keyword? "mut"
  let position ← here
  keyword "self"
  unless byReference do
    if ← operator? ":" then let _ ← call (.type true)
  return position

/-- Reads a parameter of a function. Where a type with arguments stands alone, a pattern that
matches everything is written before it. -/
def parameter : Rule ArgShape := do
  match ← attempt receiver with
  | some position => return .receiver position
  | none =>
    let ls ← ahead
    if seesIdentifier ls && sees "<" (second ls) then
      write [word "_", punct ':' false]
      let _ ← call (.type true)
      return .typed
    else
      let _ ← call .pattern
      operator ":"
      if ← operator? "..." then return .variadic
      else
        let _ ← call (.type true)
        return .typed

/-- Reads the comma behind a parameter, unless it is the last. -/
def commaUnlessLast : Rule Unit := do
  unless ends (← ahead) do operator ","

/-- Reads the parameters of a function. A receiver has to be the first. -/
def parameters : Rule Unit :=
  repeating (fun ((first, received) : Bool × Bool) => do
    if ends (← ahead) then return .inr ()
    else
      let _ ← outerAttributes
      let shape ← if ← operator? "..." then pure .variadic else parameter
      match shape with
      | .variadic =>
        commaUnlessLast
        return .inr ()
      | .receiver position =>
        if received then fail ⟨.single position, .secondReceiver, false⟩
        else if !first then fail ⟨.single position, .lateReceiver, false⟩
        commaUnlessLast
        return .inl (false, true)
      | .typed =>
        commaUnlessLast
        return .inl (false, received)) (true, false)

/-- Reads a signature; `safe` if `safe` may stand before it. Tells the function's name, and whether
`safe` was there. -/
def signature (safe : Bool) : Rule (Name × Bool) := do
  let _ ← keyword? "const"
  let _ ← keyword? "async"
  let declaredSafe ← if safe then keyword? "safe" else pure false
  unless declaredSafe do let _ ← keyword? "unsafe"
  convention?
  keyword "fn"
  let name ← identifier
  let _ ← genericParameters
  -- The parameters stay open until the signature ends.
  defer (within .parenthesis parameters) fun _ => do
    returnType true
    let _ ← whereClause
    return (name, declaredSafe)

/-! ### Uses of macros -/

/-- Whether a path comes next that may name a macro. -/
def seesMacroPath (ls : List Lexeme) : Bool :=
  seesIdentifier ls || sees "::" ls || ["self", "super", "crate"].any fun w => seesWord w ls

/-- What a path that names a macro may begin with. -/
def macroPathBeginnings : List Expectation :=
  [.identifier, .keyword "self", .keyword "super", .keyword "crate", .operator "::"]

/-- Reads the semicolon behind the arguments of a macro, unless they stand in braces. -/
def macroEnd (delimiter : Delimiter) : Rule Unit :=
  unless delimiter == .brace do operator ";"

/-- Reads the use of a macro as a member of something. -/
def memberInvocation : Rule Unit := do
  plainPath
  macroEnd (← macroArguments)

end TypedId.Grammar.Rule
