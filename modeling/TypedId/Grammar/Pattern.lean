import TypedId.Grammar.Type

/-!
Patterns.
-/

namespace TypedId.Grammar.Rule

open Lexeme

/-! ### Members -/

/-- The index that a number denotes which names a field of a tuple. -/
def tupleIndex (text : String) : Except Complaint Nat :=
  if !Number.isWhole text then .error .wholeNumber
  else
    let (value, suffix) := Number.wholeValue text
    if suffix ≠ "" then .error .plainNumber
    else if value < Nat.pow 2 32 then .ok value
    else .error .smallNumber

/-- The lexeme of an index, in decimal digits. -/
def indexLexeme (index : Nat) : Lexeme := .literal (toString index)

/-- Reads the name of a field or its index; tells whether it is a name. -/
def member : Rule Bool := do
  let v ← look
  if seesIdentifier v.rest then
    let _ ← identifier
    return true
  else
    match v.rest with
    | Lexeme.literal text :: _ =>
      if Number.isWhole text then
        match tupleIndex text with
        | .ok index => take 1 [indexLexeme index]
        | .error complaint => fail ⟨.single v.position, complaint, false⟩
        return false
      else complain .member
    | punct '-' _ :: Lexeme.literal text :: _ =>
      if Number.isWhole text then
        let complaint := if (Number.wholeValue text).2 = "" then .digits else .plainNumber
        fail ⟨⟨v.position, v.position + 1⟩, complaint, false⟩
      else complain .member
    | _ => complain .member

/-! ### Ranges -/

/-- What stands between the ends of a range. -/
structure Dots where
  stretch : Stretch
  /-- Whether the range includes its end. -/
  closed : Bool

/-- Reads the dots of a range in an expression. -/
def dots : Rule Dots := do
  let v ← look
  if sees "..=" v.rest then
    operator "..="
    return ⟨⟨v.position, v.position + 2⟩, true⟩
  else if sees "..." v.rest then expected [.operator "..="]
  else if sees ".." v.rest then
    operator ".."
    return ⟨⟨v.position, v.position + 1⟩, false⟩
  else expected [.operator "..", .operator "..="]

/-- Reads the dots of a range in a pattern that has a start. Three dots are written `..=`. -/
def patternDots : Rule Dots := do
  let v ← look
  if sees "..." v.rest && !sees "..=" v.rest then
    take 3 (Lexeme.operator "..=".toList)
    return ⟨⟨v.position, v.position + 2⟩, true⟩
  else dots

/-- Reads the end of a range in a pattern, which may be left out; tells whether it was there. -/
def patternEnd? : Rule Bool := do
  let ls ← ahead
  if ends ls || seesColon ls || seesWord "if" ls || ["|", "=", ",", ";"].any (sees · ls) then
    return false
  else
    if seesLiteral ls then literal
    else if seesPath ls then let _ ← qualifiedPath true
    else if seesWord "const" ls then
      keyword "const"
      attributedBlock
    else expected [.literal, .identifier, .operator "::", .operator "<", .keyword "self",
      .keyword "Self", .keyword "super", .keyword "crate", .keyword "const"]
    return true

/-- Reads the end of a range in a pattern behind its dots; tells whether it was there. -/
def endBehind (between : Dots) : Rule Bool := do
  let found ← patternEnd?
  if between.closed && !found then complain .upperBound
  return found

/-- Reads a range in a pattern behind its start. -/
def rangePattern : Rule PatternShape := do
  let between ← patternDots
  let found ← endBehind between
  return if found then .other else .openRange between.stretch

/-- Reads a range in a pattern that has no start, or two dots alone. -/
def startlessPattern : Rule PatternShape := do
  let between ← dots
  let found ← endBehind between
  return if found then .openRange between.stretch else .rest

/-! ### Kinds of patterns -/

/-- Whether an alternative follows. -/
def seesAlternative (ls : List Lexeme) : Bool :=
  sees "|" ls && !sees "||" ls && !sees "|=" ls

/-- Reads a pattern with alternatives; one more bar may stand before all. -/
def alternatives : Rule PatternShape := do
  let leading ← operator? "|"
  let first ← call .pattern
  let more ← while_ seesAlternative do
    operator "|"
    call .pattern
  return if leading || !more.isEmpty then .other else first

/-- Reads the pattern of a field; tells whether it is kept in its source spelling. -/
def fieldPattern : Rule Unit := do
  let _ ← keptIf id do
    let boxed ← keyword? "box"
    let byReference ← keyword? "ref"
    let mutable ← keyword? "mut"
    if boxed || byReference || mutable then
      let _ ← identifier
      return boxed
    else
      let named ← member
      if sees ":" (← ahead) || !named then
        operator ":"
        let _ ← alternatives
      return false
  return ()

/-- Reads the patterns of fields in braces. -/
def fieldPatterns : Rule Unit :=
  within .brace <| repeating (fun () => do
    if ends (← ahead) then return .inr ()
    else
      let _ ← outerAttributes
      if sees ".." (← ahead) then
        operator ".."
        return .inr ()
      else
        fieldPattern
        if ends (← ahead) then return .inr ()
        else
          operator ","
          return .inl ()) ()

/-- Reads a pattern that begins with a path. -/
def pathPattern : Rule PatternShape := do
  let shape ← qualifiedPath true
  let ls ← ahead
  if seesBang ls && shape.plain then
    let _ ← macroArguments
    return .other
  else if seesGroup .brace ls then
    fieldPatterns
    return .other
  else if seesGroup .parenthesis ls then
    within .parenthesis do
      let _ ← commaList alternatives
    return .other
  else if sees ".." ls then rangePattern
  else return .other

/-- Reads a pattern that is a value or begins with one. -/
def valuePattern : Rule PatternShape := do
  let _ ← patternEnd?
  if sees ".." (← ahead) then rangePattern else return .other

/-- Reads a pattern that gives a name to a value. -/
def namePattern : Rule Unit := do
  let _ ← keyword? "ref"
  let _ ← keyword? "mut"
  let _ ← identifierOr ["self"]
  if ← operator? "@" then let _ ← call .pattern

/-- Reads a pattern for the elements of a sequence. An open range has to stand in parentheses. -/
def slicePattern : Rule Unit :=
  within .bracket do
    let _ ← commaList do
      match ← alternatives with
      | .openRange stretch => fail ⟨stretch, .rangeInSlice, false⟩
      | _ => return ()

/-- Whether a pattern begins with a path: it has several words or something behind it. -/
def seesPathPattern (ls : List Lexeme) : Bool :=
  let next := second ls
  (seesIdentifier ls && (sees "::" next || sees "!" next || sees ".." next ||
      seesGroup .brace next || seesGroup .parenthesis next)) ||
    (seesWord "self" ls && sees "::" next) ||
    sees "::" ls || sees "<" ls || ["Self", "super", "crate"].any fun w => seesWord w ls

/-- Reads a pattern without alternatives. -/
def pattern : Rule PatternShape := do
  let ls ← ahead
  if seesPathPattern ls then pathPattern
  else if seesWord "_" ls then keyword "_"; return .other
  else if seesWord "box" ls then
    kept do
      keyword "box"
      let _ ← call .pattern
    return .kept
  else if sees "-" ls || seesLiteral ls || seesWord "const" ls then valuePattern
  else if seesIdentifier ls || ["ref", "mut", "self"].any fun w => seesWord w ls then
    namePattern
    return .other
  else if sees "&" ls then
    operator "&"
    let _ ← keyword? "mut"
    let _ ← call .pattern
    return .other
  else if seesGroup .parenthesis ls then
    within .parenthesis do
      let _ ← commaList alternatives
    return .other
  else if seesGroup .bracket ls then slicePattern; return .other
  else if sees ".." ls && !sees "..." ls then startlessPattern
  else expected [.identifier, .operator "::", .operator "<", .keyword "_", .literal,
    .keyword "const", .keyword "ref", .keyword "mut", .operator "&", .group .parenthesis,
    .group .bracket, .operator ".."]

end TypedId.Grammar.Rule
