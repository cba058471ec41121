import TypedId.Grammar.Reading

/-!
The arguments that an entity's module is annotated with.

There are five ways to write them: nothing, `true`, `false`, `sqlx = true` and `sqlx = false`.
`Options.read` tells what they mean, or what is wrong with the first lexeme that does not belong to
any of the five. It looks for each thing before it takes it by the grammar.
-/

namespace TypedId

open Lexeme Grammar Rule

/-- What to generate beside the items that every entity has. -/
structure Options where
  /-- Whether to generate the link to the database. -/
  database : Bool
deriving DecidableEq, Repr

/-- What can be wrong with arguments. -/
inductive ArgumentFault where
  | unknown (name : String)
  | valueRequired (name : String)
  | missingValue
  | noLiteral
  | noTruthValue
  | several
deriving DecidableEq, Repr

namespace Options

/-- Why arguments are not accepted. -/
inductive Failure where
  /-- The grammar refused something that was taken. -/
  | grammar (fault : Fault)
  /-- The arguments are none of the five. -/
  | argument (fault : ArgumentFault) (stretch : Stretch)
deriving DecidableEq, Repr

/-- The name of the only named argument. -/
def databaseName : String := "sqlx"

/-- What comes of looking for arguments: something is read, or is wrong. -/
abbrev Finding (α : Type) := Except (ArgumentFault × Stretch) α

/-- Whether a truth value comes next. -/
def seesTruthValue (ls : List Lexeme) : Bool :=
  seesWord "true" ls || seesWord "false" ls

/-- Reads a truth value. -/
def value : Rule (Finding Bool) := do
  let v ← look
  if v.rest.isEmpty then return .error (.missingValue, .single v.position)
  else if !seesLiteral v.rest then return .error (.noLiteral, .single v.position)
  else
    literal
    if seesTruthValue v.rest then return .ok (seesWord "true" v.rest)
    else return .error (.noTruthValue, ⟨v.position, (← here) - 1⟩)

/-- Reads an argument: a truth value, with a name and an equals sign before it or not. A name is an
identifier that is no truth value. -/
def argument : Rule (Finding Bool) := do
  let ls ← ahead
  if seesTruthValue ls then
    literal
    return .ok (seesWord "true" ls)
  else if seesIdentifier ls then
    let name ← identifier
    if name.text ≠ databaseName then return .error (.unknown name.text, .single name.position)
    else if !sees "=" (← ahead) then
      return .error (.valueRequired name.text, .single name.position)
    else
      operator "="
      value
  else value

/-- Reads arguments. -/
def rule : Rule (Finding Options) := do
  if (← ahead).isEmpty then return .ok ⟨false⟩
  else
    match ← argument with
    | .error found => return .error found
    | .ok database =>
      let v ← look
      if v.rest.isEmpty then return .ok ⟨database⟩
      else return .error (.several, .single v.position)

/-- Reads a list of lexemes as arguments. -/
def read (ls : List Lexeme) : Except Failure Options :=
  match rule.read ls with
  | .ok (.ok options, _) => .ok options
  | .ok (.error (fault, stretch), _) => .error (.argument fault stretch)
  | .error fault => .error (.grammar fault)

end Options

end TypedId
