import TypedId.Expansion
import TypedId.IdLiteral

/-!
From source texts to generated code.

`Invocation.entity` takes the arguments of an annotation and the annotated module,
`Invocation.identifier` takes a written identifier. A text is taken apart into lexemes before
anything is read; then the arguments are read before the module. So of several things that are
wrong, the first in this order is reported.
-/

namespace TypedId

open Lexeme

/-- The texts that are read. -/
inductive Part where
  | arguments
  | item
  | input
  /-- The text literal within a written identifier. -/
  | literal
deriving DecidableEq, Repr

/-- Why no code is generated. -/
inductive Refusal where
  /-- A text does not consist of lexemes. -/
  | unreadable (part : Part)
  /-- A text is not accepted: the diagnostic, and where it points. -/
  | rejected (part : Part) (diagnostic : Diagnostic) (span : Span)
deriving DecidableEq, Repr

/-- The sentence for a refusal. -/
def Refusal.message : Refusal → String
  | unreadable _ => "cannot parse string into token stream"
  | rejected _ diagnostic _ => diagnostic.cause.message

namespace Invocation

/-- Takes a text apart. -/
def source (part : Part) (text : String) : Except Refusal Source :=
  match Source.read? text with
  | some s => .ok s
  | none => .error (.unreadable part)

/-- Places the diagnostic of a reading in its text. -/
def located (part : Part) (s : Source) : Except Diagnostic α → Except Refusal α
  | .ok a => .ok a
  | .error diagnostic => .error (.rejected part diagnostic (s.span diagnostic.stretch))

/-- Reads the arguments of an annotation. -/
def options (text : String) : Except Refusal Options := do
  let s ← source .arguments text
  located .arguments s <| (Options.read s.lexemes).mapError Diagnostic.ofFailure

/-- Reads the module that is annotated. -/
def module (text : String) : Except Refusal EntityModule := do
  let s ← source .item text
  located .item s (EntityModule.read s.lexemes)

/-- Reads an annotation: its arguments and the module. -/
def annotation (arguments item : String) : Except Refusal (Options × EntityModule) := do
  let _ ← source .arguments arguments
  let _ ← source .item item
  let o ← options arguments
  let m ← module item
  return (o, m)

/-- The code that an annotated module is replaced by. -/
def entity (arguments item : String) : Except Refusal (List Lexeme) := do
  let (o, m) ← annotation arguments item
  return m.expand o

/-- Reads a written identifier: its parts and its value. -/
def identifier (text : String) : Except Refusal (IdLiteral × Uuid) := do
  let s ← source .input text
  let l ← located .input s (IdLiteral.read s.lexemes)
  let u ← located .literal s l.value
  return (l, u)

/-- The code that a written identifier is replaced by. -/
def construction (text : String) : Except Refusal (List Lexeme) := do
  let (l, u) ← identifier text
  return IdLiteral.construct l.type u

end Invocation

end TypedId
