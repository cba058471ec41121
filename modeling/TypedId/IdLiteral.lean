import TypedId.Diagnostic
import TypedId.Grammar.Reading

/-!
Identifiers that are written in code as literals: a type and a text.
-/

namespace TypedId

open Lexeme Grammar

/-- The parts of a written identifier. -/
structure IdLiteral where
  /-- The type of the identifier. -/
  type : List Lexeme
  /-- The text that the literal denotes. -/
  text : String
  /-- Where the literal stands. -/
  position : Nat
deriving DecidableEq, Repr

/-- What was read in the place of a text literal. -/
structure ReadText where
  shape : ExprShape
  stretch : Stretch

/-- Reads a type, a comma, an expression and another comma, which may be left out. -/
def idLiteralRule : Rule (List Lexeme × ReadText) := do
  let (_, type) ← Rule.hold (Rule.call (.type true))
  Rule.operator ","
  let start ← Rule.here
  let shape ← Rule.call (.expression true)
  let stop ← Rule.here
  return (type, ⟨shape, ⟨start, stop - 1⟩⟩)

namespace IdLiteral

/-- The literal at a position. -/
def literalAt (ls : List Lexeme) (position : Nat) : String :=
  match ls[position]? with
  | some (literal text) => (Text.literalText? text).getD ""
  | _ => ""

/-- Reads the parts of a written identifier. -/
def read (ls : List Lexeme) : Except Diagnostic IdLiteral :=
  match idLiteralRule.read ls with
  | .error fault => .error (.ofFault fault)
  | .ok ((type, found), r) =>
    match found.shape with
    | .text position =>
      let r := if sees "," r.rest then r.take 1 [] else r
      match r.rest, r.strayFault? with
      | _ :: _, _ => .error ⟨.unexpected, .single r.position⟩
      | [], some fault => .error (.ofFault fault)
      | [], none => .ok ⟨type, literalAt ls position, position⟩
    | _ => .error ⟨.noText, found.stretch⟩

/-- The identifier that is written. -/
def value (l : IdLiteral) : Except Diagnostic Uuid :=
  match Uuid.read l.text with
  | .ok u => .ok u
  | .error reason => .error ⟨.invalidText l.text reason, .single l.position⟩

/-- The literals of some bytes, with commas between them. -/
def byteLiterals (bytes : List Nat) : List Lexeme :=
  (bytes.map fun b => Lexeme.literal (toString b ++ "u8")).intersperse comma

/-- The code that makes an identifier of a type. -/
def construct (type : List Lexeme) (u : Uuid) : List Lexeme :=
  [punct '<' false] ++ type ++ [punct '>' false] ++ code ":: from_uuid" ++
    grouped .parenthesis
      (code ":: entity_id :: __private :: Uuid :: from_bytes" ++
        grouped .parenthesis (grouped .bracket (byteLiterals u.bytes)))

end IdLiteral

end TypedId
