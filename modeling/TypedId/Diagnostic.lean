import TypedId.Expansion.Code
import TypedId.Options
import TypedId.Uuid.Reading

/-!
What is reported of a text that cannot be accepted: why, and where.
-/

namespace TypedId

open Lexeme

/-- Why a text is not accepted. -/
inductive Cause where
  /-- The arguments of an annotation are none of the five. -/
  | arguments (fault : ArgumentFault)
  /-- What is annotated is no module. -/
  | noModule
  /-- It is an unsafe module. -/
  | unsafeModule
  /-- It is a module whose content stands elsewhere. -/
  | outOfLine
  /-- The module declares a name that is generated. -/
  | reserved (name moduleName : String)
  /-- The grammar is violated; `ended` if the text or group ended. -/
  | grammar (complaint : Grammar.Complaint) (ended : Bool)
  /-- What should be a text literal is none. -/
  | noText
  /-- Something follows the text literal. -/
  | unexpected
  /-- The text literal does not denote an identifier. -/
  | invalidText (text : String) (reason : Uuid.Reason)
deriving DecidableEq, Repr

/-- The sentence for wrong arguments. -/
def ArgumentFault.message : ArgumentFault → String
  | unknown name => s!"unknown argument `{name}`"
  | valueRequired name => s!"`{name}` requires a value"
  | missingValue => "missing value"
  | noLiteral => "value must be a boolean literal"
  | noTruthValue => "value must be `true` or `false`"
  | several => "expected a single argument"

/-- The sentence for a text that is no module. -/
def moduleExpected : String :=
  "`#[entity_id]` can only be applied to a named module with an inline body"

/-- The sentence for a cause. -/
def Cause.message : Cause → String
  | arguments fault =>
    "invalid `#[entity_id]` arguments: " ++ fault.message ++
      "; expected `#[entity_id]`, `#[entity_id(<bool>)]` or `#[entity_id(sqlx = <bool>)]`"
  | noModule => moduleExpected
  | unsafeModule => moduleExpected ++ " (`unsafe mod` is not supported)"
  | outOfLine => moduleExpected ++ " (out-of-line modules cannot be expanded)"
  | reserved name moduleName =>
    moduleExpected ++
      s!" (`{name}` is generated by the macro and cannot be declared in `{moduleName}`)"
  | grammar complaint ended => Grammar.Fault.message ⟨.single 0, complaint, ended⟩
  | noText => "`id!` only accepts string literals; use `str::parse` to parse ids at runtime"
  | unexpected => "unexpected tokens after the id literal"
  | invalidText text reason =>
    s!"invalid id literal `{text}`: {reason.message}; expected a UUID such as " ++
      "`67e55044-10b1-426f-9247-bb680e5fe0c8`"

/-- A cause, and the lexemes that it is about. -/
structure Diagnostic where
  cause : Cause
  stretch : Stretch
deriving DecidableEq, Repr

/-- The diagnostic for a violation of the grammar. -/
def Diagnostic.ofFault (fault : Grammar.Fault) : Diagnostic :=
  ⟨.grammar fault.complaint fault.ended, fault.stretch⟩

/-- The diagnostic for arguments that are not accepted. -/
def Diagnostic.ofFailure : Options.Failure → Diagnostic
  | .grammar fault => .ofFault fault
  | .argument fault stretch => ⟨.arguments fault, stretch⟩

/-- The code that reports a diagnostic when it is compiled. -/
def Diagnostic.code (diagnostic : Diagnostic) : List Lexeme :=
  TypedId.code ":: core :: compile_error !" ++
    braces [textLiteral diagnostic.cause.message]

end TypedId
