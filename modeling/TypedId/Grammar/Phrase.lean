import TypedId.Grammar.Syntax

/-!
The phrases of the grammar: those of its notions that refer to each other.

Each phrase tells what is remembered of a text that it reads.
-/

namespace TypedId.Grammar

/-- The notions that refer to each other. -/
inductive Phrase where
  /-- A type; `plus` if it may be several bounds. -/
  | type (plus : Bool)
  /-- A bound of a type; `captures` and `constant` tell which unusual ones are admitted. -/
  | bound (captures constant : Bool)
  /-- An expression; `braces` if a path may be followed by fields in braces. -/
  | expression (braces : Bool)
  /-- An expression without infix operators. -/
  | operand (braces : Bool)
  /-- An expression that is neither built by operators nor followed by anything. -/
  | atom (braces : Bool)
  /-- What may follow an expression: operators that bind at least as tightly as `least`. -/
  | operators (braces : Bool) (left : ExprShape) (least : Precedence)
  /-- A pattern without alternatives. -/
  | pattern
  /-- The statements of a block. -/
  | statements
  /-- Fields with names, in braces. -/
  | namedFields
  /-- An item. -/
  | item
  /-- What an import brings in; `none` if it is kept in its source spelling. -/
  | importTree (rootAdmitted : Bool)
deriving DecidableEq, Repr

/-- What is remembered of a phrase. -/
@[reducible] def Phrase.Result : Phrase → Type
  | type _ => TypeShape
  | bound _ _ => BoundShape
  | expression _ | operand _ | atom _ | operators _ _ _ => ExprShape
  | pattern => PatternShape
  | statements | namedFields => Unit
  | item => OuterItem
  | importTree _ => Option ImportTree

end TypedId.Grammar
