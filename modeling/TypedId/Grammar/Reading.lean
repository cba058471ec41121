import TypedId.Grammar.Statement

/-!
Reading by the grammar.

`Phrase.rule` gives every phrase its rule, and `Phrase.read` reads a phrase. Phrases refer to each
other without end, so reading carries a bound on how deep it may go; between two phrases that begin
at one place there are only so many others, and the bound of `Phrase.read` is never reached.
-/

namespace TypedId.Grammar

/-- The rule of a phrase. -/
def Phrase.rule : (phrase : Phrase) → Rule phrase.Result
  | type plus => Rule.type plus
  | bound captures constant => Rule.bound captures constant
  | expression braces => Rule.expression braces
  | operand braces => Rule.operand braces
  | atom braces => Rule.atom braces
  | operators braces left least => Rule.operators braces left least
  | pattern => Rule.pattern
  | statements => Rule.statements
  | namedFields => Rule.namedFields
  | item => Rule.item
  | importTree rootAdmitted => Rule.importTree rootAdmitted

/-- Reads a phrase, at most `depth` phrases deep. -/
def Phrase.readWithin : Nat → PhraseReader
  | 0, _, r => .error (r.fault .tooDeep)
  | depth + 1, phrase, r => phrase.rule.run (readWithin depth) r

/-- A depth that is never reached in a text of so many lexemes. -/
def sufficientDepth (lexemes : Nat) : Nat := 32 * (lexemes + 1)

/-- Reads a text by a rule. The text may go on. -/
def Rule.read (rule : Rule α) (ls : List Lexeme) : Outcome α :=
  rule.run (Phrase.readWithin (sufficientDepth ls.length)) (Reader.ofLexemes ls)

/-- The fault of a group whose content goes on behind what was read of it. -/
def Reader.strayFault? (r : Reader) : Option Fault :=
  r.stray.map fun (stretch, delimiter) => ⟨stretch, .leftOver delimiter, false⟩

end TypedId.Grammar
