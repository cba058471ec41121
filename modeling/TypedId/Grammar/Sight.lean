import TypedId.Token.Keyword
import TypedId.Token.Number
import TypedId.Source

/-!
What can be seen at the front of a list of lexemes.

The grammar decides by looking ahead: is the next element a certain keyword, an operator, a group?
`Expectation` names the things that can be looked for. The end of a group's content looks like the
end of the text: nothing is seen there.
-/

namespace TypedId.Grammar

open Lexeme

/-- Whether the content of a group, or the text, ends here. -/
def ends : List Lexeme → Bool
  | [] => true
  | closing _ :: _ => true
  | _ => false

/-- Whether the next element is a certain word. -/
def seesWord (w : String) : List Lexeme → Bool
  | word v :: _ => v == w
  | _ => false

/-- Whether the next element is any word. -/
def seesAnyWord : List Lexeme → Bool
  | word _ :: _ => true
  | _ => false

/-- Whether the next element is an identifier. -/
def seesIdentifier : List Lexeme → Bool
  | word v :: _ => isIdentifier v
  | _ => false

/-- Whether the next lexemes form an operator, be it the first part of a longer one. -/
def sees (operator : String) (ls : List Lexeme) : Bool :=
  startsWith operator.toList ls

/-- Whether the next element is a group with a certain delimiter. -/
def seesGroup (d : Delimiter) : List Lexeme → Bool
  | opening e :: _ => d == e
  | _ => false

/-- Whether the next element is a group. -/
def seesAnyGroup : List Lexeme → Bool
  | opening _ :: _ => true
  | _ => false

/-- Whether the next element is a lifetime: a quote and a word. -/
def seesLifetime : List Lexeme → Bool
  | punct '\'' true :: word _ :: _ => true
  | _ => false

/-- Whether the next element is a literal. `true` and `false` are literals, and so is a number
with a minus before it. -/
def seesLiteral : List Lexeme → Bool
  | literal _ :: _ => true
  | word v :: _ => v == "true" || v == "false"
  | punct '-' _ :: literal text :: _ => Number.isNumber text
  | _ => false

/-- Whether the next element is a text literal. -/
def seesText : List Lexeme → Bool
  | literal text :: _ => (Text.literalText? text).isSome
  | _ => false

/-- The element after the next one. -/
def second (ls : List Lexeme) : List Lexeme := afterElement ls

/-- The element after that. -/
def third (ls : List Lexeme) : List Lexeme := afterElement (afterElement ls)

/-- Things that can be looked for. -/
inductive Expectation where
  | keyword (word : String)
  | operator (text : String)
  | identifier
  | lifetime
  | literal
  | text
  | group (delimiter : Delimiter)
deriving DecidableEq, Repr

/-- Whether the thing is next. -/
def Expectation.met : Expectation → List Lexeme → Bool
  | keyword w => seesWord w
  | operator s => sees s
  | identifier => seesIdentifier
  | lifetime => seesLifetime
  | literal => seesLiteral
  | text => seesText
  | group d => seesGroup d

/-- How groups of a kind are spoken of. -/
def groupName : Delimiter → String
  | .parenthesis => "parentheses"
  | .bracket => "square brackets"
  | .brace => "curly braces"

/-- How the thing is spoken of. -/
def Expectation.name : Expectation → String
  | keyword w => s!"`{w}`"
  | operator s => s!"`{s}`"
  | identifier => "identifier"
  | lifetime => "lifetime"
  | literal => "literal"
  | text => "string literal"
  | group d => groupName d

/-- What can be wrong with a text. -/
inductive Complaint where
  /-- One of several things has to come next. -/
  | oneOf (expected : List Expectation)
  /-- An operator has to come next. -/
  | operator (text : String)
  /-- A keyword has to come next. -/
  | keyword (word : String)
  /-- A group has to come next. -/
  | group (delimiter : Delimiter)
  /-- A group of any kind has to come next. -/
  | anyGroup
  /-- An identifier has to come next. -/
  | identifier
  /-- An identifier has to come next, and a keyword does. -/
  | reserved (word : String)
  | lifetime
  | literal
  | expression
  | pathSegment
  | member
  | rename
  | loopOrBlock
  | commaOrSemicolon
  | semicolon
  | upperBound
  | wholeNumber
  | plainNumber
  | smallNumber
  | digits
  | chainedComparison
  | castFollowedBy (what : String)
  | labelledBreak
  | attributesOnRange
  | attributeInAttribute
  | noTraitInObject
  | noTrait
  | captures
  | constBound
  | conditionalBound
  | binderOnOptionalBound
  | genericWhere
  | rangeInSlice
  | secondReceiver
  | lateReceiver
  /-- The group's content goes on behind what was read of it. -/
  | leftOver (delimiter : Delimiter)
  /-- The text nests deeper than it is long. Never the case. -/
  | tooDeep
deriving DecidableEq, Repr

/-- The sentence for a complaint. -/
def Complaint.sentence : Complaint → String
  | oneOf [] => "unexpected token"
  | oneOf [e] => s!"expected {e.name}"
  | oneOf [e, f] => s!"expected {e.name} or {f.name}"
  | oneOf es => "expected one of: " ++ ", ".intercalate (es.map Expectation.name)
  | operator s => s!"expected `{s}`"
  | keyword w => s!"expected `{w}`"
  | group d => s!"expected {groupName d}"
  | anyGroup => "expected delimiter"
  | identifier => "expected identifier"
  | reserved w => s!"expected identifier, found keyword `{w}`"
  | lifetime => "expected lifetime"
  | literal => "expected literal"
  | expression => "expected an expression"
  | pathSegment => "expected path segment after `::`"
  | member => "expected identifier or integer"
  | rename => "expected identifier or underscore"
  | loopOrBlock => "expected loop or block expression"
  | commaOrSemicolon => "expected `,` or `;`"
  | semicolon => "unexpected token, expected `;`"
  | upperBound => "expected range upper bound"
  | wholeNumber => "expected integer literal"
  | plainNumber => "expected unsuffixed integer"
  | smallNumber => "number too large to fit in target type"
  | digits => "invalid digit found in string"
  | chainedComparison => "comparison operators cannot be chained"
  | castFollowedBy what => s!"casts cannot be followed by {what}"
  | labelledBreak => "parentheses required"
  | attributesOnRange => "attributes are not allowed on range expressions starting with `..`"
  | attributeInAttribute => "unexpected attribute inside of attribute"
  | noTraitInObject => "at least one trait is required for an object type"
  | noTrait => "at least one trait must be specified"
  | captures => "`use<...>` precise capturing syntax is not allowed here"
  | constBound => "`const` is not allowed here"
  | conditionalBound => "`[const]` is not allowed here"
  | binderOnOptionalBound => "`for<...>` binder not allowed with `?` trait polarity modifier"
  | genericWhere => "generic parameters on `where` clauses are reserved for future use"
  | rangeInSlice => "range pattern is not allowed unparenthesized inside slice pattern"
  | secondReceiver => "unexpected second method receiver"
  | lateReceiver => "unexpected method receiver"
  | leftOver .parenthesis => "unexpected token, expected `)`"
  | leftOver .bracket => "unexpected token, expected `]`"
  | leftOver .brace => "unexpected token, expected `\x7d`"
  | tooDeep => "nested too deeply"

/-- Whether the sentence for a complaint tells if the text or group ended. -/
def Complaint.announcesEnd : Complaint → Bool
  | operator _ => false
  | _ => true

/-- A complaint, and where it arose. -/
structure Fault where
  stretch : Stretch
  complaint : Complaint
  /-- Whether the sentence says that the text or group ended. -/
  ended : Bool
deriving DecidableEq, Repr

/-- The sentence for a fault. -/
def Fault.message (fault : Fault) : String :=
  match fault.ended, fault.complaint with
  | true, .oneOf [] => "unexpected end of input"
  | true, complaint => "unexpected end of input, " ++ complaint.sentence
  | false, complaint => complaint.sentence

end TypedId.Grammar
