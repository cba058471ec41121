import TypedId.Text.Quoted

/-!
Lexemes, and how they are written out.

A source text is a list of lexemes. A group is everything between an opening delimiter and the
closing one that matches it; nothing but the delimiters marks a group, so a position in the text is
just the number of lexemes before it.
-/

namespace TypedId

/-- The three kinds of brackets. -/
inductive Delimiter where
  | parenthesis
  | bracket
  | brace
deriving DecidableEq, Repr

/-- The character that opens a group. -/
def Delimiter.opening : Delimiter → Char
  | .parenthesis => '('
  | .bracket => '['
  | .brace => '{'

/-- The character that closes a group. -/
def Delimiter.closing : Delimiter → Char
  | .parenthesis => ')'
  | .bracket => ']'
  | .brace => '}'

/-- The smallest parts of a source text. -/
inductive Lexeme where
  /-- An identifier or keyword, with `r#` if it was written so. -/
  | word (text : String)
  /-- One punctuation character; `joint` if it may form an operator with the next lexeme. -/
  | punct (character : Char) (joint : Bool)
  /-- A literal in its source spelling. -/
  | literal (text : String)
  | opening (delimiter : Delimiter)
  | closing (delimiter : Delimiter)
deriving DecidableEq, Repr

namespace Lexeme

/-- A lexeme's own characters. -/
def text : Lexeme → String
  | word s => s
  | punct c _ => String.singleton c
  | literal s => s
  | opening d => String.singleton d.opening
  | closing d => String.singleton d.closing

/-- What stands between two neighbours: a space, except within an operator and on the inner sides
of parentheses and brackets. -/
def gap : Lexeme → Lexeme → String
  | opening .brace, _ => " "
  | opening _, _ => ""
  | _, closing .brace => " "
  | _, closing _ => ""
  | punct _ true, _ => ""
  | _, _ => " "

/-- Lexemes written out in one line. -/
def render : List Lexeme → String
  | [] => ""
  | [a] => a.text
  | a :: b :: rest => a.text ++ gap a b ++ render (b :: rest)

/-- Whether every delimiter is matched, given the delimiters that are open. -/
def balanced : List Delimiter → List Lexeme → Bool
  | stack, [] => stack.isEmpty
  | stack, opening d :: rest => balanced (d :: stack) rest
  | d :: stack, closing e :: rest => d == e && balanced stack rest
  | [], closing _ :: _ => false
  | stack, _ :: rest => balanced stack rest

/-- The lexemes of an operator: all characters but the last are joint. -/
def operator : List Char → List Lexeme
  | [] => []
  | [c] => [punct c false]
  | c :: cs => punct c true :: operator cs

/-- A comma on its own. -/
def comma : Lexeme := punct ',' false

/-- The lexemes of a lifetime. -/
def lifetime (name : String) : List Lexeme := [punct '\'' true, word name]

/-- Whether a list of lexemes begins with an operator, be it the first part of a longer one. -/
def startsWith : List Char → List Lexeme → Bool
  | [], _ => true
  | [c], punct d _ :: _ => c == d
  | c :: cs, punct d joint :: rest => c == d && joint && startsWith cs rest
  | _, _ => false

/-- How many lexemes the group has whose opening delimiter stands before `rest`, counted from
there and with the closing delimiter; `depth` more groups are open. -/
def groupLength (depth : Nat) : List Lexeme → Nat
  | [] => 0
  | opening _ :: rest => groupLength (depth + 1) rest + 1
  | closing _ :: rest => if depth = 0 then 1 else groupLength (depth - 1) rest + 1
  | _ :: rest => groupLength depth rest + 1

/-- What follows the first element of a group's content: a whole group counts as one element, and
so does a quote with its word. At the end of the content nothing follows. -/
def afterElement : List Lexeme → List Lexeme
  | [] => []
  | closing _ :: _ => []
  | opening _ :: rest => rest.drop (groupLength 0 rest)
  | punct '\'' true :: word _ :: rest => rest
  | _ :: rest => rest

end Lexeme

end TypedId
