import TypedId.Token.Lexer

/-!
Number literals: which are whole, and what a whole one denotes.
-/

namespace TypedId.Number

open Text Lexer

/-- Whether a literal is a number. -/
def isNumber (literal : String) : Bool :=
  literal.toList.head?.any isDigit

/-- Whether a number without a base is whole: no point follows its digits, and no exponent. -/
def isWholeDecimal (cs : List Char) : Bool :=
  match cs.dropWhile fun c => isDigit c || c == '_' with
  | '.' :: _ => false
  | c :: rest =>
    if c == 'e' || c == 'E' then
      !(rest.dropWhile (· == '_')).head?.any fun d => isDigit d || d == '+' || d == '-'
    else true
  | [] => true

/-- The base of a number, and what follows the letters that tell it. -/
def base : List Char → Nat × List Char
  | '0' :: 'x' :: cs => (16, cs)
  | '0' :: 'o' :: cs => (8, cs)
  | '0' :: 'b' :: cs => (2, cs)
  | cs => (10, cs)

/-- Whether a literal is a whole number. -/
def isWhole (literal : String) : Bool :=
  isNumber literal && ((base literal.toList).1 != 10 || isWholeDecimal literal.toList)

/-- Whether a literal is a number with a point or an exponent. -/
def isFraction (literal : String) : Bool :=
  isNumber literal && !isWhole literal

/-- The value of leading digits in a base, underscores left out, and what follows them. -/
def leadingValue (base value : Nat) : List Char → Nat × List Char
  | [] => (value, [])
  | c :: cs =>
    if c = '_' then leadingValue base value cs
    else match hexValue? c with
      | some d => if d < base then leadingValue base (value * base + d) cs else (value, c :: cs)
      | none => (value, c :: cs)

/-- The value of a whole number, and the word written right behind it. -/
def wholeValue (literal : String) : Nat × String :=
  let (b, digits) := base literal.toList
  let (value, suffix) := leadingValue b 0 digits
  (value, String.ofList suffix)

end TypedId.Number
