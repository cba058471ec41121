import TypedId.Token.Lexer

/-!
Writing code: lexemes from fixed pieces of source text.
-/

namespace TypedId

open Lexeme

/-- The lexemes of a piece of source text. -/
def code (text : String) : List Lexeme :=
  ((Lexer.lex text.toList).getD []).map Prod.fst

/-- The same with the characters at hand: to look for them in a closed text takes long. -/
theorem code_ofList (cs : List Char) :
    code (String.ofList cs) = ((Lexer.lex cs).getD []).map Prod.fst := by
  rw [code, String.toList_ofList]

/-- Lexemes in a group. -/
def grouped (d : Delimiter) (content : List Lexeme) : List Lexeme :=
  opening d :: content ++ [closing d]

/-- Lexemes in braces. -/
def braces (content : List Lexeme) : List Lexeme := grouped .brace content

/-- The literal that denotes a text. -/
def textLiteral (text : String) : Lexeme := .literal (Text.quote text)

/-- The attribute that documents what follows, with its literal. -/
def documented (literal : Lexeme) : List Lexeme :=
  punct '#' false :: grouped .bracket [word "doc", punct '=' false, literal]

/-- A line of documentation in a raw literal. -/
def docLine (line : String) : List Lexeme :=
  documented (.literal ("r\"" ++ line ++ "\""))

end TypedId
