import TypedId.Token.Lexer

/-!
Source texts: lexemes together with where they stand in the text.

A reader works on the lexemes alone and names places by counting them; `Source.span` turns such a
place into lines and columns afterwards. So the layout of a text can only show in spans.
-/

namespace TypedId

/-- A place in a text: lines count from 1, columns count characters from 0. -/
structure Place where
  line : Nat
  column : Nat
deriving DecidableEq, Repr

/-- A stretch of a text from one place up to another. -/
structure Span where
  start : Place
  stop : Place
deriving DecidableEq, Repr

/-- The place behind the given characters, which begin at the given place. -/
def Place.after (place : Place) : List Char → Place
  | [] => place
  | c :: cs => Place.after (if c = '\n' then ⟨place.line + 1, 0⟩ else ⟨place.line, place.column + 1⟩) cs

/-- The place where a text begins. -/
def Place.origin : Place := ⟨1, 0⟩

/-- A stretch of lexemes, named by the positions of its first and its last one. -/
structure Stretch where
  first : Nat
  last : Nat
deriving DecidableEq, Repr

/-- The stretch of one lexeme. -/
def Stretch.single (position : Nat) : Stretch := ⟨position, position⟩

/-- A text taken apart into lexemes. -/
structure Source where
  /-- The text, without the mark that tells its byte order. -/
  text : List Char
  /-- Its lexemes and their extents. -/
  located : List Lexer.Located

namespace Source

/-- A text without a leading byte order mark. -/
def withoutMark : List Char → List Char
  | '\uFEFF' :: cs => cs
  | cs => cs

/-- Takes a text apart; `none` if it does not consist of lexemes. -/
def read? (text : String) : Option Source :=
  let cs := withoutMark text.toList
  (Lexer.lex cs).map fun located => ⟨cs, located⟩

/-- The lexemes of a text. -/
def lexemes (source : Source) : List Lexeme :=
  source.located.map Prod.fst

/-- The extents of a text's lexemes. -/
def extents (source : Source) : List Extent :=
  source.located.map Prod.snd

/-- The extent of a stretch of lexemes; the end of the text has none. -/
def extent? (source : Source) (stretch : Stretch) : Option Extent := do
  let first ← source.extents[stretch.first]?
  let last ← source.extents[stretch.last]?
  return ⟨min first.start last.start, max first.stop last.stop⟩

/-- The characters of an extent. -/
def cut (source : Source) (extent : Extent) : List Char :=
  (source.text.drop extent.start).take (extent.stop - extent.start)

/-- Where a stretch of lexemes stands. The end of the text stands at its origin. -/
def span (source : Source) (stretch : Stretch) : Span :=
  match source.extent? stretch with
  | some ⟨start, stop⟩ =>
    ⟨Place.origin.after (source.text.take start), Place.origin.after (source.text.take stop)⟩
  | none => ⟨Place.origin, Place.origin⟩

end Source

end TypedId
