import TypedId.Token

/-!
From characters to lexemes.

`Lexer.next` takes one lexeme, comment or blank off the front of a text and `Lexer.scan` repeats
it. Blanks and ordinary comments leave nothing behind but the end of an operator; a documentation
comment becomes the attribute it stands for. Every lexeme comes with its `Extent`, which counts
characters from the start of the text.
-/

namespace TypedId

/-- A stretch of a text, in characters from its start; the end is exclusive. -/
structure Extent where
  start : Nat
  stop : Nat
deriving DecidableEq, Repr

namespace Lexer

open Text Lexeme

/-- A lexeme and where it stands. -/
abbrev Located := Lexeme × Extent

/-! ### Blanks and comments -/

/-- Whether a character separates lexemes and is none: Unicode's white space and the two marks of
writing direction. -/
def isBlank (c : Char) : Bool :=
  c == ' ' || (9 ≤ c.toNat && c.toNat ≤ 13) || c.toNat == 0x85 || c.toNat == 0xA0 ||
    c.toNat == 0x1680 || (0x2000 ≤ c.toNat && c.toNat ≤ 0x200A) || c.toNat == 0x200E ||
    c.toNat == 0x200F || c.toNat == 0x2028 || c.toNat == 0x2029 || c.toNat == 0x202F ||
    c.toNat == 0x205F || c.toNat == 0x3000

/-- The rest of a line, without a carriage return at its end, and what follows from the line feed
on. -/
def restOfLine : List Char → List Char × List Char
  | [] => ([], [])
  | '\n' :: cs => ([], '\n' :: cs)
  | '\r' :: '\n' :: cs => ([], '\n' :: cs)
  | c :: cs => let (line, rest) := restOfLine cs; (c :: line, rest)

/-- The content of a comment of which `depth` levels are open, and what follows it. Comments
nest. -/
def restOfComment : Nat → List Char → Option (List Char × List Char)
  | _, [] => none
  | depth, '/' :: '*' :: cs =>
    (restOfComment (depth + 1) cs).map fun (text, rest) => ('/' :: '*' :: text, rest)
  | depth, '*' :: '/' :: cs =>
    if depth ≤ 1 then some ([], cs)
    else (restOfComment (depth - 1) cs).map fun (text, rest) => ('*' :: '/' :: text, rest)
  | depth, c :: cs => (restOfComment depth cs).map fun (text, rest) => (c :: text, rest)

/-- Whether a text holds a carriage return that no line feed follows. -/
def hasBareReturn : List Char → Bool
  | [] => false
  | '\r' :: '\n' :: cs => hasBareReturn cs
  | '\r' :: _ => true
  | _ :: cs => hasBareReturn cs

/-- The attribute that a documentation comment stands for. All of it stands where the comment
does, its brackets at the comment's first and last character. -/
def documentation (inner : Bool) (text : List Char) (at_ : Extent) : Option (List Located) :=
  if hasBareReturn text then none
  else
    let bang := if inner then [(punct '!' false, at_)] else []
    some ((punct '#' false, at_) :: bang ++
      [(opening .bracket, ⟨at_.start, at_.start + 1⟩), (word "doc", at_), (punct '=' false, at_),
        (literal (quote (String.ofList text)), at_),
        (closing .bracket, ⟨at_.stop - 1, at_.stop⟩)])

/-! ### Words and literals -/

/-- A word without `r#`, and what follows it. -/
def plainWord? : List Char → Option (List Char × List Char)
  | [] => none
  | c :: cs =>
    if isIdentifierStart c then
      some (c :: cs.takeWhile isIdentifierContinue, cs.dropWhile isIdentifierContinue)
    else none

/-- The words that have no raw form. -/
def isNeverRaw (w : List Char) : Bool :=
  ["_", "super", "self", "Self", "crate"].any fun s => s.toList == w

/-- A word, raw or not, and what follows it. -/
def word? : List Char → Option (List Char × List Char)
  | 'r' :: '#' :: cs => do
    let (w, rest) ← plainWord? cs
    if isNeverRaw w then none else some ('r' :: '#' :: w, rest)
  | cs => plainWord? cs

/-- Whether a text begins like a raw, byte or null-ended literal, and so with no word. -/
def beginsLiteral (cs : List Char) : Bool :=
  ["r\"", "r#\"", "r##", "b\"", "b'", "br\"", "br#", "c\"", "cr\"", "cr#"].any fun s =>
    s.toList.isPrefixOf cs

/-- What follows the word that may be written right behind a literal. -/
def dropSuffix (cs : List Char) : List Char :=
  match plainWord? cs with
  | some (_, rest) => rest
  | none => cs

/-- What follows a character literal after its opening quote. -/
def restOfCharacter (style : Style) : List Char → Option (List Char)
  | [] => none
  | '\\' :: cs => do
    let (_, rest) ← style.unescape .escaped cs
    match rest with
    | '\'' :: rest => some (dropSuffix rest)
    | _ => none
  | c :: '\'' :: rest =>
    if style.wide || c.toNat < 128 then some (dropSuffix rest) else none
  | _ :: _ => none

/-- What follows a raw literal after the letters that introduce it. -/
def restOfRaw (style : Style) (cs : List Char) : Option (List Char) := do
  let (hashes, rest) ← rawOpening cs
  let (_, rest) ← style.unquoteRaw hashes rest
  return dropSuffix rest

/-- What follows a quoted literal after its opening quote. -/
def restOfQuoted (style : Style) (cs : List Char) : Option (List Char) := do
  let (_, rest) ← style.unquote .plain cs
  return dropSuffix rest

/-- What follows a quoted literal of any kind. -/
def afterQuoted : List Char → Option (List Char)
  | '"' :: cs => restOfQuoted .text cs
  | 'r' :: cs => restOfRaw .text cs
  | 'b' :: '"' :: cs => restOfQuoted .bytes cs
  | 'b' :: 'r' :: cs => restOfRaw .bytes cs
  | 'c' :: '"' :: cs => restOfQuoted .nullEnded cs
  | 'c' :: 'r' :: cs => restOfRaw .nullEnded cs
  | 'b' :: '\'' :: cs => restOfCharacter .bytes cs
  | '\'' :: cs => restOfCharacter .text cs
  | _ => none

/-! ### Numbers -/

def isDigit (c : Char) : Bool := '0' ≤ c && c ≤ '9'

/-- What follows an exponent after its letter; `before` is what follows the number if there are no
digits in the exponent. -/
def afterExponent (before : Option (List Char)) (signed filled : Bool) :
    List Char → Option (List Char)
  | [] => if filled then some [] else before
  | c :: cs =>
    if isDigit c then afterExponent before signed true cs
    else if c = '_' then afterExponent before signed filled cs
    else if (c = '+' ∨ c = '-') ∧ ¬ filled then
      if signed then before else afterExponent before true false cs
    else if filled then some (c :: cs) else before

/-- What follows the digits of a number that has a point or an exponent; `point` if the point is
behind. A point that begins a range or a field name is none of the number's. -/
def afterFraction (point : Bool) : List Char → Option (List Char)
  | [] => if point then some [] else none
  | c :: cs =>
    if isDigit c ∨ c = '_' then afterFraction point cs
    else if c = '.' ∧ ¬ point then
      if cs.head?.any fun d => d == '.' || isIdentifierStart d then none
      else afterFraction true cs
    else if c = 'e' ∨ c = 'E' then
      afterExponent (if point then some (c :: cs) else none) false false cs
    else if point then some (c :: cs) else none

/-- What follows the digits of a whole number in a base; `filled` if there was a digit. -/
def afterDigits (base : Nat) (filled : Bool) : List Char → Option (List Char)
  | [] => if filled then some [] else none
  | c :: cs =>
    if c = '_' then
      if ¬ filled ∧ base = 10 then none else afterDigits base filled cs
    else match hexValue? c with
      | some d =>
        if d < base then afterDigits base true cs
        else if d < 10 then none
        else if filled then some (c :: cs) else none
      | none => if filled then some (c :: cs) else none

/-- What follows a whole number. -/
def afterWhole : List Char → Option (List Char)
  | '0' :: 'x' :: cs => afterDigits 16 false cs
  | '0' :: 'o' :: cs => afterDigits 8 false cs
  | '0' :: 'b' :: cs => afterDigits 2 false cs
  | cs => afterDigits 10 false cs

/-- A number may be followed by a word, and then by nothing that a word goes on with. -/
def afterNumberSuffix (cs : List Char) : Option (List Char) :=
  let rest := dropSuffix cs
  if rest.head?.any isIdentifierContinue then none else some rest

/-- What follows a number. -/
def afterNumber (cs : List Char) : Option (List Char) :=
  if cs.head?.any isDigit then
    match (afterFraction false cs).bind afterNumberSuffix with
    | some rest => some rest
    | none => (afterWhole cs).bind afterNumberSuffix
  else none

/-! ### Lexemes -/

/-- The placeholder that stands for an expression that could not be written out. -/
def placeholder : List Char := "(/*ERROR*/)".toList

/-- Whether a text begins with a punctuation character. A slash that begins a comment is none. -/
def beginsPunct : List Char → Bool
  | '/' :: '/' :: _ => false
  | '/' :: '*' :: _ => false
  | c :: _ => "~!@#$%^&*-=+|;:,<.>/?'".toList.contains c
  | [] => false

/-- Whether a quote may begin a lifetime: a word follows, and no character that makes the two part
of a literal. -/
def beginsLifetime (cs : List Char) : Bool :=
  match word? cs with
  | none => false
  | some (_, '\'' :: _) => false
  | some (_, '#' :: _) => ['r', '#'].isPrefixOf cs
  | some _ => true

/-- A lexeme that is no delimiter, and what follows it. -/
def leaf? (cs : List Char) : Option (Lexeme × List Char) :=
  match (afterQuoted cs).or (afterNumber cs) with
  | some rest => some (literal (String.ofList (cs.take (cs.length - rest.length))), rest)
  | none =>
    match cs with
    | [] => none
    | c :: rest =>
      if beginsPunct cs then
        if c = '\'' then
          if beginsLifetime rest then some (punct c true, rest) else none
        else some (punct c (beginsPunct rest), rest)
      else if beginsLiteral cs then none
      else do
        let (w, rest) ← word? cs
        return (word (String.ofList w), rest)

/-- Takes one lexeme, comment or blank off a text that begins `start` characters into the source.
`none` if the text begins with nothing of the kind. -/
def next (start : Nat) (cs : List Char) : Option (List Located × List Char) :=
  let found (rest : List Char) : Extent := ⟨start, start + (cs.length - rest.length)⟩
  let one (lexeme : Lexeme) (rest : List Char) := some ([(lexeme, found rest)], rest)
  let comment (result : List Char × List Char) : Option (List Located × List Char) :=
    some ([], result.2)
  let document (inner : Bool) (result : List Char × List Char) :=
    (documentation inner result.1 (found result.2)).map fun ls => (ls, result.2)
  match cs with
  | [] => none
  | '/' :: '/' :: '!' :: rest => document true (restOfLine rest)
  | '/' :: '/' :: '/' :: '/' :: rest => comment (restOfLine rest)
  | '/' :: '/' :: '/' :: rest => document false (restOfLine rest)
  | '/' :: '/' :: rest => comment (restOfLine rest)
  | '/' :: '*' :: '!' :: rest => (restOfComment 1 rest).bind (document true)
  | '/' :: '*' :: '*' :: '/' :: rest => some ([], rest)
  | '/' :: '*' :: '*' :: '*' :: rest => (restOfComment 1 ('*' :: '*' :: rest)).bind comment
  | '/' :: '*' :: '*' :: rest => (restOfComment 1 rest).bind (document false)
  | '/' :: '*' :: rest => (restOfComment 1 rest).bind comment
  | c :: rest =>
    if isBlank c then some ([], rest)
    else if placeholder.isPrefixOf cs then
      one (literal (String.ofList placeholder)) (cs.drop placeholder.length)
    else match c with
      | '(' => one (opening .parenthesis) rest
      | '[' => one (opening .bracket) rest
      | '{' => one (opening .brace) rest
      | ')' => one (closing .parenthesis) rest
      | ']' => one (closing .bracket) rest
      | '}' => one (closing .brace) rest
      | _ => (leaf? cs).bind fun (lexeme, rest) => one lexeme rest

/-- Repeats `next` up to the end of the text, at most `fuel` times. -/
def scan : (fuel start : Nat) → List Char → Option (List Located)
  | _, _, [] => some []
  | 0, _, _ => none
  | fuel + 1, start, cs => do
    let (found, rest) ← next start cs
    let more ← scan fuel (start + (cs.length - rest.length)) rest
    return found ++ more

/-- The lexemes of a text with their extents; `none` if it holds anything else or its delimiters
do not match. -/
def lex (cs : List Char) : Option (List Located) := do
  let found ← scan cs.length 0 cs
  if balanced [] (found.map Prod.fst) then some found else none

end Lexer

end TypedId
