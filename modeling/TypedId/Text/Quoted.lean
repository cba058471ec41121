import TypedId.Text.Hexadecimal
import TypedId.Text.Printable

/-!
Quoted literals: texts between quotes, with escapes.

`encode` writes a text so that every character of the result can be seen, and `Style.unquote` reads
the characters after an opening quote up to the closing one. The reader serves three kinds of
literals that differ in the escapes they admit, so it takes a `Style`; it goes through the
characters one by one, and what it is in the middle of is its `Mode`.
-/

namespace TypedId.Text

/-- The hexadecimal digits of a number below `16 ^ 6` without leading zeros. -/
def hexDigits (n : Nat) : List Char :=
  let all := [n / 0x100000 % 16, n / 0x10000 % 16, n / 0x1000 % 16, n / 0x100 % 16, n / 0x10 % 16]
  (all.dropWhile (· == 0)).map hexCharacter ++ [hexCharacter (n % 16)]

/-- How a character is written between quotes, given the one that follows it.

The null character is written with two digits before an octal digit, so that no reader takes the
two together for an octal escape. -/
def escape (c : Char) (next : Option Char) : List Char :=
  if c = '\x00' then
    if next.any fun d => '0' ≤ d && d ≤ '7' then ['\\', 'x', '0', '0'] else ['\\', '0']
  else if c = '\t' then ['\\', 't']
  else if c = '\r' then ['\\', 'r']
  else if c = '\n' then ['\\', 'n']
  else if c = '"' then ['\\', '"']
  else if c = '\\' then ['\\', '\\']
  else if isPrintable c then [c]
  else ['\\', 'u', '{'] ++ hexDigits c.toNat ++ ['}']

/-- The characters of a text as they stand between quotes. -/
def encode : List Char → List Char
  | [] => []
  | c :: cs => escape c cs.head? ++ encode cs

/-- A text between quotes. -/
def quote (text : String) : String :=
  String.ofList ('"' :: encode text.toList ++ ['"'])

/-- What a kind of quoted literal admits. -/
structure Style where
  /-- Whether characters past ASCII and their escapes are admitted. -/
  wide : Bool
  /-- Whether a two-digit escape may exceed 127. -/
  highBytes : Bool
  /-- Whether the null character is admitted. -/
  null : Bool

/-- Literals that denote text. -/
def Style.text : Style := ⟨true, false, true⟩
/-- Literals that denote bytes. -/
def Style.bytes : Style := ⟨false, true, true⟩
/-- Literals that denote text ended by a null byte. -/
def Style.nullEnded : Style := ⟨true, true, false⟩

/-- What a reader of a quoted literal is in the middle of. -/
inductive Mode where
  /-- Between characters. -/
  | plain
  /-- After a carriage return, which a line feed has to follow. -/
  | lineEnd
  /-- After a backslash. -/
  | escaped
  /-- Before the first digit of a two-digit escape. -/
  | firstDigit
  /-- Before the second digit, after the first. -/
  | secondDigit (first : Nat)
  /-- Before the opening brace of a braced escape. -/
  | brace
  /-- Within the braces, after some digits. -/
  | braced (value count : Nat)
  /-- In the blanks after a backslash at the end of a line, which do not count. -/
  | continued
  /-- There, after a carriage return. -/
  | continuedLineEnd
deriving DecidableEq, Repr

/-- What the next character does to a reader of a quoted literal. -/
inductive Step where
  /-- It is part of an escape or does not count. -/
  | more (mode : Mode)
  /-- It completes a character of the text. -/
  | character (c : Char)
  /-- It is the closing quote. -/
  | close
  /-- It may not stand here. -/
  | reject
deriving DecidableEq, Repr

/-- The text character of a number, where the style admits it. -/
def Style.admit (style : Style) (n : Nat) : Step :=
  if n = 0 ∧ ¬ style.null then .reject
  else if n < 0xD800 ∨ (0xE000 ≤ n ∧ n < 0x110000) then .character (Char.ofNat n)
  else .reject

/-- A character between characters. -/
def Style.plainStep (style : Style) (c : Char) : Step :=
  if c = '"' then .close
  else if c = '\r' then .more .lineEnd
  else if c = '\\' then .more .escaped
  else if ¬ style.wide ∧ 128 ≤ c.toNat then .reject
  else if c = '\x00' ∧ ¬ style.null then .reject
  else .character c

/-- The character after a backslash. -/
def Style.escapedStep (style : Style) (c : Char) : Step :=
  if c = 'n' then .character '\n'
  else if c = 'r' then .character '\r'
  else if c = 't' then .character '\t'
  else if c = '\\' ∨ c = '\'' ∨ c = '"' then .character c
  else if c = '0' then style.admit 0
  else if c = 'x' then .more .firstDigit
  else if c = 'u' ∧ style.wide then .more .brace
  else if c = '\n' then .more .continued
  else if c = '\r' then .more .continuedLineEnd
  else .reject

/-- A character within the braces of an escape: at most six digits, and underscores after the
first. -/
def Style.bracedStep (style : Style) (value count : Nat) (c : Char) : Step :=
  if 0 < count ∧ c = '_' then .more (.braced value count)
  else if 0 < count ∧ c = '}' then style.admit value
  else match hexValue? c with
    | some d => if count = 6 then .reject else .more (.braced (value * 16 + d) (count + 1))
    | none => .reject

/-- What the next character does. -/
def Style.step (style : Style) (mode : Mode) (c : Char) : Step :=
  match mode with
  | .plain => style.plainStep c
  | .lineEnd => if c = '\n' then .character '\n' else .reject
  | .escaped => style.escapedStep c
  | .firstDigit =>
    match hexValue? c with
    | some d => if 8 ≤ d ∧ ¬ style.highBytes then .reject else .more (.secondDigit d)
    | none => .reject
  | .secondDigit d =>
    match hexValue? c with
    | some e => style.admit (d * 16 + e)
    | none => .reject
  | .brace => if c = '{' then .more (.braced 0 0) else .reject
  | .braced value count => style.bracedStep value count c
  | .continued =>
    if c = ' ' ∨ c = '\t' ∨ c = '\n' then .more .continued
    else if c = '\r' then .more .continuedLineEnd
    else style.plainStep c
  | .continuedLineEnd => if c = '\n' then .more .continued else .reject

/-- Reads up to the closing quote: the text, and what follows the quote. -/
def Style.unquote (style : Style) : Mode → List Char → Option (List Char × List Char)
  | _, [] => none
  | mode, c :: cs =>
    match style.step mode c with
    | .more mode' => style.unquote mode' cs
    | .character d => (style.unquote .plain cs).map fun (text, rest) => (d :: text, rest)
    | .close => some ([], cs)
    | .reject => none

/-- Reads the rest of one escape: its character, and what follows. -/
def Style.unescape (style : Style) : Mode → List Char → Option (Char × List Char)
  | _, [] => none
  | mode, c :: cs =>
    match style.step mode c with
    | .more .continued | .more .continuedLineEnd => none
    | .more mode' => style.unescape mode' cs
    | .character d => some (d, cs)
    | .close => none
    | .reject => none

/-- Reads a raw literal after its opening quote: everything up to a quote that is followed by as
many hashes as stood before the opening one. -/
def Style.unquoteRaw (style : Style) (hashes : List Char) :
    List Char → Option (List Char × List Char)
  | [] => none
  | '\r' :: '\n' :: cs =>
    (style.unquoteRaw hashes cs).map fun (text, rest) => ('\r' :: '\n' :: text, rest)
  | c :: cs =>
    if c = '"' ∧ hashes.isPrefixOf cs then some ([], cs.drop hashes.length)
    else if c = '\r' then none
    else if ¬ style.wide ∧ 128 ≤ c.toNat then none
    else if c = '\x00' ∧ ¬ style.null then none
    else (style.unquoteRaw hashes cs).map fun (text, rest) => (c :: text, rest)

/-- The hashes before the opening quote of a raw literal, and what follows the quote. -/
def rawOpening (cs : List Char) : Option (List Char × List Char) :=
  let hashes := cs.takeWhile (· == '#')
  match cs.drop hashes.length with
  | '"' :: rest => if hashes.length ≤ 255 then some (hashes, rest) else none
  | _ => none

/-- Reads a text literal, quoted or raw: its text, and what follows the closing quote. -/
def textLiteral? : List Char → Option (List Char × List Char)
  | '"' :: cs => Style.text.unquote .plain cs
  | 'r' :: cs => do
    let (hashes, rest) ← rawOpening cs
    Style.text.unquoteRaw hashes rest
  | _ => none

/-- The text that a literal denotes; what follows the closing quote does not count. -/
def literalText? (literal : String) : Option String :=
  (textLiteral? literal.toList).map fun (text, _) => String.ofList text

end TypedId.Text
