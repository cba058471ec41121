import TypedId.JsonText.Cursor

/-!
Texts between quotes.

`quote` writes one, and `unquote` reads the characters after an opening quote up to the closing
one. The reader goes through the characters one by one; what it is in the middle of is its
`QuotedMode`. Escapes by number give a unit of UTF-16, and two of them make up a character past
`0xFFFF`.
-/

namespace TypedId.JsonText

/-- What a reader of a text is in the middle of. -/
inductive QuotedMode where
  /-- Between characters. -/
  | plain
  /-- After a backslash. -/
  | escaped
  /-- In the digits of an escape by number: the first half of a pair if this is the second, how
  many bytes are still missing, and the value so far unless a character was no digit. -/
  | digits (high : Option Nat) (missing : Nat) (value : Option Nat)
  /-- After the first half of a pair. -/
  | half (high : Nat)
  /-- After the first half of a pair and a backslash. -/
  | halfEscaped (high : Nat)
deriving DecidableEq, Repr

/-- What the next character does to a reader of a text. -/
inductive QuotedStep where
  /-- It is part of an escape. -/
  | more (mode : QuotedMode)
  /-- It completes a character of the text. -/
  | character (c : Char)
  /-- It is the closing quote. -/
  | close
  /-- It may not stand here. -/
  | refuse (failure : Failure)
deriving Repr

/-- The character of a letter after a backslash. -/
def escapedCharacter? (c : Char) : Option Char :=
  if c = '"' ∨ c = '\\' ∨ c = '/' then some c
  else if c = 'b' then some '\x08'
  else if c = 'f' then some '\x0c'
  else if c = 'n' then some '\n'
  else if c = 'r' then some '\r'
  else if c = 't' then some '\t'
  else none

/-- Whether a unit of UTF-16 is the first half of a pair. -/
def isHigh (n : Nat) : Bool := 0xD800 ≤ n && n ≤ 0xDBFF

/-- Whether a unit of UTF-16 is the second half of a pair. -/
def isLow (n : Nat) : Bool := 0xDC00 ≤ n && n ≤ 0xDFFF

/-- The end of an escape by number, `index` bytes from the start of the text. -/
def endOfDigits (high value : Option Nat) (index : Nat) : QuotedStep :=
  match value, high with
  | none, _ => .refuse ⟨.escape, index⟩
  | some n, none =>
    if isLow n then .refuse ⟨.loneSurrogate, index⟩
    else if isHigh n then .more (.half n)
    else .character (Char.ofNat n)
  | some n, some h =>
    if isLow n then .character (Char.ofNat ((h - 0xD800) * 0x400 + (n - 0xDC00) + 0x10000))
    else .refuse ⟨.loneSurrogate, index⟩

/-- What the next character does, `index` bytes from the start of the text. -/
def quotedStep (index : Nat) (mode : QuotedMode) (c : Char) : QuotedStep :=
  match mode with
  | .plain =>
    if c = '"' then .close
    else if c = '\\' then .more .escaped
    else if c.toNat < 32 then .refuse ⟨.control, index + 1⟩
    else .character c
  | .escaped =>
    match escapedCharacter? c with
    | some d => .character d
    | none => if c = 'u' then .more (.digits none 4 (some 0)) else .refuse ⟨.escape, index + 1⟩
  | .digits high missing value =>
    let value := value.bind fun v => (Text.hexValue? c).map (v * 16 + ·)
    if missing ≤ c.utf8Size then endOfDigits high value (index + missing)
    else .more (.digits high (missing - c.utf8Size) value)
  | .half high =>
    if c = '\\' then .more (.halfEscaped high) else .refuse ⟨.halfSurrogate, index + 1⟩
  | .halfEscaped high =>
    if c = 'u' then .more (.digits (some high) 4 (some 0))
    else .refuse ⟨.halfSurrogate, index + 1⟩

/-- Reads up to the closing quote. -/
def unquote (index : Nat) : QuotedMode → List Char → Except Failure (List Char × Cursor)
  | _, [] => .error ⟨.endOfText, index⟩
  | mode, c :: cs =>
    match quotedStep index mode c with
    | .more mode => unquote (index + c.utf8Size) mode cs
    | .character d => do
      let (text, after) ← unquote (index + c.utf8Size) .plain cs
      return (d :: text, after)
    | .close => .ok ([], ⟨index + 1, cs⟩)
    | .refuse failure => .error failure

/-- How a character is written between quotes. -/
def escape (c : Char) : List Char :=
  if c = '"' ∨ c = '\\' then ['\\', c]
  else if c = '\x08' then ['\\', 'b']
  else if c = '\x0c' then ['\\', 'f']
  else if c = '\n' then ['\\', 'n']
  else if c = '\r' then ['\\', 'r']
  else if c = '\t' then ['\\', 't']
  else if c.toNat < 32 then
    ['\\', 'u', '0', '0', Text.hexCharacter (c.toNat / 16), Text.hexCharacter (c.toNat % 16)]
  else [c]

/-- Writes a text between quotes. -/
def quote (text : String) : String :=
  String.ofList ('"' :: text.toList.flatMap escape ++ ['"'])

end TypedId.JsonText
