import TypedId.Uuid

/-!
Reading identifiers from text.

Four spellings are accepted, with hexadecimal digits in either case: thirty-two digits; the digits
in hyphenated groups; the hyphenated form in braces; and the hyphenated form after `urn:uuid:`.
Everything else is refused with a reason. Reasons count in UTF-8 bytes, since the reader looks at
bytes: `Uuid.read` decides, and `Uuid.diagnose` says what was wrong with a text that was refused.
-/

namespace TypedId.Uuid

/-- Why a text is not an identifier. Lengths and positions are in UTF-8 bytes. -/
inductive Reason where
  /-- The text has a length that no spelling has. -/
  | length (found : Nat)
  /-- A character is neither a hexadecimal digit nor a hyphen. -/
  | character (found : Char) (index : Nat)
  /-- The number of hyphenated groups is not five. -/
  | groupCount (found : Nat)
  /-- A hyphenated group has the wrong length. -/
  | groupLength (group expected found : Nat)
deriving DecidableEq, Repr

/-- The sentence that explains a reason. -/
def Reason.message : Reason → String
  | .length found => s!"invalid length: found {found}"
  | .character found index => s!"invalid character: found `{found}` at {index}"
  | .groupCount found => s!"invalid group count: expected 5, found {found}"
  | .groupLength group expected found =>
    s!"invalid group length in group {group}: expected {expected}, found {found}"

/-- Reads hyphenated groups of hexadecimal digits of exactly the given lengths. -/
def readGroups : List Nat → List Char → Option (List Nat)
  | [], cs => if cs.isEmpty then some [] else none
  | [n], cs => if cs.length = n then cs.mapM Text.hexValue? else none
  | n :: ns, cs => do
    let ds ← (cs.take n).mapM Text.hexValue?
    match cs.drop n with
    | '-' :: rest => return ds ++ (← readGroups ns rest)
    | _ => none

/-- The number of UTF-8 bytes of a text. -/
def byteLength : List Char → Nat
  | [] => 0
  | c :: cs => c.utf8Size + byteLength cs

/-- The characters of `urn:uuid:`. -/
def urnPrefix : List Char := ['u', 'r', 'n', ':', 'u', 'u', 'i', 'd', ':']

/-- Whether a text begins with `urn:uuid:` in any mixture of cases. -/
def hasUrnPrefix (cs : List Char) : Bool :=
  (cs.take 9).map Char.toLower == urnPrefix

/-- Whether a text begins with an opening and ends with a closing brace. -/
def isBraced (cs : List Char) : Bool :=
  2 ≤ cs.length && cs.head? == some '{' && cs.getLast? == some '}'

/-- The text between the first and the last character. -/
def inner (cs : List Char) : List Char :=
  (cs.drop 1).dropLast

/-- Which spelling a refused text is measured against. -/
inductive Spelling where
  /-- Only the hyphenated one. -/
  | hyphenated
  /-- Whichever its outer characters suggest. -/
  | any
deriving DecidableEq, Repr

/-- A text taken apart by its length: what to read in it, and what to explain if that fails. -/
structure Attempt where
  /-- The digits, if the text is an identifier. -/
  digits : Option (List Nat)
  /-- The part of the text that an explanation speaks of. -/
  blamed : List Char
  /-- The spelling that the part is measured against. -/
  spelling : Spelling

/-- The length of a text decides in which spelling it is read. -/
def attempt (cs : List Char) : Attempt :=
  let size := byteLength cs
  if size = 32 then ⟨readGroups [32] cs, cs, .any⟩
  else if size = 36 then ⟨readGroups groupLengths cs, cs, .hyphenated⟩
  else if size = 38 && isBraced cs then
    ⟨readGroups groupLengths (inner cs), inner cs, .hyphenated⟩
  else if size = 45 && hasUrnPrefix cs then
    ⟨readGroups groupLengths (cs.drop 9), cs.drop 9, .hyphenated⟩
  else ⟨none, cs, .any⟩

/-- What a scan over a refused text found. -/
structure Scan where
  /-- The first character that is neither a digit nor a hyphen, with its byte position. -/
  stray : Option (Char × Nat)
  /-- The byte positions of the hyphens before it. -/
  hyphens : List Nat

/-- Scans for hyphens and for the first foreign character, counting bytes from `at`. -/
def scan (position : Nat) : List Char → Scan
  | [] => ⟨none, []⟩
  | c :: cs =>
    if c = '-' then
      let rest := scan (position + 1) cs
      { rest with hyphens := position :: rest.hyphens }
    else if (Text.hexValue? c).isSome then scan (position + 1) cs
    else ⟨some (c, position), []⟩

/-- The first group whose closing hyphen is misplaced, else the last group. -/
def blameGroup (size : Nat) : List (Nat × Nat × Nat) → List Nat → Reason
  | (group, start, expected) :: groups, hyphen :: hyphens =>
    if hyphen = start + expected then blameGroup size groups hyphens
    else .groupLength group expected (hyphen - start)
  | _, _ => .groupLength 4 12 (size - 24)

/-- Explains why a text is refused.

A foreign character is blamed first; then the number of groups, if hyphens, braces or the prefix
show that the hyphenated spelling was meant; then the first group of a wrong length. -/
def diagnose (cs : List Char) (spelling : Spelling) : Reason :=
  let size := byteLength cs
  if size = 0 ∨ 45 < size then .length size
  else
    let braced := spelling = .any ∧ isBraced cs
    let urn := spelling = .any ∧ hasUrnPrefix cs
    let (offset, body) :=
      if braced then (1, inner cs) else if urn then (9, cs.drop 9) else (0, cs)
    let found := scan 0 body
    match found.stray with
    | some (c, index) => .character c (offset + index)
    | none =>
      if spelling = .any ∧ ¬ braced ∧ ¬ urn ∧ found.hyphens.isEmpty then .length size
      else if found.hyphens.length ≠ 4 then .groupCount (found.hyphens.length + 1)
      else blameGroup size [(0, 0, 8), (1, 9, 4), (2, 14, 4), (3, 19, 4)] found.hyphens

/-- Reads an identifier, or says why the text is none. -/
def read (text : String) : Except Reason Uuid :=
  let attempted := attempt text.toList
  match attempted.digits with
  | some ds => .ok (ofNat (Positional.value 16 ds))
  | none => .error (diagnose attempted.blamed attempted.spelling)

end TypedId.Uuid
