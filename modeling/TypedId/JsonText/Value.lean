import TypedId.JsonText.Number
import TypedId.JsonText.Quoted

/-!
Single values in JSON texts: texts, identifiers and whole numbers.

A value of another kind is read as well, so that the complaint can tell what was found; lists and
objects are only looked at.
-/

namespace TypedId.JsonText

/-- Reads a single value of any kind, or looks at the bracket of a list or an object. -/
def anything : Reader Found := fun c =>
  match c.rest with
  | 'n' :: cs => do
    let (_, c) ← word ['u', 'l', 'l'] ⟨c.index + 1, cs⟩
    return (.null, c)
  | 't' :: cs => do
    let (_, c) ← word ['r', 'u', 'e'] ⟨c.index + 1, cs⟩
    return (.boolean true, c)
  | 'f' :: cs => do
    let (_, c) ← word ['a', 'l', 's', 'e'] ⟨c.index + 1, cs⟩
    return (.boolean false, c)
  | '-' :: cs => do
    let (n, c) ← number true ⟨c.index + 1, cs⟩
    return (n.found, c)
  | '"' :: cs => do
    let (text, c) ← unquote (c.index + 1) .plain cs
    return (.text (String.ofList text), c)
  | '[' :: _ => .ok (.list, c)
  | '{' :: _ => .ok (.object, c)
  | d :: _ =>
    if Decimal.isDigit d then do
      let (n, c) ← number false c
      return (n.found, c)
    else c.failNext .noValue
  | [] => c.failNext .noValue

/-- Complains about the value in front. -/
def unwanted (wanted : Wanted) (c : Cursor) : Except Failure α := do
  let (found, c) ← anything c
  c.fail (.wrongKind found wanted)

/-- Reads a text. -/
def text (wanted : Wanted) : Reader String := fun c =>
  let c := c.skipBlanks
  match c.rest with
  | [] => c.fail .endOfValue
  | '"' :: cs => do
    let (characters, c) ← unquote (c.index + 1) .plain cs
    return (String.ofList characters, c)
  | _ => unwanted wanted c

/-- Reads an identifier. -/
def identifier : Reader Uuid := fun c => do
  let (s, c) ← text .identifier c
  match Uuid.read s with
  | .ok u => return (u, c)
  | .error reason => c.fail (.notIdentifier reason)

/-- Reads a whole number of sixty-four bits with a sign. -/
def integer : Reader Int := fun c => do
  let c := c.skipBlanks
  let negative := c.rest.head? == some '-'
  if c.rest.isEmpty then c.fail .endOfValue
  else if negative ∨ c.rest.head?.any Decimal.isDigit then
    let (n, c) ← number negative (if negative then ⟨c.index + 1, c.rest.drop 1⟩ else c)
    match n with
    | .whole i =>
      if i < (Nat.pow 2 63 : Nat) then return (i, c) else c.fail (.outOfRange n.found .integer)
    | .fraction _ => c.fail (.wrongKind n.found .integer)
  else unwanted .integer c

/-- Reads null or what a reader reads. -/
def optional (reader : Reader α) : Reader (Option α) := fun c =>
  let c := c.skipBlanks
  match c.rest with
  | 'n' :: cs => do
    let (_, c) ← word ['u', 'l', 'l'] ⟨c.index + 1, cs⟩
    return (none, c)
  | _ => do
    let (a, c) ← reader c
    return (some a, c)

end TypedId.JsonText
