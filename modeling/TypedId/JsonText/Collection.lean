import TypedId.JsonText.Value

/-!
Lists, pairs and objects in JSON texts.

The keys of objects are identifiers. A key that is no identifier is noticed at once, and is blamed
on the place that is reached by looking for the end of the object.
-/

namespace TypedId.JsonText

/-- Takes an opening bracket. -/
def opening (bracket : Char) (wanted : Wanted) (c : Cursor) : Except Failure Cursor :=
  let c := c.skipBlanks
  match c.rest with
  | [] => c.fail .endOfValue
  | d :: ds => if d = bracket then .ok ⟨c.index + 1, ds⟩ else unwanted wanted c

/-- Looks for another element, taking the comma before it unless it is the first one. -/
def another (first : Bool) : Reader Bool := fun c =>
  let c := c.skipBlanks
  match c.rest with
  | [] => c.fail .endOfList
  | ']' :: _ => .ok (false, c)
  | ',' :: cs =>
    if first then .ok (true, c)
    else
      let c := (⟨c.index + 1, cs⟩ : Cursor).skipBlanks
      match c.rest with
      | [] => c.fail .endOfValue
      | ']' :: _ => c.failNext .trailingComma
      | _ => .ok (true, c)
  | _ => if first then .ok (true, c) else c.failNext .noListEnd

/-- Takes the closing bracket of a list. -/
def closing (c : Cursor) : Except Failure Cursor :=
  let c := c.skipBlanks
  match c.rest with
  | [] => c.fail .endOfList
  | ']' :: cs => .ok ⟨c.index + 1, cs⟩
  | ',' :: cs =>
    let c := (⟨c.index + 1, cs⟩ : Cursor).skipBlanks
    c.failNext (if c.rest.head? = some ']' then .trailingComma else .trailing)
  | _ => c.failNext .trailing

/-- Reads the elements of a list, at most as many as `fuel` tells. -/
def elements (reader : Reader α) : Nat → Bool → Reader (List α)
  | 0, _, c => .ok ([], c)
  | fuel + 1, first, c => do
    let (more, c) ← another first c
    if more then
      let (a, c) ← reader c
      let (as, c) ← elements reader fuel false c
      return (a :: as, c)
    else return ([], c)

/-- Reads a list. Each element takes a character, so there are not more elements than characters. -/
def list (reader : Reader α) : Reader (List α) := fun c => do
  let c ← opening '[' .list c
  let (as, c) ← elements reader (c.rest.length + 1) true c
  return (as, ← closing c)

/-- Reads a list of two elements. -/
def pair (first : Reader α) (second : Reader β) : Reader (α × β) := fun c => do
  let c ← opening '[' .pair c
  let (more, c) ← another true c
  if ¬ more then (← closing c).fail (.wrongLength 0 .pair)
  else
    let (a, c) ← first c
    let (more, c) ← another false c
    if ¬ more then (← closing c).fail (.wrongLength 1 .pair)
    else
      let (b, c) ← second c
      return ((a, b), ← closing c)

/-- Looks for another key, taking the comma before it unless it is the first one. -/
def anotherKey (first : Bool) : Reader Bool := fun c =>
  let c := c.skipBlanks
  match c.rest with
  | [] => c.fail .endOfObject
  | '}' :: _ => .ok (false, c)
  | '"' :: _ => if first then .ok (true, c) else c.failNext .noObjectEnd
  | ',' :: cs =>
    if first then c.failNext .keyNotText
    else
      let c := (⟨c.index + 1, cs⟩ : Cursor).skipBlanks
      match c.rest with
      | [] => c.fail .endOfValue
      | '"' :: _ => .ok (true, c)
      | '}' :: _ => c.failNext .trailingComma
      | _ => c.failNext .keyNotText
  | _ => c.failNext (if first then .keyNotText else .noObjectEnd)

/-- Where a key that is no identifier is blamed: after the end of the object if that follows, else
before what follows. -/
def afterKey (c : Cursor) : Cursor :=
  let c := c.skipBlanks
  match c.rest with
  | '}' :: cs => ⟨c.index + 1, cs⟩
  | _ => c

/-- Reads a key. -/
def key : Reader Uuid := fun c => do
  let (s, c) ← text .identifier c
  match Uuid.read s with
  | .ok u => return (u, c)
  | .error reason => (afterKey c).fail (.notIdentifier reason)

/-- Takes the colon after a key. -/
def colon (c : Cursor) : Except Failure Cursor :=
  let c := c.skipBlanks
  match c.rest with
  | [] => c.fail .endOfObject
  | ':' :: cs => .ok ⟨c.index + 1, cs⟩
  | _ => c.failNext .noColon

/-- Reads the entries of an object, at most as many as `fuel` tells. -/
def entries (reader : Reader α) : Nat → Bool → Reader (List (Uuid × α))
  | 0, _, c => .ok ([], c)
  | fuel + 1, first, c => do
    let (more, c) ← anotherKey first c
    if more then
      let (u, c) ← key c
      let (a, c) ← reader (← colon c)
      let (rest, c) ← entries reader fuel false c
      return ((u, a) :: rest, c)
    else return ([], c)

/-- Reads an object whose keys are identifiers. -/
def object (reader : Reader α) : Reader (List (Uuid × α)) := fun c => do
  let c ← opening '{' .object c
  let (as, c) ← entries reader (c.rest.length + 1) true c
  return (as, afterKey c)

/-- Writes a list of values that are written already. -/
def writeList (values : List String) : String :=
  "[" ++ ",".intercalate values ++ "]"

/-- Writes an object of values that are written already. -/
def writeObject (values : List (String × String)) : String :=
  "\x7b" ++ ",".intercalate (values.map fun (k, v) => quote k ++ ":" ++ v) ++ "\x7d"

end TypedId.JsonText
