import TypedId.Grammar.Phrase

/-!
Rules: how a phrase is read.

A rule looks at the lexemes ahead, takes some of them and writes lexemes in their place, refers to
other phrases, or complains. It is data, so that whatever holds of every step of a rule can be
proved once for all rules; `Rule.run` gives it its meaning. A `Reader` is the state of that run.
-/

namespace TypedId.Grammar

open Lexeme

/-- Where a rule stands: how many lexemes are behind it, and which are ahead. -/
structure View where
  position : Nat
  rest : List Lexeme
deriving DecidableEq, Repr

/-- How to read something of which an `α` is remembered. -/
inductive Rule : Type → Type 1 where
  /-- Nothing is left to do. -/
  | done (a : α) : Rule α
  /-- One rule, and then another that depends on what is remembered. -/
  | andThen (rule : Rule α) (next : α → Rule β) : Rule β
  /-- The same, but a group of the first rule whose content goes on is noted behind those of the
  second rule. -/
  | defer (rule : Rule α) (next : α → Rule β) : Rule β
  /-- The text is at fault. -/
  | fail (fault : Fault) : Rule α
  /-- Looks at what is ahead. -/
  | look : Rule View
  /-- Takes lexemes and writes others in their place. -/
  | take (count : Nat) (written : List Lexeme) : Rule Unit
  /-- Reads a phrase. -/
  | call (phrase : Phrase) : Rule phrase.Result
  /-- Reads the content of a group. -/
  | within (delimiter : Delimiter) (rule : Rule α) : Rule α
  /-- Reads something, or nothing if that fails otherwise than by depth. -/
  | attempt (rule : Rule α) : Rule (Option α)
  /-- Reads something without writing it, and remembers what would be written. -/
  | hold (rule : Rule α) : Rule (α × List Lexeme)
  /-- Repeats a step until it gives a result. -/
  | repeating (step : σ → Rule (σ ⊕ α)) (start : σ) : Rule α

instance : Monad Rule where
  pure := .done
  bind := .andThen

/-- The state of a reader. -/
structure Reader extends View where
  /-- What is written so far, the last lexeme first. -/
  written : List Lexeme
  /-- The group noted first whose content went on behind what was read of it: where, and its kind. -/
  stray : Option (Stretch × Delimiter)
deriving Repr

namespace Reader

/-- A reader at the start of a text. -/
def ofLexemes (ls : List Lexeme) : Reader := ⟨⟨0, ls⟩, [], none⟩

/-- Takes lexemes and writes others in their place. -/
def take (r : Reader) (count : Nat) (written : List Lexeme) : Reader :=
  { r with
    position := r.position + count
    rest := r.rest.drop count
    written := written.reverse ++ r.written }

/-- Leaves a group behind its closing delimiter. -/
def leave (r : Reader) (delimiter : Delimiter) : Reader :=
  let stray :=
    if ends r.rest then none
    else
      let count := match r.rest with
        | opening _ :: inner => groupLength 0 inner
        | _ => 0
      some (⟨r.position, r.position + count⟩, delimiter)
  { r.take (groupLength 0 r.rest) [closing delimiter] with stray := r.stray.or stray }

end Reader

/-- A fault at the next lexeme. -/
def View.fault (v : View) (complaint : Complaint) : Fault :=
  ⟨.single v.position, complaint, complaint.announcesEnd && ends v.rest⟩

/-- What comes of reading. -/
abbrev Outcome (α : Type) := Except Fault (α × Reader)

/-- How phrases are read. -/
abbrev PhraseReader := (phrase : Phrase) → Reader → Outcome phrase.Result

/-- Repeats a step, at most `bound` times. -/
def iterate (step : σ → Reader → Outcome (σ ⊕ α)) : Nat → σ → Reader → Outcome α
  | 0, _, r => .error (r.fault .tooDeep)
  | bound + 1, s, r =>
    match step s r with
    | .ok (.inl s, r) => iterate step bound s r
    | .ok (.inr a, r) => .ok (a, r)
    | .error fault => .error fault

/-- Reads by a rule, given how phrases are read. A step is repeated at most once for each lexeme
ahead and once more. -/
def Rule.run (grammar : PhraseReader) : Rule α → Reader → Outcome α
  | done a, r => .ok (a, r)
  | andThen rule next, r =>
    match rule.run grammar r with
    | .ok (a, r) => (next a).run grammar r
    | .error fault => .error fault
  | defer rule next, r =>
    match rule.run grammar r with
    | .ok (a, r') =>
      match (next a).run grammar { r' with stray := r.stray } with
      | .ok (b, r'') => .ok (b, { r'' with stray := r''.stray.or r'.stray })
      | .error fault => .error fault
    | .error fault => .error fault
  | fail fault, _ => .error fault
  | look, r => .ok (r.toView, r)
  | take count written, r => .ok ((), r.take count written)
  | call phrase, r => grammar phrase r
  | within d rule, r =>
    if seesGroup d r.rest then
      match rule.run grammar (r.take 1 [opening d]) with
      | .ok (a, r) => .ok (a, r.leave d)
      | .error fault => .error fault
    else .error (r.fault (.group d))
  | attempt rule, r =>
    match rule.run grammar r with
    | .ok (a, r) => .ok (some a, r)
    | .error fault => if fault.complaint = .tooDeep then .error fault else .ok (none, r)
  | hold rule, r =>
    match rule.run grammar { r with written := [] } with
    | .ok (a, r') => .ok ((a, r'.written.reverse), { r' with written := r.written })
    | .error fault => .error fault
  | repeating step start, r =>
    iterate (fun s => (step s).run grammar) (r.rest.length + 1) start r

namespace Rule

/-! ### Looking ahead -/

/-- The lexemes ahead. -/
def ahead : Rule (List Lexeme) := do
  return (← look).rest

/-- How many lexemes are behind. -/
def here : Rule Nat := do
  return (← look).position

/-- Complains of the next lexeme. -/
def complain (complaint : Complaint) : Rule α := do
  fail ((← look).fault complaint)

/-- Complains that none of several things comes next. -/
def expected (things : List Expectation) : Rule α := do
  let ls ← ahead
  complain (.oneOf (things.filter fun e => !e.met ls))

/-! ### Taking lexemes -/

/-- Writes lexemes and takes none. -/
def write (written : List Lexeme) : Rule Unit := take 0 written

/-- Takes lexemes and writes them as they are. -/
def copy (count : Nat) : Rule Unit := do
  take count ((← ahead).take count)

/-- Takes an operator. -/
def operator (text : String) : Rule Unit := do
  if sees text (← ahead) then take text.length (Lexeme.operator text.toList)
  else complain (.operator text)

/-- Takes an operator if it comes next. -/
def operator? (text : String) : Rule Bool := do
  if sees text (← ahead) then operator text; return true
  else return false

/-- Takes a keyword. -/
def keyword (w : String) : Rule Unit := do
  if seesWord w (← ahead) then copy 1 else complain (.keyword w)

/-- Takes a keyword if it comes next. -/
def keyword? (w : String) : Rule Bool := do
  if seesWord w (← ahead) then keyword w; return true
  else return false

/-- Takes any word. -/
def anyWord : Rule Name := do
  let v ← look
  match v.rest with
  | word w :: _ => copy 1; return ⟨w, v.position⟩
  | _ => complain .identifier

/-- Takes an identifier. -/
def identifier : Rule Name := do
  match ← ahead with
  | word w :: _ => if isIdentifier w then anyWord else complain (.reserved w)
  | _ => complain .identifier

/-- Takes an identifier or one of the given keywords. -/
def identifierOr (keywords : List String) : Rule Name := do
  match ← ahead with
  | word w :: _ => if keywords.contains w then anyWord else identifier
  | _ => identifier

/-- Takes a lifetime, and tells the position of its word. -/
def lifetime : Rule Nat := do
  let v ← look
  match v.rest with
  | punct '\'' true :: word w :: _ => take 2 (Lexeme.lifetime w); return v.position + 1
  | _ => complain .lifetime

/-- Takes a lifetime if it comes next. -/
def lifetime? : Rule Bool := do
  if seesLifetime (← ahead) then let _ ← lifetime; return true
  else return false

/-- Takes a literal. A minus before a number is written on its own. -/
def literal : Rule Unit := do
  let ls ← ahead
  match ls with
  | punct _ _ :: l :: _ =>
    if seesLiteral ls then take 2 [punct '-' false, l] else complain .literal
  | _ => if seesLiteral ls then copy 1 else complain .literal

/-- Takes a group with all its content as it is, and tells its delimiter. -/
def anyGroup : Rule Delimiter := do
  match ← ahead with
  | opening d :: rest => copy (groupLength 0 rest + 1); return d
  | _ => complain .anyGroup

/-- Takes a group with a certain delimiter and all its content as it is. -/
def group (d : Delimiter) : Rule Unit := do
  if seesGroup d (← ahead) then let _ ← anyGroup
  else complain (.group d)

/-! ### Repetition -/

/-- Repeats a rule for as long as it is wanted, and remembers all results. -/
def while_ (wanted : List Lexeme → Bool) (rule : Rule α) : Rule (List α) :=
  repeating (fun soFar : List α => do
    if wanted (← ahead) then return .inl ((← rule) :: soFar)
    else return .inr soFar.reverse) []

/-- Reads things with separators between them up to a place that ends the list. The last one may
be followed by a separator. Remembers each thing, and whether a separator follows it. -/
def separated (separator : Rule Unit) (stop : List Lexeme → Bool) (rule : Rule α) :
    Rule (List (α × Bool)) :=
  repeating (fun soFar : List (α × Bool) => do
    if stop (← ahead) then return .inr soFar.reverse
    else
      let a ← rule
      if stop (← ahead) then return .inr ((a, false) :: soFar).reverse
      else
        separator
        return .inl ((a, true) :: soFar)) []

/-- Reads things with separators between them. A thing that no separator follows is the last; so is
one that is followed by a separator and a place that ends the list. -/
def joined (separator : String) (stop : List Lexeme → Bool) (rule : Rule α) : Rule (List α) :=
  repeating (fun soFar : List α => do
    if stop (← ahead) then return .inr soFar.reverse
    else
      let a ← rule
      if ← operator? separator then return .inl (a :: soFar)
      else return .inr (a :: soFar).reverse) []

/-- Reads the rest of a group as things with commas between them. -/
def commaList (rule : Rule α) : Rule (List (α × Bool)) := separated (operator ",") ends rule

/-! ### Source spelling -/

/-- Writes what was taken since an earlier view in its source spelling. -/
def writeSince (start : View) : Rule Unit := do
  write (start.rest.take ((← here) - start.position))

/-- Reads something and writes it in its source spelling. -/
def kept (rule : Rule α) : Rule α := do
  let start ← look
  let (a, _) ← hold rule
  writeSince start
  return a

/-- Reads something and writes it in its source spelling if that is wanted. -/
def keptIf (wanted : α → Bool) (rule : Rule α) : Rule α := do
  let start ← look
  let (a, text) ← hold rule
  if wanted a then writeSince start else write text
  return a

end Rule

end TypedId.Grammar
