import TypedId.Grammar.Generics

/-!
Types and their bounds.
-/

namespace TypedId.Grammar.Rule

open Lexeme

/-! ### Bounds -/

/-- Reads the `const` before a bound, which may be left out; tells whether it was there. -/
def constMark (constant : Bool) : Rule Bool := do
  let start ← here
  let ls ← ahead
  if seesGroup .bracket ls then
    within .bracket (keyword "const")
    unless constant do fail ⟨⟨start, (← here) - 1⟩, .conditionalBound, false⟩
    return true
  else if seesWord "const" ls then
    keyword "const"
    unless constant do fail ⟨.single start, .constBound, false⟩
    return true
  else return false

/-- Reads the arguments in parentheses behind a path that may have some. The `::` before them is
not written. -/
def traitArguments (shape : PathShape) : Rule Unit := do
  let ls ← ahead
  let behindColons := sees "::" ls && seesGroup .parenthesis (third ls)
  if shape.bareEnd && (seesGroup .parenthesis ls || behindColons) then
    if behindColons then take 2 []
    parenthesizedArguments

/-- Reads a bound by a trait. -/
def traitBound (constant : Bool) : Rule BoundShape := do
  let bound ← binder?
  let marked ← constMark constant
  let mark ← here
  let optional ← operator? "?"
  let bound ← if optional && !bound then binder? else pure bound
  traitArguments (← path false)
  if bound && optional then fail ⟨.single mark, .binderOnOptionalBound, false⟩
  return if marked then .kept else .traitBound

/-- Reads a bound. -/
def bound (captures constant : Bool) : Rule BoundShape := do
  let ls ← ahead
  if seesLifetime ls then return .lifetime (← lifetime)
  else if seesWord "use" ls then
    let start ← here
    let stop ← captureList
    unless captures do fail ⟨⟨start, stop⟩, .captures, false⟩
    return .captures stop
  else keptIf (· == .kept) do
    if seesGroup .parenthesis ls then within .parenthesis (traitBound constant)
    else traitBound constant

/-- Whether a bound of a type may come next. -/
def seesBound (constant : Bool) (ls : List Lexeme) : Bool :=
  seesAnyWord ls || sees "::" ls || sees "?" ls || seesLifetime ls || seesGroup .parenthesis ls ||
    (constant && (seesGroup .bracket ls || seesWord "const" ls))

/-- Reads further bounds of a type; a plus at the end is admitted. -/
def furtherBounds (captures constant : Bool) : Rule (List BoundShape) :=
  repeating (fun soFar : List BoundShape => do
    if ← operator? "+" then
      if seesBound constant (← ahead) then
        return .inl ((← call (.bound captures constant)) :: soFar)
      else return .inr soFar.reverse
    else return .inr soFar.reverse) []

/-- Reads the bounds of a type; `plus` if there may be several. -/
def bounds (plus captures constant : Bool) : Rule (List BoundShape) := do
  let first ← call (.bound captures constant)
  let more ← if plus then furtherBounds captures constant else pure []
  return first :: more

/-- Reads bounds that follow a first one, each behind a plus. -/
def addedBounds : Rule Unit := do
  let _ ← while_ (sees "+") do
    operator "+"
    call (.bound false false)

/-- The position of the last lifetime or list of captured parameters among bounds that hold no
trait. -/
def traitlessEnd (found : List BoundShape) : Option Nat :=
  if found.any fun b => b == .traitBound || b == .kept then none
  else found.getLast?.bind fun b =>
    match b with
    | .lifetime position | .captures position => some position
    | _ => none

/-- Reads the bounds of a type that needs a trait among them. -/
def boundsWithTrait (start : Nat) (complaint : Complaint) (plus captures constant : Bool) :
    Rule (List BoundShape) := do
  let found ← bounds plus captures constant
  match traitlessEnd found with
  | some stop => fail ⟨⟨start, stop⟩, complaint, false⟩
  | none => return found

/-- Reads the bounds of a trait object. -/
def objectBounds (start : Nat) (plus : Bool) : Rule TypeShape := do
  let found ← boundsWithTrait start .noTraitInObject plus false false
  return .bounds false (found.length == 1)

/-! ### Kinds of types -/

/-- Whether bounds may be added to a type that stands in parentheses. -/
def TypeShape.takesBounds : TypeShape → Bool
  | .path shape => !shape.qualified
  | .bounds marked single => !marked && single
  | .other => false

/-- What stands between the parentheses of a type. -/
inductive ParenthesizedType where
  | done
  | optionalBound
  | single (shape : TypeShape)

/-- Reads what stands between the parentheses of a type. -/
def parenthesizedContent : Rule ParenthesizedType := do
  let ls ← ahead
  if ends ls then return .done
  else if seesLifetime ls then
    let _ ← objectBounds (← here) true
    return .done
  else if sees "?" ls then
    let _ ← traitBound false
    return .optionalBound
  else
    let shape ← call (.type true)
    if sees "," (← ahead) then
      operator ","
      let _ ← commaList (call (.type true))
      return .done
    else return .single shape

/-- Reads a type in parentheses: a tuple, a bound or another type. The parentheses stay open while
bounds are added. -/
def parenthesizedType (plus : Bool) : Rule TypeShape :=
  defer (within .parenthesis parenthesizedContent) fun
    | .done => return .other
    | .optionalBound => do
      let several := sees "+" (← ahead)
      addedBounds
      return .bounds false !several
    | .single shape => do
      if plus && sees "+" (← ahead) && TypeShape.takesBounds shape then
        addedBounds
        return .bounds false false
      else return .other

/-- Reads the name of a calling convention, which may be left out, behind `extern`. -/
def convention : Rule Unit := do
  keyword "extern"
  if seesText (← ahead) then literal

/-- Reads a calling convention, which may be left out. -/
def convention? : Rule Unit := do
  if seesWord "extern" (← ahead) then convention

/-- Whether three dots come next, with a name before them or not. -/
def seesVariadic (ls : List Lexeme) : Bool :=
  sees "..." ls ||
    ((seesIdentifier ls || seesWord "_" ls) && sees ":" (second ls) && sees "..." (third ls))

/-- Reads a name and the colon behind it. -/
def nameAndColon : Rule Unit := do
  let _ ← anyWord
  operator ":"

/-- Reads a parameter in the type of a function; `first` if it may be the receiver of a method. -/
def functionTypeParameter (first : Bool) : Rule Unit := do
  let _ ← keptIf id do
    let ls ← ahead
    if first && seesWord "mut" ls && seesWord "self" (second ls) then
      keyword "mut"
      if seesColon (second (← ahead)) then
        nameAndColon
        let _ ← call (.type true)
      else keyword "self"
      return true
    else
      let named := seesIdentifier ls || seesWord "_" ls || (first && seesWord "self" ls)
      if named && seesColon (second ls) then
        let receiver := seesWord "self" ls
        nameAndColon
        let ls ← ahead
        if first && !receiver && seesWord "mut" ls && seesWord "self" (second ls) then
          copy 2
          return true
        else
          let _ ← call (.type true)
          return false
      else
        let _ ← call (.type true)
        return false
  return ()

/-- Reads the parameters in the type of a function. -/
def functionTypeParameters : Rule Unit :=
  repeating (fun first : Bool => do
    if ends (← ahead) then return .inr ()
    else
      let _ ← outerAttributes
      let ls ← ahead
      if seesVariadic ls then
        unless sees "..." ls do nameAndColon
        operator "..."
        let _ ← operator? ","
        return .inr ()
      else
        functionTypeParameter first
        if ends (← ahead) then return .inr ()
        else
          operator ","
          return .inl false) true

/-- Reads the type of a function. -/
def functionType : Rule Unit := do
  let _ ← keyword? "unsafe"
  convention?
  keyword "fn"
  defer (within .parenthesis functionTypeParameters) fun _ => returnType false

/-- Reads a type that begins with a path. -/
def pathType (bound plus : Bool) : Rule TypeShape := do
  let shape ← qualifiedPath false
  if shape.qualified then return .path shape
  else
    let ls ← ahead
    if seesBang ls && shape.plain then
      let _ ← macroArguments
      return .other
    else if plus && sees "+" ls then
      let _ ← furtherBounds false false
      return .bounds false false
    else if bound then return .bounds false true
    else return .path shape

/-- Reads a type in brackets. -/
def bracketedType : Rule Unit :=
  within .bracket do
    let _ ← call (.type true)
    if ← operator? ";" then let _ ← call (.expression true)

/-- Reads the type of a raw pointer. -/
def pointerType : Rule Unit := do
  operator "*"
  let ls ← ahead
  if seesWord "const" ls || seesWord "mut" ls then copy 1
  else expected [.keyword "const", .keyword "mut"]
  let _ ← call (.type false)

/-- Reads the type of a reference. -/
def referenceType : Rule Unit := do
  operator "&"
  let _ ← lifetime?
  let _ ← keyword? "mut"
  let _ ← call (.type false)

/-- Reads a type marked as a trait object. -/
def objectType (plus : Bool) : Rule Unit := do
  let _ ← keptIf id do
    let start ← here
    keyword "dyn"
    let thin ← operator? "*"
    let _ ← objectBounds start plus
    return thin
  return ()

/-- Reads a type of which only the bounds are known. -/
def implType (plus : Bool) : Rule Unit := do
  let start ← here
  keyword "impl"
  let _ ← boundsWithTrait start .noTrait plus true true

/-- Whether a path comes next. -/
def seesPath (ls : List Lexeme) : Bool :=
  seesPathWord ls || sees "::" ls || sees "<" ls

/-- What a type may begin with. -/
def typeBeginnings : List Expectation :=
  [.keyword "for", .group .parenthesis, .keyword "fn", .keyword "unsafe", .keyword "extern",
    .identifier, .operator "::", .operator "<", .keyword "dyn", .group .bracket, .operator "*",
    .operator "&", .operator "!", .keyword "impl", .keyword "_", .lifetime]

/-- What a type may go on with that is general in some parameters. -/
def boundTypeBeginnings : List Expectation :=
  [.identifier, .keyword "fn", .keyword "unsafe", .keyword "extern", .keyword "super",
    .keyword "self", .keyword "Self", .keyword "crate"]

/-- Reads a type. -/
def type (plus : Bool) : Rule TypeShape := do
  let bound ← binder?
  let ls ← ahead
  let function := ["fn", "unsafe", "extern"].any fun w => seesWord w ls
  if bound && !(seesPathWord ls || function) then expected boundTypeBeginnings
  else if seesGroup .parenthesis ls then parenthesizedType plus
  else if function then functionType; return .other
  else if seesPath ls then pathType bound plus
  else if seesWord "dyn" ls then objectType plus; return .bounds true true
  else if seesGroup .bracket ls then bracketedType; return .other
  else if sees "*" ls then pointerType; return .other
  else if sees "&" ls then referenceType; return .other
  else if sees "!" ls && !sees "=" ls then operator "!"; return .other
  else if seesWord "impl" ls then implType plus; return .other
  else if seesWord "_" ls then keyword "_"; return .other
  else if seesLifetime ls then objectBounds (← here) true
  else expected typeBeginnings

end TypedId.Grammar.Rule
