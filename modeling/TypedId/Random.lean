import TypedId.Effect
import TypedId.Uuid.Reading

/-!
Identifiers that are drawn at random.

The draws come from a `Source`, which is a state that changes with each draw. A draw sets the
version and the variant of an identifier and leaves the other 122 bits to the source.
-/

namespace TypedId.Random

open Effect

/-- A source of random numbers: 128 bits and the state after each draw. -/
structure Source where
  state : Nat
deriving DecidableEq, Repr

/-- The source after a draw. All states below `2 ^ 128` follow each other in one cycle. -/
def Source.next (s : Source) : Source :=
  ⟨(s.state * 0x2360ED051FC65DA44385DF649FCCF645 + 0x5851F42D4C957F2D14057B7EF767814F) % Nat.pow 2 128⟩

/-- Draws an identifier. -/
def draw : Thunk Source Uuid := fun w =>
  let source := w.state.next
  (.ok (Uuid.randomised source.state), { w with state := source })

/-- Draws an identifier by a strategy: creates the computation and waits for its result. -/
def drawn (strategy : Strategy) : Thunk Source (Option Uuid) := fun w =>
  match suspend strategy true draw w with
  | (.ok (.pending c), w) => let (u, w) := wait c.finish w; (u.map some, w)
  | (.ok (.value u), w) => (.ok (some u), w)
  | (.ok (.counted u _), w) => (.ok (some u), w)
  | (.ok .nothing, w) => (.ok none, w)
  | (.error cause, w) => (.error cause, w)

/-- Draws several identifiers. -/
def several (strategy : Strategy) : Nat → World Source → List Uuid
  | 0, _ => []
  | n + 1, w =>
    match drawn strategy w with
    | (.ok (some u), w) => u :: several strategy n w
    | (_, w) => several strategy n w

/-- How variants are called. -/
def variantName (bits : Nat) : String :=
  if bits = 2 then "RFC4122" else if bits = 3 then "Microsoft" else "NCS"

/-- What is told of some identifiers. -/
structure Report where
  count : Nat
  distinct : Nat
  versions : List Nat
  variants : List String
  /-- Whether one of them has no bit set. -/
  nil : Bool
  /-- Whether each is read back from its text. -/
  roundTrips : Bool
  textLengths : List Nat
deriving DecidableEq, Repr

/-- Tells of some identifiers. -/
def report (us : List Uuid) : Report where
  count := us.length
  distinct := us.eraseDups.length
  versions := (us.map Uuid.version).eraseDups
  variants := (us.map fun u => variantName u.variantBits).eraseDups
  nil := us.contains Uuid.nil
  roundTrips := us.all fun u => (Uuid.read u.render).toOption == some u
  textLengths := (us.map fun u => u.render.utf8ByteSize).eraseDups

end TypedId.Random
