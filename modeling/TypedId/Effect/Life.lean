import TypedId.Effect

/-!
The life of one computation.

A computation is created by a strategy, polled as often as its owner likes and dropped at some time
or never, while other things change the world around it. `Life.step` does one of this, and
`Life.run` all of it. `tallied` counts the calls of a thunk beside the state of the world, where the
thunk and everything else leave the count alone.
-/

namespace TypedId.Effect

variable {σ α : Type}

/-- Something that happens to a computation, or around it. -/
inductive Occurrence (σ : Type) where
  | poll
  | drop
  /-- Something else changes the world. -/
  | change (f : World σ → World σ)

/-- What an owner of a computation is told. There is no third answer to a poll. -/
inductive Answer (α : Type) where
  | ready (a : α)
  | panicked (cause : Panic)
  | dropped
  /-- There is nothing to tell, or no computation any more. -/
  | nothing
deriving DecidableEq, Repr

/-- The result of a poll as an answer. -/
def Answer.ofResult : Except Panic α → Answer α
  | .ok a => .ready a
  | .error cause => .panicked cause

/-- A computation, unless it was dropped, and the world around it. -/
structure Life (σ α : Type) where
  computation : Option (Computation σ α)
  world : World σ

namespace Life

/-- A computation that a strategy has just created, if the strategy creates one. -/
def start (strategy : Strategy) (pool : Bool) (thunk : Thunk σ α) (w : World σ) : Life σ α :=
  match suspend strategy pool thunk w with
  | (.ok (.pending c), w) => ⟨some c, w⟩
  | (_, w) => ⟨none, w⟩

/-- What an occurrence does, and what the owner is told. -/
def step (l : Life σ α) : Occurrence σ → Answer α × Life σ α
  | .poll =>
    match l.computation with
    | none => (.nothing, l)
    | some c =>
      let (result, c, w) := c.poll l.world
      (.ofResult result, ⟨some c, w⟩)
  | .drop => (if l.computation.isSome then .dropped else .nothing, ⟨none, l.world⟩)
  | .change f => (.nothing, { l with world := f l.world })

/-- The computation after some occurrences, the last of which is the first in the list. -/
def run (l : Life σ α) : List (Occurrence σ) → Life σ α
  | [] => l
  | o :: os => ((l.run os).step o).2

end Life

/-- A world with a count beside its state. -/
def World.withCount (w : World σ) (count : Nat) : World (σ × Nat) :=
  { w with state := (w.state, count) }

/-- A world without the count beside its state. -/
def World.withoutCount (w : World (σ × Nat)) : World σ :=
  { w with state := w.state.1 }

/-- A thunk whose calls are counted. -/
def tallied (thunk : Thunk σ α) : Thunk (σ × Nat) α := fun w =>
  let (a, w') := thunk w.withoutCount
  (a, w'.withCount (w.state.2 + 1))

/-- An occurrence that leaves the count as it is. -/
def Occurrence.beside : Occurrence σ → Occurrence (σ × Nat)
  | poll => .poll
  | drop => .drop
  | change f => .change fun w => (f w.withoutCount).withCount w.state.2

end TypedId.Effect
