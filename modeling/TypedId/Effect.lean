/-!
Ways to run a computation.

A `Strategy` decides when a computation runs: when it is created, when its result is first asked
for, on a pool of threads of its own, or never. Where the result is not there at once, a
`Computation` stands for it, which can be polled. `suspend` and `Computation.poll` run a
computation on a `World`, whose state it may change.
-/

namespace TypedId.Effect

/-- What is traced of a run. -/
inductive Event where
  | runningHere
  | spawning
deriving DecidableEq, Repr

/-- The line that is traced. -/
def Event.line : Event → String
  | runningHere => "TRACE running id computation on the current thread"
  | spawning => "TRACE spawning id computation on the blocking pool"

/-- The kinds of computations that can be polled. -/
inductive Kind where
  | deferred
  | boxed
  | spawned
deriving DecidableEq, Repr

/-- Why a computation breaks off. -/
inductive Panic where
  /-- The computation fails by itself, in its given call. -/
  | failed (call : Nat)
  /-- It waits for a result while another wait is going on. -/
  | nestedWait
  /-- It was polled although its result had been given. -/
  | completed (kind : Kind)
  /-- There is no pool of threads. -/
  | noPool
deriving DecidableEq, Repr

/-- The sentence for a panic. -/
def Panic.message : Panic → String
  | failed call => s!"thunk failed on call {call}"
  | nestedWait => "cannot execute `LocalPool` executor from within another executor: EnterError"
  | completed .deferred => "`Suspended` polled after completion"
  | completed .boxed => "Lazy polled after completion"
  | completed .spawned => "JoinHandle polled after completion"
  | noPool =>
    "there is no reactor running, must be called from the context of a Tokio 1.x runtime"

/-- What computations run on. -/
structure World (σ : Type) where
  state : σ
  /-- What was traced, the first event first. -/
  events : List Event
  /-- Whether a wait for a result is going on. -/
  waiting : Bool
deriving Repr

/-- Traces an event. -/
def World.trace (w : World σ) (event : Event) : World σ :=
  { w with events := w.events ++ [event] }

/-- A computation that has not been run. -/
abbrev Thunk (σ α : Type) := World σ → Except Panic α × World σ

/-- A computation that can be polled. Its thunk or result is gone once it has been polled. -/
inductive Computation (σ α : Type) where
  | deferred (thunk : Option (Thunk σ α))
  | boxed (thunk : Option (Thunk σ α))
  | spawned (result : Option (Except Panic α))

namespace Computation

/-- The kind of a computation. -/
def kind : Computation σ α → Kind
  | deferred _ => .deferred
  | boxed _ => .boxed
  | spawned _ => .spawned

/-- Whether the computation was polled. -/
def completed : Computation σ α → Bool
  | deferred thunk => thunk.isNone
  | boxed thunk => thunk.isNone
  | spawned result => result.isNone

/-- Asks for the result. The computation counts as completed from then on, even if it panics. -/
def poll : Computation σ α → World σ → Except Panic α × Computation σ α × World σ
  | deferred none, w => (.error (.completed .deferred), deferred none, w)
  | deferred (some thunk), w => let (a, w) := thunk w; (a, deferred none, w)
  | boxed none, w => (.error (.completed .boxed), boxed none, w)
  | boxed (some thunk), w => let (a, w) := thunk w; (a, boxed none, w)
  | spawned none, w => (.error (.completed .spawned), spawned none, w)
  | spawned (some result), w => (result, spawned none, w)

/-- Asks for the result and forgets the computation. -/
def finish (c : Computation σ α) : Thunk σ α := fun w =>
  let (a, _, w) := c.poll w
  (a, w)

end Computation

/-- A deferred computation as text: whether it is completed. -/
def inspect (completed : Bool) : String :=
  s!"Suspended \x7b completed: {completed} \x7d"

/-- The same over several lines. -/
def inspectLines (completed : Bool) : String :=
  s!"Suspended \x7b\n    completed: {completed},\n\x7d"

/-- Waits for a result. A wait within another one panics. -/
def wait (thunk : Thunk σ α) : Thunk σ α := fun w =>
  if w.waiting then (.error .nestedWait, w)
  else
    let (a, w') := thunk { w with waiting := true }
    (a, { w' with waiting := false })

/-- Runs on another thread, where no wait is going on. -/
def elsewhere (thunk : Thunk σ α) : Thunk σ α := fun w =>
  let (a, w') := thunk { w with waiting := false }
  (a, { w' with waiting := w.waiting })

/-- When a computation runs. -/
inductive Strategy where
  /-- When it is first polled. -/
  | deferred
  /-- When it is first polled; computations of all results look alike. -/
  | boxed
  /-- At once. -/
  | immediate
  /-- At once, and the number of runs is told with the result. -/
  | counted
  /-- At once, on a pool of threads. -/
  | blocking
  /-- Not at all. -/
  | never
deriving DecidableEq, Repr

/-- What a strategy makes of a computation. -/
inductive Suspended (σ α : Type) where
  | pending (computation : Computation σ α)
  | value (a : α)
  | counted (a : α) (runs : Nat)
  | nothing

/-- Hands a computation to a strategy; `pool` tells whether there is a pool of threads. -/
def suspend (strategy : Strategy) (pool : Bool) (thunk : Thunk σ α) :
    Thunk σ (Suspended σ α) := fun w =>
  match strategy with
  | .deferred => (.ok (.pending (.deferred (some thunk))), w)
  | .boxed => (.ok (.pending (.boxed (some thunk))), w)
  | .never => (.ok .nothing, w)
  | .immediate => let (a, w) := thunk (w.trace .runningHere); (a.map .value, w)
  | .counted => let (a, w) := thunk w; (a.map (.counted · 1), w)
  | .blocking =>
    let w := w.trace .spawning
    if pool then
      let (a, w) := elsewhere thunk w
      (.ok (.pending (.spawned (some a))), w)
    else (.error .noPool, w)

end TypedId.Effect
