import TypedId.Random

/-!
Sessions: identifiers that are drawn from one source by many computations.

Computations are created, polled and dropped in any order, and numbered in the order of their
creation. The pool of threads runs what was handed to it whenever it gets to it, be the handle of the
computation kept or dropped.
-/

namespace TypedId.Random

open Effect

variable {σ : Type}

/-- Draws an identifier from a source of any kind, given its next state and the bits of a state. -/
def drawFrom (next : σ → σ) (bits : σ → Nat) : Thunk σ Uuid := fun w =>
  (.ok (Uuid.randomised (bits w.state)), { w with state := next w.state })

/-- How an identifier is asked for. -/
inductive Way where
  | deferred
  | boxed
  | immediate
  /-- At once, without naming a strategy. -/
  | direct
  | blocking
deriving DecidableEq, Repr

/-- The strategy that draws the identifier. -/
def Way.strategy : Way → Strategy
  | deferred => .deferred
  | boxed => .boxed
  | immediate | direct => .immediate
  | blocking => .blocking

/-- What is left of a computation. -/
inductive Entry (σ : Type) where
  /-- It can be polled. -/
  | held (computation : Computation σ Uuid)
  /-- The pool has not run it so far; `kept` tells whether it can be polled. -/
  | queued (kept : Bool)
  /-- Nothing: its result was given at once, or it was dropped. -/
  | gone

/-- A source, and the computations that were created so far. -/
structure Session (σ : Type) where
  world : World σ
  entries : List (Entry σ)

/-- What can be done in a session. -/
inductive Action where
  /-- Asks for an identifier; `pool` tells whether there is a pool of threads. -/
  | create (way : Way) (pool : Bool)
  /-- The pool runs a computation. -/
  | work (number : Nat)
  | poll (number : Nat)
  | drop (number : Nat)
deriving DecidableEq, Repr

/-- What comes of an action. -/
inductive Reply where
  | created
  | ready (u : Uuid)
  | pending
  | worked
  | dropped
  | panicked (cause : Panic)
  /-- There is no such computation. -/
  | nothing
deriving DecidableEq

namespace Session

/-- The session at its beginning. -/
def empty (w : World σ) : Session σ := ⟨w, []⟩

/-- What a strategy has made of a draw. -/
def settle : Except Panic (Suspended σ Uuid) → Reply × Entry σ
  | .ok (.pending c) => (.created, .held c)
  | .ok (.value u) => (.ready u, .gone)
  | .ok (.counted u _) => (.ready u, .gone)
  | .ok .nothing => (.created, .gone)
  | .error cause => (.panicked cause, .gone)

/-- The result of a computation as a reply. -/
def answer : Except Panic Uuid → Reply
  | .ok u => .ready u
  | .error cause => .panicked cause

/-- Does an action. -/
def step (draw : Thunk σ Uuid) (s : Session σ) : Action → Reply × Session σ
  | .create way pool =>
    if way = .blocking ∧ pool then
      (.created, ⟨s.world.trace .spawning, s.entries ++ [.queued true]⟩)
    else
      let (result, w) := suspend way.strategy pool draw s.world
      let (reply, entry) := settle result
      (reply, ⟨w, s.entries ++ [entry]⟩)
  | .work i =>
    match s.entries[i]? with
    | some (.queued kept) =>
      let (result, w) := elsewhere draw s.world
      let entry := if kept then .held (.spawned (some result)) else .gone
      (.worked, ⟨w, s.entries.set i entry⟩)
    | _ => (.nothing, s)
  | .poll i =>
    match s.entries[i]? with
    | some (.held c) =>
      let (result, c, w) := c.poll s.world
      (answer result, ⟨w, s.entries.set i (.held c)⟩)
    | some (.queued true) => (.pending, s)
    | _ => (.nothing, s)
  | .drop i =>
    match s.entries[i]? with
    | some (.held _) => (.dropped, { s with entries := s.entries.set i .gone })
    | some (.queued true) => (.dropped, { s with entries := s.entries.set i (.queued false) })
    | _ => (.nothing, s)

/-- The session after some actions, the last of which is the first in the list. -/
def run (draw : Thunk σ Uuid) (w : World σ) : List Action → Session σ
  | [] => empty w
  | a :: as => (step draw (run draw w as) a).2

end Session

end TypedId.Random
