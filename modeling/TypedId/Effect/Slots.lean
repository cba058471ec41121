import TypedId.Effect
import TypedId.Keyed

/-!
Pending computations that are kept in slots.

The computations are some that count how often they run; `Slots.step` creates, polls and forgets
them one by one.
-/

namespace TypedId.Effect

/-- The computations. Their state is the number of runs so far. -/
inductive Trial where
  /-- Counts a run and gives the count. -/
  | count
  /-- Counts a run and gives seven. -/
  | seven
  /-- Counts a run and fails. -/
  | fail
  /-- Waits for a deferred count and gives a hundred times it. -/
  | nested
  /-- Takes an immediate count and gives ten times it. -/
  | eager
deriving DecidableEq, Repr

namespace Trial

/-- Counts a run. -/
def counting (result : Nat → Except Panic Nat) : Thunk Nat Nat := fun w =>
  let calls := w.state + 1
  (result calls, { w with state := calls })

/-- A run that traces first that it happens at once. -/
def atOnce (thunk : Thunk Nat Nat) : Thunk Nat Nat := fun w => thunk (w.trace .runningHere)

/-- Multiplies the result of a computation. -/
def times (factor : Nat) (thunk : Thunk Nat Nat) : Thunk Nat Nat := fun w =>
  let (a, w) := thunk w
  (a.map (factor * ·), w)

/-- The computation. -/
def thunk : Trial → Thunk Nat Nat
  | count => counting .ok
  | seven => counting fun _ => .ok 7
  | fail => counting fun calls => .error (.failed calls)
  | nested => times 100 (wait (Computation.deferred (some (counting .ok))).finish)
  | eager => times 10 (atOnce (counting .ok))

end Trial

/-- Slots with pending computations, and the number of runs so far. -/
structure Slots where
  computations : Named (Computation Nat Nat)
  calls : Nat

/-- What can be done with slots. `within` tells whether it happens during a wait. -/
inductive SlotStep where
  | suspend (strategy : Strategy) (trial : Trial) (slot : String) (within pool : Bool)
  | poll (slot : String) (within : Bool)
  | await (slot : String) (within : Bool)
  | debug (slot : String)
  | drop (slot : String)
  | rename (slot target : String)
  | join (slots : List String)
deriving Repr

/-- What comes of a step. -/
inductive SlotReply where
  | stored
  | value (n : Nat)
  | counted (n runs : Nat)
  | nothing
  | ready (n : Nat)
  | values (ns : List Nat)
  /-- How far a deferred computation is. -/
  | debug (completed : Bool)
  | dropped (found : Bool)
  | renamed (replaced : Bool)
  | panic (cause : Panic)
  /-- The computation broke off on the pool of threads. -/
  | failedElsewhere (cause : Panic)
  | noSlot
  | noDebug
deriving DecidableEq, Repr

namespace Slots

/-- No slots in use, and no runs. -/
def empty : Slots := ⟨[], 0⟩

/-- The world in which a step happens. -/
def world (s : Slots) (within : Bool) : World Nat := ⟨s.calls, [], within⟩

/-- Polls computations one after the other up to the first that panics. -/
def finishAll : List (Computation Nat Nat) → Thunk Nat (List Nat)
  | [], w => (.ok [], w)
  | c :: cs, w =>
    match c.finish w with
    | (.error cause, w) => (.error cause, w)
    | (.ok n, w) =>
      let (ns, w) := finishAll cs w
      (ns.map (n :: ·), w)

/-- Takes the computations in some slots; slots that are not in use are left out. -/
def take : List String → Named (Computation Nat Nat) →
    List (Computation Nat Nat) × Named (Computation Nat Nat)
  | [], kept => ([], kept)
  | slot :: slots, kept =>
    match kept.get? slot with
    | none => take slots kept
    | some c =>
      let (cs, kept) := take slots (kept.erase slot)
      (c :: cs, kept)

/-- Creates a computation. -/
def suspended (s : Slots) (slot : String) :
    Except Panic (Suspended Nat Nat) → SlotReply × Named (Computation Nat Nat)
  | .error cause => (.panic cause, s.computations)
  | .ok (.pending c) => (.stored, s.computations.put slot c)
  | .ok (.value n) => (.value n, s.computations)
  | .ok (.counted n runs) => (.counted n runs, s.computations)
  | .ok .nothing => (.nothing, s.computations)

/-- What polling a computation of a kind gives. -/
def polled (c : Computation Nat Nat) : Except Panic Nat → SlotReply
  | .ok n => .ready n
  | .error cause =>
    if c.kind = .spawned ∧ ¬ c.completed then .failedElsewhere cause else .panic cause

/-- Does a step: its reply, what was traced, and the slots after it. -/
def step (s : Slots) : SlotStep → SlotReply × List Event × Slots
  | .suspend strategy trial slot within pool =>
    let (result, w) := suspend strategy pool trial.thunk (s.world within)
    let (reply, computations) := s.suspended slot result
    (reply, w.events, ⟨computations, w.state⟩)
  | .poll slot within =>
    match s.computations.get? slot with
    | none => (.noSlot, [], s)
    | some c =>
      let (result, c', w) := c.poll (s.world within)
      (polled c result, w.events, ⟨s.computations.put slot c', w.state⟩)
  | .await slot within =>
    match s.computations.get? slot with
    | none => (.noSlot, [], s)
    | some c =>
      let (result, w) := wait c.finish (s.world within)
      let reply := match result with
        | .ok n => .value n
        | .error cause => .panic cause
      (reply, w.events, ⟨s.computations.erase slot, w.state⟩)
  | .debug slot =>
    match s.computations.get? slot with
    | none => (.noSlot, [], s)
    | some (.deferred thunk) => (.debug thunk.isNone, [], s)
    | some _ => (.noDebug, [], s)
  | .drop slot =>
    (.dropped (s.computations.get? slot).isSome, [], ⟨s.computations.erase slot, s.calls⟩)
  | .rename slot target =>
    match s.computations.get? slot with
    | none => (.noSlot, [], s)
    | some c =>
      let others := s.computations.erase slot
      (.renamed (others.get? target).isSome, [], ⟨others.put target c, s.calls⟩)
  | .join slots =>
    let (cs, kept) := take slots s.computations
    let (result, w) := wait (finishAll cs) (s.world false)
    let reply := match result with
      | .ok ns => .values ns
      | .error cause => .panic cause
    (reply, w.events, ⟨kept, w.state⟩)

end Slots

end TypedId.Effect
