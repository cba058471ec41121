import TypedId.Effect.Life

/-!
Deferred and boxed computations behave alike.

Both are lazy: the first poll calls the thunk and hands out what it gives, be it a result or a panic,
and every later poll panics without a call. `run_start` tells the whole life of such a computation from
what has happened to it, so the two kinds differ in the text of that later panic and in nothing else
(`lazy_computations_are_alike`).
-/

namespace TypedId.Effect

variable {σ α : Type}

/-! ### What has happened -/

/-- Whether a computation was dropped; the last occurrence is the first in the list. -/
def isDropped : List (Occurrence σ) → Bool
  | [] => false
  | .drop :: _ => true
  | _ :: os => isDropped os

/-- Whether a computation was polled before it was dropped. -/
def isPolled : List (Occurrence σ) → Bool
  | [] => false
  | .poll :: os => isPolled os || !isDropped os
  | _ :: os => isPolled os

theorem isDropped_beside (os : List (Occurrence σ)) :
    isDropped (os.map Occurrence.beside) = isDropped os := by
  induction os with
  | nil => rfl
  | cons o os ih =>
      cases o with
      | poll => exact ih
      | drop => rfl
      | change f => exact ih

theorem isPolled_beside (os : List (Occurrence σ)) :
    isPolled (os.map Occurrence.beside) = isPolled os := by
  induction os with
  | nil => rfl
  | cons o os ih =>
      cases o with
      | poll => simp only [List.map_cons, Occurrence.beside, isPolled, ih, isDropped_beside]
      | drop => exact ih
      | change f => exact ih

/-! ### Lazy computations -/

/-- The two ways to be lazy. -/
inductive Laziness where
  | deferred
  | boxed
deriving DecidableEq, Repr

namespace Laziness

/-- The strategy that creates such computations. -/
def strategy : Laziness → Strategy
  | deferred => .deferred
  | boxed => .boxed

/-- The kind of such computations. -/
def kind : Laziness → Kind
  | deferred => .deferred
  | boxed => .boxed

/-- Such a computation, with its thunk unless that is gone. -/
def computation : Laziness → Option (Thunk σ α) → Computation σ α
  | deferred => .deferred
  | boxed => .boxed

variable (z : Laziness)

theorem start_eq (pool : Bool) (thunk : Thunk σ α) (w : World σ) :
    Life.start z.strategy pool thunk w = ⟨some (z.computation (some thunk)), w⟩ := by
  cases z <;> rfl

/-- The first poll calls the thunk, which is gone afterwards whatever came of the call. -/
theorem poll_some (thunk : Thunk σ α) (w : World σ) :
    (z.computation (some thunk)).poll w = ((thunk w).1, z.computation none, (thunk w).2) := by
  cases z <;> rfl

/-- Without a thunk a poll panics, and nothing changes. -/
theorem poll_none (w : World σ) :
    (z.computation (none : Option (Thunk σ α))).poll w =
      (.error (.completed z.kind), z.computation none, w) := by
  cases z <;> rfl

end Laziness

/-- What is told of an occurrence in the life of a lazy computation, given what has happened
before and the world. -/
def told (thunk : Thunk σ α) (z : Laziness) (os : List (Occurrence σ)) (w : World σ) :
    Occurrence σ → Answer α
  | .poll =>
    if isDropped os then .nothing
    else if isPolled os then .panicked (.completed z.kind)
    else .ofResult (thunk w).1
  | .drop => if isDropped os then .nothing else .dropped
  | .change _ => .nothing

/-- The world around a lazy computation after what has happened: of all polls only the first calls the
thunk, and only on a computation that was not dropped. -/
def worldOf (thunk : Thunk σ α) (w : World σ) : List (Occurrence σ) → World σ
  | [] => w
  | .poll :: os =>
    if isDropped os || isPolled os then worldOf thunk w os else (thunk (worldOf thunk w os)).2
  | .drop :: os => worldOf thunk w os
  | .change f :: os => f (worldOf thunk w os)

/-- What is left of a lazy computation. -/
def remains (thunk : Thunk σ α) (z : Laziness) (os : List (Occurrence σ)) : Option (Computation σ α) :=
  if isDropped os then none else some (z.computation (if isPolled os then none else some thunk))

/-- A step in the life of a lazy computation, told from what has happened to it. -/
theorem step_remains (thunk : Thunk σ α) (z : Laziness) (w : World σ) (os : List (Occurrence σ))
    (o : Occurrence σ) :
    (⟨remains thunk z os, worldOf thunk w os⟩ : Life σ α).step o =
      (told thunk z os (worldOf thunk w os) o, ⟨remains thunk z (o :: os), worldOf thunk w (o :: os)⟩) := by
  cases o with
  | poll =>
      cases hdropped : isDropped os with
      | true => simp [Life.step, remains, told, worldOf, isDropped, hdropped]
      | false =>
          cases hpolled : isPolled os with
          | true =>
              simp [Life.step, remains, told, worldOf, isDropped, isPolled, hdropped, hpolled,
                z.poll_none, Answer.ofResult]
          | false =>
              simp [Life.step, remains, told, worldOf, isDropped, isPolled, hdropped, hpolled, z.poll_some]
  | drop => cases hdropped : isDropped os <;> simp [Life.step, remains, told, worldOf, isDropped, hdropped]
  | change f => rfl

/-- The whole life of a lazy computation, told from what has happened to it. -/
theorem run_start (thunk : Thunk σ α) (z : Laziness) (pool : Bool) (w : World σ)
    (os : List (Occurrence σ)) :
    (Life.start z.strategy pool thunk w).run os = ⟨remains thunk z os, worldOf thunk w os⟩ := by
  induction os with
  | nil => exact z.start_eq pool thunk w
  | cons o os ih => rw [Life.run, ih, step_remains]

/-- Of all that happens, the first poll of a computation that was not dropped calls the thunk, once. -/
theorem worldOf_tallied (thunk : Thunk σ α) (w : World σ) (os : List (Occurrence σ)) :
    worldOf (tallied thunk) (w.withCount 0) (os.map Occurrence.beside) =
      (worldOf thunk w os).withCount (if isPolled os then 1 else 0) := by
  induction os with
  | nil => rfl
  | cons o os ih =>
      cases o with
      | poll =>
          simp only [List.map_cons, Occurrence.beside, worldOf, isDropped_beside,
            isPolled_beside, ih, isPolled]
          by_cases hdropped : isDropped os = true
          · simp [hdropped]
          by_cases hpolled : isPolled os = true
          · simp [hpolled]
          · simp only [hdropped, hpolled, Bool.or_false, Bool.false_eq_true, if_false, Bool.not_false]
            rfl
      | drop => exact ih
      | change f =>
          simp only [List.map_cons, Occurrence.beside, worldOf, ih, isPolled]
          rfl

/-! ### The two kinds -/

/-- Whether two answers are the same, up to which kind of computation it was that was polled after
its completion. -/
inductive Alike : Answer α → Answer α → Prop where
  | same (a : Answer α) : Alike a a
  | completed (k k' : Kind) : Alike (.panicked (.completed k)) (.panicked (.completed k'))

theorem alike_told (thunk : Thunk σ α) (z z' : Laziness) (os : List (Occurrence σ)) (w : World σ)
    (o : Occurrence σ) : Alike (told thunk z os w o) (told thunk z' os w o) := by
  cases o with
  | poll =>
      rw [told, told]
      split
      · exact .same _
      split
      · exact .completed _ _
      · exact .same _
  | drop => exact .same _
  | change f => exact .same _

/-- Deferred and boxed computations cannot be told apart by what they do.

Whatever has happened to two computations of one thunk, a deferred and a boxed one, the worlds around
them are the same and they answer alike to whatever happens next. The first poll answers with what the
thunk gives, a result or a panic, and every later one panics. Where calls are counted, there is one call
if the computation was polled before it was dropped and none otherwise. A deferred computation that is
shown says that it is completed exactly if it was polled, whatever came of that. -/
theorem lazy_computations_are_alike (thunk : Thunk σ α) (pool : Bool) (w : World σ)
    (os : List (Occurrence σ)) :
    let deferred := (Life.start .deferred pool thunk w).run os
    let boxed := (Life.start .boxed pool thunk w).run os
    deferred.world = boxed.world ∧
    (∀ o, Alike (deferred.step o).1 (boxed.step o).1) ∧
    (deferred.step .poll).1 =
      (if isDropped os then .nothing
      else if isPolled os then .panicked (.completed .deferred)
      else .ofResult (thunk deferred.world).1) ∧
    (∀ z : Laziness,
      ((Life.start z.strategy pool (tallied thunk) (w.withCount 0)).run (os.map Occurrence.beside)).world =
        deferred.world.withCount (if isPolled os then 1 else 0)) ∧
    deferred.computation.map (fun c => inspect c.completed) =
      (if isDropped os then none
      else if isPolled os then some "Suspended \x7b completed: true \x7d"
      else some "Suspended \x7b completed: false \x7d") := by
  have hdeferred := run_start thunk .deferred pool w os
  have hboxed := run_start thunk .boxed pool w os
  simp only [Laziness.strategy] at hdeferred hboxed
  simp only [hdeferred, hboxed, step_remains]
  refine ⟨trivial, fun o => alike_told thunk .deferred .boxed os _ o, rfl, fun z => ?_, ?_⟩
  · rw [run_start, worldOf_tallied]
  · rw [remains]
    cases isDropped os with
    | true => rfl
    | false => cases isPolled os <;> rfl

/-- A thunk that panics is called by the first poll alone, and its computation is completed. -/
example (w : World Unit) :
    let panicking : Thunk Unit Nat := fun w => (.error (.failed 1), w)
    let life := (Life.start .boxed true (tallied panicking) (w.withCount 0)).run [.poll, .poll, .poll]
    life.world.state.2 = 1 ∧ life.computation.map Computation.completed = some true := ⟨rfl, rfl⟩

end TypedId.Effect
