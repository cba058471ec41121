import TypedId.Random.Session

/-!
What has become of each computation of a session, told from the actions alone.

`fates` goes through the actions and knows nothing of a source. A computation either has drawn or has
not (`Fate.draws`), and no action takes a draw back; so the computations that have drawn, in their
order, make up a list without repetitions (`drawers_nodup`), and counting them is counting fates
(`length_drawers`).
-/

namespace TypedId.Random

/-- What has become of a computation. -/
structure Fate where
  way : Way
  /-- Whether there was a pool of threads when it was created. -/
  pool : Bool
  /-- Whether a poll has found it and did not find it waiting for the pool. -/
  polled : Bool
  /-- Whether the pool has run it. -/
  executed : Bool
  dropped : Bool
deriving DecidableEq, Repr

namespace Way

/-- Whether an identifier is drawn when it is asked for. -/
def atOnce : Way → Bool
  | immediate | direct => true
  | _ => false

/-- Whether an identifier is drawn when it is first polled. -/
def lazy : Way → Bool
  | deferred | boxed => true
  | _ => false

end Way

namespace Fate

/-- A computation that has just been created. -/
def created (way : Way) (pool : Bool) : Fate := ⟨way, pool, false, false, false⟩

/-- Whether the pool has yet to run a computation. -/
def awaitsPool (f : Fate) : Bool := f.way == .blocking && f.pool && !f.executed

/-- Whether a computation can be polled. -/
def held (f : Fate) : Bool := (f.way.lazy || (f.way == .blocking && f.pool)) && !f.dropped

/-- A poll. One that finds the computation waiting for the pool changes nothing. -/
def poll (f : Fate) : Fate := if f.held && !f.awaitsPool then { f with polled := true } else f

/-- A turn of the pool. -/
def work (f : Fate) : Fate := if f.awaitsPool then { f with executed := true } else f

/-- The end of a handle. -/
def drop (f : Fate) : Fate := if f.held then { f with dropped := true } else f

/-- Whether a computation was run by the pool. -/
def ranOnPool (f : Fate) : Bool := f.way == .blocking && f.executed

/-- Whether a computation was run by a poll. -/
def ranByPoll (f : Fate) : Bool := f.way.lazy && f.polled

/-- Whether a computation has drawn. -/
def draws (f : Fate) : Bool := f.way.atOnce || f.ranOnPool || f.ranByPoll

/-- Whether a computation has given its result. -/
def delivered (f : Fate) : Bool := f.way.atOnce || f.polled

variable {f : Fate}

/-- A lazy computation has drawn if it was polled. -/
theorem draws_of_lazy (h : f.way.lazy = true) : f.draws = f.polled := by
  obtain ⟨way, pool, polled, executed, dropped⟩ := f
  cases way <;> cases polled <;> first | rfl | cases h

/-- A computation that can be polled and is not lazy has drawn if it does not await the pool. -/
theorem draws_of_held (hheld : f.held = true) (hawaits : ¬ f.awaitsPool = true)
    (hlazy : ¬ f.way.lazy = true) : f.draws = true := by
  obtain ⟨way, pool, polled, executed, dropped⟩ := f
  cases way <;> cases pool <;> cases executed <;>
    first | rfl | cases hheld | exact (hawaits rfl).elim | exact (hlazy rfl).elim

/-- A computation that awaits the pool has not drawn. -/
theorem not_draws_of_awaitsPool (h : f.awaitsPool = true) : f.draws = false := by
  obtain ⟨way, pool, polled, executed, dropped⟩ := f
  cases way <;> cases executed <;> first | rfl | cases h | (cases pool <;> cases h)

theorem draws_created (way : Way) (pool : Bool) : (created way pool).draws = way.atOnce := by
  cases way <;> rfl

theorem draws_drop : f.drop.draws = f.draws := by
  rw [drop]
  split <;> rfl

theorem draws_poll : f.poll.draws = (f.draws || (f.way.lazy && f.held)) := by
  obtain ⟨way, pool, polled, executed, dropped⟩ := f
  cases way <;> cases pool <;> cases polled <;> cases executed <;> cases dropped <;> rfl

theorem draws_work : f.work.draws = (f.draws || f.awaitsPool) := by
  obtain ⟨way, pool, polled, executed, dropped⟩ := f
  cases way <;> cases pool <;> cases polled <;> cases executed <;> cases dropped <;> rfl

/-- A computation that can be polled gives its result when it is polled. -/
theorem not_delivered_of_held (hheld : f.held = true) (hpolled : ¬ f.polled = true) :
    ¬ f.delivered = true := by
  obtain ⟨way, pool, polled, executed, dropped⟩ := f
  cases way <;> simp_all [held, delivered, Way.atOnce, Way.lazy]

theorem delivered_poll (h : f.delivered = true) : f.poll.delivered = true := by
  rw [poll]
  split
  · simp [delivered]
  · exact h

theorem delivered_work : f.work.delivered = f.delivered := by
  rw [work]
  split <;> rfl

theorem delivered_drop : f.drop.delivered = f.delivered := by
  rw [drop]
  split <;> rfl

end Fate

/-- What has become of each computation after some actions, the last of which is the first in the
list. -/
def fates : List Action → List Fate
  | [] => []
  | .create way pool :: as => fates as ++ [.created way pool]
  | .poll i :: as => (fates as).modify i .poll
  | .work i :: as => (fates as).modify i .work
  | .drop i :: as => (fates as).modify i .drop

/-- The number of the computation that an action is about. -/
def subject (as : List Action) : Action → Nat
  | .create _ _ => (fates as).length
  | .poll i | .work i | .drop i => i

/-- What an action makes of the fate of its subject. -/
def Action.change : Action → Option Fate → Option Fate
  | .create way pool, _ => some (.created way pool)
  | .poll _, f => f.map .poll
  | .work _, f => f.map .work
  | .drop _, f => f.map .drop

/-- An action changes the fate of its subject and no other. -/
theorem getElem?_fates_cons (a : Action) (as : List Action) (i : Nat) :
    (fates (a :: as))[i]? =
      if i = subject as a then a.change (fates as)[i]? else (fates as)[i]? := by
  by_cases h : i = subject as a
  · rw [if_pos h]
    cases a with
    | create way pool => rw [h]; exact List.getElem?_concat_length
    | poll j | work j | drop j =>
        rw [fates, List.getElem?_modify]
        obtain rfl : i = j := h
        simp only [if_true]
        rfl
  · rw [if_neg h]
    cases a with
    | create way pool =>
        have hne : i ≠ (fates as).length := h
        rw [fates]
        grind
    | poll j | work j | drop j =>
        have hne : j ≠ i := fun hj => h hj.symm
        rw [fates, List.getElem?_modify]
        simp only [if_neg hne]
        exact Option.map_id' ..

/-- No poll has found a computation while it awaits the pool. -/
theorem polled_of_awaitsPool {as : List Action} {i : Nat} {f : Fate} (hf : (fates as)[i]? = some f)
    (hawaits : f.awaitsPool = true) : f.polled = false := by
  induction as generalizing i f with
  | nil => simp [fates] at hf
  | cons a as ih =>
      rw [getElem?_fates_cons] at hf
      split at hf
      · cases a with
        | create way pool =>
            cases hf
            rfl
        | poll j =>
            obtain ⟨e, he, rfl⟩ := Option.map_eq_some_iff.mp hf
            by_cases hpoll : (e.held && !e.awaitsPool) = true
            · rw [Fate.poll, if_pos hpoll] at hawaits
              rw [Bool.and_eq_true, Bool.not_eq_true'] at hpoll
              exact absurd hawaits (by simpa [Fate.awaitsPool] using hpoll.2)
            · rw [Fate.poll, if_neg hpoll] at hawaits ⊢
              exact ih he hawaits
        | work j =>
            obtain ⟨e, he, rfl⟩ := Option.map_eq_some_iff.mp hf
            by_cases hwork : e.awaitsPool = true
            · rw [Fate.work, if_pos hwork] at hawaits
              simp [Fate.awaitsPool] at hawaits
            · rw [Fate.work, if_neg hwork] at hawaits
              exact (hwork hawaits).elim
        | drop j =>
            obtain ⟨e, he, rfl⟩ := Option.map_eq_some_iff.mp hf
            have hsame : e.drop.awaitsPool = e.awaitsPool ∧ e.drop.polled = e.polled := by
              rw [Fate.drop]
              split <;> exact ⟨rfl, rfl⟩
            rw [hsame.2]
            exact ih he (hsame.1 ▸ hawaits)
      · exact ih hf hawaits

/-! ### The computations that have drawn -/

/-- Whether a computation has drawn. -/
def Drawn (as : List Action) (i : Nat) : Prop := ∃ f, (fates as)[i]? = some f ∧ f.draws = true

instance (as : List Action) (i : Nat) : Decidable (Drawn as i) :=
  decidable_of_iff (((fates as)[i]?.any Fate.draws) = true) (by simp [Drawn, Option.any_eq_true])

/-- The numbers of the computations that have drawn, the last one first. -/
def drawers : List Action → List Nat
  | [] => []
  | a :: as =>
    if Drawn (a :: as) (subject as a) ∧ ¬ Drawn as (subject as a) then
      subject as a :: drawers as
    else drawers as

theorem drawn_cons_of_ne {a : Action} {as : List Action} {i : Nat} (h : i ≠ subject as a) :
    Drawn (a :: as) i ↔ Drawn as i := by
  rw [Drawn, getElem?_fates_cons, if_neg h, Drawn]

/-- No action takes a draw back. -/
theorem Drawn.cons {as : List Action} {i : Nat} (h : Drawn as i) (a : Action) : Drawn (a :: as) i := by
  by_cases hi : i = subject as a
  · obtain ⟨f, hf, hdraws⟩ := h
    have hlt : i < (fates as).length := (List.getElem?_eq_some_iff.mp hf).1
    rw [Drawn, getElem?_fates_cons, if_pos hi, hf]
    cases a with
    | create way pool => exact absurd hi (Nat.ne_of_lt hlt)
    | poll j => exact ⟨_, rfl, by rw [Fate.draws_poll, hdraws, Bool.true_or]⟩
    | work j => exact ⟨_, rfl, by rw [Fate.draws_work, hdraws, Bool.true_or]⟩
    | drop j => exact ⟨_, rfl, by rw [Fate.draws_drop, hdraws]⟩
  · exact (drawn_cons_of_ne hi).mpr h

theorem mem_drawers {as : List Action} {i : Nat} : i ∈ drawers as ↔ Drawn as i := by
  induction as with
  | nil => simp [drawers, Drawn, fates]
  | cons a as ih =>
      by_cases hi : i = subject as a
      · subst hi
        by_cases hnew : Drawn (a :: as) (subject as a) ∧ ¬ Drawn as (subject as a)
        · rw [drawers, if_pos hnew]
          simp [hnew.1]
        · rw [drawers, if_neg hnew, ih]
          exact ⟨fun h => h.cons a, fun h => Decidable.not_not.mp fun hn => hnew ⟨h, hn⟩⟩
      · rw [drawn_cons_of_ne hi, ← ih, drawers]
        split <;> simp [hi]

/-- Every computation draws at most once. -/
theorem drawers_nodup (as : List Action) : (drawers as).Nodup := by
  induction as with
  | nil => exact List.nodup_nil
  | cons a as ih =>
      rw [drawers]
      split
      · next h => exact List.nodup_cons.mpr ⟨fun hmem => h.2 (mem_drawers.mp hmem), ih⟩
      · exact ih

theorem countP_modify {α : Type} (p : α → Bool) (g : α → α) (l : List α) (i : Nat)
    (hg : ∀ x, p x = true → p (g x) = true) :
    (l.modify i g).countP p =
      l.countP p + if l[i]?.any (fun x => p (g x) && !p x) then 1 else 0 := by
  induction l generalizing i with
  | nil => simp
  | cons x l ih =>
      cases i with
      | zero =>
          simp only [List.modify_zero_cons, List.countP_cons, List.getElem?_cons_zero, Option.any_some]
          by_cases hx : p x = true
          · simp [hx, hg x hx]
          · simp [hx]
      | succ i =>
          simp only [List.modify_succ_cons, List.countP_cons, List.getElem?_cons_succ, ih]
          omega

/-- There are as many draws as computations whose fate it is to draw. -/
theorem length_drawers (as : List Action) : (drawers as).length = (fates as).countP Fate.draws := by
  induction as with
  | nil => rfl
  | cons a as ih =>
      have hmodify : ∀ (i : Nat) (g : Fate → Fate),
          (∀ f : Fate, f.draws = true → (g f).draws = true) → subject as a = i →
            fates (a :: as) = (fates as).modify i g →
              (drawers (a :: as)).length = (fates (a :: as)).countP Fate.draws := by
        intro i g hg hi hfates
        have hnew : Drawn (a :: as) i ∧ ¬ Drawn as i ↔
            (fates as)[i]?.any (fun f => (g f).draws && !f.draws) = true := by
          rw [Drawn, Drawn, hfates, List.getElem?_modify]
          simp only [if_true]
          cases (fates as)[i]? <;> simp
        rw [hfates, countP_modify Fate.draws g _ _ hg, ← ih, drawers, hi]
        by_cases h : (fates as)[i]?.any (fun f => (g f).draws && !f.draws) = true
        · rw [if_pos (hnew.mpr h), if_pos h, List.length_cons]
        · rw [if_neg (fun hn => h (hnew.mp hn)), if_neg h, Nat.add_zero]
      cases a with
      | create way pool =>
          have hnew : Drawn (.create way pool :: as) (fates as).length ↔ way.atOnce = true := by
            rw [Drawn, fates, List.getElem?_concat_length]
            simp [Fate.draws_created]
          have hold : ¬ Drawn as (fates as).length := by simp [Drawn]
          rw [drawers, fates, List.countP_append, ← ih, List.countP_singleton, Fate.draws_created, subject]
          by_cases h : way.atOnce = true
          · rw [if_pos ⟨hnew.mpr h, hold⟩, if_pos h, List.length_cons]
          · rw [if_neg (fun hn => h (hnew.mp hn.1)), if_neg h, Nat.add_zero]
      | poll i => exact hmodify i _ (fun f h => by rw [Fate.draws_poll, h, Bool.true_or]) rfl rfl
      | work i => exact hmodify i _ (fun f h => by rw [Fate.draws_work, h, Bool.true_or]) rfl rfl
      | drop i => exact hmodify i _ (fun f h => by rw [Fate.draws_drop, h]) rfl rfl

/-- A computation draws in one way only: at once, on the pool, or when it is polled. -/
theorem countP_draws (fs : List Fate) :
    fs.countP Fate.draws =
      fs.countP (·.way.atOnce) + fs.countP Fate.ranOnPool + fs.countP Fate.ranByPoll := by
  induction fs with
  | nil => rfl
  | cons f fs ih =>
      have hone : (if f.draws then 1 else 0) = (if f.way.atOnce then 1 else 0) +
          (if f.ranOnPool then 1 else 0) + if f.ranByPoll then 1 else 0 := by
        obtain ⟨way, pool, polled, executed, dropped⟩ := f
        cases way <;> cases polled <;> cases executed <;> rfl
      simp only [List.countP_cons, ih, hone]
      omega

/-- The turn at which a computation draws, counted from the first draw on. -/
def turn (as : List Action) (i : Nat) : Nat := (drawers as).reverse.idxOf i

theorem Drawn.getElem?_turn {as : List Action} {i : Nat} (h : Drawn as i) :
    (drawers as).reverse[turn as i]? = some i := by
  have hlt : turn as i < (drawers as).reverse.length :=
    List.idxOf_lt_length_of_mem (List.mem_reverse.mpr (mem_drawers.mpr h))
  rw [List.getElem?_eq_getElem hlt]
  exact congrArg some (List.getElem_idxOf hlt)

/-- What has drawn keeps its turn. -/
theorem Drawn.turn_cons {as : List Action} {i : Nat} (h : Drawn as i) (a : Action) :
    turn (a :: as) i = turn as i := by
  rw [turn, drawers]
  split
  · rw [List.reverse_cons, List.idxOf_append, if_pos (List.mem_reverse.mpr (mem_drawers.mpr h))]
    rfl
  · rfl

/-- What draws next has the turn behind all others. -/
theorem turn_of_new {as : List Action} {a : Action} (h : Drawn (a :: as) (subject as a))
    (h' : ¬ Drawn as (subject as a)) : turn (a :: as) (subject as a) = (drawers as).length := by
  have hnew : subject as a ∉ (drawers as).reverse := fun hmem =>
    h' (mem_drawers.mp (List.mem_reverse.mp hmem))
  rw [turn, drawers, if_pos ⟨h, h'⟩, List.reverse_cons, List.idxOf_append, if_neg hnew]
  simp

end TypedId.Random
