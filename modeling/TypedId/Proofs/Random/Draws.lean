import Mathlib.Algebra.Group.Nat.Defs
import TypedId.Proofs.Random.Ledger

/-!
Draws of a session: how many there are, and whose they are.

`Conduct` says what each action may do: which actions draw, and which only give a reply. A run draws
once for each identifier asked for at once, once for each computation that the pool has run, and once
for each lazy computation that was polled; and every identifier that is given comes from the draw of
its own computation (`draws_have_one_owner`).
-/

namespace TypedId

namespace Uuid

theorem value_randomised (seed : Nat) :
    ∃ a b c, a < 2 ^ 48 ∧ b < 2 ^ 12 ∧ c < 2 ^ 62 ∧
      (randomised seed).value = a * 2 ^ 80 + 4 * 2 ^ 76 + b * 2 ^ 64 + 2 * 2 ^ 62 + c := by
  have ha : bitsFrom seed 80 48 < 2 ^ 48 := Nat.mod_lt _ (by decide)
  have hb : bitsFrom seed 64 12 < 2 ^ 12 := Nat.mod_lt _ (by decide)
  have hc : bitsFrom seed 0 62 < 2 ^ 62 := Nat.mod_lt _ (by decide)
  refine ⟨bitsFrom seed 80 48, bitsFrom seed 64 12, bitsFrom seed 0 62, ha, hb, hc, ?_⟩
  show ((((bitsFrom seed 80 48 * 2 ^ 4 + 4) * 2 ^ 12 + bitsFrom seed 64 12) * 4 + 2) * 2 ^ 62 +
    bitsFrom seed 0 62) % 2 ^ 128 = _
  omega

/-- Whatever a source gives, the identifier drawn from it has version 4. -/
theorem version_randomised (seed : Nat) : (randomised seed).version = 4 := by
  obtain ⟨a, b, c, ha, hb, hc, hvalue⟩ := value_randomised seed
  show (randomised seed).value / 2 ^ 76 % 16 = 4
  omega

/-- Whatever a source gives, the identifier drawn from it has the layout of RFC 4122. -/
theorem variantBits_randomised (seed : Nat) : (randomised seed).variantBits = 2 := by
  obtain ⟨a, b, c, ha, hb, hc, hvalue⟩ := value_randomised seed
  show (randomised seed).value / 2 ^ 62 % 4 = 2
  omega

end Uuid

namespace Random

open Effect

variable {σ : Type} {next : σ → σ} {bits : σ → Nat} {w₀ : World σ} {as : List Action} {s : Session σ}
  {a : Action} {i : Nat} {u : Uuid}

/-! ### Results that were given -/

/-- Whether a computation has given its result. -/
def Delivered (as : List Action) (i : Nat) : Prop := ∃ f, (fates as)[i]? = some f ∧ f.delivered = true

/-- The results that were given, each with the number of its computation; the last one first. -/
def deliveries (draw : Thunk σ Uuid) (w : World σ) : List Action → List (Nat × Uuid)
  | [] => []
  | a :: as =>
    match ((Session.run draw w as).step draw a).1 with
    | .ready u => (subject as a, u) :: deliveries draw w as
    | _ => deliveries draw w as

/-- A result stays given. -/
theorem Delivered.cons (h : Delivered as i) (a : Action) : Delivered (a :: as) i := by
  obtain ⟨f, hf, hdelivered⟩ := h
  rw [Delivered, getElem?_fates_cons, hf]
  by_cases hi : i = subject as a
  · rw [if_pos hi]
    cases a with
    | create way pool =>
        exact absurd hi (Nat.ne_of_lt (List.getElem?_eq_some_iff.mp hf).1)
    | poll j => exact ⟨_, rfl, Fate.delivered_poll hdelivered⟩
    | work j => exact ⟨_, rfl, by rw [Fate.delivered_work, hdelivered]⟩
    | drop j => exact ⟨_, rfl, by rw [Fate.delivered_drop, hdelivered]⟩
  · rw [if_neg hi]
    exact ⟨f, rfl, hdelivered⟩

/-- What is given is what the computation has drawn, and it was not given before. -/
theorem of_reply_ready {v : Uuid} (h : a.reply u (fates as)[subject as a]? = .ready v) :
    v = u ∧ Drawn (a :: as) (subject as a) ∧ Delivered (a :: as) (subject as a) ∧
      ¬ Delivered as (subject as a) := by
  rw [Drawn, Delivered, Delivered, getElem?_fates_cons, if_pos rfl]
  cases a with
  | create way pool =>
      have hatOnce : way.atOnce = true := by
        refine Decidable.byContradiction fun hway => ?_
        rw [Action.reply, if_neg hway] at h
        split at h <;> cases h
      rw [Action.reply, if_pos hatOnce] at h
      refine ⟨(Reply.ready.inj h).symm, ⟨_, rfl, by rw [Fate.draws_created, hatOnce]⟩,
        ⟨_, rfl, by simp [Fate.delivered, Fate.created, hatOnce]⟩, ?_⟩
      simp [subject]
  | poll i =>
      cases hf : (fates as)[i]? with
      | none => simp [subject, hf, Action.reply] at h
      | some f =>
          simp only [subject, hf, Action.reply] at h ⊢
          split at h
          case isFalse => cases h
          case isTrue hheld =>
            split at h
            case isTrue => cases h
            case isFalse hawaits =>
              split at h
              case isTrue => cases h
              case isFalse hpolled =>
                have hpoll : f.poll.polled = true := by simp [Fate.poll, hheld, hawaits]
                have hdraws : f.poll.draws = true := by
                  rw [Fate.draws_poll]
                  by_cases hlazy : f.way.lazy = true
                  · simp [hlazy, hheld]
                  · rw [Fate.draws_of_held hheld hawaits hlazy, Bool.true_or]
                refine ⟨(Reply.ready.inj h).symm, ⟨_, rfl, hdraws⟩,
                  ⟨_, rfl, by simp [Fate.delivered, hpoll]⟩, ?_⟩
                rintro ⟨e, he, hdelivered⟩
                obtain rfl := Option.some.inj he
                exact Fate.not_delivered_of_held hheld hpolled hdelivered
  | work i => cases hf : (fates as)[i]? <;> simp only [subject, hf, Action.reply] at h <;> grind
  | drop i => cases hf : (fates as)[i]? <;> simp only [subject, hf, Action.reply] at h <;> grind

/-- What was given is what the computation has drawn. -/
theorem of_mem_deliveries {as : List Action} {i : Nat} {u : Uuid}
    (h : (i, u) ∈ deliveries (drawFrom next bits) w₀ as) :
    Drawn as i ∧ Delivered as i ∧ u = identifierOf next bits w₀ as i := by
  induction as with
  | nil => cases h
  | cons a as ih =>
      have hlater : (i, u) ∈ deliveries (drawFrom next bits) w₀ as →
          Drawn (a :: as) i ∧ Delivered (a :: as) i ∧ u = identifierOf next bits w₀ (a :: as) i := by
        intro hmem
        obtain ⟨hdrawn, hdelivered, hu⟩ := ih hmem
        refine ⟨hdrawn.cons a, hdelivered.cons a, ?_⟩
        rw [hu, identifierOf, identifierOf, hdrawn.turn_cons]
      rw [deliveries, ((accounts_run next bits w₀ as).step a).1] at h
      split at h
      · next v hv =>
          obtain hmem | hmem := List.mem_cons.mp h
          · obtain ⟨rfl, rfl⟩ := Prod.mk.inj hmem
            obtain ⟨hv, hdrawn, hdelivered, -⟩ := of_reply_ready hv
            exact ⟨hdrawn, hdelivered, hv⟩
          · exact hlater hmem
      · exact hlater h

/-- Every computation gives its result at most once. -/
theorem deliveries_nodup (next : σ → σ) (bits : σ → Nat) (w₀ : World σ) (as : List Action) :
    ((deliveries (drawFrom next bits) w₀ as).map Prod.fst).Nodup := by
  induction as with
  | nil => exact List.nodup_nil
  | cons a as ih =>
      rw [deliveries, ((accounts_run next bits w₀ as).step a).1]
      split
      · next v hv =>
          obtain ⟨-, -, -, hnot⟩ := of_reply_ready hv
          refine List.nodup_cons.mpr ⟨fun hmem => ?_, ih⟩
          obtain ⟨⟨i, u⟩, hmem, hi⟩ := List.mem_map.mp hmem
          obtain rfl : i = subject as a := hi
          exact hnot (of_mem_deliveries hmem).2.1
      · exact ih

/-! ### Draws -/

/-- Whether an action draws, told from the fate of its subject. -/
def Action.draws : Action → Option Fate → Bool
  | .create way _, _ => way.atOnce
  | .poll _, some f => f.way.lazy && f.held && !f.polled
  | .work _, some f => f.awaitsPool
  | _, _ => false

/-- An action draws if its subject has drawn after it and not before. -/
theorem draws_iff (a : Action) (as : List Action) :
    a.draws (fates as)[subject as a]? = true ↔
      Drawn (a :: as) (subject as a) ∧ ¬ Drawn as (subject as a) := by
  rw [Drawn, Drawn, getElem?_fates_cons, if_pos rfl]
  cases a with
  | create way pool => simp [subject, Action.change, Action.draws, Fate.draws_created]
  | poll i =>
      cases hf : (fates as)[i]? with
      | none => simp [subject, Action.change, Action.draws, hf]
      | some f =>
          simp only [subject, Action.change, Action.draws, hf, Option.map_some, Option.some.injEq,
            exists_eq_left', Fate.draws_poll, Bool.and_eq_true, Bool.or_eq_true, Bool.not_eq_true']
          constructor
          · rintro ⟨⟨hlazy, hheld⟩, hpolled⟩
            exact ⟨.inr ⟨hlazy, hheld⟩, by simp [Fate.draws_of_lazy hlazy, hpolled]⟩
          · rintro ⟨hdraws | ⟨hlazy, hheld⟩, hnot⟩
            · exact (hnot hdraws).elim
            · exact ⟨⟨hlazy, hheld⟩, by simpa [Fate.draws_of_lazy hlazy] using hnot⟩
  | work i =>
      cases hf : (fates as)[i]? with
      | none => simp [subject, Action.change, Action.draws, hf]
      | some f =>
          simp only [subject, Action.change, Action.draws, hf, Option.map_some, Option.some.injEq,
            exists_eq_left', Fate.draws_work, Bool.or_eq_true]
          constructor
          · exact fun hawaits => ⟨.inr hawaits, by simp [Fate.not_draws_of_awaitsPool hawaits]⟩
          · rintro ⟨hdraws | hawaits, hnot⟩
            · exact (hnot hdraws).elim
            · exact hawaits
  | drop i =>
      cases hf : (fates as)[i]? with
      | none => simp [subject, Action.change, Action.draws, hf]
      | some f => simp [subject, Action.change, Action.draws, hf, Fate.draws_drop]

/-- A computation that was handed to the pool has drawn when the pool has run it, whether or not it
was dropped. -/
theorem drawn_of_work {f : Fate} (hf : (fates as)[i]? = some f) (hway : f.way = .blocking)
    (hpool : f.pool = true) : Drawn (.work i :: as) i := by
  rw [Drawn, fates, List.getElem?_modify, hf]
  refine ⟨f.work, by simp, ?_⟩
  rw [Fate.draws_work]
  simp only [Fate.draws, Fate.ranOnPool, Fate.awaitsPool, hway, hpool]
  cases f.executed <;> simp

/-- What an action draws is the identifier that the source is at; what it only gives was drawn before
by the same computation. -/
theorem step_eq (h : Accounts next bits w₀ as s) (a : Action) :
    let f := (fates as)[subject as a]?
    let r := s.step (drawFrom next bits) a
    (r.1, r.2.world.state) =
      if a.draws f then (a.reply (Uuid.randomised (bits s.world.state)) f, next s.world.state)
      else (a.reply (identifierOf next bits w₀ as (subject as a)) f, s.world.state) := by
  obtain ⟨hreply, hafter⟩ := h.step a
  by_cases hdraws : a.draws (fates as)[subject as a]? = true
  · obtain ⟨hdrawn, hnot⟩ := (draws_iff a as).mp hdraws
    obtain ⟨hidentifier, hstate⟩ := h.of_new hdrawn hnot
    simp only [if_pos hdraws, hreply, hafter.state, hidentifier, hstate]
  · have hnone := mt (draws_iff a as).mpr hdraws
    simp only [if_neg hdraws, hreply, hafter.state, h.of_old hnone, Prod.mk.injEq, and_true]
    -- A result that is given without a draw was drawn before, so its turn is the same as ever.
    refine Action.reply_congr fun v hv => ?_
    have hdrawn : Drawn as (subject as a) :=
      Decidable.byContradiction fun hnot => hnone ⟨(of_reply_ready hv).2.1, hnot⟩
    rw [identifierOf, identifierOf, hdrawn.turn_cons]

/-! ### The strategies -/

/-- The draws of the generator of identifiers are of this kind. -/
theorem draw_eq_drawFrom : draw = drawFrom Source.next (fun source => source.next.state) := rfl

/-- To hand a computation to the pool and have it run at once is what the strategy does that knows
nothing of other computations. -/
theorem work_create_eq_suspend (draw : Thunk σ Uuid) (s : Session σ) :
    let (result, w) := suspend .blocking true draw s.world
    (((s.step draw (.create .blocking true)).2.step draw (.work s.entries.length)).2 =
      ⟨w, s.entries ++ [(Session.settle result).2]⟩) := by
  simp [Session.step, suspend, Session.settle]

/-! ### Whole runs -/

/-- In every session the draws and the results that were given match.

The source is as many states ahead as computations have drawn, and each of these has drawn once: on
its creation, on the pool, or when it was polled. What an action draws is the identifier that the
source is at; without a draw the source stays where it is. Each result goes to one computation, which
gives it once, and it is the identifier that this computation has drawn in its turn. The draws of the
generator are draws of this kind, and a computation that the pool runs at once is the one that the
strategy makes. -/
theorem draws_have_one_owner (next : σ → σ) (bits : σ → Nat) (w₀ : World σ) (as : List Action) :
    Random.draw = drawFrom Source.next (fun source => source.next.state) ∧
    (∀ (draw : Thunk σ Uuid) (s : Session σ),
      let (result, w) := suspend .blocking true draw s.world
      ((s.step draw (.create .blocking true)).2.step draw (.work s.entries.length)).2 =
        ⟨w, s.entries ++ [(Session.settle result).2]⟩) ∧
    let draw := drawFrom next bits
    let s := Session.run draw w₀ as
    s.world.state = Nat.repeat next (drawers as).length w₀.state ∧
    (drawers as).Nodup ∧
    (drawers as).length = (fates as).countP (·.way.atOnce) + (fates as).countP Fate.ranOnPool +
      (fates as).countP Fate.ranByPoll ∧
    (∀ a, let f := (fates as)[subject as a]?
      let r := s.step draw a
      drawers (a :: as) = (if a.draws f then [subject as a] else []) ++ drawers as ∧
      (r.1, r.2.world.state) =
        if a.draws f then (a.reply (Uuid.randomised (bits s.world.state)) f, next s.world.state)
        else (a.reply (identifierOf next bits w₀ as (subject as a)) f, s.world.state)) ∧
    (∀ i f, (fates as)[i]? = some f →
      (i ∈ drawers as ↔ f.draws = true) ∧
      (f.way = .blocking → f.pool = true → i ∈ drawers (.work i :: as))) ∧
    ((deliveries draw w₀ as).map Prod.fst).Nodup ∧
    (∀ i u, (i, u) ∈ deliveries draw w₀ as →
      ∃ k, (drawers as).reverse[k]? = some i ∧ u = identifierAt next bits w₀ k ∧
        u.version = 4 ∧ u.variantBits = 2) := by
  have haccounts := accounts_run next bits w₀ as
  refine ⟨draw_eq_drawFrom, work_create_eq_suspend, haccounts.state,
    drawers_nodup as, by rw [length_drawers, countP_draws],
    fun a => ⟨?_, step_eq haccounts a⟩, fun i f hf => ⟨?_, fun hway hpool => ?_⟩,
    deliveries_nodup next bits w₀ as, fun i u hmem => ?_⟩
  case refine_1 =>
    by_cases hdraws : a.draws (fates as)[subject as a]? = true
    · rw [drawers, if_pos ((draws_iff a as).mp hdraws), if_pos hdraws, List.singleton_append]
    · rw [drawers, if_neg (mt (draws_iff a as).mpr hdraws), if_neg hdraws, List.nil_append]
  case refine_2 => simp [mem_drawers, Drawn, hf]
  case refine_3 => exact mem_drawers.mpr (drawn_of_work hf hway hpool)
  case refine_4 =>
    obtain ⟨hdrawn, -, rfl⟩ := of_mem_deliveries hmem
    exact ⟨turn as i, hdrawn.getElem?_turn, rfl, Uuid.version_randomised _,
      Uuid.variantBits_randomised _⟩

/-- The first of three computations is dropped unpolled, the second gives what the pool has drawn
for it, and the third draws when it is polled. -/
example :
    (deliveries (drawFrom (· + 1) id) ⟨0, [], false⟩ [.poll 2, .poll 1, .drop 0, .work 1,
      .create .boxed true, .create .blocking true, .create .deferred true]).map Prod.fst = [2, 1] := by
  decide +kernel

end Random

end TypedId
