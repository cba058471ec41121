import TypedId.Proofs.Random.Fates

/-!
Every draw of a session has one owner.

The source is as many steps ahead as computations have drawn, and what is left of each computation
can be told from its fate and from the identifier of its own turn (`Accounts`). Every action keeps
it so, and its reply can be told too (`Accounts.step`, `accounts_run`).
-/

namespace TypedId.Random

open Effect

variable {σ : Type} {next : σ → σ} {bits : σ → Nat} {w₀ : World σ} {as : List Action} {s : Session σ}
  {f : Fate} {u : Uuid}

/-- The identifier of a turn. -/
def identifierAt (next : σ → σ) (bits : σ → Nat) (w₀ : World σ) (turn : Nat) : Uuid :=
  Uuid.randomised (bits (Nat.repeat next turn w₀.state))

/-- The identifier of a computation's own turn. -/
def identifierOf (next : σ → σ) (bits : σ → Nat) (w₀ : World σ) (as : List Action) (i : Nat) : Uuid :=
  identifierAt next bits w₀ (turn as i)

namespace Fate

/-- The kind of the handle of a computation. -/
def kind (f : Fate) : Kind :=
  match f.way with
  | .deferred => .deferred
  | .boxed => .boxed
  | _ => .spawned

/-- The handle of a computation that draws the identifier. -/
def handle (draw : Thunk σ Uuid) (u : Uuid) (f : Fate) : Computation σ Uuid :=
  match f.way with
  | .deferred => .deferred (if f.polled then none else some draw)
  | .boxed => .boxed (if f.polled then none else some draw)
  | _ => .spawned (if f.polled then none else some (.ok u))

/-- What is left of a computation. -/
def entry (draw : Thunk σ Uuid) (u : Uuid) (f : Fate) : Entry σ :=
  if f.awaitsPool then .queued f.held
  else if f.held then .held (f.handle draw u)
  else .gone

/-- Once the pool has run a computation, its handle has the result. -/
theorem entry_work (draw : Thunk σ Uuid) (u : Uuid) (hawaits : f.awaitsPool = true)
    (hpolled : f.polled = false) :
    f.work.entry draw u = if f.held then .held (.spawned (some (.ok u))) else .gone := by
  obtain ⟨way, pool, polled, executed, dropped⟩ := f
  cases hpolled
  cases way <;> cases executed <;> cases pool <;> cases dropped <;> first | rfl | cases hawaits

theorem entry_of_not_held (draw : Thunk σ Uuid) (u : Uuid) (h : ¬ f.held = true) :
    f.entry draw u = .gone ∨ f.entry draw u = .queued false := by
  rw [entry, Bool.eq_false_iff.mpr h]
  split
  · exact .inr rfl
  · exact .inl rfl

theorem held_dropped (f : Fate) : Fate.held { f with dropped := true } = false := by
  simp [held]

theorem poll_handle (draw : Thunk σ Uuid) (u : Uuid) (f : Fate) (w : World σ) :
    (f.handle draw u).poll w =
      if f.polled then (.error (.completed f.kind), f.handle draw u, w)
      else if f.way.lazy then
        ((draw w).1, { f with polled := true }.handle draw u, (draw w).2)
      else (.ok u, { f with polled := true }.handle draw u, w) := by
  obtain ⟨way, pool, polled, executed, dropped⟩ := f
  cases way <;> cases polled <;> rfl

/-- The handle of a computation that draws when it is polled knows nothing of an identifier, nor does
one that was polled. -/
theorem handle_congr {draw : Thunk σ Uuid} {u u' : Uuid} (h : f.way.lazy = true ∨ f.polled = true) :
    f.handle draw u = f.handle draw u' := by
  obtain ⟨way, pool, polled, executed, dropped⟩ := f
  cases way <;> cases polled <;> first | rfl | simp [Way.lazy] at h

/-- What is left of a computation does not tell of an identifier that was not drawn. -/
theorem entry_congr {draw : Thunk σ Uuid} {u u' : Uuid} (h : f.draws = true → u = u') :
    f.entry draw u = f.entry draw u' := by
  obtain ⟨way, pool, polled, executed, dropped⟩ := f
  cases way <;> cases executed <;> first | rfl | rw [h rfl] | (cases pool <;> rfl)

end Fate

/-- What comes of an action, told from the fate of its subject and from its identifier. -/
def Action.reply (u : Uuid) : Action → Option Fate → Reply
  | .create way pool, _ =>
    if way.atOnce then .ready u else if way = .blocking ∧ pool = false then .panicked .noPool else .created
  | .poll _, some f =>
    if f.held then
      if f.awaitsPool then .pending
      else if f.polled then .panicked (.completed f.kind)
      else .ready u
    else .nothing
  | .work _, some f => if f.awaitsPool then .worked else .nothing
  | .drop _, some f => if f.held then .dropped else .nothing
  | _, none => .nothing

/-- Only a reply that gives a result tells of an identifier. -/
theorem Action.reply_congr {a : Action} {f : Option Fate} {u' : Uuid}
    (h : ∀ v, a.reply u f = .ready v → u = u') : a.reply u f = a.reply u' f := by
  cases a <;> cases f <;> grind [Action.reply]

/-- Whether a session is as its actions tell. -/
structure Accounts (next : σ → σ) (bits : σ → Nat) (w₀ : World σ) (as : List Action) (s : Session σ) :
    Prop where
  state : s.world.state = Nat.repeat next (drawers as).length w₀.state
  length : s.entries.length = (fates as).length
  entries : ∀ i, s.entries[i]? =
    (fates as)[i]?.map (Fate.entry (drawFrom next bits) (identifierOf next bits w₀ as i))

namespace Accounts

variable {a : Action} {s' : Session σ}

theorem empty : Accounts next bits w₀ [] (.empty w₀) := ⟨rfl, rfl, fun _ => rfl⟩

/-- A new draw takes the identifier that the source is at, and moves the source on. -/
theorem of_new (h : Accounts next bits w₀ as s) (hdrawn : Drawn (a :: as) (subject as a))
    (hnew : ¬ Drawn as (subject as a)) :
    identifierOf next bits w₀ (a :: as) (subject as a) = Uuid.randomised (bits s.world.state) ∧
      Nat.repeat next (drawers (a :: as)).length w₀.state = next s.world.state := by
  rw [identifierOf, turn_of_new hdrawn hnew, identifierAt, drawers, if_pos ⟨hdrawn, hnew⟩, h.state]
  exact ⟨rfl, rfl⟩

/-- Without a new draw the source stays where it is. -/
theorem of_old (h : Accounts next bits w₀ as s)
    (hold : ¬ (Drawn (a :: as) (subject as a) ∧ ¬ Drawn as (subject as a))) :
    Nat.repeat next (drawers (a :: as)).length w₀.state = s.world.state := by
  rw [drawers, if_neg hold, h.state]

/-- A session is as its actions tell if it was before, and only what is left of the subject of the
last action has changed. -/
theorem cons (h : Accounts next bits w₀ as s)
    (hstate : s'.world.state = Nat.repeat next (drawers (a :: as)).length w₀.state)
    (hlength : s'.entries.length = (fates (a :: as)).length)
    (hsubject : s'.entries[subject as a]? = (a.change (fates as)[subject as a]?).map
      (Fate.entry (drawFrom next bits) (identifierOf next bits w₀ (a :: as) (subject as a))))
    (hothers : ∀ i, i ≠ subject as a → s'.entries[i]? = s.entries[i]?) :
    Accounts next bits w₀ (a :: as) s' := by
  refine ⟨hstate, hlength, fun i => ?_⟩
  rw [getElem?_fates_cons]
  by_cases hi : i = subject as a
  · rw [if_pos hi]
    exact hi ▸ hsubject
  · rw [if_neg hi, hothers i hi, h.entries i]
    cases hf : (fates as)[i]? with
    | none => simp only [Option.map_none]
    | some f =>
        refine congrArg some (Fate.entry_congr fun hdraws => ?_)
        have hdrawn : Drawn as i := ⟨f, hf, hdraws⟩
        rw [identifierOf, identifierOf, hdrawn.turn_cons]

/-! ### Each action -/

variable (way : Way) (pool : Bool) (i : Nat)

/-- A computation with a new number stands behind those that were there. -/
theorem appended (h : Accounts next bits w₀ as s) {w : World σ} {e : Entry σ}
    (hstate : w.state = Nat.repeat next (drawers (.create way pool :: as)).length w₀.state)
    (hentry : e = (Fate.created way pool).entry (drawFrom next bits)
      (identifierOf next bits w₀ (.create way pool :: as) (fates as).length)) :
    Accounts next bits w₀ (.create way pool :: as) ⟨w, s.entries ++ [e]⟩ := by
  refine h.cons hstate ?_ ?_ fun i hi => ?_
  · simp only [List.length_append, h.length, fates]
    rfl
  · show (s.entries ++ [e])[(fates as).length]? = _
    rw [← h.length, List.getElem?_concat_length, hentry]
    rfl
  · have hne : i ≠ s.entries.length := h.length ▸ hi
    show (s.entries ++ [e])[i]? = _
    grind

theorem create (h : Accounts next bits w₀ as s) :
    (s.step (drawFrom next bits) (.create way pool)).1 =
        (Action.create way pool).reply
          (identifierOf next bits w₀ (.create way pool :: as) (fates as).length) none ∧
      Accounts next bits w₀ (.create way pool :: as) (s.step (drawFrom next bits) (.create way pool)).2 := by
  have hdrawn : Drawn (.create way pool :: as) (fates as).length ↔ way.atOnce = true := by
    rw [Drawn, fates, List.getElem?_concat_length]
    simp [Fate.draws_created]
  have hnew : ¬ Drawn as (fates as).length := by simp [Drawn]
  have hlater : way.atOnce = false →
      s.world.state = Nat.repeat next (drawers (.create way pool :: as)).length w₀.state := by
    intro hway
    refine (h.of_old fun hold => ?_).symm
    exact absurd (hdrawn.mp hold.1) (by simp [hway])
  have hatOnce : way.atOnce = true →
      identifierOf next bits w₀ (.create way pool :: as) (fates as).length =
          Uuid.randomised (bits s.world.state) ∧
        next s.world.state = Nat.repeat next (drawers (.create way pool :: as)).length w₀.state := by
    intro hway
    exact (h.of_new (hdrawn.mpr hway) hnew).imp_right Eq.symm
  cases way with
  | deferred | boxed => exact ⟨rfl, h.appended _ _ (hlater rfl) rfl⟩
  | immediate | direct =>
      obtain ⟨hidentifier, hstate⟩ := hatOnce rfl
      exact ⟨congrArg Reply.ready hidentifier.symm, h.appended _ _ hstate rfl⟩
  | blocking =>
      cases pool with
      | true => exact ⟨rfl, h.appended _ _ (hlater rfl) rfl⟩
      | false => exact ⟨rfl, h.appended _ _ (hlater rfl) rfl⟩

/-- An action that leaves the fate of its subject as it is leaves the session as it is. -/
theorem unchanged (h : Accounts next bits w₀ as s) {g : Fate → Fate}
    (hfates : fates (a :: as) = (fates as).modify i g)
    (hfixed : ∀ f, (fates as)[i]? = some f → g f = f) : Accounts next bits w₀ (a :: as) s := by
  have hsame : fates (a :: as) = fates as := by
    rw [hfates]
    refine List.ext_getElem? fun j => ?_
    rw [List.getElem?_modify]
    by_cases hj : i = j
    · subst hj
      cases hf : (fates as)[i]? with
      | none => rfl
      | some f => simp [hfixed f hf]
    · simp [hj]
  have hdrawers : drawers (a :: as) = drawers as := by
    have hdrawn : ∀ j, Drawn (a :: as) j ↔ Drawn as j := fun j => by rw [Drawn, Drawn, hsame]
    rw [drawers, if_neg fun hnew => hnew.2 ((hdrawn _).mp hnew.1)]
  refine ⟨hdrawers ▸ h.state, hsame ▸ h.length, fun j => ?_⟩
  have hidentifier : identifierOf next bits w₀ (a :: as) j = identifierOf next bits w₀ as j := by
    rw [identifierOf, identifierOf, turn, turn, hdrawers]
  rw [hsame, hidentifier, h.entries j]

/-- An action that concerns one computation replaces what is left of it. -/
theorem replaced (h : Accounts next bits w₀ as s) {g : Fate → Fate} {w : World σ} {e : Entry σ}
    (hfates : fates (a :: as) = (fates as).modify i g) (hsubject : subject as a = i)
    (hf : (fates as)[i]? = some f)
    (hstate : w.state = Nat.repeat next (drawers (a :: as)).length w₀.state)
    (hentry : e = (g f).entry (drawFrom next bits) (identifierOf next bits w₀ (a :: as) i)) :
    Accounts next bits w₀ (a :: as) ⟨w, s.entries.set i e⟩ := by
  have hlt : i < s.entries.length := h.length ▸ (List.getElem?_eq_some_iff.mp hf).1
  have hchange : a.change (fates as)[i]? = some (g f) := by
    have hget := getElem?_fates_cons a as i
    rw [if_pos hsubject.symm, hfates, List.getElem?_modify, hf] at hget
    simp only [if_true, hf] at hget ⊢
    exact hget.symm
  refine h.cons hstate ?_ ?_ fun j hj => ?_
  · simp only [List.length_set, h.length, hfates, List.length_modify]
  · rw [hsubject, hchange]
    show (s.entries.set i e)[i]? = _
    rw [List.getElem?_set_self hlt, hentry]
    rfl
  · show (s.entries.set i e)[j]? = _
    rw [List.getElem?_set_ne (hsubject ▸ Ne.symm hj)]

/-- A handle that is held and awaits nothing is polled. -/
theorem poll_held (h : Accounts next bits w₀ as s) (hf : (fates as)[i]? = some f) (hheld : f.held = true)
    (hawaits : ¬ f.awaitsPool = true) :
    (s.step (drawFrom next bits) (.poll i)).1 =
        (Action.poll i).reply (identifierOf next bits w₀ (.poll i :: as) i) (some f) ∧
      Accounts next bits w₀ (.poll i :: as) (s.step (drawFrom next bits) (.poll i)).2 := by
  have hentry := h.entries i
  rw [hf, Option.map_some, Fate.entry, if_neg hawaits, if_pos hheld] at hentry
  have hold : Drawn as i ↔ f.draws = true := by simp [Drawn, hf]
  have hnew : Drawn (.poll i :: as) i ↔ f.draws = true ∨ (f.way.lazy = true ∧ f.held = true) := by
    rw [Drawn, fates, List.getElem?_modify, hf]
    simp [Fate.draws_poll]
  have hlater : ∀ u, f.poll.entry (drawFrom next bits) u =
      .held ({ f with polled := true }.handle (drawFrom next bits) u) := by
    intro u
    have hpoll : f.poll = { f with polled := true } := by simp [Fate.poll, hheld, hawaits]
    have hheld' : Fate.held { f with polled := true } = true := hheld
    have hawaits' : ¬ Fate.awaitsPool { f with polled := true } = true := hawaits
    rw [hpoll, Fate.entry, if_neg hawaits', if_pos hheld']
  simp only [Session.step, hentry, Fate.poll_handle, Action.reply, hheld, hawaits, if_true,
    Bool.false_eq_true, if_false]
  by_cases hpolled : f.polled = true
  · have hsame : { f with polled := true } = f := by rw [← hpolled]
    have hnone : ¬ (Drawn (.poll i :: as) i ∧ ¬ Drawn as i) := by
      rw [hnew, hold]
      rintro ⟨hdraws | ⟨hlazy, -⟩, hnot⟩
      · exact hnot hdraws
      · exact hnot (by rw [Fate.draws_of_lazy hlazy, hpolled])
    rw [if_pos hpolled, if_pos hpolled]
    refine ⟨rfl, h.replaced i rfl rfl hf (h.of_old hnone).symm ?_⟩
    rw [hlater, hsame]
    exact congrArg _ (Fate.handle_congr (.inr hpolled))
  rw [if_neg hpolled, if_neg hpolled]
  by_cases hlazy : f.way.lazy = true
  · have hnot : ¬ f.draws = true := by rwa [Fate.draws_of_lazy hlazy]
    obtain ⟨hidentifier, hstate⟩ :=
      h.of_new (a := .poll i) (hnew.mpr (.inr ⟨hlazy, hheld⟩)) (fun hd => hnot (hold.mp hd))
    rw [if_pos hlazy]
    refine ⟨congrArg Reply.ready hidentifier.symm, h.replaced i rfl rfl hf hstate.symm ?_⟩
    rw [hlater]
    exact congrArg _ (Fate.handle_congr (.inl hlazy))
  · have hdrawn : Drawn as i := hold.mpr (Fate.draws_of_held hheld hawaits hlazy)
    have hidentifier : identifierOf next bits w₀ (.poll i :: as) i = identifierOf next bits w₀ as i := by
      rw [identifierOf, identifierOf, hdrawn.turn_cons]
    rw [if_neg hlazy, hidentifier]
    refine ⟨rfl, h.replaced i rfl rfl hf (h.of_old (a := .poll i) fun hd => hd.2 hdrawn).symm ?_⟩
    rw [hlater, hidentifier]

theorem poll (h : Accounts next bits w₀ as s) :
    (s.step (drawFrom next bits) (.poll i)).1 =
        (Action.poll i).reply (identifierOf next bits w₀ (.poll i :: as) i) (fates as)[i]? ∧
      Accounts next bits w₀ (.poll i :: as) (s.step (drawFrom next bits) (.poll i)).2 := by
  have hentry := h.entries i
  cases hf : (fates as)[i]? with
  | none =>
      rw [hf, Option.map_none] at hentry
      simp only [Session.step, hentry]
      exact ⟨rfl, h.unchanged i rfl (by simp [hf])⟩
  | some f =>
      rw [hf, Option.map_some] at hentry
      by_cases hheld : f.held = true
      case neg =>
        have hpoll : f.poll = f := by simp [Fate.poll, hheld]
        have hleft := Fate.entry_of_not_held (drawFrom next bits) (identifierOf next bits w₀ as i) hheld
        have hstep : s.step (drawFrom next bits) (.poll i) = (.nothing, s) := by
          obtain hleft | hleft := hleft <;> simp only [Session.step, hentry, hleft]
        rw [hstep]
        exact ⟨by simp [Action.reply, hheld], h.unchanged i rfl (by simp [hf, hpoll])⟩
      by_cases hawaits : f.awaitsPool = true
      case pos =>
        have hpoll : f.poll = f := by simp [Fate.poll, hawaits]
        have hstep : s.step (drawFrom next bits) (.poll i) = (.pending, s) := by
          simp only [Session.step, hentry, Fate.entry, hawaits, hheld, if_true]
        rw [hstep]
        exact ⟨by simp [Action.reply, hheld, hawaits], h.unchanged i rfl (by simp [hf, hpoll])⟩
      exact h.poll_held i hf hheld hawaits

theorem work (h : Accounts next bits w₀ as s) :
    (s.step (drawFrom next bits) (.work i)).1 =
        (Action.work i).reply (identifierOf next bits w₀ (.work i :: as) i) (fates as)[i]? ∧
      Accounts next bits w₀ (.work i :: as) (s.step (drawFrom next bits) (.work i)).2 := by
  have hentry := h.entries i
  cases hf : (fates as)[i]? with
  | none =>
      rw [hf, Option.map_none] at hentry
      simp only [Session.step, hentry]
      exact ⟨rfl, h.unchanged i rfl (by simp [hf])⟩
  | some f =>
      rw [hf, Option.map_some] at hentry
      by_cases hawaits : f.awaitsPool = true
      case neg =>
        have hwork : f.work = f := by simp [Fate.work, hawaits]
        have hleft : ∀ kept, s.entries[i]? ≠ some (.queued kept) := by
          intro kept
          rw [hentry, Fate.entry, if_neg hawaits]
          split <;> simp
        have hstep : s.step (drawFrom next bits) (.work i) = (.nothing, s) := by
          rw [Session.step]
          split
          · next kept hkept => exact (hleft kept hkept).elim
          · rfl
        rw [hstep]
        exact ⟨by simp [Action.reply, hawaits], h.unchanged i rfl (by simp [hf, hwork])⟩
      case pos =>
        have hold : ¬ Drawn as i := by
          simp [Drawn, hf, Fate.not_draws_of_awaitsPool hawaits]
        have hnew : Drawn (.work i :: as) i := by
          rw [Drawn, fates, List.getElem?_modify, hf]
          simp [Fate.draws_work, hawaits]
        obtain ⟨hidentifier, hstate⟩ := h.of_new (a := .work i) hnew hold
        have hleft : s.entries[i]? = some (.queued f.held) := by
          rw [hentry, Fate.entry, if_pos hawaits]
        simp only [Session.step, hleft, Action.reply, hawaits, if_true]
        refine ⟨trivial, h.replaced i rfl rfl hf hstate.symm ?_⟩
        rw [Fate.entry_work _ _ hawaits (polled_of_awaitsPool hf hawaits),
          show identifierOf next bits w₀ (.work i :: as) i = _ from hidentifier]
        rfl

theorem drop (h : Accounts next bits w₀ as s) :
    (s.step (drawFrom next bits) (.drop i)).1 =
        (Action.drop i).reply (identifierOf next bits w₀ (.drop i :: as) i) (fates as)[i]? ∧
      Accounts next bits w₀ (.drop i :: as) (s.step (drawFrom next bits) (.drop i)).2 := by
  have hentry := h.entries i
  cases hf : (fates as)[i]? with
  | none =>
      rw [hf, Option.map_none] at hentry
      simp only [Session.step, hentry]
      exact ⟨rfl, h.unchanged i rfl (by simp [hf])⟩
  | some f =>
      rw [hf, Option.map_some] at hentry
      have hnone : ¬ (Drawn (.drop i :: as) i ∧ ¬ Drawn as i) := by
        rintro ⟨hnew, hold⟩
        rw [Drawn, fates, List.getElem?_modify, hf] at hnew
        exact hold (by simpa [Drawn, hf, Fate.draws_drop] using hnew)
      have hstate := h.of_old (a := .drop i) hnone
      by_cases hheld : f.held = true
      case neg =>
        have hdrop : f.drop = f := by simp [Fate.drop, hheld]
        have hleft := Fate.entry_of_not_held (drawFrom next bits) (identifierOf next bits w₀ as i) hheld
        have hstep : s.step (drawFrom next bits) (.drop i) = (.nothing, s) := by
          obtain hleft | hleft := hleft <;> simp only [Session.step, hentry, hleft]
        rw [hstep]
        exact ⟨by simp [Action.reply, hheld], h.unchanged i rfl (by simp [hf, hdrop])⟩
      case pos =>
        have hreply : (Action.drop i).reply (identifierOf next bits w₀ (.drop i :: as) i) (some f) =
            .dropped := by
          simp [Action.reply, hheld]
        rw [hreply]
        by_cases hawaits : f.awaitsPool = true
        · have hleft : s.entries[i]? = some (.queued true) := by
            rw [hentry, Fate.entry, if_pos hawaits, hheld]
          have hstill : Fate.awaitsPool { f with dropped := true } = true := hawaits
          simp only [Session.step, hleft]
          exact ⟨trivial, h.replaced i rfl rfl hf hstate.symm (by
            simp [Fate.entry, Fate.drop, hheld, Fate.held_dropped, hstill])⟩
        · have hleft : s.entries[i]? = some (.held (f.handle (drawFrom next bits)
              (identifierOf next bits w₀ as i))) := by
            rw [hentry, Fate.entry, if_neg hawaits, if_pos hheld]
          have hstill : ¬ Fate.awaitsPool { f with dropped := true } = true := hawaits
          simp only [Session.step, hleft]
          exact ⟨trivial, h.replaced i rfl rfl hf hstate.symm (by
            simp [Fate.entry, Fate.drop, hheld, Fate.held_dropped, hstill])⟩

end Accounts

/-- Every action keeps the accounts, and its reply can be told from the fate of its subject. -/
theorem Accounts.step (h : Accounts next bits w₀ as s) (a : Action) :
    (s.step (drawFrom next bits) a).1 =
        a.reply (identifierOf next bits w₀ (a :: as) (subject as a)) (fates as)[subject as a]? ∧
      Accounts next bits w₀ (a :: as) (s.step (drawFrom next bits) a).2 := by
  cases a with
  | create way pool => exact h.create way pool
  | poll i => exact h.poll i
  | work i => exact h.work i
  | drop i => exact h.drop i

/-- Every run keeps the accounts. -/
theorem accounts_run (next : σ → σ) (bits : σ → Nat) (w₀ : World σ) (as : List Action) :
    Accounts next bits w₀ as (Session.run (drawFrom next bits) w₀ as) := by
  induction as with
  | nil => exact .empty
  | cons a as ih => exact (ih.step a).2

end TypedId.Random
