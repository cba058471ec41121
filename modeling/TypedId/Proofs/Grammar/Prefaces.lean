import TypedId.Proofs.Grammar.Selections

/-!
Things with something before them.

Attributes are held back until the thing behind them has been read. Then both are written; or the
attributes are left out, because the thing is kept in its source spelling; or both are kept in their
source spelling. `Rule.prefaced` is that, and it is read again if both parts are.
-/

namespace TypedId.Grammar

open Lexeme

variable {g : PhraseReader} {m : Rendition} {s : List Lexeme} {α β γ δ : Type}

/-- How a thing is written together with what stands before it. -/
inductive Preface where
  /-- Both are written. -/
  | written
  /-- What stands before the thing is left out. -/
  | dropped
  /-- Both are written in their source spelling. -/
  | source
deriving DecidableEq

/-- What is written for two texts, one before the other, of which each was taken and written. -/
def Preface.text (preface : Preface) (taken written taken' written' : List Lexeme) : List Lexeme :=
  match preface with
  | .written => written ++ written'
  | .dropped => written'
  | .source => taken ++ taken'

namespace Rule

/-- Reads something and a thing behind it, which tells how both are written. -/
def prefaced (preface : β → Preface) (before : Rule α) (rule : Rule β) : Rule (α × β) := do
  let start ← look
  let (a, text) ← hold before
  let (b, body) ← hold rule
  match preface b with
  | .written => write (text ++ body)
  | .dropped => write body
  | .source => writeSince start
  return (a, b)

theorem run_prefaced_of_ok (preface : β → Preface) {before : Rule α} {rule : Rule β} {r : Reader}
    {a : α} {b : β} {taken written taken' written' middle rest : List Lexeme}
    (hr : r.rest = taken ++ taken' ++ rest)
    (hbefore : before.run g r.unwritten = .ok (a, r.unwritten.after taken written middle))
    (hrule : rule.run g (r.after taken [] middle).unwritten =
      .ok (b, (r.after taken [] middle).unwritten.after taken' written' rest)) :
    (prefaced preface before rule).run g r =
      .ok ((a, b), r.after (taken ++ taken') ((preface b).text taken written taken' written') rest) := by
  rw [prefaced, run_bind_of_ok (run_look r), run_bind_of_ok (run_hold_of_ok hbefore)]
  dsimp only
  have hrule' : rule.run g
      { r.unwritten.after taken written middle with written := r.written }.unwritten =
      .ok (b, (r.after taken [] middle).unwritten.after taken' written' rest) := hrule
  rw [run_bind_of_ok (run_hold_of_ok hrule')]
  dsimp only
  cases preface b with
  | written | dropped =>
      rw [run_bind_of_ok (run_write ..), run_pure]
      simp [Reader.after, Reader.unwritten, Reader.take, Preface.text, Nat.add_assoc]
  | source =>
      rw [run_bind_of_ok (Rereads.run_writeSince (taken ++ taken') rest hr ?_), run_pure]
      · simp [Reader.after, Reader.unwritten, Reader.take, Preface.text, Nat.add_assoc]
      · simp [Reader.after, Reader.unwritten, Nat.add_assoc]

/-- Both parts are read where both together are. -/
theorem of_run_prefaced {preface : β → Preface} {before : Rule α} {rule : Rule β} {r r' : Reader}
    {x : α × β} (h : (prefaced preface before rule).run g r = .ok (x, r')) :
    ∃ r₁ r₂, before.run g r.unwritten = .ok (x.1, r₁) ∧ rule.run g r₁.unwritten = .ok (x.2, r₂) ∧
      r₂.toView = r'.toView ∧ r₂.stray = r'.stray := by
  obtain ⟨v, r₀, hlook, h⟩ := run_bind_eq_ok.mp h
  rw [run_look] at hlook
  cases hlook
  obtain ⟨y, r₃, hhold, h⟩ := run_bind_eq_ok.mp h
  obtain ⟨a, r₁, hbefore, rfl, rfl⟩ := run_hold_eq_ok.mp hhold
  obtain ⟨z, r₄, hhold', h⟩ := run_bind_eq_ok.mp h
  obtain ⟨b, r₂, hrule, rfl, rfl⟩ := run_hold_eq_ok.mp hhold'
  dsimp only at h
  have hx : x = (a, b) ∧ r₂.toView = r'.toView ∧ r₂.stray = r'.stray := by
    split at h
    · rw [run_bind_of_ok (run_write ..), run_pure] at h
      cases h
      exact ⟨rfl, rfl, rfl⟩
    · rw [run_bind_of_ok (run_write ..), run_pure] at h
      cases h
      exact ⟨rfl, rfl, rfl⟩
    · rw [writeSince, run_bind, run_bind_of_ok (run_here _), run_write] at h
      dsimp only at h
      rw [run_pure] at h
      cases h
      exact ⟨rfl, rfl, rfl⟩
  obtain ⟨rfl, hview, hstray⟩ := hx
  exact ⟨r₁, r₂, hbefore, hrule, hview, hstray⟩

/-! ### What is written first -/

theorem run_bind_assoc (rule : Rule α) (next : α → Rule β) (further : β → Rule γ) (r : Reader) :
    (rule >>= next >>= further).run g r = (rule >>= fun a => next a >>= further).run g r := by
  rw [run_bind, run_bind, run_bind]
  cases rule.run g r with
  | error fault => rfl
  | ok read => exact (run_bind (next read.1) further read.2).symm

/-- Two texts are written one after the other. -/
theorem run_write_write (text body : List Lexeme) (next : Rule α) (r : Reader) :
    (do write text; write body; next : Rule α).run g r =
      (do write (text ++ body); next : Rule α).run g r := by
  have htake : (r.take 0 text).take 0 body = r.take 0 (text ++ body) := by simp [Reader.take]
  rw [run_bind_of_ok (run_write ..), run_bind_of_ok (run_write ..), run_bind_of_ok (run_write ..), htake]

/-- Two rules that run alike are held back alike. -/
theorem run_hold_congr {rule rule' : Rule α} {r : Reader}
    (h : rule.run g r.unwritten = rule'.run g r.unwritten) : (hold rule).run g r = (hold rule').run g r := by
  have h' : rule.run g { r with written := [] } = rule'.run g { r with written := [] } := h
  rw [run_hold_eq, run_hold_eq, h']

/-- What is written before a rule may be written with what the rule writes. -/
theorem run_write_then (hg : Blind g) (text : List Lexeme) (rule : Rule α) (r : Reader) :
    (do write text; rule : Rule α).run g r =
      (do let (a, body) ← hold rule; write (text ++ body); return a : Rule α).run g r := by
  have hunwritten : (r.take 0 text).unwritten = r.unwritten := rfl
  rw [run_bind_of_ok (run_write ..), run_eq_onto hg rule (r.take 0 text), run_bind, hunwritten]
  cases h : rule.run g r.unwritten with
  | error fault => rw [run_hold_of_error h]; rfl
  | ok read =>
      obtain ⟨a, r'⟩ := read
      rw [run_hold_of_ok h]
      simp [run_bind_of_ok (run_write ..), run_pure, Reader.take, Reader.onto]

/-- What follows something that is held back may be a thing that is written with it. -/
theorem run_prefaced_eq {preface : β → Preface} {before : Rule α} {rule : Rule β}
    {rest : View → α × List Lexeme → Rule δ} {next : α × β → Rule δ} (r : Reader)
    (h : ∀ a text r₁, (hold before).run g r = .ok ((a, text), r₁) →
      (rest r.toView (a, text)).run g r₁ =
        (do
          let (b, body) ← hold rule
          match preface b with
          | .written => write (text ++ body)
          | .dropped => write body
          | .source => writeSince r.toView
          next (a, b) : Rule δ).run g r₁) :
    (do let start ← look; let x ← hold before; rest start x : Rule δ).run g r =
      (prefaced preface before rule >>= next).run g r := by
  rw [run_bind_of_ok (run_look r), prefaced, run_bind, run_bind, run_bind_of_ok (run_look r), run_bind]
  cases hbefore : (hold before).run g r with
  | error fault => rfl
  | ok read =>
      obtain ⟨⟨a, text⟩, r₁⟩ := read
      dsimp only
      rw [h a text r₁ hbefore, run_bind, run_bind]
      cases (hold rule).run g r₁ with
      | error fault => rfl
      | ok read =>
          obtain ⟨⟨b, body⟩, r₂⟩ := read
          dsimp only
          cases preface b <;> rfl

/-! ### Things that are read while they are wanted -/

/-- Things are read until none is wanted; where none was read, the reader stayed. -/
theorem of_run_while {wanted : List Lexeme → Bool} {rule : Rule α} {r r' : Reader} {as : List α}
    (h : (while_ wanted rule).run g r = .ok (as, r')) :
    wanted r'.rest = false ∧ (as = [] → r' = r) := by
  have hiterate : ∀ (bound : Nat) (soFar : List α) (r : Reader),
      iterate (fun soFar => (do
        if wanted (← ahead) then return .inl ((← rule) :: soFar)
        else return .inr soFar.reverse : Rule (List α ⊕ List α)).run g) bound soFar r = .ok (as, r') →
      wanted r'.rest = false ∧ (as = [] → soFar = [] ∧ r' = r) := by
    intro bound
    induction bound with
    | zero =>
        intro soFar r h
        cases h
    | succ bound ih =>
        intro soFar r h
        rw [iterate, run_bind_of_ok (run_ahead r)] at h
        cases hwanted : wanted r.rest with
        | true =>
            rw [hwanted, if_pos rfl, run_bind] at h
            cases hrule : rule.run g r with
            | error fault => simp [hrule] at h
            | ok read =>
                simp only [hrule, run_pure] at h
                obtain ⟨hstop, hnil⟩ := ih _ _ h
                exact ⟨hstop, fun has => (List.cons_ne_nil _ _ (hnil has).1).elim⟩
        | false =>
            rw [hwanted, if_neg Bool.false_ne_true, run_pure] at h
            cases h
            exact ⟨hwanted, fun has => ⟨List.reverse_eq_nil_iff.mp has, rfl⟩⟩
  rw [while_, run_repeating] at h
  obtain ⟨hstop, hnil⟩ := hiterate _ [] r h
  exact ⟨hstop, fun has => (hnil has).2⟩

/-- Where none is wanted, none is read. -/
theorem run_while_of_not {wanted : List Lexeme → Bool} {rule : Rule α} {r : Reader}
    (h : wanted r.rest = false) : (while_ wanted rule).run g r = .ok ([], r) := by
  rw [while_, run_repeating, iterate, run_bind_of_ok (run_ahead r), h, if_neg Bool.false_ne_true, run_pure]
  rfl

end Rule

/-- Unless a preface is left out, it stands there with its thing in one rendition. -/
theorem Preface.exists_rendition (preface : Preface) {m : Rendition}
    (h : ¬ (m = .written ∧ preface = .dropped))
    (taken written taken' written' : List Lexeme) :
    ∃ m' : Rendition,
      m.text (taken ++ taken') (preface.text taken written taken' written') =
        m'.text taken written ++ m'.text taken' written' ∧
      (m' = .written → preface ≠ .source) ∧ (preface = .source → m' = .source) := by
  cases m with
  | source => exact ⟨.source, rfl, fun h => Rendition.noConfusion h, fun _ => rfl⟩
  | written =>
      cases preface with
      | written => exact ⟨.written, rfl, fun _ h => Preface.noConfusion h, fun h => Preface.noConfusion h⟩
      | dropped => exact (h ⟨rfl, rfl⟩).elim
      | source => exact ⟨.source, rfl, fun h => Rendition.noConfusion h, fun _ => rfl⟩

namespace Rereads

/-- Where each text of a rule is read again, both begin alike and tell the same. -/
theorem renditions {rule rule' : Rule α} {keep : α → γ} {front : List Lexeme → Prop}
    {follow : Rendition → α → List Lexeme → List Lexeme → Prop}
    (h : ∀ m, Rereads g m s rule rule' keep front (follow m)) (hg : Tidy g) {r r' : Reader} {a : α}
    (hs : r.rest = s) (hb : Balanced s) (hrun : rule.run g r = .ok (a, r')) (hstray : r'.stray = none) :
    ∃ taken written, Closed taken ∧ r.stray = none ∧ s = taken ++ r'.rest ∧
      r' = r.after taken written r'.rest ∧
      ∀ m q k, q.rest = Rendition.text m taken written ++ k → q.stray = none → follow m a r'.rest k →
        front q.rest ∧ ∃ a', keep a' = keep a ∧
          rule'.run g q = .ok (a', q.after (m.text taken written) written k) := by
  obtain ⟨taken, written, hclosed, hstray₀, hrest, hafter, -⟩ := h .source hg r a r' hs hb hrun hstray
  refine ⟨taken, written, hclosed, hstray₀, hrest, hafter, fun m q k hq hq' hk => ?_⟩
  obtain ⟨taken₂, written₂, -, -, hrest₂, hafter₂, hagain⟩ := h m hg r a r' hs hb hrun hstray
  obtain ⟨rfl, rfl⟩ := Reader.after_inj (hrest.symm.trans hrest₂) (hafter.symm.trans hafter₂)
  exact hagain q k hq hq' hk

/-- Something and a thing behind it are read again. Where the first is left out, the rule for it reads
nothing of the thing. -/
theorem prefaced {before before' : Rule α} {rule rule' : Rule β} (preface : β → Preface)
    {keepBefore : α → γ} {keep : β → δ} {front front' : List Lexeme → Prop}
    {inner : List Lexeme → List Lexeme → Prop} {follow : β → List Lexeme → List Lexeme → Prop}
    (hpreface : ∀ b b', keep b' = keep b → preface b' = preface b)
    (hbefore : ∀ m, Rereads g m s before before' keepBefore front fun _ => inner)
    (hrule : ∀ m s', Rereads g m s' rule rule' keep (inner s') fun b s'' k =>
      (m = .written → preface b ≠ .source) ∧ follow b s'' k)
    (hfront : ∀ p, front p → front' p)
    (hbare : m = .written → ∀ r a r₁ b r₂, r.rest = s → before.run g r = .ok (a, r₁) →
      rule.run g r₁.unwritten = .ok (b, r₂) → preface b = .dropped → ∀ p, inner r₁.rest p →
      front' p ∧ ∃ a', keepBefore a' = keepBefore a ∧ ∀ q : Reader, q.rest = p →
        before'.run g q = .ok (a', q)) :
    Rereads g m s (Rule.prefaced preface before rule) (Rule.prefaced preface before' rule')
      (Prod.map keepBefore keep) front' fun x => follow x.2 := by
  intro hg r x r' hs hb hrun hstray
  obtain ⟨r₁, r₂, hone, htwo, -, hstray₂⟩ := Rule.of_run_prefaced hrun
  obtain ⟨a, b⟩ := x
  dsimp only at hone htwo
  rw [hstray] at hstray₂
  have hstray₁ : r₁.unwritten.stray = none := Rule.run_stray hg _ _ _ r₂ htwo hstray₂
  obtain ⟨taken, written, hclosed, hstray₀, hrest, hafter, hagain⟩ :=
    renditions (r := r.unwritten) hbefore hg hs hb hone hstray₁
  obtain ⟨taken', written', hclosed', -, hrest', hafter', hagain'⟩ :=
    renditions (r := r₁.unwritten) (fun m => hrule m r₁.rest) hg rfl
      (hclosed.balanced (hrest ▸ hb)) htwo hstray₂
  have hr : r.rest = taken ++ taken' ++ r₂.rest := by
    rw [hs, hrest, hrest', List.append_assoc]
  have htwo' := htwo
  have hunwritten : r₁.unwritten = (r.after taken [] r₁.rest).unwritten := by
    rw [hafter]
    rfl
  rw [hunwritten] at htwo' hafter'
  rw [Rule.run_prefaced_of_ok preface hr (hafter ▸ hone) (hafter' ▸ htwo')] at hrun
  cases hrun
  refine ⟨taken ++ taken', (preface b).text taken written taken' written', hclosed.append hclosed', hstray₀,
    hs ▸ hr, rfl, fun q k hq hq' hk => ?_⟩
  replace hk : follow b r₂.rest k := hk
  by_cases hdropped : m = .written ∧ preface b = .dropped
  · -- Nothing stands before the thing.
    obtain ⟨rfl, hb'⟩ := hdropped
    rw [hb'] at hq ⊢
    replace hq : q.rest = written' ++ k := hq
    obtain ⟨hinner, b', hkeep, hagain₂⟩ := hagain' .written q.unwritten k hq hq'
      ⟨fun _ h => Preface.noConfusion (hb'.symm.trans h), hk⟩
    obtain ⟨hp, a', hkeep', hnothing⟩ := hbare rfl r.unwritten a r₁ b r₂ hs hone htwo hb' _ hinner
    refine ⟨hp, (a', b'), Prod.ext hkeep' hkeep, ?_⟩
    have hnil := Reader.after_nil (r := q.unwritten) hq'
    have hnothing' := (hnothing q.unwritten rfl).trans (congrArg (fun r => Except.ok (a', r)) hnil.symm)
    have hagain₃ : rule'.run g (q.after [] [] q.rest).unwritten =
        .ok (b', (q.after [] [] q.rest).unwritten.after written' written' k) := by
      rw [Reader.after_nil hq']
      exact hagain₂
    rw [Rule.run_prefaced_of_ok preface hq hnothing' hagain₃, hpreface b b' hkeep, hb']
    rfl
  · -- Both parts stand there, in one rendition.
    obtain ⟨m', htext, hm', hsource⟩ := (preface b).exists_rendition hdropped taken written taken' written'
    rw [htext] at hq ⊢
    have hq₂ : q.rest = m'.text taken written ++ (m'.text taken' written' ++ k) :=
      hq.trans (List.append_assoc ..)
    obtain ⟨hinner, b', hkeep, htwo₂⟩ := hagain' m'
      (q.after (m'.text taken written) [] (m'.text taken' written' ++ k)).unwritten k rfl rfl ⟨hm', hk⟩
    obtain ⟨hp, a', hkeep', hone₂⟩ := hagain m' q.unwritten _ hq₂ hq' hinner
    refine ⟨hfront _ hp, (a', b'), Prod.ext hkeep' hkeep, ?_⟩
    rw [Rule.run_prefaced_of_ok preface hq hone₂ htwo₂, hpreface b b' hkeep]
    cases hb' : preface b with
    | written | dropped => rfl
    | source => rw [hsource hb']; rfl

end Rereads

end TypedId.Grammar
