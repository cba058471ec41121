import TypedId.Proofs.Grammar.Rereading

/-!
Texts that are held back before they are written, and texts that are kept in their source spelling.
-/

namespace TypedId.Grammar

open Lexeme

variable {g : PhraseReader} {m : Rendition} {s : List Lexeme} {α β γ δ : Type}

/-- Reads something, writes it, and remembers what was written. -/
def Rule.texted (rule : Rule α) : Rule (α × List Lexeme) := do
  let x ← hold rule
  write x.2
  return x

/-- A reader that has not written anything yet. -/
def Reader.unwritten (r : Reader) : Reader := { r with written := [] }

theorem Rule.run_hold_of_ok {rule : Rule α} {r r' : Reader} {a : α}
    (h : rule.run g r.unwritten = .ok (a, r')) :
    (hold rule).run g r = .ok ((a, r'.written.reverse), { r' with written := r.written }) :=
  run_hold_eq_ok.mpr ⟨a, r', h, rfl, rfl⟩

theorem Rule.run_hold_of_error {rule : Rule α} {r : Reader} {fault : Fault}
    (h : rule.run g r.unwritten = .error fault) : (hold rule).run g r = .error fault := by
  have h' : rule.run g { r with written := [] } = .error fault := h
  rw [run_hold_eq, h']

theorem Rule.run_texted_of_ok {rule : Rule α} {r : Reader} {a : α} {taken written rest : List Lexeme}
    (h : rule.run g r.unwritten = .ok (a, r.unwritten.after taken written rest)) :
    (texted rule).run g r = .ok ((a, written), r.after taken written rest) := by
  rw [texted, run_bind_of_ok (run_hold_of_ok h), run_bind_of_ok (run_write ..), run_pure]
  simp [Reader.unwritten, Reader.after, Reader.take]

theorem Rule.of_run_texted {rule : Rule α} {r r' : Reader} {x : α × List Lexeme}
    (h : (texted rule).run g r = .ok (x, r')) :
    ∃ r₁, rule.run g r.unwritten = .ok (x.1, r₁) ∧ x.2 = r₁.written.reverse ∧
      r' = { r₁ with written := r₁.written ++ r.written } := by
  obtain ⟨y, r₂, hhold, hrest⟩ := run_bind_eq_ok.mp h
  obtain ⟨a, r₁, hrule, rfl, rfl⟩ := run_hold_eq_ok.mp hhold
  rw [run_bind_of_ok (run_write ..), run_pure] at hrest
  cases hrest
  exact ⟨r₁, hrule, rfl, by simp [Reader.take]⟩

namespace Rereads

variable {rule rule' : Rule α} {keep : α → γ} {front : List Lexeme → Prop}

/-- What is written is the same when a text is read again. -/
theorem texted {follow : α → List Lexeme → List Lexeme → Prop}
    (h : Rereads g m s rule rule' keep front follow) :
    Rereads g m s (Rule.texted rule) (Rule.texted rule') (fun x => (keep x.1, x.2)) front
      fun x => follow x.1 := by
  intro hg r x r' hs hb hrun hstray
  obtain ⟨r₁, hrule, htext, rfl⟩ := Rule.of_run_texted hrun
  obtain ⟨taken, written, hclosed, hstray', hrest, hafter, hagain⟩ :=
    h hg r.unwritten x.1 r₁ hs hb hrule hstray
  have hwritten : r₁.written = written.reverse := by
    rw [hafter]
    simp [Reader.after, Reader.unwritten]
  refine ⟨taken, written, hclosed, hstray', hrest, ?_, fun q k hq hq' hk => ?_⟩
  · rw [hwritten]
    exact congrArg (fun r₂ : Reader => { r₂ with written := written.reverse ++ r.written }) hafter
  · obtain ⟨hp, a', ha', hrun'⟩ := hagain q.unwritten k hq hq' hk
    refine ⟨hp, (a', written), ?_, Rule.run_texted_of_ok hrun'⟩
    simp [ha', htext, hwritten]

/-- What is held back is written at once, and something else is read then. -/
theorem hold {body body' : α × List Lexeme → Rule β} {keep' : β → δ}
    {follow : β → List Lexeme → List Lexeme → Prop} (keep : α → γ)
    (mid : α → List Lexeme → List Lexeme → Prop) (h : Rereads g m s rule rule' keep front mid)
    (next next' : α → List Lexeme → Rule β)
    (hbody : ∀ x r, (body x).run g r = (next x.1 x.2).run g (r.take 0 x.2))
    (hbody' : ∀ x r, (body' x).run g r = (next' x.1 x.2).run g (r.take 0 x.2))
    (hnext : ∀ a a' text s', keep a' = keep a →
      Rereads g m s' (next a text) (next' a' text) keep' (mid a s') follow) :
    Rereads g m s (Rule.hold rule >>= body) (Rule.hold rule' >>= body') keep' front follow := by
  have hrun : ∀ (rule : Rule α) (body : α × List Lexeme → Rule β) (next : α → List Lexeme → Rule β),
      (∀ x r, (body x).run g r = (next x.1 x.2).run g (r.take 0 x.2)) → ∀ r,
      (Rule.hold rule >>= body).run g r = (Rule.texted rule >>= fun x => next x.1 x.2).run g r := by
    intro rule body next hbody r
    rw [Rule.texted, Rule.run_bind, Rule.run_bind, Rule.run_bind]
    cases (Rule.hold rule).run g r with
    | error fault => rfl
    | ok read =>
        obtain ⟨x, r₁⟩ := read
        simp only
        rw [hbody, Rule.run_bind_of_ok (Rule.run_write ..), Rule.run_pure]
  have h' : Rereads g m s (Rule.texted rule >>= fun x => next x.1 x.2)
      (Rule.texted rule' >>= fun x => next' x.1 x.2) keep' front follow := by
    refine h.texted.bind ?_
    rintro ⟨a, text⟩ ⟨a', text'⟩ s' hkeep
    simp only [Prod.mk.injEq] at hkeep
    obtain ⟨hkeep, rfl⟩ := hkeep
    exact hnext a a' _ s' hkeep
  exact h'.congr (fun r _ => hrun rule body next hbody r) fun q _ => hrun rule' body' next' hbody' q

end Rereads

/-! ### Source spelling -/

/-- What is written in its source spelling is what was taken. -/
theorem Rereads.run_writeSince (taken rest : List Lexeme) {r : Reader} {start : View}
    (hstart : start.rest = taken ++ rest) (hposition : r.position = start.position + taken.length) :
    (Rule.writeSince start).run g r = .ok ((), r.take 0 taken) := by
  rw [Rule.writeSince, Rule.run_bind_of_ok (Rule.run_here r), Rule.run_write, hstart, hposition]
  simp

theorem Rule.run_keptIf_of_ok {rule : Rule α} (wanted : α → Bool) {r : Reader} {a : α}
    {taken written rest : List Lexeme} (hr : r.rest = taken ++ rest)
    (h : rule.run g r.unwritten = .ok (a, r.unwritten.after taken written rest)) :
    (keptIf wanted rule).run g r = .ok (a, r.after taken (if wanted a then taken else written) rest) := by
  rw [keptIf, run_bind_of_ok (run_look r), run_bind_of_ok (run_hold_of_ok h)]
  dsimp only
  split
  · rw [run_bind_of_ok (Rereads.run_writeSince taken rest hr rfl), run_pure]
    simp [Reader.take, Reader.after, Reader.unwritten]
  · rw [run_bind_of_ok (run_write ..), run_pure]
    simp [Reader.take, Reader.after, Reader.unwritten]

theorem Rule.of_run_keptIf (hg : Tidy g) {rule : Rule α} {wanted : α → Bool} {r r' : Reader} {a : α}
    (h : (keptIf wanted rule).run g r = .ok (a, r')) (hstray : r'.stray = none) :
    ∃ r₁, rule.run g r.unwritten = .ok (a, r₁) ∧ r₁.stray = none := by
  rw [keptIf, run_bind_of_ok (run_look r)] at h
  obtain ⟨x, r₂, hhold, h⟩ := run_bind_eq_ok.mp h
  obtain ⟨b, r₁, hrule, rfl, rfl⟩ := run_hold_eq_ok.mp hhold
  have hstray₁ := run_stray hg _ _ a r' h hstray
  dsimp only at h
  split at h <;>
    · obtain ⟨_, _, -, ⟨⟩⟩ := run_bind_eq_ok.mp h
      exact ⟨r₁, hrule, hstray₁⟩

namespace Rereads

variable {rule rule' : Rule α} {keep : α → γ} {front : List Lexeme → Prop}

/-- Something is written in its source spelling if that is wanted, and it is again when it is read
again. -/
theorem keptIf (wanted : α → Bool) {follow : α → List Lexeme → List Lexeme → Prop}
    (hwanted : ∀ a a', keep a' = keep a → wanted a' = wanted a)
    (hsource : Rereads g .source s rule rule' keep front follow)
    (h : Rereads g m s rule rule' keep front fun a s' k => wanted a = false ∧ follow a s' k) :
    Rereads g m s (Rule.keptIf wanted rule) (Rule.keptIf wanted rule') keep front follow := by
  intro hg r a r' hs hb hrun hstray
  obtain ⟨r₁, hrule, hstray₁⟩ := Rule.of_run_keptIf hg hrun hstray
  obtain ⟨taken, written, hclosed, hstray₀, hrest, hafter, hagain⟩ :=
    hsource hg r.unwritten a r₁ hs hb hrule hstray₁
  rw [Rule.run_keptIf_of_ok wanted (hs.trans hrest) (hafter ▸ hrule)] at hrun
  cases hrun
  refine ⟨taken, if wanted a then taken else written, hclosed, hstray₀, hrest, rfl, ?_⟩
  intro q k hq hq' hk
  -- The text that stands in the place of the first is one of the two that can be read again.
  obtain ⟨m', htext, hm', hread⟩ : ∃ m' : Rendition,
      m.text taken (if wanted a then taken else written) = m'.text taken written ∧
        (wanted a = true → m' = .source) ∧
        ∀ q k, q.rest = m'.text taken written ++ k → q.stray = none → follow a r₁.rest k →
          front q.rest ∧ ∃ a', keep a' = keep a ∧
            rule'.run g q = .ok (a', q.after (m'.text taken written) written k) := by
    cases hw : wanted a with
    | true => exact ⟨.source, by cases m <;> rfl, fun _ => rfl, hagain⟩
    | false =>
        obtain ⟨taken₂, written₂, -, -, hrest₂, hafter₂, hagain⟩ :=
          h hg r.unwritten a r₁ hs hb hrule hstray₁
        obtain ⟨rfl, rfl⟩ := Reader.after_inj (hrest.symm.trans hrest₂) (hafter.symm.trans hafter₂)
        exact ⟨m, rfl, (fun hfalse => by cases hfalse), fun q k hq hq' hk => hagain q k hq hq' ⟨hw, hk⟩⟩
  rw [htext] at hq ⊢
  obtain ⟨hp, a', ha', hrule'⟩ := hread q.unwritten k hq hq' hk
  refine ⟨hp, a', ha', ?_⟩
  rw [Rule.run_keptIf_of_ok wanted hq hrule', hwanted a a' ha']
  cases hw : wanted a with
  | true => rw [hm' hw]; rfl
  | false => rfl

/-- Something is written in its source spelling if that is wanted, and all that is remembered is the
same. -/
theorem keptIf_id (wanted : α → Bool) {follow : α → List Lexeme → List Lexeme → Prop}
    (h : ∀ m, Rereads g m s rule rule' id front follow) :
    Rereads g m s (Rule.keptIf wanted rule) (Rule.keptIf wanted rule') id front follow :=
  keptIf wanted (fun _ _ h => congrArg wanted h) (h .source)
    ((h m).follow_mono fun _ _ _ hk => hk.2)

/-- What is kept in its source spelling is read again in its source spelling. -/
theorem kept {follow : α → List Lexeme → List Lexeme → Prop}
    (h : Rereads g .source s rule rule' keep front follow) :
    Rereads g m s (Rule.kept rule) (Rule.kept rule') keep front follow :=
  (keptIf (fun _ => true) (fun _ _ _ => rfl) h (h.unread fun _ _ _ hk => by cases hk.1)).congr
    (fun _ _ => rfl) fun _ _ => rfl

end Rereads

/-! ### Texts that may be left out -/

/-- Reads something, and does not write it if that is wanted. -/
def Rule.unwrittenIf (dropped : α → Bool) (rule : Rule α) : Rule α := do
  let x ← hold rule
  unless dropped x.1 do write x.2
  return x.1

theorem Rule.run_unwrittenIf_of_ok {rule : Rule α} (dropped : α → Bool) {r : Reader} {a : α}
    {taken written rest : List Lexeme}
    (h : rule.run g r.unwritten = .ok (a, r.unwritten.after taken written rest)) :
    (unwrittenIf dropped rule).run g r =
      .ok (a, r.after taken (if dropped a then [] else written) rest) := by
  rw [unwrittenIf, run_bind_of_ok (run_hold_of_ok h)]
  dsimp only
  split
  · rw [run_pure]
    simp [Reader.unwritten, Reader.after]
  · rw [run_bind_of_ok (run_write ..), run_pure]
    simp [Reader.unwritten, Reader.after, Reader.take]

theorem Rule.of_run_unwrittenIf (hg : Tidy g) {rule : Rule α} {dropped : α → Bool} {r r' : Reader}
    {a : α} (h : (unwrittenIf dropped rule).run g r = .ok (a, r')) (hstray : r'.stray = none) :
    ∃ r₁, rule.run g r.unwritten = .ok (a, r₁) ∧ r₁.stray = none := by
  obtain ⟨x, r₂, hhold, hrun⟩ := run_bind_eq_ok.mp h
  obtain ⟨b, r₁, hrule, rfl, rfl⟩ := run_hold_eq_ok.mp hhold
  have hstray₁ := run_stray hg _ _ a r' hrun hstray
  dsimp only at hrun
  split at hrun
  · rw [run_pure] at hrun
    cases hrun
    exact ⟨r₁, hrule, hstray₁⟩
  · obtain ⟨u, r₃, -, hpure⟩ := run_bind_eq_ok.mp hrun
    rw [run_pure] at hpure
    cases hpure
    exact ⟨r₁, hrule, hstray₁⟩

namespace Rereads

variable {rule rule' : Rule α} {keep : α → γ} {front front' : List Lexeme → Prop}

/-- Something is read again that may not be written: where it is not, `absent` is remembered of
nothing. -/
theorem unwrittenIf (dropped : α → Bool) (absent : α) {keep' : α → δ}
    {follow : α → List Lexeme → List Lexeme → Prop}
    (hdropped : ∀ a a', keep a' = keep a → dropped a' = dropped a ∧ keep' a' = keep' a)
    (hfront : ∀ p, front p → front' p)
    (h : ∀ m, Rereads g m s rule rule' keep front fun a s' k =>
      (m = .written → dropped a = false) ∧ follow a s' k)
    (habsent : m = .written → ∀ r a r' k, r.rest = s → rule.run g r = .ok (a, r') →
      dropped a = true → follow a r'.rest k →
        front' k ∧ keep' absent = keep' a ∧ ∀ q : Reader, q.rest = k → rule'.run g q = .ok (absent, q)) :
    Rereads g m s (Rule.unwrittenIf dropped rule) (Rule.unwrittenIf dropped rule') keep' front' follow := by
  intro hg r a r' hs hb hrun hstray
  obtain ⟨r₁, hrule, hstray₁⟩ := Rule.of_run_unwrittenIf hg hrun hstray
  obtain ⟨taken, written, hclosed, hstray₀, hrest, hafter, hagain⟩ :=
    h m hg r.unwritten a r₁ hs hb hrule hstray₁
  rw [Rule.run_unwrittenIf_of_ok dropped (hafter ▸ hrule)] at hrun
  cases hrun
  refine ⟨taken, if dropped a then [] else written, hclosed, hstray₀, hrest, rfl, fun q k hq hq' hk => ?_⟩
  by_cases hread : m = .written ∧ dropped a = true
  · obtain ⟨rfl, hd⟩ := hread
    obtain ⟨hp, hkeep, hnone⟩ := habsent rfl r.unwritten a r₁ k hs hrule hd hk
    rw [hd, if_pos rfl] at hq ⊢
    have hq₂ : q.unwritten.stray = none := hq'
    have hq₃ := (hnone q.unwritten hq).trans (congrArg (fun r => Except.ok (absent, r))
      (Reader.after_nil hq₂).symm)
    refine ⟨hq ▸ hp, absent, hkeep, ?_⟩
    rw [Rule.run_unwrittenIf_of_ok dropped hq₃, ite_self]
    have hrest : q.unwritten.rest = k := hq
    rw [hrest]
    rfl
  · have htext : m.text taken (if dropped a then [] else written) = m.text taken written := by
      cases m with
      | source => rfl
      | written => rw [Bool.eq_false_iff.mpr fun hd => hread ⟨rfl, hd⟩]; rfl
    rw [htext] at hq ⊢
    obtain ⟨hp, a', ha', hrule'⟩ := hagain q.unwritten k hq hq'
      ⟨fun hm => Bool.eq_false_iff.mpr fun hd => hread ⟨hm, hd⟩, hk⟩
    obtain ⟨hd, hkeep⟩ := hdropped a a' ha'
    exact ⟨hfront _ hp, a', hkeep, by rw [Rule.run_unwrittenIf_of_ok dropped hrule', hd]⟩

end Rereads

end TypedId.Grammar
