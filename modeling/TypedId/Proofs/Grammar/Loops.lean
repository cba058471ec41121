import TypedId.Proofs.Grammar.Elements

/-!
Repeated steps are read again.

A step may be repeated once for each lexeme ahead. So what is read again is read to its end only if
every step but the last leaves something to be read (`Solid`).
-/

namespace TypedId.Grammar

open Lexeme

variable {g : PhraseReader} {m : Rendition} {s : List Lexeme} {α β γ δ σ τ : Type}

/-! ### Rules that leave a text -/

/-- Whether a reader that gets on leaves something to be read again. -/
def Rendition.Leaves (m : Rendition) (r r' : Reader) : Prop :=
  match m with
  | .source => r'.rest.length < r.rest.length
  | .written => r.written.length < r'.written.length

theorem Rendition.leaves_after {r r' : Reader} {taken written : List Lexeme}
    (hrest : r.rest = taken ++ r'.rest) (hafter : r' = r.after taken written r'.rest) :
    m.Leaves r r' ↔ m.text taken written ≠ [] := by
  have hwritten : r'.written = written.reverse ++ r.written := by
    rw [hafter]
    rfl
  cases m with
  | source => simp [Leaves, text, hrest, List.length_pos_iff]
  | written => simp [Leaves, text, hwritten, List.length_pos_iff]

/-- The text that a rule leaves is not empty, given what it remembers. -/
def Solid (g : PhraseReader) (m : Rendition) (s : List Lexeme) (rule : Rule α) (given : α → Prop) :
    Prop :=
  Tidy g → ∀ r a r', r.rest = s → Balanced s → rule.run g r = .ok (a, r') → r'.stray = none →
    given a → m.Leaves r r'

namespace Solid

theorem look {next : View → Rule α} {given : α → Prop}
    (h : ∀ n, Solid g m s (next ⟨n, s⟩) given) : Solid g m s (Rule.look >>= next) given := by
  intro hg r a r' hs hb hrun
  rw [Rule.run_bind_of_ok (Rule.run_look r), show r.toView = ⟨r.position, s⟩ by rw [← hs]] at hrun
  exact h r.position hg r a r' hs hb hrun

theorem ahead {next : List Lexeme → Rule α} {given : α → Prop}
    (h : Solid g m s (next s) given) : Solid g m s (Rule.ahead >>= next) given := by
  intro hg r a r' hs hb hrun
  rw [Rule.run_bind_of_ok (Rule.run_ahead r), hs] at hrun
  exact h hg r a r' hs hb hrun

theorem ite {c : Prop} [Decidable c] {rule₁ rule₂ : Rule α} {given : α → Prop}
    (h₁ : c → Solid g m s rule₁ given) (h₂ : ¬ c → Solid g m s rule₂ given) :
    Solid g m s (if c then rule₁ else rule₂) given := by
  by_cases hc : c
  · simpa only [if_pos hc] using h₁ hc
  · simpa only [if_neg hc] using h₂ hc

/-- The last step need not leave anything. -/
theorem pure {a : α} {given : α → Prop} (ha : ¬ given a) :
    Solid g m s (Pure.pure a) given := by
  intro _ r b r' _ _ hrun _ hb
  rw [Rule.run_pure] at hrun
  cases hrun
  exact (ha hb).elim

/-- A rule that never succeeds leaves what one likes. -/
theorem of_error {rule : Rule α} {given : α → Prop}
    (h : ∀ r : Reader, r.rest = s → ∃ fault, rule.run g r = .error fault) :
    Solid g m s rule given := by
  intro _ r a r' hs _ hrun
  obtain ⟨fault, hfault⟩ := h r hs
  rw [hfault] at hrun
  cases hrun

theorem complain (complaint : Complaint) {given : α → Prop} :
    Solid g m s (Rule.complain complaint) given :=
  of_error fun _ _ => ⟨_, Rule.run_complain ..⟩

theorem expected (things : List Expectation) {given : α → Prop} :
    Solid g m s (Rule.expected things) given :=
  of_error fun _ _ => Rule.run_expected ..

/-- Two rules that succeed alike leave texts alike. -/
theorem congr {rule rule₂ : Rule α} {given : α → Prop} (h : Solid g m s rule given)
    (hrule : ∀ r x, r.rest = s → rule₂.run g r = .ok x → rule.run g r = .ok x) :
    Solid g m s rule₂ given :=
  fun hg r a r' hs hb hrun => h hg r a r' hs hb (hrule r _ hs hrun)

/-- One rule after another leaves a text if the first one does. -/
theorem bind_left {rule : Rule α} {next : α → Rule β} {given : β → Prop}
    (h : Solid g m s rule fun _ => True) : Solid g m s (rule >>= next) given := by
  intro hg r b r'' hs hb hrun hstray _
  obtain ⟨a, r', hrule, hnext⟩ := Rule.run_bind_eq_ok.mp hrun
  have hon := (next a).run_getsOn hg r' b r'' hnext
  have hleaves := h hg r a r' hs hb hrule (hon.stray hstray) trivial
  cases m with
  | source => exact Nat.lt_of_le_of_lt hon.rest.length_le hleaves
  | written => exact Nat.lt_of_lt_of_le hleaves hon.written.length_le

/-- One rule after another leaves a text if the second one does. -/
theorem bind_right {rule : Rule α} {next : α → Rule β} {given : β → Prop}
    (h : ∀ a s', Solid g m s' (next a) given) : Solid g m s (rule >>= next) given := by
  intro hg r b r'' hs hb hrun hstray hgiven
  obtain ⟨a, r', hrule, hnext⟩ := Rule.run_bind_eq_ok.mp hrun
  have hon := rule.run_getsOn hg r a r' hrule
  have hleaves := h a r'.rest hg r' b r'' rfl (hb.of_suffix (hs ▸ hon.rest)) hnext hstray hgiven
  cases m with
  | source => exact Nat.lt_of_lt_of_le hleaves hon.rest.length_le
  | written => exact Nat.lt_of_le_of_lt hon.written.length_le hleaves

end Solid

namespace Rereads

/-- A rule leaves a text if that text does not look like its end where nothing follows. -/
theorem solid {rule rule' : Rule α} {keep : α → γ} {front : List Lexeme → Prop}
    {follow : α → List Lexeme → List Lexeme → Prop} {given : α → Prop}
    (h : Rereads g m s rule rule' keep front follow)
    (hfollow : ∀ a s', given a → follow a s' [])
    (hfront : ∀ r a r', r.rest = s → rule.run g r = .ok (a, r') → given a → ¬ front []) :
    Solid g m s rule given := by
  intro hg r a r' hs hb hrun hstray hgiven
  obtain ⟨taken, written, -, -, hrest, hafter, hagain⟩ := h hg r a r' hs hb hrun hstray
  refine (m.leaves_after (hs.trans hrest) hafter).mpr fun htext => ?_
  exact hfront r a r' hs hrun hgiven
    (hagain ⟨⟨0, []⟩, [], none⟩ [] (by rw [htext]; rfl) rfl (hfollow a _ hgiven)).1

theorem operator_solid (text : String) (hne : text.toList ≠ []) :
    Solid g m s (Rule.operator text) fun _ => True := by
  refine (operator text : Rereads g m s _ _ _ _ fun _ _ _ => True).solid (fun _ _ _ => trivial) ?_
  intro _ _ _ _ _ _ hspelt
  obtain ⟨c, cs, hcs⟩ := List.exists_cons_of_ne_nil hne
  rw [hcs] at hspelt
  have := hspelt.startsWith.2
  cases cs <;> cases this

/-- A step that goes on only if an operator comes next leaves a text. -/
theorem operator?_solid (text : String) (hne : text.toList ≠ []) {rule : Rule β} {b : β}
    {given : β → Prop} (hb : ¬ given b) :
    Solid g m s (do if ← Rule.operator? text then rule else return b) given := by
  intro hg r c r' hs hbalanced hrun hstray hc
  cases hsees : sees text r.rest with
  | true =>
      have hthen : (Rule.operator text >>= fun _ => rule).run g r = .ok (c, r') := by
        rw [Rule.run_bind_of_ok (Rule.run_operator?_of_sees hsees)] at hrun
        rw [Rule.run_bind_of_ok (Rule.run_operator_of_sees hsees)]
        exact hrun
      exact (Solid.bind_left (operator_solid text hne)) hg r c r' hs hbalanced hthen hstray hc
  | false =>
      rw [Rule.run_bind_of_ok (Rule.run_operator?_of_not_sees hsees)] at hrun
      cases hrun
      exact (hb hc).elim

theorem keyword_solid (w : String) : Solid g m s (Rule.keyword w) fun _ => True := by
  refine (keyword w : Rereads g m s _ _ _ _ fun _ _ _ => True).solid (fun _ _ _ => trivial) ?_
  rintro _ _ _ _ _ _ ⟨_, _, _, h, _⟩
  cases h

theorem anyWord_solid : Solid g m s Rule.anyWord fun _ => True := by
  refine (anyWord : Rereads g m s _ _ _ _ fun _ _ _ => True).solid (fun _ _ _ => trivial) ?_
  rintro _ _ _ _ _ _ ⟨_, _, _, _, _, h, _⟩
  cases h

/-! ### Steps -/

/-- What is said of the text behind a step: it is read on from there, or is not. -/
def stepFollow (between : σ → List Lexeme → List Lexeme → Prop)
    (follow : α → List Lexeme → List Lexeme → Prop) :
    σ ⊕ α → List Lexeme → List Lexeme → Prop
  | .inl x => between x
  | .inr a => follow a

/-- Some steps that lead from one state to another. -/
inductive Steps (step : σ → Reader → Outcome (σ ⊕ α)) : Nat → σ → Reader → σ → Reader → Prop where
  | refl (x : σ) (r : Reader) : Steps step 0 x r x r
  | more {n : Nat} {x y z : σ} {r r' r'' : Reader} (hone : step x r = .ok (.inl y, r'))
      (hmore : Steps step n y r' z r'') : Steps step (n + 1) x r z r''

theorem Steps.iterate {step : σ → Reader → Outcome (σ ⊕ α)} {n : Nat} {x y : σ} {r r' : Reader}
    (h : Steps step n x r y r') (bound : Nat) :
    Grammar.iterate step (bound + n) x r = Grammar.iterate step bound y r' := by
  induction h with
  | refl => rfl
  | more hone _ ih => rw [← Nat.add_assoc, Grammar.iterate, hone, ← ih]

/-- The text of one step can be read again by steps of another rule, no more than it has lexemes. -/
def RereadsStep (g : PhraseReader) (m : Rendition) (s : List Lexeme) (rule : Rule (σ ⊕ α))
    (step' : σ → Rule (σ ⊕ α)) (x' : σ) (keepState : σ → τ) (keep : α → γ)
    (front : List Lexeme → Prop) (follow : σ ⊕ α → List Lexeme → List Lexeme → Prop) : Prop :=
  Tidy g → ∀ r y r', r.rest = s → Balanced s → rule.run g r = .ok (y, r') → r'.stray = none →
    ∃ taken written, Closed taken ∧ r.stray = none ∧ s = taken ++ r'.rest ∧
      r' = r.after taken written r'.rest ∧
      ∀ q k, q.rest = m.text taken written ++ k → q.stray = none → follow y r'.rest k →
        front q.rest ∧
          match y with
          | .inl z => ∃ n z', n ≤ (m.text taken written).length ∧ keepState z' = keepState z ∧
              Steps (fun x => (step' x).run g) n x' q z' (q.after (m.text taken written) written k)
          | .inr a => ∃ a', keep a' = keep a ∧
              (step' x').run g q = .ok (.inr a', q.after (m.text taken written) written k)

/-- A step that leaves a text if it is repeated is read again by one step. -/
theorem step {rule : Rule (σ ⊕ α)} {step' : σ → Rule (σ ⊕ α)} {x' : σ} {keepState : σ → τ}
    {keep : α → γ} {front : List Lexeme → Prop} {follow : σ ⊕ α → List Lexeme → List Lexeme → Prop}
    (h : Rereads g m s rule (step' x') (Sum.map keepState keep) front follow)
    (hsolid : Solid g m s rule fun y => y.isLeft = true) :
    RereadsStep g m s rule step' x' keepState keep front follow := by
  intro hg r y r' hs hb hrun hstray
  obtain ⟨taken, written, hclosed, hstray₀, hrest, hafter, hagain⟩ := h hg r y r' hs hb hrun hstray
  refine ⟨taken, written, hclosed, hstray₀, hrest, hafter, fun q k hq hq' hk => ?_⟩
  obtain ⟨hp, y', hy', hone⟩ := hagain q k hq hq' hk
  refine ⟨hp, ?_⟩
  cases y with
  | inl z =>
      have htext : m.text taken written ≠ [] :=
        (m.leaves_after (hs.trans hrest) hafter).mp (hsolid hg r (.inl z) r' hs hb hrun hstray rfl)
      cases y' with
      | inl z' =>
          exact ⟨1, z', List.length_pos_iff.mpr htext, by simpa using hy',
            .more hone (.refl ..)⟩
      | inr a' => simp at hy'
  | inr a =>
      cases y' with
      | inl z' => simp at hy'
      | inr a' => exact ⟨a', by simpa using hy', hone⟩

theorem iterate_again {step step' : σ → Rule (σ ⊕ α)} {keepState : σ → τ} {keep : α → γ}
    {loop between : σ → List Lexeme → List Lexeme → Prop}
    {follow : α → List Lexeme → List Lexeme → Prop}
    (hstep : ∀ x x' s, keepState x' = keepState x →
      RereadsStep g m s (step x) step' x' keepState keep (loop x s) (stepFollow between follow))
    (hbetween : ∀ x s k, loop x s k → between x s k) (hg : Tidy g) :
    ∀ (bound : Nat) (x x' : σ) (r : Reader) (a : α) (r' : Reader), keepState x' = keepState x →
      Balanced r.rest → iterate (fun x => (step x).run g) bound x r = .ok (a, r') →
      r'.stray = none →
      ∃ taken written, Closed taken ∧ r.stray = none ∧ r.rest = taken ++ r'.rest ∧
        r' = r.after taken written r'.rest ∧
        ∀ q k bound', q.rest = m.text taken written ++ k → q.stray = none → follow a r'.rest k →
          (m.text taken written).length < bound' →
          loop x r.rest q.rest ∧
            ∃ a', keep a' = keep a ∧
              iterate (fun x => (step' x).run g) bound' x' q =
                .ok (a', q.after (m.text taken written) written k) := by
  intro bound
  induction bound with
  | zero =>
      intro x x' r a r' _ _ h
      cases h
  | succ bound ih =>
      intro x x' r b r'' hx hb hrun hstray
      rw [iterate] at hrun
      split at hrun
      · next y r' hone =>
        have hstray' : r'.stray = none :=
          (iterate_getsOn (fun x => (step x).run_getsOn hg) bound y r' b r'' hrun).stray hstray
        obtain ⟨taken, written, hclosed, hstray₀, hrest, hafter, hagain⟩ :=
          hstep x x' r.rest hx hg r (.inl y) r' rfl hb hone hstray'
        have hb' : Balanced r'.rest := hclosed.balanced (hrest ▸ hb)
        obtain ⟨taken', written', hclosed', -, hrest', hafter', hagain'⟩ :=
          ih y y r' b r'' rfl hb' hrun hstray
        refine ⟨taken ++ taken', written ++ written', hclosed.append hclosed', hstray₀,
          by rw [hrest, hrest', List.append_assoc], ?_, ?_⟩
        · exact hafter'.trans ((congrArg (·.after taken' written' r''.rest) hafter).trans
            (Reader.after_after ..))
        intro q k bound' hq hq' hk hbound
        rw [m.text_append, List.append_assoc] at hq
        rw [m.text_append, List.length_append] at hbound
        -- What the remaining steps show at their front, wherever their text stands.
        have hloop := (hagain' ⟨⟨0, m.text taken' written' ++ k⟩, [], none⟩ k
          ((m.text taken' written').length + 1) rfl rfl hk (Nat.lt_succ_self _)).1
        obtain ⟨hp, n, z, hn, hz, hsteps⟩ := hagain q _ hq hq' (hbetween _ _ _ hloop)
        obtain ⟨bound', rfl⟩ : ∃ rest, bound' = rest + n := ⟨bound' - n, by omega⟩
        have hbound' : (m.text taken' written').length < bound' := by omega
        obtain ⟨taken₂, written₂, -, -, hrest₂, hafter₂, hagain₂⟩ := ih y z r' b r'' hz hb' hrun hstray
        obtain ⟨rfl, rfl⟩ := Reader.after_inj (hrest'.symm.trans hrest₂) (hafter'.symm.trans hafter₂)
        obtain ⟨-, b', hb', hrun₂⟩ := hagain₂
          (q.after (m.text taken written) written (m.text taken' written' ++ k)) k bound' rfl rfl hk
          hbound'
        refine ⟨hp, b', hb', ?_⟩
        rw [hsteps.iterate, hrun₂, Reader.after_after, m.text_append]
      · next c r' hone =>
        cases hrun
        obtain ⟨taken, written, hclosed, hstray₀, hrest, hafter, hagain⟩ :=
          hstep x x' r.rest hx hg r (.inr b) r'' rfl hb hone hstray
        refine ⟨taken, written, hclosed, hstray₀, hrest, hafter, ?_⟩
        intro q k bound' hq hq' hk hbound
        obtain ⟨bound', rfl⟩ : ∃ n, bound' = n + 1 := ⟨bound' - 1, by omega⟩
        obtain ⟨hp, b', hb', hone'⟩ := hagain q k hq hq' hk
        refine ⟨hp, b', hb', ?_⟩
        rw [iterate, hone']
      · cases hrun

/-- Steps that are repeated, each of which can be read again by some steps. -/
theorem repeatingSteps {step step' : σ → Rule (σ ⊕ α)} (keepState : σ → τ) {keep : α → γ}
    (loop between : σ → List Lexeme → List Lexeme → Prop)
    {follow : α → List Lexeme → List Lexeme → Prop}
    (hstep : ∀ x x' s, keepState x' = keepState x →
      RereadsStep g m s (step x) step' x' keepState keep (loop x s) (stepFollow between follow))
    (hbetween : ∀ x s k, loop x s k → between x s k) {x x' : σ}
    (hx : keepState x' = keepState x) :
    Rereads g m s (.repeating step x) (.repeating step' x') keep (loop x s) follow := by
  intro hg r a r' hs hb hrun hstray
  rw [Rule.run_repeating] at hrun
  subst hs
  obtain ⟨taken, written, hclosed, hstray₀, hrest, hafter, hagain⟩ :=
    iterate_again hstep hbetween hg _ x x' r a r' hx hb hrun hstray
  refine ⟨taken, written, hclosed, hstray₀, hrest, hafter, fun q k hq hq' hk => ?_⟩
  obtain ⟨hp, a', ha', hrun'⟩ := hagain q k (q.rest.length + 1) hq hq' hk
    (by rw [hq, List.length_append]; omega)
  exact ⟨hp, a', ha', by rw [Rule.run_repeating, hrun']⟩

/-- A step that leaves a text whenever it is repeated. -/
theorem repeating {step step' : σ → Rule (σ ⊕ α)} (keepState : σ → τ) {keep : α → γ}
    (loop between : σ → List Lexeme → List Lexeme → Prop)
    {follow : α → List Lexeme → List Lexeme → Prop}
    (hstep : ∀ x x' s, keepState x' = keepState x →
      Rereads g m s (step x) (step' x') (Sum.map keepState keep) (loop x s)
        (stepFollow between follow))
    (hbetween : ∀ x s k, loop x s k → between x s k)
    (hsolid : ∀ x s, Solid g m s (step x) fun y => y.isLeft = true) {x x' : σ}
    (hx : keepState x' = keepState x) :
    Rereads g m s (.repeating step x) (.repeating step' x') keep (loop x s) follow :=
  repeatingSteps keepState loop between
    (fun x x' s h => Rereads.step (hstep x x' s h) (hsolid x s)) hbetween hx

/-- A rule is repeated for as long as it is wanted. -/
theorem while_ {wanted : List Lexeme → Bool} {rule rule' : Rule α} {keep : α → γ}
    (loop : List Lexeme → List Lexeme → Prop) (hwanted : ∀ s p, loop s p → wanted p = wanted s)
    (hsolid : ∀ s, wanted s = true → Solid g m s rule fun _ => True)
    (h : ∀ s, wanted s = true → Rereads g m s rule rule' keep (loop s) fun _ => loop) :
    Rereads g m s (Rule.while_ wanted rule) (Rule.while_ wanted rule') (List.map keep) (loop s)
      fun _ s' k => wanted s' = false → loop s' k := by
  refine repeating (List.map keep) (fun _ => loop) (fun _ => loop) (fun x x' s hx => ?_)
    (fun _ _ _ => id) (fun x s => ?_) rfl
  · refine ahead (.sight (fun _ p hp => hwanted s p hp) (fun hs => ?_) fun hs => ?_)
    · refine (h s hs).bind fun a a' s' ha => ?_
      exact pure _ _ (by simp [ha, hx]) fun k hk => hk
    · exact pure _ _ (by simp [List.map_reverse, hx]) fun k hk => hk hs
  · exact .ahead (.ite (fun hs => .bind_left (hsolid s hs)) fun _ => .pure (by simp))

/-- Things are read again that have separators between them. `start` tells how they look at their
beginning, and `behind` how that looks which follows them. -/
theorem separated {separator : Rule Unit} {stop : List Lexeme → Bool} {rule rule' : Rule α}
    (keep : α → γ) (start behind : List Lexeme → List Lexeme → Prop)
    (hstart : ∀ s p, start s p → stop p = stop s) (hbehind : ∀ s p, behind s p → stop p = stop s)
    (hrule : ∀ s, stop s = false → Rereads g m s rule rule' keep (start s) fun _ => behind)
    (hseparator : ∀ s, stop s = false →
      Rereads g m s separator separator id (behind s) fun _ _ _ => True)
    (hsolid : ∀ s, Solid g m s separator fun _ => True) :
    Rereads g m s (Rule.separated separator stop rule) (Rule.separated separator stop rule')
      (List.map fun x => (keep x.1, x.2)) (start s)
      fun _ s' k => stop s' = true → start s' k ∧ behind s' k := by
  let keep₂ : α × Bool → γ × Bool := fun x => (keep x.1, x.2)
  let follow : List (α × Bool) → List Lexeme → List Lexeme → Prop :=
    fun _ s' k => stop s' = true → start s' k ∧ behind s' k
  -- What is done behind a thing.
  let rest (x : List (α × Bool)) (a : α) : Rule (List (α × Bool) ⊕ List (α × Bool)) := do
    if stop (← Rule.ahead) then return .inr ((a, false) :: x).reverse
    else
      separator
      return .inl ((a, true) :: x)
  have hrest : ∀ x x' a a' s, x'.map keep₂ = x.map keep₂ → keep a' = keep a →
      Rereads g m s (rest x a) (rest x' a') (Sum.map (List.map keep₂) (List.map keep₂)) (behind s)
        (stepFollow (fun _ _ _ => True) follow) := by
    intro x x' a a' s hx ha
    refine ahead (.sight (fun _ p hp => hbehind s p hp) (fun hs => ?_) fun hs => ?_)
    · exact pure _ _ (by simp [keep₂, ha, hx, List.map_reverse]) fun k hk => (hk hs).2
    · refine (hseparator s hs).bind fun _ _ s' _ => ?_
      exact pure _ _ (by simp [keep₂, ha, hx]) fun _ _ => trivial
  have hstep : ∀ x x' s, x'.map keep₂ = x.map keep₂ →
      Rereads g m s
        (do if stop (← Rule.ahead) then return .inr x.reverse else rest x (← rule))
        (do if stop (← Rule.ahead) then return .inr x'.reverse else rest x' (← rule'))
        (Sum.map (List.map keep₂) (List.map keep₂)) (start s)
        (stepFollow (fun _ _ _ => True) follow) := by
    intro x x' s hx
    refine ahead (.sight (fun _ p hp => hstart s p hp) (fun hs => ?_) fun hs => ?_)
    · exact pure _ _ (by simp [hx, List.map_reverse]) fun k hk => (hk hs).1
    · exact (hrule s hs).bind fun a a' s' ha => hrest x x' a a' s' hx ha
  refine repeating (List.map keep₂) (fun _ => start) (fun _ _ _ => True) hstep
    (fun _ _ _ _ => trivial) (fun x s => ?_) rfl
  refine .ahead (.ite (fun _ => .pure (by simp)) fun _ => .bind_right fun a s' => ?_)
  exact .ahead (.ite (fun _ => .pure (by simp)) fun _ => .bind_left (hsolid s'))

/-- Things are read again that have a certain operator between them. -/
theorem joined {separator : String} {stop : List Lexeme → Bool} {rule rule' : Rule α}
    (keep : α → γ) (start behind : List Lexeme → List Lexeme → Prop)
    (hstart : ∀ s p, start s p → stop p = stop s)
    (hbehind : ∀ s p, behind s p → sees separator p = sees separator s)
    (hseparator : ∀ s p, Spelt separator.toList (fun _ _ => True) s p → behind s p)
    (hne : separator.toList ≠ [])
    (hrule : ∀ s, stop s = false → Rereads g m s rule rule' keep (start s) fun _ => behind) :
    Rereads g m s (Rule.joined separator stop rule) (Rule.joined separator stop rule')
      (List.map keep) (start s)
      fun _ s' k => (stop s' = true → start s' k) ∧ (sees separator s' = false → behind s' k) := by
  let follow : List α → List Lexeme → List Lexeme → Prop :=
    fun _ s' k => (stop s' = true → start s' k) ∧ (sees separator s' = false → behind s' k)
  let rest (x : List α) (a : α) : Rule (List α ⊕ List α) := do
    if ← Rule.operator? separator then return .inl (a :: x)
    else return .inr (a :: x).reverse
  have hrest : ∀ x x' a a' s, x'.map keep = x.map keep → keep a' = keep a →
      Rereads g m s (rest x a) (rest x' a') (Sum.map (List.map keep) (List.map keep)) (behind s)
        (stepFollow (fun _ _ _ => True) follow) := by
    intro x x' a a' s hx ha
    refine operator? (hbehind s) (fun hs => ?_) fun hs => ?_
    · refine operator_then separator (fun _ _ => True) (fun s' => ?_) (hseparator s)
      exact pure _ _ (by simp [ha, hx]) fun _ _ => trivial
    · exact pure _ _ (by simp [ha, hx, List.map_reverse]) fun k hk => hk.2 hs
  have hstep : ∀ x x' s, x'.map keep = x.map keep →
      Rereads g m s
        (do if stop (← Rule.ahead) then return .inr x.reverse else rest x (← rule))
        (do if stop (← Rule.ahead) then return .inr x'.reverse else rest x' (← rule'))
        (Sum.map (List.map keep) (List.map keep)) (start s)
        (stepFollow (fun _ _ _ => True) follow) := by
    intro x x' s hx
    refine ahead (.sight (fun _ p hp => hstart s p hp) (fun hs => ?_) fun hs => ?_)
    · exact pure _ _ (by simp [hx, List.map_reverse]) fun k hk => hk.1 hs
    · exact (hrule s hs).bind fun a a' s' ha => hrest x x' a a' s' hx ha
  refine repeating (List.map keep) (fun _ => start) (fun _ _ _ => True) hstep
    (fun _ _ _ _ => trivial) (fun x s => ?_) rfl
  refine .ahead (.ite (fun _ => .pure (by simp)) fun _ => .bind_right fun a s' => ?_)
  exact operator?_solid separator hne (by simp)

/-! ### Lists with commas -/

/-- A comma or the end of a group stands behind a thing. -/
def Listed (s p : List Lexeme) : Prop :=
  Spelt [','] (fun _ _ => True) s p ∨ Ended s p

theorem Listed.ends {s p : List Lexeme} (h : Listed s p) : ends p = ends s := by
  rcases h with ⟨joint, joint', s', p', rfl, rfl, -, -⟩ | ⟨d, s', p', rfl, rfl⟩ <;> rfl

theorem Ended.ends {s p : List Lexeme} (h : Ended s p) : Grammar.ends p = Grammar.ends s := by
  obtain ⟨d, s', p', rfl, rfl⟩ := h
  rfl

/-- A list with commas is read again up to the end of its group. -/
theorem commaList {rule rule' : Rule α} (keep : α → γ) {start : List Lexeme → List Lexeme → Prop}
    (hstart : ∀ s p, start s p → ends p = ends s) (hended : ∀ s p, Ended s p → start s p)
    (hrule : ∀ s, ends s = false → Rereads g m s rule rule' keep (start s) fun _ => Listed) :
    Rereads g m s (Rule.commaList rule) (Rule.commaList rule') (List.map fun x => (keep x.1, x.2))
      (start s) fun _ => Ended := by
  refine (separated keep start Listed hstart (fun _ _ => Listed.ends) hrule (fun s _ => ?_)
    fun s => ?_).follow_mono
    fun _ s' k h _ => ⟨hended s' k h, .inr h⟩
  · exact (operator ",").front_mono fun p h => .inl h
  · exact operator_solid "," (by decide)

/-- A list with commas that fills a group is read again. -/
theorem groupedList {d : Delimiter} {rule rule' : Rule α} (keep : α → γ)
    {follow : Unit → List Lexeme → List Lexeme → Prop}
    (hrule : ∀ s, Grammar.ends s = false →
      Rereads g m s rule rule' keep (fun p => Grammar.ends p = Grammar.ends s) fun _ => Listed) :
    Rereads g m s (Rule.within d do let _ ← Rule.commaList rule)
      (Rule.within d do let _ ← Rule.commaList rule') id (Bracketed d s) follow := by
  have hcontent : ∀ s', Rereads g m s' (do let _ ← Rule.commaList rule)
      (do let _ ← Rule.commaList rule') id (fun p => Grammar.ends p = Grammar.ends s') fun _ => Ended :=
    fun s' => (commaList keep (fun _ _ => id) (fun _ _ => Ended.ends) hrule).bind
      fun _ _ _ _ => pure () () rfl fun _ hk => hk
  exact (within _ fun s' _ => hcontent s').front_mono fun _ => Opened.bracketed

end Rereads

end TypedId.Grammar
