import TypedId.Proofs.Grammar.Prefaces
import TypedId.Proofs.Grammar.Respelling

/-!
Rules that carry over what they take.

A rule carries if what it writes is what it takes, but for the changes of `CarriedOver`
(`Rule.Carries`). The lemmas here carry that through every way to build a rule.
-/

namespace TypedId.Grammar

open Lexeme Rule

variable {altered : Prop} {g : PhraseReader} {before : List Lexeme} {r r' : Reader} {α β σ : Type}

/-- A group is left without a stray only where it ends. -/
theorem Reader.ends_of_leave {d : Delimiter} (h : (r.leave d).stray = none) : ends r.rest = true := by
  by_contra hends
  have hnone := (Option.or_eq_none_iff.mp h).2
  simp [hends] at hnone

/-- A reader took whole groups only, and what it wrote is what it took, carried over; `before` stands
before that. -/
def Reader.Carried (altered : Prop) (before : List Lexeme) (r r' : Reader) : Prop :=
  ∃ taken written, Closed taken ∧ r.rest = taken ++ r'.rest ∧ r' = r.after taken written r'.rest ∧
    CarriedOver altered before taken written r'.rest

namespace Reader.Carried

/-- Where nothing is taken, nothing has to be carried over. -/
protected theorem refl (before : List Lexeme) (h : r.stray = none) : r.Carried altered before r :=
  ⟨[], [], .nil, rfl, (Reader.after_nil h).symm, .refl ..⟩

/-- One text behind another. -/
theorem append {r'' : Reader} {taken written : List Lexeme} (hclosed : Closed taken)
    (hrest : r.rest = taken ++ r'.rest)
    (hafter : r' = r.after taken written r'.rest) (h : CarriedOver altered before taken written r'.rest)
    (h' : r'.Carried altered (before ++ taken) r'') : r.Carried altered before r'' := by
  obtain ⟨taken', written', hclosed', hrest', hafter', h'⟩ := h'
  refine ⟨taken ++ taken', written ++ written', hclosed.append hclosed', ?_, ?_, ?_⟩
  · rw [hrest, hrest', List.append_assoc]
  · rw [hafter', hafter, Reader.after_after]
    rfl
  · exact .append (hrest' ▸ h) h'

/-- What was taken of lexemes ahead. -/
theorem take {taken written rest : List Lexeme} (hclosed : Closed taken) (hr : r.rest = taken ++ rest)
    (hstray : r.stray = none) (h : CarriedOver altered before taken written rest) :
    r.Carried altered before (r.take taken.length written) := by
  rw [Reader.take_eq_after taken written hr hstray]
  exact ⟨taken, written, hclosed, hr, rfl, h⟩

/-- What was taken and written is carried over. -/
theorem carriedOver {taken written k : List Lexeme} (h : r.Carried altered before r')
    (hrest : r.rest = taken ++ r'.rest)
    (hafter : r' = r.after taken written k) : CarriedOver altered before taken written r'.rest := by
  obtain ⟨taken', written', -, hrest', hafter', h⟩ := h
  obtain rfl : taken = taken' := List.append_cancel_right (hrest.symm.trans hrest')
  obtain rfl : k = r'.rest := by rw [hafter]; rfl
  obtain ⟨-, rfl⟩ := Reader.after_inj rfl (hafter.symm.trans hafter')
  exact h

/-- A group ends where nothing of its content is left. -/
theorem exists_group {d : Delimiter} {q : Reader} (hb : Balanced r.rest) (hsees : seesGroup d r.rest = true)
    (h : (r.take 1 [opening d]).Carried altered (before ++ [opening d]) q)
    (hstray : (q.leave d).stray = none) :
    ∃ content written, Closed content ∧ r.rest = opening d :: content ++ [closing d] ++ (q.leave d).rest ∧
      q.leave d = r.after (opening d :: content ++ [closing d]) (opening d :: written ++ [closing d])
        (q.leave d).rest ∧
      CarriedOver altered (before ++ [opening d]) content written (closing d :: (q.leave d).rest) := by
  obtain ⟨k, hr⟩ := Rereads.exists_of_seesGroup hsees
  obtain ⟨content, written, hclosed, hrest, hafter, h⟩ := h
  obtain rfl : k = content ++ q.rest := by simpa [Reader.take, hr] using hrest
  obtain ⟨tail, htail⟩ := Balanced.closing_of_ends hclosed (hr ▸ hb) (ends_of_leave hstray)
  have hleft : (q.leave d).rest = tail := by
    simp [Reader.leave, Reader.take, htail, groupLength]
  refine ⟨content, written, hclosed, ?_, ?_, ?_⟩
  · simp [hleft, hr, htail]
  · rw [hleft, hafter, htail, Reader.leave_after]
  · rwa [hleft, ← htail]

end Reader.Carried

/-- What a rule takes is carried over where `before` stands before it. -/
def Rule.Carries (altered : Prop) (g : PhraseReader) (before : List Lexeme) (rule : Rule α) : Prop :=
  Tidy g → ∀ (r r' : Reader) (a : α), Balanced r.rest → rule.run g r = .ok (a, r') → r'.stray = none →
    r.Carried altered before r'

/-- What a rule takes and writes while it is held back. -/
theorem Rule.Carries.of_hold {rule : Rule α} (h : rule.Carries altered g before) (hg : Tidy g)
    (hb : Balanced r.rest)
    {x : α × List Lexeme} (hrun : (hold rule).run g r = .ok (x, r')) (hstray : r'.stray = none) :
    ∃ taken, Closed taken ∧ r.rest = taken ++ r'.rest ∧ r' = r.after taken [] r'.rest ∧
      CarriedOver altered before taken x.2 r'.rest := by
  obtain ⟨a, r₁, hrule, rfl, rfl⟩ := run_hold_eq_ok.mp hrun
  obtain ⟨taken, written, hclosed, hrest, hafter, h⟩ := h hg { r with written := [] } r₁ a hb hrule hstray
  have hwritten : r₁.written.reverse = written := by
    rw [hafter]
    simp [Reader.after]
  refine ⟨taken, hclosed, hrest, ?_, hwritten ▸ h⟩
  rw [hafter]
  simp [Reader.after]

/-- What a group holds whose content is read by a rule. -/
theorem Rule.Carries.exists_of_within {d : Delimiter} {rule : Rule α}
    (h : rule.Carries altered g (before ++ [opening d]))
    (hg : Tidy g) (hb : Balanced r.rest) {a : α} (hrun : (Rule.within d rule).run g r = .ok (a, r'))
    (hstray : r'.stray = none) :
    ∃ content written, Closed content ∧ r.rest = opening d :: content ++ [closing d] ++ r'.rest ∧
      r' = r.after (opening d :: content ++ [closing d]) (opening d :: written ++ [closing d]) r'.rest ∧
      CarriedOver altered (before ++ [opening d]) content written (closing d :: r'.rest) := by
  obtain ⟨hsees, q, hrule, rfl⟩ := run_within_eq_ok.mp hrun
  have hb₁ : Balanced (r.take 1 [opening d]).rest := hb.of_suffix (List.drop_suffix 1 _)
  exact (h hg _ q a hb₁ hrule ((q.getsOn_leave d).stray hstray)).exists_group hb hsees hstray

namespace Rule.Carries

variable {rule rule' : Rule α} {next : α → Rule β}

/-! ### Ways to build a rule -/

/-- A rule that never succeeds carries over all that it takes. -/
theorem of_error (h : ∀ r a r', rule.run g r ≠ .ok (a, r')) : rule.Carries altered g before :=
  fun _ r r' a _ hrun => (h r a r' hrun).elim

theorem fail (fault : Fault) : (Rule.fail fault : Rule α).Carries altered g before :=
  of_error fun r a r' hrun => by
    rw [run_fail] at hrun
    cases hrun

theorem complain (complaint : Complaint) : (Rule.complain complaint : Rule α).Carries altered g before :=
  of_error fun r a r' hrun => by
    rw [run_complain] at hrun
    cases hrun

theorem expected (things : List Expectation) : (Rule.expected things : Rule α).Carries altered g before :=
  of_error fun r a r' hrun => by
    obtain ⟨fault, hfault⟩ := run_expected (g := g) (α := α) things r
    cases hfault.symm.trans hrun

/-- A rule that takes nothing has nothing to carry over. -/
protected theorem pure (a : α) : (pure a : Rule α).Carries altered g before := by
  rintro - r r' _ - ⟨⟩ hstray
  exact .refl before hstray

/-- A rule that runs like another one. -/
theorem congr {rule' : Rule α} (h : rule.Carries altered g before)
    (hrun : ∀ r, rule'.run g r = rule.run g r) :
    rule'.Carries altered g before :=
  fun hg r r' a hb hrun' hstray => h hg r r' a hb (hrun r ▸ hrun') hstray

/-- One rule behind another that tells where it got to. -/
theorem bind_of (h : rule.Carries altered g before)
    (hnext : Tidy g → ∀ a r r₁ taken, rule.run g r = .ok (a, r₁) → r.rest = taken ++ r₁.rest → Closed taken →
      ∀ r' b, Balanced r₁.rest → (next a).run g r₁ = .ok (b, r') → r'.stray = none →
        r₁.Carried altered (before ++ taken) r') :
    (rule >>= next).Carries altered g before := by
  intro hg r r' b hb hrun hstray
  obtain ⟨a, r₁, hrule, hrun⟩ := run_bind_eq_ok.mp hrun
  obtain ⟨taken, written, hclosed, hrest, hafter, h⟩ :=
    h hg r r₁ a hb hrule (run_stray hg _ _ _ _ hrun hstray)
  have hb₁ := hclosed.balanced (hrest ▸ hb)
  exact .append hclosed hrest hafter h (hnext hg a r r₁ taken hrule hrest hclosed r' b hb₁ hrun hstray)

/-- What two rules take one after the other is carried over part by part. -/
theorem bind (h : rule.Carries altered g before) (hnext : ∀ a before, (next a).Carries altered g before) :
    (rule >>= next).Carries altered g before :=
  bind_of h fun hg a _ r₁ taken _ _ _ r' b hb hrun hstray =>
    hnext a (before ++ taken) hg r₁ r' b hb hrun hstray

/-- A group that would be noted late is none of which something goes on. -/
theorem defer (h : (rule >>= next).Carries altered g before) :
    (Rule.defer rule next).Carries altered g before :=
  fun hg r r' b hb hrun hstray => h hg r r' b hb ((run_defer_iff hg hstray).mp hrun) hstray

/-- Both branches have to carry over what they take. -/
theorem ite {c : Prop} [Decidable c] (h : rule.Carries altered g before)
    (h' : rule'.Carries altered g before) :
    (if c then rule else rule').Carries altered g before := by
  split
  · exact h
  · exact h'

/-- A rule is tried where it is told why. -/
theorem ite_of {c : Prop} [Decidable c] (h : c → rule.Carries altered g before)
    (h' : ¬ c → rule'.Carries altered g before) :
    (if c then rule else rule').Carries altered g before := by
  split
  · next hc => exact h hc
  · next hc => exact h' hc

/-- Looking takes nothing. -/
theorem look {next : View → Rule β} (h : ∀ v, (next v).Carries altered g before) :
    (Rule.look >>= next).Carries altered g before :=
  fun hg r r' b hb hrun => h _ hg r r' b hb (run_bind_of_ok (run_look r) next ▸ hrun)

/-- Looking ahead takes nothing. -/
theorem ahead {next : List Lexeme → Rule β} (h : ∀ ls, (next ls).Carries altered g before) :
    (Rule.ahead >>= next).Carries altered g before :=
  fun hg r r' b hb hrun => h _ hg r r' b hb (run_bind_of_ok (run_ahead r) next ▸ hrun)

/-- What is ahead may be told. -/
theorem ahead_of {next : List Lexeme → Rule β}
    (h : Tidy g → ∀ r r' b, Balanced r.rest → (next r.rest).run g r = .ok (b, r') → r'.stray = none →
      r.Carried altered before r') : (Rule.ahead >>= next).Carries altered g before :=
  fun hg r r' b hb hrun hstray => h hg r r' b hb (run_bind_of_ok (run_ahead r) next ▸ hrun) hstray

theorem here {next : Nat → Rule β} (h : ∀ n, (next n).Carries altered g before) :
    (Rule.here >>= next).Carries altered g before :=
  fun hg r r' b hb hrun => h _ hg r r' b hb (run_bind_of_ok (run_here r) next ▸ hrun)

/-- What is held and then written is written. -/
theorem hold_write {next : α × List Lexeme → Rule β} (h : rule.Carries altered g before)
    (hnext : ∀ x before, (next x).Carries altered g before) :
    (Rule.hold rule >>= fun x => Rule.write x.2 >>= fun _ => next x).Carries altered g before := by
  intro hg r r' b hb hrun hstray
  obtain ⟨x, r₁, hhold, hrun⟩ := run_bind_eq_ok.mp hrun
  rw [run_bind_of_ok (run_write ..)] at hrun
  have hstray₁ : r₁.stray = none := run_stray hg _ (r₁.take 0 x.2) _ _ hrun hstray
  obtain ⟨taken, hclosed, hrest, hafter, h⟩ := h.of_hold hg hb hhold hstray₁
  have hb₁ : Balanced r₁.rest := hclosed.balanced (hrest ▸ hb)
  have hafter' : r₁.take 0 x.2 = r.after taken x.2 (r₁.take 0 x.2).rest := by
    rw [hafter]
    simp [Reader.after, Reader.take]
  have hrest' : r.rest = taken ++ (r₁.take 0 x.2).rest := hrest
  exact .append hclosed hrest' hafter' h (hnext x _ hg _ r' b hb₁ hrun hstray)

/-- A group is carried over if its content is. -/
theorem within {d : Delimiter} (h : rule.Carries altered g (before ++ [opening d])) :
    (Rule.within d rule).Carries altered g before := by
  intro hg r r' a hb hrun hstray
  obtain ⟨content, written, hclosed, hrest, hafter, h⟩ := h.exists_of_within hg hb hrun hstray
  exact ⟨_, _, hclosed.group, hrest, hafter, h.group⟩

/-- A step is repeated; `inv` tells what stands before and is ahead between two steps. -/
theorem repeating_of {step : σ → Rule (σ ⊕ α)} {start : σ} (inv : σ → List Lexeme → List Lexeme → Prop)
    (hstart : ∀ s, inv start before s)
    (h : Tidy g → ∀ x before r r' y, inv x before r.rest → Balanced r.rest → (step x).run g r = .ok (y, r') →
      r'.stray = none →
      r.Carried altered before r' ∧ ∀ x' taken, y = .inl x' → Closed taken → r.rest = taken ++ r'.rest →
        inv x' (before ++ taken) r'.rest) :
    (Rule.repeating step start).Carries altered g before := by
  intro hg
  have hiterate : ∀ (bound : Nat) (x : σ) (before : List Lexeme) (r r' : Reader) (a : α),
      inv x before r.rest →
      Balanced r.rest → iterate (fun x => (step x).run g) bound x r = .ok (a, r') → r'.stray = none →
      r.Carried altered before r' := by
    intro bound
    induction bound with
    | zero =>
        intro x before r r' a _ _ hrun
        cases hrun
    | succ bound ih =>
        intro x before r r' a hinv hb hrun hstray
        rw [iterate] at hrun
        split at hrun
        · next y r₁ hstep =>
          have hstray₁ : r₁.stray = none :=
            (iterate_getsOn (fun x r y r' h => run_getsOn hg (step x) r y r' h) bound y r₁ a r' hrun).stray
              hstray
          obtain ⟨⟨taken, written, hclosed, hrest, hafter, hone⟩, hmore⟩ :=
            h hg x before r r₁ _ hinv hb hstep hstray₁
          exact .append hclosed hrest hafter hone
            (ih y _ r₁ r' a (hmore y taken rfl hclosed hrest) (hclosed.balanced (hrest ▸ hb)) hrun hstray)
        · next b r₁ hstep =>
          cases hrun
          exact (h hg x before r r' _ hinv hb hstep hstray).1
        · cases hrun
  intro r r' a hb hrun hstray
  rw [run_repeating] at hrun
  exact hiterate _ start before r r' a (hstart _) hb hrun hstray

/-- A repetition carries over what its steps do, if these do so behind whatever was taken before. -/
theorem repeating {step : σ → Rule (σ ⊕ α)} {start : σ} (h : ∀ x before, (step x).Carries altered g before) :
    (Rule.repeating step start).Carries altered g before :=
  repeating_of (fun _ _ _ => True) (fun _ => trivial) fun hg x before r r' y _ hb hrun hstray =>
    ⟨h x before hg r r' y hb hrun hstray, fun _ _ _ _ _ => trivial⟩

/-- A loop carries over what its rule does. -/
theorem while_ {more : List Lexeme → Bool} (h : ∀ before, rule.Carries altered g before) :
    (Rule.while_ more rule).Carries altered g before :=
  repeating fun _ _ => .ahead fun _ => .ite (.bind (h _) fun _ _ => .pure _) (.pure _)

/-- A list carries over its things and its separators, and the last separator if it is there. -/
theorem separated {separator : Rule Unit} {stop : List Lexeme → Bool}
    (hseparator : ∀ before, separator.Carries altered g before)
    (h : ∀ before, rule.Carries altered g before) :
    (Rule.separated separator stop rule).Carries altered g before :=
  repeating fun _ _ => .ahead fun _ => .ite (.pure _) <| .bind (h _) fun _ _ => .ahead fun _ =>
    .ite (.pure _) <| .bind (hseparator _) fun _ _ => .pure _

/-- The same of a list whose last separator ends it. -/
theorem joined {separator : String} {stop : List Lexeme → Bool}
    (hseparator : ∀ before, (Rule.operator? separator).Carries altered g before)
    (h : ∀ before, rule.Carries altered g before) :
    (Rule.joined separator stop rule).Carries altered g before :=
  repeating fun _ _ => .ahead fun _ => .ite (.pure _) <| .bind (h _) fun _ _ =>
    .bind (hseparator _) fun _ _ => .ite (.pure _) (.pure _)

/-- If every step ends a list or adds something to it, then an empty list was not begun: it ends where it
would begin. -/
theorem of_repeating_nil {step : List β → Rule (List β ⊕ List β)} {stop : List Lexeme → Bool}
    (hstep : ∀ soFar r y r', (step soFar).run g r = .ok (y, r') →
      (stop r.rest = true ∧ y = .inr soFar.reverse ∧ r' = r) ∨ (∃ b, y = .inr (b :: soFar).reverse) ∨
        ∃ b, y = .inl (b :: soFar))
    (hrun : (Rule.repeating step []).run g r = .ok ([], r')) : r' = r ∧ stop r.rest = true := by
  have hiterate : ∀ (bound : Nat) (soFar : List β) (r : Reader),
      iterate (fun x => (step x).run g) bound soFar r = .ok ([], r') →
        soFar = [] ∧ r' = r ∧ stop r.rest = true := by
    intro bound
    induction bound with
    | zero =>
        intro soFar r h
        cases h
    | succ bound ih =>
        intro soFar r h
        rw [iterate] at h
        split at h
        · next more r₁ hrun =>
          obtain rfl := (ih more r₁ h).1
          rcases hstep _ _ _ _ hrun with ⟨-, hy, -⟩ | ⟨b, hy⟩ | ⟨b, hy⟩ <;> cases hy
        · next as r₁ hrun =>
          rcases hstep _ _ _ _ hrun with ⟨hstop, hy, rfl⟩ | ⟨b, hy⟩ | ⟨b, hy⟩
          · cases h
            exact ⟨List.reverse_eq_nil_iff.mp (Sum.inr.inj hy).symm, rfl, hstop⟩
          · cases h
            simp at hy
          · cases hy
        · cases h
  exact (hiterate _ [] r hrun).2

/-- A list is empty only if it stops at once, and then nothing was taken. -/
theorem of_separated_nil {separator : Rule Unit} {stop : List Lexeme → Bool}
    (hrun : (Rule.separated separator stop rule).run g r = .ok ([], r')) : r' = r ∧ stop r.rest = true := by
  refine of_repeating_nil (fun soFar r y r' h => ?_) hrun
  rw [run_bind_of_ok (run_ahead r)] at h
  split at h
  · next hstop =>
    cases h
    exact .inl ⟨hstop, rfl, rfl⟩
  obtain ⟨a, r₁, -, h⟩ := run_bind_eq_ok.mp h
  rw [run_bind_of_ok (run_ahead r₁)] at h
  split at h
  · cases h
    exact .inr (.inl ⟨_, rfl⟩)
  · obtain ⟨_, r₂, -, ⟨⟩⟩ := run_bind_eq_ok.mp h
    exact .inr (.inr ⟨_, rfl⟩)

/-- The same of a list whose last separator ends it. -/
theorem of_joined_nil {separator : String} {stop : List Lexeme → Bool}
    (hrun : (Rule.joined separator stop rule).run g r = .ok ([], r')) : r' = r ∧ stop r.rest = true := by
  refine of_repeating_nil (fun soFar r y r' h => ?_) hrun
  rw [run_bind_of_ok (run_ahead r)] at h
  split at h
  · next hstop =>
    cases h
    exact .inl ⟨hstop, rfl, rfl⟩
  obtain ⟨a, r₁, -, h⟩ := run_bind_eq_ok.mp h
  obtain ⟨more, r₂, -, h⟩ := run_bind_eq_ok.mp h
  split at h
  · cases h
    exact .inr (.inr ⟨_, rfl⟩)
  · cases h
    exact .inr (.inl ⟨_, rfl⟩)

/-- Something that is held back, and written unless it need not be. -/
theorem unwrittenIf (dropped : α → Bool) (h : rule.Carries altered g before)
    (hdropped : Tidy g → ∀ r r' a taken, Balanced r.rest → rule.run g r = .ok (a, r') → r'.stray = none →
      dropped a = true → r.rest = taken ++ r'.rest → CarriedOver altered before taken [] r'.rest) :
    (Rule.unwrittenIf dropped rule).Carries altered g before := by
  intro hg r r' a hb hrun hstray
  obtain ⟨r₁, hrule, hstray₁⟩ := of_run_unwrittenIf hg hrun hstray
  obtain ⟨taken, written, hclosed, hrest, hafter, h⟩ := h hg r.unwritten r₁ a hb hrule hstray₁
  rw [run_unwrittenIf_of_ok dropped (hafter ▸ hrule)] at hrun
  cases hrun
  refine ⟨taken, _, hclosed, hrest, rfl, ?_⟩
  split
  · next hd => exact hdropped hg r.unwritten r₁ a taken hb hrule hstray₁ hd hrest
  · exact h

/-! ### Lexemes -/

/-- What is written as it was taken. -/
theorem of_same {taken written rest : List Lexeme} (hclosed : Closed taken) (hr : r.rest = taken ++ rest)
    (hstray : r.stray = none) (halone : written.map alone = taken.map alone) :
    r.Carried altered before (r.take taken.length written) :=
  .take hclosed hr hstray (.same _ _ halone)

/-- Something is read behind lexemes that are known. -/
theorem known_then {a : α} {b : β} {taken written rest : List Lexeme}
    (hg : Tidy g) (hb : Balanced r.rest) (hrun : (rule >>= next).run g r = .ok (b, r'))
    (hstray : r'.stray = none)
    (hrule : rule.run g r = .ok (a, r.take taken.length written)) (hclosed : Closed taken)
    (hr : r.rest = taken ++ rest)
    (h : CarriedOver altered before taken written rest)
    (hnext : (next a).Carries altered g (before ++ taken)) :
    r.Carried altered before r' := by
  rw [run_bind_of_ok hrule] at hrun
  have hnone : r.stray = none := run_stray hg _ (r.take taken.length written) _ _ hrun hstray
  have hafter := Reader.take_eq_after taken written hr hnone
  rw [hafter] at hrun
  have hcarried := hnext hg _ r' b (hclosed.balanced (hr ▸ hb)) hrun hstray
  exact .append hclosed hr rfl h hcarried

/-- Lexemes that are known are copied. -/
theorem run_copy_of_known {taken rest : List Lexeme} {count : Nat} (hr : r.rest = taken ++ rest)
    (hcount : taken.length = count) : (copy count).run g r = .ok ((), r.take taken.length taken) := by
  subst hcount
  rw [run_copy, hr, List.take_left]

/-- An operator that is seen is some closed piece of the text, which differs from the spelling of the
operator in joints alone. -/
theorem exists_of_startsWith {cs : List Char} {ls : List Lexeme} (h : startsWith cs ls = true) :
    ∃ taken rest, ls = taken ++ rest ∧ taken.length = cs.length ∧ Closed taken ∧
      (Lexeme.operator cs).map alone = taken.map alone := by
  fun_induction startsWith cs ls with
  | case1 ls => exact ⟨[], ls, rfl, rfl, .nil, rfl⟩
  | case2 c d joint rest =>
      obtain rfl : c = d := by simpa using h
      exact ⟨[punct c joint], rest, rfl, rfl, .punct c joint, rfl⟩
  | case3 c cs d joint rest hcs ih =>
      simp only [Bool.and_eq_true, beq_iff_eq] at h
      obtain ⟨⟨rfl, rfl⟩, h⟩ := h
      obtain ⟨taken, rest, rfl, hlength, hclosed, halone⟩ := ih h
      refine ⟨punct c true :: taken, rest, rfl, by simp [hlength], (Closed.punct c true).append hclosed, ?_⟩
      cases cs with
      | nil => exact (hcs rfl).elim
      | cons c' cs => simpa [Lexeme.operator, alone] using halone
  | case4 => cases h

/-- An operator is carried over up to its joints. -/
theorem operator (text : String) : (Rule.operator text).Carries altered g before := by
  intro _ r r' _ _ hrun hstray
  obtain ⟨hsees, rfl⟩ := run_operator_eq_ok.mp hrun
  obtain ⟨taken, rest, hr, hlength, hclosed, halone⟩ := exists_of_startsWith hsees
  rw [← String.length_toList, ← hlength]
  exact of_same hclosed hr hstray halone

/-- So is an operator that may be left out. -/
theorem operator? (text : String) : (Rule.operator? text).Carries altered g before := by
  intro hg r r' b hb hrun hstray
  cases hsees : sees text r.rest with
  | true =>
      rw [run_operator?_of_sees hsees] at hrun
      cases hrun
      exact operator text hg r _ () hb (run_operator_of_sees hsees) hstray
  | false =>
      rw [run_operator?_of_not_sees hsees] at hrun
      cases hrun
      exact .refl before hstray

/-- A keyword is carried over as it stands. -/
theorem keyword (w : String) : (Rule.keyword w).Carries altered g before := by
  intro _ r r' _ _ hrun hstray
  obtain ⟨hsees, rfl⟩ := run_keyword_eq_ok.mp hrun
  obtain ⟨k, hr⟩ := Rereads.exists_of_seesWord hsees
  rw [hr]
  exact of_same (.word w) hr hstray rfl

theorem keyword? (w : String) : (Rule.keyword? w).Carries altered g before := by
  intro hg r r' b hb hrun hstray
  cases hsees : seesWord w r.rest with
  | true =>
      rw [run_keyword?_of_sees hsees] at hrun
      cases hrun
      exact keyword w hg r _ () hb (run_keyword_of_sees hsees) hstray
  | false =>
      rw [run_keyword?_of_not_sees hsees] at hrun
      cases hrun
      exact .refl before hstray

/-- Whether a keyword comes is told by what stands before the next thing then. -/
theorem keyword?_then (w : String) {next : Bool → Rule β}
    (htrue : (next true).Carries altered g (before ++ [word w]))
    (hfalse : (next false).Carries altered g before) :
    (Rule.keyword? w >>= next).Carries altered g before := by
  intro hg r r' b hb hrun hstray
  cases hsees : seesWord w r.rest with
  | true =>
      obtain ⟨rest, hr⟩ := Rereads.exists_of_seesWord hsees
      have hkeyword : (Rule.keyword? w).run g r = .ok (true, r.take 1 [word w]) := by
        rw [run_keyword?_of_sees hsees, hr]
        rfl
      exact known_then hg hb hrun hstray hkeyword (.word w) hr (.refl ..) htrue
  | false =>
      rw [run_bind_of_ok (run_keyword?_of_not_sees hsees)] at hrun
      exact hfalse hg r r' b hb hrun hstray

/-- What is taken of a punctuation character. -/
theorem exists_of_run_operator {text : String} {c : Char} (htext : text.toList = [c]) {u : Unit}
    (hrun : (Rule.operator text).run g r = .ok (u, r')) : ∃ joint, r.rest = punct c joint :: r'.rest := by
  obtain ⟨hsees, rfl⟩ := run_operator_eq_ok.mp hrun
  rw [sees, htext] at hsees
  obtain ⟨joint, rest, hr⟩ := exists_of_sees hsees
  refine ⟨joint, hr.trans (congrArg _ ?_)⟩
  show rest = r.rest.drop text.length
  rw [← String.length_toList, htext, hr]
  rfl

/-- A punctuation character stands before what is read behind it. -/
theorem operator_then {text : String} {c : Char} (htext : text.toList = [c]) {next : Unit → Rule β}
    (h : ∀ joint, (next ()).Carries altered g (before ++ [punct c joint])) :
    (Rule.operator text >>= next).Carries altered g before := by
  intro hg r r' b hb hrun hstray
  obtain ⟨_, r₁, hoperator, -⟩ := run_bind_eq_ok.mp hrun
  obtain ⟨hsees, -⟩ := run_operator_eq_ok.mp hoperator
  have hlength : text.length = 1 := by rw [← String.length_toList, htext]; rfl
  rw [sees, htext] at hsees
  obtain ⟨joint, rest, hr⟩ := exists_of_sees hsees
  have hrule : (Rule.operator text).run g r = .ok ((), r.take 1 [punct c false]) := by
    rw [run_operator_of_sees (by rw [sees, htext]; exact hsees), hlength, htext]
    rfl
  have hsame : CarriedOver altered before [punct c joint] [punct c false] rest := .same _ _ rfl
  exact known_then hg hb hrun hstray hrule (.punct c joint) hr hsame (h joint)

/-- A word stands before what is read behind it. -/
theorem keyword_then (w : String) {next : Unit → Rule β}
    (h : (next ()).Carries altered g (before ++ [word w])) :
    (Rule.keyword w >>= next).Carries altered g before := by
  intro hg r r' b hb hrun hstray
  obtain ⟨_, r₁, hkeyword, -⟩ := run_bind_eq_ok.mp hrun
  obtain ⟨hsees, rfl⟩ := run_keyword_eq_ok.mp hkeyword
  obtain ⟨rest, hr⟩ := Rereads.exists_of_seesWord hsees
  have htake : r.rest.take 1 = [word w] := by
    rw [hr]
    rfl
  rw [htake] at hkeyword
  exact known_then hg hb hrun hstray hkeyword (.word w) hr (.refl ..) h

/-- Any word, which is told. -/
theorem of_run_anyWord {n : Name} (hrun : Rule.anyWord.run g r = .ok (n, r')) :
    ∃ rest, r.rest = word n.text :: rest ∧ r' = r.take 1 [word n.text] := by
  have hrun' := hrun
  rw [Rule.anyWord, run_bind_of_ok (run_look r)] at hrun'
  split at hrun'
  · next w rest hr =>
    rw [run_anyWord_of_word hr] at hrun
    cases hrun
    exact ⟨rest, hr, rfl⟩
  · rw [run_complain] at hrun'
    cases hrun'

/-- Words are carried over as they stand, be they names or keywords. -/
theorem anyWord : Rule.anyWord.Carries altered g before := by
  intro _ r r' n _ hrun hstray
  obtain ⟨rest, hr, rfl⟩ := of_run_anyWord hrun
  exact of_same (.word n.text) hr hstray rfl

theorem identifierOr (keywords : List String) : (Rule.identifierOr keywords).Carries altered g before := by
  intro _ r r' n _ hrun hstray
  obtain ⟨w, k, hr, hw⟩ := word_of_run_identifierOr hrun
  rw [run_identifierOr_of_word hr hw] at hrun
  cases hrun
  exact of_same (.word w) hr hstray rfl

theorem identifier : Rule.identifier.Carries altered g before := by
  intro hg r r' n hb hrun
  rw [run_identifier_eq] at hrun
  exact identifierOr [] hg r r' n hb hrun

/-- A lifetime is carried over with its apostrophe. -/
theorem lifetime : Rule.lifetime.Carries altered g before := by
  intro _ r r' n _ hrun hstray
  obtain ⟨w, rest, hr⟩ := seen_of_run_lifetime hrun
  rw [run_lifetime_of_seen hr] at hrun
  cases hrun
  exact of_same ((Closed.punct _ _).append (.word w)) hr hstray rfl

theorem lifetime? : Rule.lifetime?.Carries altered g before := by
  intro hg r r' b hb hrun hstray
  rw [Rule.lifetime?, run_bind_of_ok (run_ahead r)] at hrun
  split at hrun
  · obtain ⟨n, r₁, hlifetime, ⟨⟩⟩ := run_bind_eq_ok.mp hrun
    exact lifetime hg r r' n hb hlifetime hstray
  · cases hrun
    exact .refl before hstray

/-- A literal is carried over as it stands, the sign of a negative number included. -/
theorem literal : Rule.literal.Carries altered g before := by
  intro _ r r' u _ hrun hstray
  have hseen := Rereads.exists_of_run_literal hrun
  rw [Rule.literal, run_bind_of_ok (run_ahead r)] at hrun
  rcases hseen with ⟨text, rest, hr⟩ | ⟨w, rest, hr, hw⟩ | ⟨text, joint, rest, hr, hnumber⟩
  · simp only [hr, seesLiteral, if_true, run_copy] at hrun
    cases hrun
    exact of_same (.literal text) hr hstray rfl
  · have hsees : seesLiteral (word w :: rest) = true := by simpa [seesLiteral] using hw
    simp only [hr, hsees, if_true, run_copy] at hrun
    cases hrun
    exact of_same (.word w) hr hstray rfl
  · simp only [hr, seesLiteral, hnumber, if_true] at hrun
    cases hrun
    exact of_same ((Closed.punct _ _).append (.literal text)) hr hstray rfl

/-! ### Groups -/

/-- A group that is taken as it is. -/
theorem anyGroup : Rule.anyGroup.Carries altered g before := by
  intro _ r r' d hb hrun hstray
  obtain ⟨inner, hr⟩ := Rereads.exists_of_run_anyGroup hrun
  obtain ⟨content, rest, rfl, hclosed, hlength⟩ := Rereads.exists_group (hr ▸ hb)
  have hrun' := hrun
  rw [Rule.anyGroup, run_bind_of_ok (run_ahead r), hr] at hrun'
  simp only at hrun'
  rw [run_bind_of_ok (run_copy ..), run_pure] at hrun'
  have hnone : r.stray = none := by
    cases hrun'
    exact hstray
  rw [Rereads.run_anyGroup_of_content hlength hr hnone] at hrun
  cases hrun
  exact ⟨_, _, hclosed.group, by simp [hr, Reader.after], rfl, .refl ..⟩

/-- A group is carried over without being looked into. -/
theorem group (d : Delimiter) : (Rule.group d).Carries altered g before := by
  intro hg r r' _ hb hrun hstray
  rw [Rule.group, run_bind_of_ok (run_ahead r)] at hrun
  split at hrun
  · obtain ⟨e, r₁, hgroup, ⟨⟩⟩ := run_bind_eq_ok.mp hrun
    exact anyGroup hg r _ e hb hgroup hstray
  · rw [run_complain] at hrun
    cases hrun

/-! ### Source spelling -/

/-- What is kept in its source spelling is written as it was taken. -/
theorem keptIf (wanted : α → Bool) (h : rule.Carries altered g before) :
    (Rule.keptIf wanted rule).Carries altered g before := by
  intro hg r r' a hb hrun hstray
  obtain ⟨r₁, hrule, hstray₁⟩ := of_run_keptIf hg hrun hstray
  obtain ⟨taken, written, hclosed, hrest, hafter, hcarried⟩ := h hg r.unwritten r₁ a hb hrule hstray₁
  replace hrest : r.rest = taken ++ r₁.rest := hrest
  rw [run_keptIf_of_ok wanted hrest (hafter ▸ hrule)] at hrun
  cases hrun
  refine ⟨taken, _, hclosed, hrest, rfl, ?_⟩
  split
  · exact .refl ..
  · exact hcarried

/-- What is kept in its source spelling is carried over lexeme by lexeme, whatever the rule itself
writes. -/
theorem kept (h : rule.Carries altered g before) : (Rule.kept rule).Carries altered g before := by
  have hkept : (Rule.keptIf (fun _ => true) rule).Carries altered g before := keptIf _ h
  exact hkept

/-- A thing is carried over with what stands before it; `hdropped` tells why that may be left out. -/
theorem prefaced {first : Rule β} (preface : α → Preface) (hfirst : ∀ before, first.Carries altered g before)
    (h : ∀ before, rule.Carries altered g before)
    (hdropped : Tidy g → ∀ r b r₁ a r₂ taken, Balanced r.rest → first.run g r = .ok (b, r₁) →
      rule.run g r₁.unwritten = .ok (a, r₂) → r₂.stray = none → preface a = .dropped →
        r.rest = taken ++ r₁.rest →
      CarriedOver altered before taken [] r₁.rest) :
    (Rule.prefaced preface first rule).Carries altered g before := by
  rintro hg r r' ⟨b, a⟩ hb hrun hstray
  obtain ⟨r₁, r₂, hone, htwo, -, hstray₂⟩ := of_run_prefaced hrun
  dsimp only at hone htwo
  rw [hstray] at hstray₂
  have hstray₁ : r₁.stray = none := run_stray hg _ r₁.unwritten _ r₂ htwo hstray₂
  obtain ⟨taken, written, hclosed, hrest, hafter, hcarried⟩ :=
    hfirst before hg r.unwritten r₁ b hb hone hstray₁
  have hb₁ : Balanced r₁.unwritten.rest := hclosed.balanced (hrest ▸ hb)
  obtain ⟨taken', written', hclosed', hrest', hafter', hcarried'⟩ :=
    h (before ++ taken) hg r₁.unwritten r₂ a hb₁ htwo hstray₂
  replace hrest' : r₁.rest = taken' ++ r₂.rest := hrest'
  have hr : r.rest = taken ++ taken' ++ r₂.rest := by
    rw [show r.rest = taken ++ r₁.rest from hrest, hrest', List.append_assoc]
  have hleft : CarriedOver altered before taken [] (taken' ++ r₂.rest) ∨ preface a ≠ .dropped := by
    by_cases hd : preface a = .dropped
    · exact .inl (hrest' ▸ hdropped hg r.unwritten b r₁ a r₂ taken hb hone htwo hstray₂ hd hrest)
    · exact .inr hd
  have htwo' := htwo
  have hunwritten : r₁.unwritten = (r.after taken [] r₁.rest).unwritten := by
    rw [hafter]
    rfl
  rw [hunwritten] at htwo' hafter'
  rw [run_prefaced_of_ok preface hr (hafter ▸ hone) (hafter' ▸ htwo')] at hrun
  cases hrun
  refine ⟨_, _, hclosed.append hclosed', hr, rfl, ?_⟩
  rw [hrest'] at hcarried
  show CarriedOver altered before (taken ++ taken') _ r₂.rest
  cases hpreface : preface a with
  | written => exact .append hcarried hcarried'
  | dropped =>
      have hbehind : CarriedOver altered before (taken ++ taken') ([] ++ written') r₂.rest :=
        .append (hleft.resolve_right fun hne => hne hpreface) hcarried'
      exact hbehind
  | source => exact .refl ..

end Rule.Carries

end TypedId.Grammar
