import TypedId.Proofs.Grammar.Texts

/-!
What was written before does not matter.

A rule adds to what is written and never looks at it (`Rule.run_onto`). So it makes no difference
whether a text is held back and written then, or written at once, and what is held back of two rules
is what is held back of one after the other.
-/

namespace TypedId.Grammar

open Lexeme

variable {g : PhraseReader} {m : Rendition} {s : List Lexeme} {α β γ δ σ : Type}

/-! ### Readers that wrote something before -/

/-- A reader before which something was written. -/
def Reader.onto (r : Reader) (before : List Lexeme) : Reader :=
  { r with written := r.written ++ before }

/-- What comes of reading if something was written before. -/
def Outcome.onto (o : Outcome α) (before : List Lexeme) : Outcome α :=
  o.map fun (a, r) => (a, r.onto before)

@[simp] theorem Outcome.onto_ok (a : α) (r : Reader) (before : List Lexeme) :
    Outcome.onto (.ok (a, r)) before = .ok (a, r.onto before) := rfl

@[simp] theorem Outcome.onto_error (fault : Fault) (before : List Lexeme) :
    Outcome.onto (.error fault : Outcome α) before = .error fault := rfl

theorem Reader.take_onto (r : Reader) (count : Nat) (written before : List Lexeme) :
    (r.onto before).take count written = (r.take count written).onto before := by
  simp [Reader.onto, Reader.take]

theorem Reader.leave_onto (r : Reader) (d : Delimiter) (before : List Lexeme) :
    (r.onto before).leave d = (r.leave d).onto before := by
  rw [Reader.leave, Reader.take_onto]
  rfl

/-- A way to read phrases for which it does not matter what was written before. -/
def Blind (g : PhraseReader) : Prop :=
  ∀ phrase r before, g phrase (r.onto before) = (g phrase r).onto before

theorem iterate_onto {step : σ → Reader → Outcome (σ ⊕ α)}
    (hstep : ∀ x r before, step x (r.onto before) = (step x r).onto before) :
    ∀ (bound : Nat) (x : σ) (r : Reader) (before : List Lexeme),
      iterate step bound x (r.onto before) = (iterate step bound x r).onto before := by
  intro bound
  induction bound with
  | zero => exact fun _ _ _ => rfl
  | succ bound ih =>
      intro x r before
      rw [iterate, iterate, hstep]
      cases step x r with
      | error fault => rfl
      | ok read =>
          obtain ⟨y, r'⟩ := read
          cases y with
          | inl y => exact ih y r' before
          | inr a => rfl

namespace Rule

/-- A rule does not look at what was written before. -/
theorem run_onto (hg : Blind g) (rule : Rule α) :
    ∀ (r : Reader) (before : List Lexeme),
      rule.run g (r.onto before) = (rule.run g r).onto before := by
  induction rule with
  | done a => exact fun _ _ => rfl
  | andThen rule next ih ihnext =>
      intro r before
      show (rule >>= next).run g _ = Outcome.onto ((rule >>= next).run g r) before
      rw [run_bind, run_bind, ih]
      cases rule.run g r with
      | error fault => rfl
      | ok read => exact ihnext read.1 read.2 before
  | defer rule next ih ihnext =>
      intro r before
      have hone := ih r before
      cases hrule : rule.run g r with
      | error fault =>
          rw [hrule] at hone
          rw [run_defer_of_error hrule, run_defer_of_error hone]
          rfl
      | ok read =>
          rw [hrule] at hone
          rw [run_defer_of_ok hrule, run_defer_of_ok hone]
          -- What was noted of the deferred part is not looked at, nor is what was written.
          have htwo := ihnext read.1 { read.2 with stray := r.stray } before
          refine (congrArg (Except.map _) htwo).trans ?_
          cases (next read.1).run g { read.2 with stray := r.stray } <;> rfl
  | fail fault => exact fun _ _ => rfl
  | look => exact fun _ _ => rfl
  | take count written =>
      intro r before
      rw [run_take, run_take, Reader.take_onto]
      rfl
  | call phrase => exact hg phrase
  | within d rule ih =>
      intro r before
      rw [run_within_eq, run_within_eq, Reader.take_onto, ih]
      show (if seesGroup d r.rest then _ else _) = Outcome.onto (if seesGroup d r.rest then _ else _) before
      split
      · cases rule.run g (r.take 1 [opening d]) with
        | error fault => rfl
        | ok read =>
            show Except.ok (read.1, (read.2.onto before).leave d) = _
            rw [Reader.leave_onto]
            rfl
      · rfl
  | attempt rule ih =>
      intro r before
      rw [run_attempt_eq, run_attempt_eq, ih]
      cases rule.run g r with
      | error fault =>
          show (if _ then _ else _) = Outcome.onto (if _ then _ else _) before
          split <;> rfl
      | ok read => rfl
  | hold rule ih =>
      intro r before
      have hr : ({ r.onto before with written := [] } : Reader) = { r with written := [] } := rfl
      rw [run_hold_eq, run_hold_eq, hr]
      cases rule.run g { r with written := [] } <;> rfl
  | repeating step start ih =>
      intro r before
      rw [run_repeating, run_repeating]
      exact iterate_onto ih _ start r before

/-- A rule writes onto what was written what it writes onto nothing. -/
theorem run_eq_onto (hg : Blind g) (rule : Rule α) (r : Reader) :
    rule.run g r = (rule.run g r.unwritten).onto r.written := by
  rw [← run_onto hg]
  rfl

/-- What is held back and written then could have been written at once. -/
theorem run_hold_write (hg : Blind g) (rule : Rule α) (r : Reader) :
    (do let (a, text) ← hold rule; write text; return a : Rule α).run g r = rule.run g r := by
  rw [run_eq_onto hg rule r, run_bind]
  cases h : rule.run g r.unwritten with
  | error fault => rw [run_hold_of_error h]; rfl
  | ok read =>
      obtain ⟨a, r'⟩ := read
      rw [run_hold_of_ok h]
      simp [run_bind_of_ok (run_write ..), run_pure, Reader.take, Reader.onto]

end Rule

end TypedId.Grammar
