import TypedId.Proofs.Grammar.Alone

/-!
Texts that stand one behind the other.

A loop that goes on while it is wanted is a row of runs of its rule (`Rule.Row`), whichever way it is
looked at: what it has read can be taken apart (`Rule.row_of_run_while`), and texts that end by
themselves (`Rule.Delimits`) may be put in a row (`Rule.run_while_of_chunks`).
-/

namespace TypedId.Grammar

open Lexeme

variable {g : PhraseReader} {α β : Type} {rule : Rule α} {keep : α → β} {wanted : List Lexeme → Bool}
  {r r' : Reader} {as : List α}

namespace Rule

/-! ### Rows of runs -/

/-- One step of a loop. -/
def whileStep (wanted : List Lexeme → Bool) (rule : Rule α) (soFar : List α) : Rule (List α ⊕ List α) := do
  if wanted (← ahead) then return .inl ((← rule) :: soFar)
  else return .inr soFar.reverse

theorem while_eq (wanted : List Lexeme → Bool) (rule : Rule α) :
    while_ wanted rule = repeating (whileStep wanted rule) [] := rfl

theorem run_whileStep_of_wanted (h : wanted r.rest = true) {a : α} (hrule : rule.run g r = .ok (a, r'))
    (soFar : List α) : (whileStep wanted rule soFar).run g r = .ok (.inl (a :: soFar), r') := by
  rw [whileStep, run_bind_of_ok (run_ahead r)]
  simp only [h, if_true]
  rw [run_bind_of_ok hrule]
  rfl

theorem run_whileStep_of_not_wanted (h : wanted r.rest = false) (soFar : List α) :
    (whileStep wanted rule soFar).run g r = .ok (.inr soFar.reverse, r) := by
  rw [whileStep, run_bind_of_ok (run_ahead r)]
  simp only [h, Bool.false_eq_true, if_false]
  rfl

/-- Runs of a rule one behind the other, each where it is wanted, up to where it is not. -/
inductive Row (g : PhraseReader) (wanted : List Lexeme → Bool) (rule : Rule α) :
    Reader → List α → Reader → Prop where
  | nil {r : Reader} (h : wanted r.rest = false) : Row g wanted rule r [] r
  | cons {r r₁ r' : Reader} {a : α} {as : List α} (h : wanted r.rest = true)
    (hrule : rule.run g r = .ok (a, r₁))
      (hmore : Row g wanted rule r₁ as r') : Row g wanted rule r (a :: as) r'

theorem row_of_iterate (bound : Nat) (soFar : List α) (r : Reader)
    (h : iterate (fun soFar => (whileStep wanted rule soFar).run g) bound soFar r = .ok (as, r')) :
    ∃ more, as = soFar.reverse ++ more ∧ more.length < bound ∧ Row g wanted rule r more r' := by
  induction bound generalizing soFar r with
  | zero => cases h
  | succ bound ih =>
      rw [iterate] at h
      cases hwanted : wanted r.rest with
      | false =>
          rw [run_whileStep_of_not_wanted hwanted] at h
          cases h
          exact ⟨[], (List.append_nil _).symm, Nat.succ_pos _, .nil hwanted⟩
      | true =>
          cases hrule : rule.run g r with
          | error fault =>
              rw [whileStep, run_bind_of_ok (run_ahead r)] at h
              simp only [hwanted, if_true] at h
              rw [run_bind, hrule] at h
              cases h
          | ok x =>
              obtain ⟨a, r₁⟩ := x
              rw [run_whileStep_of_wanted hwanted hrule] at h
              obtain ⟨more, rfl, hlength, hmore⟩ := ih _ _ h
              exact ⟨a :: more, by simp, Nat.succ_lt_succ hlength, .cons hwanted hrule hmore⟩

theorem Row.iterate (h : Row g wanted rule r as r') (bound : Nat)
    (hbound : as.length < bound) (soFar : List α) :
    Grammar.iterate (fun soFar => (whileStep wanted rule soFar).run g) bound soFar r =
      .ok (soFar.reverse ++ as, r') := by
  induction h generalizing bound soFar with
  | nil hwanted =>
      obtain ⟨bound, rfl⟩ := Nat.exists_eq_succ_of_ne_zero (Nat.ne_zero_of_lt hbound)
      rw [Grammar.iterate, run_whileStep_of_not_wanted hwanted, List.append_nil]
  | @cons r r₁ r' a as hwanted hrule _ ih =>
      obtain ⟨bound, rfl⟩ := Nat.exists_eq_succ_of_ne_zero (Nat.ne_zero_of_lt hbound)
      rw [Grammar.iterate, run_whileStep_of_wanted hwanted hrule]
      dsimp only
      rw [ih bound (Nat.lt_of_succ_lt_succ hbound)]
      simp

/-- What a loop has read is a row that has no more runs than lexemes were ahead. -/
theorem row_of_run_while (h : (while_ wanted rule).run g r = .ok (as, r')) :
    Row g wanted rule r as r' ∧ as.length ≤ r.rest.length := by
  rw [while_eq, run_repeating] at h
  obtain ⟨more, rfl, hlength, hrow⟩ := row_of_iterate _ _ _ h
  exact ⟨hrow, Nat.le_of_lt_succ hlength⟩

/-- A row is what a loop reads, if it has no more runs than lexemes are ahead. -/
theorem Row.run_while (h : Row g wanted rule r as r') (hlength : as.length ≤ r.rest.length) :
    (while_ wanted rule).run g r = .ok (as, r') := by
  rw [while_eq, run_repeating]
  exact h.iterate _ (Nat.lt_succ_of_le hlength) []

theorem Row.getsOn (hg : Tidy g) (h : Row g wanted rule r as r') : r.GetsOn r' := by
  induction h with
  | nil => exact .refl _
  | cons _ hrule _ ih => exact (rule.run_getsOn hg _ _ _ hrule).trans ih

/-- Each thing in a row comes of a run. -/
theorem Row.exists_run (hg : Tidy g) (h : Row g wanted rule r as r') :
    ∀ a ∈ as, ∃ q q', r.GetsOn q ∧ wanted q.rest = true ∧ rule.run g q = .ok (a, q') ∧ q'.GetsOn r' := by
  induction h with
  | nil => simp
  | @cons r r₁ r' a as hwanted hrule hmore ih =>
      rintro b (_ | ⟨_, hb⟩)
      · exact ⟨r, r₁, .refl r, hwanted, hrule, hmore.getsOn hg⟩
      · obtain ⟨q, q', hq, hq'⟩ := ih b hb
        exact ⟨q, q', (rule.run_getsOn hg _ _ _ hrule).trans hq, hq'⟩

/-- It does not matter what was written before a row. -/
theorem Row.onto (hg : Blind g) (h : Row g wanted rule r as r') (before : List Lexeme) :
    Row g wanted rule (r.onto before) as (r'.onto before) := by
  induction h with
  | nil hwanted => exact .nil hwanted
  | @cons r r₁ r' a as hwanted hrule _ ih =>
      exact .cons hwanted (by rw [run_onto hg, hrule, Outcome.onto_ok]) ih

/-! ### What is written -/

/-- A rule writes what it remembers. -/
def Writes (g : PhraseReader) (rule : Rule α) (text : α → List Lexeme) : Prop :=
  ∀ (r r' : Reader) (a : α), rule.run g r = .ok (a, r') → r'.written = (text a).reverse ++ r.written

/-- A loop writes all that it remembers. -/
theorem Writes.while_ {text : α → List Lexeme} (h : Writes g rule text) (wanted : List Lexeme → Bool) :
    Writes g (while_ wanted rule) (List.flatMap text) := by
  intro r r' as hrun
  have hrow := (row_of_run_while hrun).1
  clear hrun
  induction hrow with
  | nil => rfl
  | @cons r r₁ r' a as _ hrule _ ih =>
      rw [ih, h r r₁ a hrule, List.flatMap_cons, List.reverse_append, List.append_assoc]

/-! ### Texts that end by themselves -/

/-- A rule reads a text whatever follows; what is written then, and what is remembered of it. -/
def Delimits (g : PhraseReader) (rule : Rule α) (keep : α → β) (text written : List Lexeme) (b : β) : Prop :=
  ∀ (r : Reader) (k : List Lexeme), r.rest = text ++ k → r.stray = none →
    ∃ a, keep a = b ∧ rule.run g r = .ok (a, r.after text written k)

/-- However much deeper a rule may go. -/
theorem Delimits.of_le {depth depth' : Nat} {text written : List Lexeme} {b : β}
    (h : rule.Delimits (Phrase.readWithin depth) keep text written b) (hle : depth ≤ depth') :
    rule.Delimits (Phrase.readWithin depth') keep text written b := by
  intro r k hr hstray
  obtain ⟨a, ha, hrun⟩ := h r k hr hstray
  exact ⟨a, ha, run_of_le hle hrun⟩

/-- What is read alone ends by itself if it is read again whatever follows. -/
theorem Reads.delimits (hsteady : rule.Steady keep fun _ _ _ => True) {text written : List Lexeme} {a : α}
    (h : rule.Reads text a written) :
    rule.Delimits (Phrase.readWithin (sufficientDepth text.length)) keep text written (keep a) :=
  fun _ _ hr hstray => h.run hsteady .source le_rfl hr hstray trivial

/-- A text with what is written and remembered of it. -/
structure Chunk (β : Type) where
  text : List Lexeme
  written : List Lexeme
  found : β

/-- Texts that end by themselves are read one behind the other. -/
theorem run_while_of_chunks (wanted : List Lexeme → Bool) {chunks : List (Chunk β)}
    (h : ∀ c ∈ chunks, rule.Delimits g keep c.text c.written c.found)
    (hwanted : ∀ c ∈ chunks, ∀ k, wanted (c.text ++ k) = true) {k : List Lexeme} (hk : wanted k = false)
    (hr : r.rest = chunks.flatMap Chunk.text ++ k) (hstray : r.stray = none) :
    ∃ as, as.map keep = chunks.map Chunk.found ∧ (while_ wanted rule).run g r =
      .ok (as, r.after (chunks.flatMap Chunk.text) (chunks.flatMap Chunk.written) k) := by
  obtain ⟨as, has, hrow⟩ : ∃ as, as.map keep = chunks.map Chunk.found ∧ Row g wanted rule r as
      (r.after (chunks.flatMap Chunk.text) (chunks.flatMap Chunk.written) k) := by
    induction chunks generalizing r with
    | nil =>
        replace hr : r.rest = k := hr
        refine ⟨[], rfl, ?_⟩
        have hafter : r.after [] [] k = r := hr ▸ Reader.after_nil hstray
        exact hafter.symm ▸ .nil (hr ▸ hk)
    | cons c chunks ih =>
        rw [List.flatMap_cons, List.append_assoc] at hr
        obtain ⟨a, ha, hrun⟩ := h c (by simp) r _ hr hstray
        obtain ⟨as, has, hrow⟩ := ih (fun d hd => h d (List.mem_cons_of_mem c hd))
          (fun d hd => hwanted d (List.mem_cons_of_mem c hd)) (r := r.after c.text c.written _) rfl rfl
        refine ⟨a :: as, by simp [ha, has], ?_⟩
        rw [Reader.after_after] at hrow
        exact .cons (hr ▸ hwanted c (by simp) _) hrun hrow
  refine ⟨as, has, hrow.run_while ?_⟩
  have hlength : as.length = chunks.length := by simpa using congrArg List.length has
  rw [hlength, hr, List.length_append]
  refine Nat.le_add_right_of_le ?_
  clear h hr has hrow hlength
  induction chunks with
  | nil => exact Nat.le_refl 0
  | cons c chunks ih =>
      have hc : 0 < c.text.length := List.length_pos_iff.mpr fun hnil => by
        have hfront := hwanted c (by simp) k
        rw [hnil, List.nil_append, hk] at hfront
        cases hfront
      have hrest := ih fun d hd => hwanted d (List.mem_cons_of_mem c hd)
      rw [List.flatMap_cons, List.length_append, List.length_cons]
      omega

end Rule

end TypedId.Grammar
