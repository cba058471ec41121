import TypedId.Grammar.Reading

/-!
What comes of a run, rule by rule.

A rule is data, and `Rule.run` gives it its meaning. The lemmas here say what each way to build a
rule contributes to a run that succeeds, and what the rules that take a few lexemes do to the
reader. Everything else about the grammar is proved through them.
-/

namespace TypedId.Grammar.Rule

open Lexeme

variable {g : PhraseReader} {α β σ : Type} {r r' : Reader}

/-! ### Ways to build a rule -/

theorem run_pure (a : α) (r : Reader) : (pure a : Rule α).run g r = .ok (a, r) := rfl

/-- What comes after a run goes on from where that ended, with what it gave; a fault ends all. -/
theorem run_bind (rule : Rule α) (next : α → Rule β) (r : Reader) :
    (rule >>= next).run g r =
      match rule.run g r with
      | .ok (a, r) => (next a).run g r
      | .error fault => .error fault := by
  show (Rule.andThen rule next).run g r = _
  cases h : rule.run g r <;> simp only [Rule.run, h]

theorem run_map (f : α → β) (rule : Rule α) (r : Reader) :
    (f <$> rule).run g r =
      match rule.run g r with
      | .ok (a, r) => .ok (f a, r)
      | .error fault => .error fault := by
  show (rule >>= fun a => pure (f a)).run g r = _
  rw [run_bind]
  rfl

/-- A run that is known to succeed is passed over. -/
theorem run_bind_of_ok {rule : Rule α} {a : α} (h : rule.run g r = .ok (a, r'))
    (next : α → Rule β) : (rule >>= next).run g r = (next a).run g r' := by
  rw [run_bind, h]

/-- A sequence succeeds exactly when both of its parts do. -/
theorem run_bind_eq_ok {rule : Rule α} {next : α → Rule β} {b : β} {r'' : Reader} :
    (rule >>= next).run g r = .ok (b, r'') ↔
      ∃ a r', rule.run g r = .ok (a, r') ∧ (next a).run g r' = .ok (b, r'') := by
  rw [run_bind]
  constructor
  · intro h
    split at h
    · next a r₁ hrule => exact ⟨a, r₁, hrule, h⟩
    · cases h
  · rintro ⟨a, r₁, hrule, hnext⟩
    rw [hrule]
    exact hnext

/-- Where the deferred part succeeds, its leftovers are noted behind those of what comes next. -/
theorem run_defer_of_ok {rule : Rule α} {a : α} {r₁ : Reader} (h : rule.run g r = .ok (a, r₁))
    (next : α → Rule β) :
    (defer rule next).run g r = ((next a).run g { r₁ with stray := r.stray }).map fun x =>
      (x.1, { x.2 with stray := x.2.stray.or r₁.stray }) := by
  cases hnext : (next a).run g { r₁ with stray := r.stray } <;> simp only [Rule.run, h, hnext] <;> rfl

theorem run_defer_of_error {rule : Rule α} {fault : Fault} (h : rule.run g r = .error fault)
    (next : α → Rule β) : (defer rule next).run g r = .error fault := by
  simp only [Rule.run, h]

/-- Of a sequence with a group that is noted late, both parts succeed, too. -/
theorem run_defer_eq_ok {rule : Rule α} {next : α → Rule β} {b : β} {r'' : Reader} :
    (defer rule next).run g r = .ok (b, r'') ↔
      ∃ a r₁ r₂, rule.run g r = .ok (a, r₁) ∧ (next a).run g { r₁ with stray := r.stray } = .ok (b, r₂) ∧
        r'' = { r₂ with stray := r₂.stray.or r₁.stray } := by
  constructor
  · intro h
    cases hrule : rule.run g r with
    | error fault => cases (run_defer_of_error hrule next).symm.trans h
    | ok read =>
        rw [run_defer_of_ok hrule] at h
        cases hnext : (next read.1).run g { read.2 with stray := r.stray } with
        | error fault => rw [hnext] at h; cases h
        | ok read' =>
            rw [hnext] at h
            cases h
            exact ⟨read.1, read.2, read'.2, rfl, hnext, rfl⟩
  · rintro ⟨a, r₁, r₂, hrule, hnext, rfl⟩
    rw [run_defer_of_ok hrule, hnext]
    rfl

/-- Looking takes nothing and writes nothing. -/
theorem run_look (r : Reader) : look.run g r = .ok (r.toView, r) := rfl

/-- The only way to take lexemes also says what is written for them. -/
theorem run_take (count : Nat) (written : List Lexeme) (r : Reader) :
    (take count written).run g r = .ok ((), r.take count written) := rfl

theorem run_fail (fault : Fault) (r : Reader) :
    (fail fault : Rule α).run g r = .error fault := rfl

/-- A phrase is read by the reader of phrases that the run is given. -/
theorem run_call (phrase : Phrase) (r : Reader) : (call phrase).run g r = g phrase r := rfl

/-- A repetition may go on as often as there are lexemes left, and once more. -/
theorem run_repeating (step : σ → Rule (σ ⊕ α)) (start : σ) (r : Reader) :
    (repeating step start).run g r =
      iterate (fun s => (step s).run g) (r.rest.length + 1) start r := rfl

/-- A group is read from its opening to its closing delimiter, or refused where there is none. -/
theorem run_within_eq (d : Delimiter) (rule : Rule α) (r : Reader) :
    (within d rule).run g r =
      if seesGroup d r.rest then
        match rule.run g (r.take 1 [opening d]) with
        | .ok (a, r) => .ok (a, r.leave d)
        | .error fault => .error fault
      else .error (r.fault (.group d)) := rfl

/-- An attempt that fails leaves the reader as it was. -/
theorem run_attempt_eq (rule : Rule α) (r : Reader) :
    (attempt rule).run g r =
      match rule.run g r with
      | .ok (a, r) => .ok (some a, r)
      | .error fault => if fault.complaint = .tooDeep then .error fault else .ok (none, r) := rfl

/-- Held back, a run writes to a side, and tells what it wrote. -/
theorem run_hold_eq (rule : Rule α) (r : Reader) :
    (hold rule).run g r =
      match rule.run g { r with written := [] } with
      | .ok (a, r') => .ok ((a, r'.written.reverse), { r' with written := r.written })
      | .error fault => .error fault := rfl

/-- The content of a group is read between its delimiters. -/
theorem run_within_eq_ok {d : Delimiter} {rule : Rule α} {a : α} :
    (within d rule).run g r = .ok (a, r') ↔
      seesGroup d r.rest = true ∧
        ∃ r₁, rule.run g (r.take 1 [opening d]) = .ok (a, r₁) ∧ r' = r₁.leave d := by
  rw [run_within_eq]
  split
  · next hsees =>
    split
    · next b r₁ hrule => simp [hrule, hsees, Prod.ext_iff, eq_comm, and_assoc]
    · next fault hrule => simp [hrule]
  · next hsees => simp [hsees]

/-- Something is held back when it is read into an empty reader. -/
theorem run_hold_eq_ok {rule : Rule α} {x : α × List Lexeme} :
    (hold rule).run g r = .ok (x, r') ↔
      ∃ a r₁, rule.run g { r with written := [] } = .ok (a, r₁) ∧
        x = (a, r₁.written.reverse) ∧ r' = { r₁ with written := r.written } := by
  rw [run_hold_eq]
  cases rule.run g { r with written := [] } with
  | ok read =>
      obtain ⟨b, r₁⟩ := read
      constructor
      · intro h
        cases h
        exact ⟨b, r₁, rfl, rfl, rfl⟩
      · rintro ⟨a, r₂, h, rfl, rfl⟩
        cases h
        rfl
  | error fault => simp

/-! ### Looking ahead -/

theorem run_ahead (r : Reader) : ahead.run g r = .ok (r.rest, r) := by
  rw [ahead, run_bind, run_look]
  rfl

theorem run_here (r : Reader) : here.run g r = .ok (r.position, r) := by
  rw [here, run_bind, run_look]
  rfl

/-- A complaint is about the lexeme that comes next. -/
theorem run_complain (complaint : Complaint) (r : Reader) :
    (complain complaint : Rule α).run g r = .error (r.toView.fault complaint) := by
  rw [complain, run_bind, run_look]
  exact run_fail _ _

/-- What was expected is told up to what was looked for in vain. -/
theorem run_expected_eq (things : List Expectation) (r : Reader) :
    ∃ missing, (expected things : Rule α).run g r = .error (r.fault (.oneOf missing)) := by
  rw [expected, run_bind, run_ahead]
  exact ⟨_, run_complain _ _⟩

/-- An expectation is never met: it is what remains when all cases have failed. -/
theorem run_expected (things : List Expectation) (r : Reader) :
    ∃ fault, (expected things : Rule α).run g r = .error fault :=
  (run_expected_eq things r).imp' _ fun _ h => h

/-! ### Taking lexemes -/

/-- Writing is taking nothing. -/
theorem run_write (written : List Lexeme) (r : Reader) :
    (write written).run g r = .ok ((), r.take 0 written) := run_take ..

/-- Copying writes what is taken. -/
theorem run_copy (count : Nat) (r : Reader) :
    (copy count).run g r = .ok ((), r.take count (r.rest.take count)) := by
  rw [copy, run_bind, run_ahead]
  exact run_take ..

/-- An operator that is seen is taken character by character, and written with its own joints. -/
theorem run_operator_of_sees {text : String} (h : sees text r.rest = true) :
    (operator text).run g r = .ok ((), r.take text.length (Lexeme.operator text.toList)) := by
  rw [operator, run_bind, run_ahead]
  simp only [h, if_true]
  exact run_take ..

/-- An operator is taken exactly where it is seen. -/
theorem run_operator_eq_ok {text : String} {u : Unit} :
    (operator text).run g r = .ok (u, r') ↔
      sees text r.rest = true ∧ r' = r.take text.length (Lexeme.operator text.toList) := by
  by_cases h : sees text r.rest = true
  · simp [run_operator_of_sees h, h, eq_comm]
  · rw [operator, run_bind, run_ahead]
    simp [h, run_complain]

/-- An operator that may be left out is taken where it is seen. -/
theorem run_operator?_of_sees {text : String} (h : sees text r.rest = true) :
    (operator? text).run g r = .ok (true, r.take text.length (Lexeme.operator text.toList)) := by
  rw [operator?, run_bind, run_ahead]
  simp only [h, if_true]
  rw [run_bind_of_ok (run_operator_of_sees h)]
  rfl

/-- Where it is not seen, nothing is taken. -/
theorem run_operator?_of_not_sees {text : String} (h : sees text r.rest = false) :
    (operator? text).run g r = .ok (false, r) := by
  rw [operator?, run_bind, run_ahead]
  simp only [h]
  rfl

/-- A keyword that is seen is one lexeme, written as it is. -/
theorem run_keyword_of_sees {w : String} (h : seesWord w r.rest = true) :
    (keyword w).run g r = .ok ((), r.take 1 (r.rest.take 1)) := by
  rw [keyword, run_bind, run_ahead]
  simp only [h, if_true]
  exact run_copy ..

/-- A keyword is read exactly where it is seen. -/
theorem run_keyword_eq_ok {w : String} {u : Unit} :
    (keyword w).run g r = .ok (u, r') ↔
      seesWord w r.rest = true ∧ r' = r.take 1 (r.rest.take 1) := by
  by_cases h : seesWord w r.rest = true
  · simp [run_keyword_of_sees h, h, eq_comm]
  · rw [keyword, run_bind, run_ahead]
    simp [h, run_complain]

/-- A keyword that may be left out is taken where it is seen. -/
theorem run_keyword?_of_sees {w : String} (h : seesWord w r.rest = true) :
    (keyword? w).run g r = .ok (true, r.take 1 (r.rest.take 1)) := by
  rw [keyword?, run_bind, run_ahead]
  simp only [h, if_true]
  rw [run_bind_of_ok (run_keyword_of_sees h)]
  rfl

theorem run_keyword?_of_not_sees {w : String} (h : seesWord w r.rest = false) :
    (keyword? w).run g r = .ok (false, r) := by
  rw [keyword?, run_bind, run_ahead]
  simp only [h]
  rfl

/-- A word is read with its position, be it a keyword or not. -/
theorem run_anyWord_of_word {w : String} {rest : List Lexeme} (h : r.rest = word w :: rest) :
    anyWord.run g r = .ok (⟨w, r.position⟩, r.take 1 [word w]) := by
  rw [anyWord, run_bind, run_look]
  simp only [h]
  rw [run_bind_of_ok (run_copy ..), h]
  rfl

/-- A word that is no keyword is read as a name. -/
theorem run_identifier_of_word {w : String} {rest : List Lexeme} (h : r.rest = word w :: rest)
    (hw : isIdentifier w = true) : identifier.run g r = .ok (⟨w, r.position⟩, r.take 1 [word w]) := by
  rw [identifier, run_bind, run_ahead]
  simp only [h, hw, if_true]
  exact run_anyWord_of_word h

/-- So are the keywords that are admitted in place of a name. -/
theorem run_identifierOr_of_word {w : String} {rest : List Lexeme} {keywords : List String}
    (h : r.rest = word w :: rest) (hw : (isIdentifier w || keywords.contains w) = true) :
    (identifierOr keywords).run g r = .ok (⟨w, r.position⟩, r.take 1 [word w]) := by
  rw [identifierOr, run_bind, run_ahead]
  simp only [h]
  split
  · exact run_anyWord_of_word h
  · next hcontains =>
    refine run_identifier_of_word h ?_
    rwa [Bool.eq_false_iff.mpr hcontains, Bool.or_false] at hw

/-- An identifier or one of some keywords is taken only where one stands. -/
theorem word_of_run_identifierOr {n : Name} {keywords : List String}
    (h : (identifierOr keywords).run g r = .ok (n, r')) :
    ∃ w rest, r.rest = word w :: rest ∧ (isIdentifier w || keywords.contains w) = true := by
  have hidentifier : ∀ w rest, r.rest = word w :: rest → identifier.run g r = .ok (n, r') →
      isIdentifier w = true := by
    intro w rest hr hok
    rw [identifier, run_bind, run_ahead] at hok
    simp only [hr] at hok
    split at hok
    · assumption
    · rw [run_complain] at hok
      cases hok
  rw [identifierOr, run_bind, run_ahead] at h
  simp only at h
  split at h
  · next w rest hr =>
    refine ⟨w, rest, hr, ?_⟩
    split at h
    · next hcontains => rw [hcontains, Bool.or_true]
    · rw [hidentifier w rest hr h, Bool.true_or]
  · next hr =>
    rw [identifier, run_bind, run_ahead] at h
    simp only at h
    rw [run_complain] at h
    cases h

/-- A name is what is read where no keyword is admitted. -/
theorem run_identifier_eq (r : Reader) : identifier.run g r = (identifierOr []).run g r := by
  rw [identifierOr, run_bind, run_ahead]
  simp only [List.contains_nil, Bool.false_eq_true, if_false]
  split <;> rfl

/-- A lifetime is an apostrophe that is joined to a word; its position is that of the word. -/
theorem run_lifetime_of_seen {w : String} {rest : List Lexeme}
    (h : r.rest = punct '\'' true :: word w :: rest) :
    lifetime.run g r = .ok (r.position + 1, r.take 2 (Lexeme.lifetime w)) := by
  rw [lifetime, run_bind, run_look]
  simp only [h]
  rw [run_bind_of_ok (run_take ..)]
  rfl

/-- A lifetime that may be left out is taken where it is seen. -/
theorem run_lifetime?_of_seen {w : String} {rest : List Lexeme}
    (h : r.rest = punct '\'' true :: word w :: rest) :
    lifetime?.run g r = .ok (true, r.take 2 (Lexeme.lifetime w)) := by
  rw [lifetime?, run_bind, run_ahead]
  simp only [h, seesLifetime, if_true]
  rw [run_bind_of_ok (run_lifetime_of_seen h)]
  rfl

theorem run_lifetime?_of_not_sees (h : seesLifetime r.rest = false) :
    lifetime?.run g r = .ok (false, r) := by
  rw [lifetime?, run_bind, run_ahead]
  simp only [h]
  rfl

/-- A lifetime is taken only where one stands. -/
theorem seen_of_run_lifetime {n : Nat} (h : lifetime.run g r = .ok (n, r')) :
    ∃ w rest, r.rest = punct '\'' true :: word w :: rest := by
  rw [lifetime, run_bind, run_look] at h
  simp only at h
  split at h
  · next w rest hr => exact ⟨w, rest, hr⟩
  · rw [run_complain] at h
    cases h

end TypedId.Grammar.Rule
