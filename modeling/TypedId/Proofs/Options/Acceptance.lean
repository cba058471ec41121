import TypedId.Diagnostic
import TypedId.Proofs.Grammar.Run

/-!
Which arguments are accepted.

`Spelling` lists the five ways to write arguments. They are the only lists of lexemes that are
accepted, and each has the one meaning given there. Everything else is refused with a fault of the
arguments: what is looked for before something is taken makes sure that the grammar never refuses.
-/

namespace TypedId.Options

open Lexeme Grammar Rule

variable {g : PhraseReader} {r : Reader} {ls rest : List Lexeme} {b : Bool}

/-- The word for a truth value. -/
def truthValue : Bool → Lexeme
  | true => word "true"
  | false => word "false"

/-- The ways to write an argument, what it means, and what follows it. -/
inductive Leading : List Lexeme → Bool → List Lexeme → Prop where
  | bare (b : Bool) (rest : List Lexeme) : Leading (truthValue b :: rest) b rest
  | named (joint b : Bool) (rest : List Lexeme) :
      Leading (word databaseName :: punct '=' joint :: truthValue b :: rest) b rest

/-- The ways to write arguments, and what they mean. -/
inductive Spelling : List Lexeme → Options → Prop where
  | nothing : Spelling [] ⟨false⟩
  | bare (b : Bool) : Spelling [truthValue b] ⟨b⟩
  | named (joint b : Bool) :
      Spelling [word databaseName, punct '=' joint, truthValue b] ⟨b⟩

theorem spelling_iff {o : Options} :
    Spelling ls o ↔ ls = [] ∧ o = ⟨false⟩ ∨ Leading ls o.database [] := by
  constructor
  · intro h
    cases h with
    | nothing => exact .inl ⟨rfl, rfl⟩
    | bare b => exact .inr (.bare b [])
    | named joint b => exact .inr (.named joint b [])
  · rintro (⟨rfl, rfl⟩ | h)
    · exact .nothing
    · obtain ⟨database⟩ := o
      cases h with
      | bare => exact .bare database
      | named joint => exact .named joint database

/-! ### Truth values -/

theorem seesTruthValue_iff : seesTruthValue ls = true ↔ ∃ b rest, ls = truthValue b :: rest := by
  cases ls with
  | nil => simp [seesTruthValue, seesWord]
  | cons l rest =>
      cases l <;> simp [seesTruthValue, seesWord, truthValue, or_comm]

theorem seesTruthValue_truthValue : seesTruthValue (truthValue b :: rest) = true :=
  seesTruthValue_iff.mpr ⟨b, rest, rfl⟩

theorem seesWord_true_truthValue : seesWord "true" (truthValue b :: rest) = b := by
  cases b <;> rfl

theorem seesLiteral_truthValue : seesLiteral (truthValue b :: rest) = true := by
  cases b <;> simp [seesLiteral, truthValue]

theorem run_literal_truthValue (h : r.rest = truthValue b :: rest) :
    Rule.literal.run g r = .ok ((), r.take 1 [truthValue b]) := by
  have hsees : seesLiteral r.rest = true := by rw [h]; exact seesLiteral_truthValue
  rw [Rule.literal, run_bind_of_ok (run_ahead r)]
  rw [h] at hsees ⊢
  cases b <;> simp only [truthValue, hsees, if_true] at hsees ⊢ <;>
    rw [run_copy, h] <;> rfl

/-- Wherever a literal is seen, one is taken. -/
theorem run_literal_of_sees (h : seesLiteral r.rest = true) :
    ∃ r', Rule.literal.run g r = .ok ((), r') := by
  rw [Rule.literal, run_bind_of_ok (run_ahead r)]
  split
  · simp only [h, if_true]
    exact ⟨_, run_take ..⟩
  · simp only [h, if_true]
    exact ⟨_, run_copy ..⟩

/-! ### Values -/

theorem run_value_truthValue (h : r.rest = truthValue b :: rest) :
    value.run g r = .ok (.ok b, r.take 1 [truthValue b]) := by
  rw [value, run_bind_of_ok (run_look r)]
  simp only [h, List.isEmpty_cons, seesLiteral_truthValue, Bool.not_true, Bool.false_eq_true,
    if_false]
  rw [run_bind_of_ok (run_literal_truthValue h)]
  simp only [seesTruthValue_truthValue, if_true, seesWord_true_truthValue]
  rfl

/-- Where no truth value is seen, the value is at fault and not the grammar. -/
theorem run_value_of_not_sees (h : seesTruthValue r.rest = false) :
    ∃ found r', value.run g r = .ok (.error found, r') := by
  rw [value, run_bind_of_ok (run_look r)]
  split
  · exact ⟨_, _, rfl⟩
  · split
    · exact ⟨_, _, rfl⟩
    · next hliteral =>
      obtain ⟨r', hr'⟩ := run_literal_of_sees (g := g) (by simpa using hliteral)
      rw [run_bind_of_ok hr']
      simp only [h, Bool.false_eq_true, if_false]
      rw [run_bind_of_ok (run_here r')]
      exact ⟨_, _, rfl⟩

/-! ### Arguments -/

/-- An argument is read where one leads, and what follows it is left. -/
theorem run_argument_of_leading (h : Leading r.rest b rest) :
    ∃ r', argument.run g r = .ok (.ok b, r') ∧ r'.rest = rest ∧
      r'.position + rest.length = r.position + r.rest.length := by
  rw [argument, run_bind_of_ok (run_ahead r)]
  generalize hls : r.rest = ls at h
  cases h with
  | bare =>
      simp only [seesTruthValue_truthValue, if_true]
      rw [run_bind_of_ok (run_literal_truthValue hls), seesWord_true_truthValue]
      refine ⟨_, rfl, by rw [Reader.take, hls]; rfl, ?_⟩
      simp only [Reader.take, List.length_cons]
      omega
  | named joint =>
      have hname : isIdentifier databaseName = true := by decide
      have htruth :
          seesTruthValue (word databaseName :: punct '=' joint :: truthValue b :: rest) = false :=
        rfl
      simp only [htruth, seesIdentifier, hname, Bool.false_eq_true, if_false, if_true]
      rw [run_bind_of_ok (run_identifier_of_word hls hname)]
      have hequals : sees "=" (r.take 1 [word databaseName]).rest = true := by
        rw [Reader.take, hls]; rfl
      simp only [ne_eq, not_true_eq_false, if_false]
      rw [run_bind_of_ok (run_ahead _)]
      simp only [hequals, Bool.not_true, Bool.false_eq_true, if_false]
      rw [run_bind_of_ok (run_operator_of_sees hequals)]
      rw [run_value_truthValue (show _ = truthValue b :: rest by rw [Reader.take, Reader.take, hls]; rfl)]
      refine ⟨_, rfl, by rw [Reader.take, Reader.take, Reader.take, hls]; rfl, ?_⟩
      have hlength : "=".length = 1 := rfl
      simp only [Reader.take, List.length_cons, hlength]
      omega

/-- Where no argument leads, the arguments are at fault and not the grammar. -/
theorem run_argument_of_not_leading (h : ∀ b rest, ¬ Leading r.rest b rest) :
    ∃ found r', argument.run g r = .ok (.error found, r') := by
  have htruth : seesTruthValue r.rest = false := by
    rw [Bool.eq_false_iff]
    intro hsees
    obtain ⟨b, rest, hrest⟩ := seesTruthValue_iff.mp hsees
    exact h b rest (hrest ▸ .bare b rest)
  rw [argument, run_bind_of_ok (run_ahead r)]
  simp only [htruth, Bool.false_eq_true, if_false]
  split
  case isFalse => exact run_value_of_not_sees htruth
  case isTrue hidentifier =>
    obtain ⟨w, tail, hrest, hw⟩ : ∃ w tail, r.rest = word w :: tail ∧ isIdentifier w = true := by
      revert hidentifier
      cases r.rest with
      | nil => simp [seesIdentifier]
      | cons l tail => cases l <;> simp [seesIdentifier]
    rw [run_bind_of_ok (run_identifier_of_word hrest hw)]
    split
    · exact ⟨_, _, rfl⟩
    · next hname =>
      rw [run_bind_of_ok (run_ahead _)]
      split
      · exact ⟨_, _, rfl⟩
      · next hequals =>
        replace hequals : sees "=" (r.take 1 [word w]).rest = true := by simpa using hequals
        rw [run_bind_of_ok (run_operator_of_sees hequals)]
        refine run_value_of_not_sees ?_
        rw [Bool.eq_false_iff]
        intro hsees
        obtain ⟨b, rest, hvalue⟩ := seesTruthValue_iff.mp hsees
        have hdatabase : w = databaseName := by simpa using hname
        have htail : ∃ joint, tail = punct '=' joint :: truthValue b :: rest := by
          simp only [Reader.take, hrest, List.drop_succ_cons, List.drop_zero] at hequals hvalue
          cases tail with
          | nil => simp [sees, startsWith] at hequals
          | cons l tail =>
              cases l <;> simp [sees, startsWith] at hequals
              case punct joint =>
                subst hequals
                exact ⟨joint, congrArg _ hvalue⟩
        obtain ⟨joint, rfl⟩ := htail
        exact h b rest (hrest ▸ hdatabase ▸ .named joint b rest)

/-! ### Acceptance -/

theorem read_nil : read [] = .ok ⟨false⟩ := rfl

theorem read_of_leading (h : Leading ls b []) : read ls = .ok ⟨b⟩ := by
  have hne : ls.isEmpty = false := by cases h <;> rfl
  obtain ⟨r', hargument, hrest, -⟩ :=
    run_argument_of_leading (g := Phrase.readWithin (sufficientDepth ls.length))
      (r := .ofLexemes ls) h
  have hrun : rule.read ls = .ok (.ok ⟨b⟩, r') := by
    rw [Rule.read, rule, run_bind_of_ok (run_ahead _)]
    simp only [Reader.ofLexemes] at hargument ⊢
    simp only [hne, Bool.false_eq_true, if_false]
    rw [run_bind_of_ok hargument]
    simp only
    rw [run_bind_of_ok (run_look _)]
    simp only [hrest, List.isEmpty_nil, if_true]
    rfl
  rw [read, hrun]

/-- What is neither nothing nor a single argument is refused as arguments. -/
theorem read_of_not_leading (hne : ls ≠ []) (h : ∀ b, ¬ Leading ls b []) :
    ∃ fault stretch, read ls = .error (.argument fault stretch) := by
  have hne' : ls.isEmpty = false := by simpa using hne
  suffices hrun : ∃ found r', rule.read ls = .ok (.error found, r') by
    obtain ⟨⟨fault, stretch⟩, r', hrun⟩ := hrun
    exact ⟨fault, stretch, by rw [read, hrun]⟩
  rw [Rule.read, rule, run_bind_of_ok (run_ahead _)]
  simp only [Reader.ofLexemes, hne', Bool.false_eq_true, if_false]
  generalize hr : (⟨⟨0, ls⟩, [], none⟩ : Reader) = r
  have hls : r.rest = ls := by rw [← hr]
  by_cases hleading : ∃ b rest, Leading r.rest b rest
  · obtain ⟨b, rest, hleading⟩ := hleading
    obtain ⟨r', hargument, hrest, -⟩ := run_argument_of_leading (g := _) hleading
    rw [run_bind_of_ok hargument]
    simp only
    rw [run_bind_of_ok (run_look _)]
    have hmore : r'.rest.isEmpty = false := by
      rw [Bool.eq_false_iff]
      intro hempty
      have hnil : rest = [] := by simpa [hrest] using hempty
      exact h b (hls ▸ hnil ▸ hleading)
    simp only [hmore, Bool.false_eq_true, if_false]
    exact ⟨_, _, rfl⟩
  · obtain ⟨found, r', hargument⟩ :=
      run_argument_of_not_leading (g := _) fun b rest hb => hleading ⟨b, rest, hb⟩
    rw [run_bind_of_ok hargument]
    exact ⟨_, _, rfl⟩

/-- Arguments that are accepted are spelt in one of the five ways. -/
theorem spelling_of_read {o : Options} (h : read ls = .ok o) : Spelling ls o := by
  by_cases hnil : ls = []
  · subst hnil
    cases h
    exact .nothing
  · refine Classical.byContradiction fun hnone => ?_
    by_cases hleading : ∃ b, Leading ls b []
    · obtain ⟨b, hb⟩ := hleading
      rw [read_of_leading hb] at h
      cases h
      exact hnone (spelling_iff.mpr (.inr hb))
    · obtain ⟨fault, stretch, herror⟩ := read_of_not_leading hnil fun b hb => hleading ⟨b, hb⟩
      rw [herror] at h
      cases h

/-- Arguments are accepted exactly if they are spelt in one of the five ways. -/
theorem exists_spelling_iff : (∃ o, Spelling ls o) ↔ ∃ o, read ls = .ok o := by
  constructor
  · rintro ⟨o, ho⟩
    obtain ⟨rfl, rfl⟩ | hleading := spelling_iff.mp ho
    · exact ⟨_, read_nil⟩
    · exact ⟨_, read_of_leading hleading⟩
  · rintro ⟨o, ho⟩
    exact ⟨o, spelling_of_read ho⟩

/-- The five spellings and no other lists of lexemes are accepted, each with its meaning. All others
are refused as arguments, and none by the grammar. -/
theorem read_spelling_or_refused (ls : List Lexeme) :
    (∀ o, read ls = .ok o ↔ Spelling ls o) ∧
      ((∃ o, Spelling ls o) ∨
        ∃ fault stretch,
          read ls = .error (.argument fault stretch) ∧
            (Diagnostic.ofFailure (.argument fault stretch)).cause.message =
              "invalid `#[entity_id]` arguments: " ++ fault.message ++
              "; expected `#[entity_id]`, `#[entity_id(<bool>)]` or `#[entity_id(sqlx = <bool>)]`") := by
  by_cases hnil : ls = []
  · subst hnil
    refine ⟨fun o => ?_, .inl ⟨_, .nothing⟩⟩
    rw [read_nil, spelling_iff]
    constructor
    · rintro ⟨⟩
      exact .inl ⟨rfl, rfl⟩
    · rintro (⟨-, rfl⟩ | h)
      · rfl
      · cases h
  · by_cases hleading : ∃ b, Leading ls b []
    · obtain ⟨b, hb⟩ := hleading
      refine ⟨fun o => ?_, .inl ⟨⟨b⟩, spelling_iff.mpr (.inr hb)⟩⟩
      rw [spelling_iff]
      constructor
      · intro h
        rw [read_of_leading hb] at h
        cases h
        exact .inr hb
      · rintro (⟨h, -⟩ | h)
        · exact (hnil h).elim
        · exact read_of_leading h
    · obtain ⟨fault, stretch, hread⟩ :=
        read_of_not_leading hnil fun b hb => hleading ⟨b, hb⟩
      refine ⟨fun o => ?_, .inr ⟨fault, stretch, hread, rfl⟩⟩
      rw [hread, spelling_iff]
      constructor
      · rintro ⟨⟩
      · rintro (⟨h, -⟩ | h)
        · exact (hnil h).elim
        · exact (hleading ⟨_, h⟩).elim

end TypedId.Options
