import Mathlib.Logic.ExistsUnique
import TypedId.Proofs.Invocation.Layout
import TypedId.Proofs.Options.Acceptance

/-!
Why arguments are refused.

`Offence` lists what can be wrong with arguments: what was looked at, which fault it is, and which
lexemes are at fault. It is a list of cases that says nothing of how arguments are read. Each list of
lexemes that is not accepted is a case of it, and of one only; and the case decides what is reported,
whatever stands behind that which was looked at (`refusals_depend_on_what_was_seen`).
-/

namespace TypedId.Options

open Lexeme Grammar Rule

variable {g : PhraseReader} {r : Reader} {ls rest form : List Lexeme} {b : Bool}

/-- As much of some lexemes as was looked at. -/
structure Seen where
  lexemes : List Lexeme
  /-- Whether it was also seen that nothing follows. -/
  ended : Bool
deriving DecidableEq

/-- Whether some lexemes are, as far as was looked at, those that were seen. -/
def Seen.Opens (seen : Seen) (ls : List Lexeme) : Prop :=
  ∃ rest, ls = seen.lexemes ++ rest ∧ (seen.ended = true → rest = [])

/-- What was seen, with something before it. -/
def Seen.behind (before : List Lexeme) (seen : Seen) : Seen :=
  { seen with lexemes := before ++ seen.lexemes }

/-- What stands where a value is wanted and is none, its fault, the words for it, and how many of its
lexemes are at fault beside the first. A minus is a literal only together with a number, so one more
lexeme is looked at behind it. -/
inductive Misfit : Seen → ArgumentFault → String → Nat → Prop where
  | literal (text : String) :
      Misfit ⟨[literal text], false⟩ .noTruthValue "value must be `true` or `false`" 0
  | negative (joint : Bool) (text : String) (h : Number.isNumber text = true) :
      Misfit ⟨[punct '-' joint, Lexeme.literal text], false⟩ .noTruthValue
        "value must be `true` or `false`" 1
  | other (l : Lexeme) (hliteral : ∀ text, l ≠ Lexeme.literal text) (htruth : ∀ b, l ≠ truthValue b)
      (hminus : ∀ joint, l ≠ punct '-' joint) :
      Misfit ⟨[l], false⟩ .noLiteral "value must be a boolean literal" 0
  | minus (joint : Bool) (l : Lexeme)
      (h : ∀ text, l = Lexeme.literal text → Number.isNumber text = false) :
      Misfit ⟨[punct '-' joint, l], false⟩ .noLiteral "value must be a boolean literal" 0
  | lastMinus (joint : Bool) :
      Misfit ⟨[punct '-' joint], true⟩ .noLiteral "value must be a boolean literal" 0

/-- What is wrong with arguments: as much of them as was looked at, the fault, the words for it, and
the lexemes that are at fault. -/
inductive Offence : Seen → ArgumentFault → String → Stretch → Prop where
  /-- They begin with an identifier that is not the name. -/
  | unknown (w : String) (hw : isIdentifier w = true) (hname : w ≠ "sqlx") :
      Offence ⟨[word w], false⟩ (.unknown w) ("unknown argument `" ++ w ++ "`") (.single 0)
  /-- No equals sign follows the name, but something else. -/
  | noEquals (l : Lexeme) (hl : ∀ joint, l ≠ punct '=' joint) :
      Offence ⟨[word "sqlx", l], false⟩ (.valueRequired "sqlx") "`sqlx` requires a value" (.single 0)
  /-- Nothing follows the name. -/
  | nameAlone :
      Offence ⟨[word "sqlx"], true⟩ (.valueRequired "sqlx") "`sqlx` requires a value" (.single 0)
  /-- Nothing follows the equals sign. -/
  | missing (joint : Bool) :
      Offence ⟨[word "sqlx", punct '=' joint], true⟩ .missingValue "missing value" (.single 2)
  /-- They begin with something that is neither a value nor a name. -/
  | bare {seen : Seen} {fault : ArgumentFault} {reason : String} {more : Nat}
      (h : Misfit seen fault reason more)
      (hname : ∀ w, seen.lexemes.head? = some (word w) → isIdentifier w = false) :
      Offence seen fault reason ⟨0, more⟩
  /-- Something that is no value follows the equals sign. -/
  | named (joint : Bool) {seen : Seen} {fault : ArgumentFault} {reason : String} {more : Nat}
      (h : Misfit seen fault reason more) :
      Offence (seen.behind [word "sqlx", punct '=' joint]) fault reason ⟨2, 2 + more⟩
  /-- Something follows a whole argument. -/
  | further {form : List Lexeme} {b : Bool} (h : Leading form b []) (l : Lexeme) :
      Offence ⟨form ++ [l], false⟩ .several "expected a single argument" (.single form.length)

variable {seen : Seen} {fault : ArgumentFault} {reason : String} {stretch : Stretch} {more : Nat}

theorem Misfit.message_eq (h : Misfit seen fault reason more) : fault.message = reason := by
  cases h <;> rfl

/-- The words for what is wrong are the sentence of the fault. -/
theorem Offence.message_eq (h : Offence seen fault reason stretch) : fault.message = reason := by
  cases h with
  | bare h hname => exact h.message_eq
  | named joint h => exact h.message_eq
  | unknown | noEquals | nameAlone | missing | further => rfl

/-! ### Looking at lexemes -/

theorem Seen.Opens.of_behind {before : List Lexeme} {seen : Seen} (h : seen.Opens ls) :
    (seen.behind before).Opens (before ++ ls) := by
  obtain ⟨rest, rfl, hended⟩ := h
  exact ⟨rest, (List.append_assoc ..).symm, hended⟩

theorem Seen.opens_of_append (lexemes rest : List Lexeme) : Seen.Opens ⟨lexemes, false⟩ (lexemes ++ rest) :=
  ⟨rest, rfl, nofun⟩

theorem Seen.opens_self (seen : Seen) : seen.Opens seen.lexemes :=
  ⟨[], (List.append_nil _).symm, fun _ => rfl⟩

theorem seesTruthValue_eq_false_iff : seesTruthValue ls = false ↔ ∀ b rest, ls ≠ truthValue b :: rest := by
  rw [Bool.eq_false_iff, ne_eq, seesTruthValue_iff]
  exact ⟨fun h b rest hls => h ⟨b, rest, hls⟩, fun h ⟨b, rest, hls⟩ => h b rest hls⟩

/-! ### Values -/

/-- Where a value is wanted stands nothing, a value, or something that is none. -/
theorem value_cases (ls : List Lexeme) :
    ls = [] ∨ (∃ b rest, ls = truthValue b :: rest) ∨
      ∃ seen fault reason more, Misfit seen fault reason more ∧ seen.Opens ls := by
  cases ls with
  | nil => exact .inl rfl
  | cons l rest =>
      by_cases htruth : ∃ b, l = truthValue b
      · obtain ⟨b, rfl⟩ := htruth
        exact .inr (.inl ⟨b, rest, rfl⟩)
      by_cases hminus : ∃ joint, l = punct '-' joint
      · obtain ⟨joint, rfl⟩ := hminus
        refine .inr (.inr ?_)
        cases rest with
        | nil => exact ⟨_, _, _, _, .lastMinus joint, Seen.opens_self _⟩
        | cons next rest =>
            by_cases hnumber : ∃ text, next = literal text ∧ Number.isNumber text = true
            · obtain ⟨text, rfl, hnumber⟩ := hnumber
              exact ⟨_, _, _, _, .negative joint text hnumber, Seen.opens_of_append [_, _] rest⟩
            · refine ⟨_, _, _, _, .minus joint next fun text htext => ?_, Seen.opens_of_append [_, _] rest⟩
              exact Bool.eq_false_iff.mpr fun hisNumber => hnumber ⟨text, htext, hisNumber⟩
      by_cases hliteral : ∃ text, l = literal text
      · obtain ⟨text, rfl⟩ := hliteral
        exact .inr (.inr ⟨_, _, _, _, .literal text, Seen.opens_of_append [_] rest⟩)
      · refine .inr (.inr ⟨_, _, _, _, .other l ?_ ?_ ?_, Seen.opens_of_append [_] rest⟩)
        · exact fun text h => hliteral ⟨text, h⟩
        · exact fun b h => htruth ⟨b, h⟩
        · exact fun joint h => hminus ⟨joint, h⟩

theorem run_value_of_no_literal (hne : r.rest ≠ []) (h : seesLiteral r.rest = false) :
    value.run g r = .ok (.error (.noLiteral, .single r.position), r) := by
  rw [value, run_bind_of_ok (run_look r)]
  simp only [List.isEmpty_iff, if_neg hne, h, Bool.not_false, if_true]
  rfl

/-- A literal that is no truth value is at fault with all its lexemes. -/
theorem run_value_of_literal {r' : Reader} (hne : r.rest ≠ []) (h : seesLiteral r.rest = true)
    (htruth : seesTruthValue r.rest = false) (hrun : Rule.literal.run g r = .ok ((), r')) :
    value.run g r = .ok (.error (.noTruthValue, ⟨r.position, r'.position - 1⟩), r') := by
  rw [value, run_bind_of_ok (run_look r)]
  simp only [List.isEmpty_iff, if_neg hne, h, Bool.not_true, Bool.false_eq_true, if_false]
  rw [run_bind_of_ok hrun]
  simp only [htruth, Bool.false_eq_true, if_false]
  rw [run_bind_of_ok (run_here r')]
  rfl

/-- What is no value is refused for its fault, whatever follows. -/
theorem run_value_of_misfit (h : Misfit seen fault reason more) (hopens : seen.Opens r.rest) :
    ∃ r', value.run g r = .ok (.error (fault, ⟨r.position, r.position + more⟩), r') := by
  obtain ⟨rest, hr, hended⟩ := hopens
  cases h with
  | literal text =>
      have hrun : Rule.literal.run g r = .ok ((), r.take 1 [literal text]) := by
        rw [Rule.literal, run_bind_of_ok (run_ahead r), hr]
        simp only [List.cons_append, seesLiteral, if_true]
        rw [run_copy, hr]
        rfl
      have htruth : seesTruthValue r.rest = false := by rw [hr]; rfl
      exact ⟨_, run_value_of_literal (by simp [hr]) (by rw [hr]; rfl) htruth hrun⟩
  | negative joint text hnumber =>
      have hsees : seesLiteral r.rest = true := by rw [hr]; exact hnumber
      have hrun : Rule.literal.run g r = .ok ((), r.take 2 [punct '-' false, literal text]) := by
        rw [Rule.literal, run_bind_of_ok (run_ahead r)]
        rw [hr] at hsees ⊢
        simp only [List.cons_append, List.nil_append] at hsees ⊢
        rw [if_pos hsees]
        exact run_take ..
      have htruth : seesTruthValue r.rest = false := by rw [hr]; rfl
      exact ⟨_, run_value_of_literal (by simp [hr]) hsees htruth hrun⟩
  | other l hliteral htruth hminus =>
      refine ⟨r, run_value_of_no_literal (by simp [hr]) ?_⟩
      rw [hr]
      cases l with
      | literal text => exact (hliteral text rfl).elim
      | word w =>
          have htrue : w ≠ "true" := fun h => htruth true (h ▸ rfl)
          have hfalse : w ≠ "false" := fun h => htruth false (h ▸ rfl)
          simp [seesLiteral, htrue, hfalse]
      | punct c joint =>
          have hc : c ≠ '-' := fun h => hminus joint (h ▸ rfl)
          simp [seesLiteral, hc]
      | opening d => rfl
      | closing d => rfl
  | minus joint l hl =>
      refine ⟨r, run_value_of_no_literal (by simp [hr]) ?_⟩
      rw [hr]
      cases l with
      | literal text => exact hl text rfl
      | word w => rfl
      | punct c joint => rfl
      | opening d => rfl
      | closing d => rfl
  | lastMinus joint =>
      obtain rfl := hended rfl
      exact ⟨r, run_value_of_no_literal (by simp [hr]) (by rw [hr]; rfl)⟩

/-! ### Arguments -/

/-- A whole argument leads wherever it stands. -/
theorem Leading.append (h : Leading form b []) (rest : List Lexeme) : Leading (form ++ rest) b rest := by
  cases h with
  | bare => exact .bare b rest
  | named joint => exact .named joint b rest

/-- Where an argument is refused, the arguments are, for the same fault. -/
theorem read_of_argument_error (hne : ls ≠ [])
    (h : ∃ r', argument.run (Phrase.readWithin (sufficientDepth ls.length)) (.ofLexemes ls) =
      .ok (.error (fault, stretch), r')) : read ls = .error (.argument fault stretch) := by
  obtain ⟨r', h⟩ := h
  have hrun : rule.read ls = .ok (.error (fault, stretch), r') := by
    rw [Rule.read, rule, run_bind_of_ok (run_ahead _)]
    simp only [Reader.ofLexemes] at h ⊢
    simp only [List.isEmpty_iff, if_neg hne]
    rw [run_bind_of_ok h]
    rfl
  rw [read, hrun]

/-- What follows an argument is at fault. -/
theorem read_of_further (h : Leading form b []) (l : Lexeme) (rest : List Lexeme) :
    read (form ++ l :: rest) = .error (.argument .several (.single form.length)) := by
  obtain ⟨r', hargument, hrest, hposition⟩ :=
    run_argument_of_leading (g := Phrase.readWithin (sufficientDepth (form ++ l :: rest).length))
      (r := .ofLexemes (form ++ l :: rest)) (h.append (l :: rest))
  have hform : r'.position = form.length := by
    simp only [Reader.ofLexemes, List.length_append, List.length_cons] at hposition
    omega
  have hrun : rule.read (form ++ l :: rest) = .ok (.error (.several, .single form.length), r') := by
    rw [Rule.read, rule, run_bind_of_ok (run_ahead _)]
    simp only [Reader.ofLexemes] at hargument ⊢
    simp only [List.isEmpty_iff, List.append_eq_nil_iff, reduceCtorEq, and_false, if_false]
    rw [run_bind_of_ok hargument]
    simp only
    rw [run_bind_of_ok (run_look _)]
    simp only [hrest, hform]
    rfl
  rw [read, hrun]

theorem not_sees_equals {l : Lexeme} (h : ∀ joint, l ≠ punct '=' joint) : sees "=" (l :: rest) = false := by
  cases l with
  | punct c joint =>
      have hc : c ≠ '=' := fun hc => h joint (hc ▸ rfl)
      simpa [sees, startsWith] using hc.symm
  | word w => rfl
  | literal text => rfl
  | opening d => rfl
  | closing d => rfl

/-- No other identifier than the name is known. -/
theorem run_argument_of_unknown {w : String} (hr : r.rest = word w :: rest) (hw : isIdentifier w = true)
    (hname : w ≠ databaseName) :
    ∃ r', argument.run g r = .ok (.error (.unknown w, .single r.position), r') := by
  have htruth : seesTruthValue r.rest = false := by
    refine seesTruthValue_eq_false_iff.mpr fun b tail h => ?_
    have hkeyword : isIdentifier w = false := by
      cases b <;> (cases (List.cons.inj (hr.symm.trans h)).1; decide)
    rw [hkeyword] at hw
    cases hw
  have hidentifier : seesIdentifier r.rest = true := by rw [hr]; exact hw
  refine ⟨r.take 1 [word w], ?_⟩
  rw [argument, run_bind_of_ok (run_ahead r)]
  simp only [htruth, hidentifier, Bool.false_eq_true, if_false, if_true]
  rw [run_bind_of_ok (run_identifier_of_word hr hw)]
  simp only [ne_eq, hname, not_false_eq_true, if_true]
  rfl

theorem isIdentifier_databaseName : isIdentifier databaseName = true := rfl

/-- The name has to be followed by an equals sign. -/
theorem run_argument_of_no_equals (hr : r.rest = word databaseName :: rest) (h : sees "=" rest = false) :
    ∃ r', argument.run g r = .ok (.error (.valueRequired databaseName, .single r.position), r') := by
  have htruth : seesTruthValue r.rest = false := by rw [hr]; rfl
  have hidentifier : seesIdentifier r.rest = true := by rw [hr]; exact isIdentifier_databaseName
  refine ⟨r.take 1 [word databaseName], ?_⟩
  rw [argument, run_bind_of_ok (run_ahead r)]
  simp only [htruth, hidentifier, Bool.false_eq_true, if_false, if_true]
  rw [run_bind_of_ok (run_identifier_of_word hr isIdentifier_databaseName)]
  simp only [ne_eq, not_true_eq_false, if_false]
  have hequals : sees "=" (r.take 1 [word databaseName]).rest = false := by rw [Reader.take, hr]; exact h
  rw [run_bind_of_ok (run_ahead _)]
  simp only [hequals, Bool.not_false, if_true]
  rfl

/-- Behind the name and an equals sign stands a value. -/
theorem run_argument_of_equals {joint : Bool} (hr : r.rest = word databaseName :: punct '=' joint :: rest) :
    ∃ r', r'.rest = rest ∧ r'.position = r.position + 2 ∧ argument.run g r = value.run g r' := by
  have htruth : seesTruthValue r.rest = false := by rw [hr]; rfl
  have hidentifier : seesIdentifier r.rest = true := by rw [hr]; exact isIdentifier_databaseName
  have hequals : sees "=" (r.take 1 [word databaseName]).rest = true := by rw [Reader.take, hr]; rfl
  refine ⟨(r.take 1 [word databaseName]).take 1 [punct '=' false], ?_, rfl, ?_⟩
  · rw [Reader.take, Reader.take, hr]
    rfl
  · rw [argument, run_bind_of_ok (run_ahead r)]
    simp only [htruth, hidentifier, Bool.false_eq_true, if_false, if_true]
    rw [run_bind_of_ok (run_identifier_of_word hr isIdentifier_databaseName)]
    simp only [ne_eq, not_true_eq_false, if_false]
    rw [run_bind_of_ok (run_ahead _)]
    simp only [hequals, Bool.not_true, Bool.false_eq_true, if_false]
    exact run_bind_of_ok (run_operator_of_sees hequals) _

/-- Where neither a truth value nor a name is seen, a value is wanted. -/
theorem run_argument_of_nameless (htruth : seesTruthValue r.rest = false)
    (hname : seesIdentifier r.rest = false) :
    argument.run g r = value.run g r := by
  rw [argument, run_bind_of_ok (run_ahead r)]
  simp only [htruth, hname, Bool.false_eq_true, if_false]

/-- What is no value begins with no truth value. -/
theorem Misfit.not_sees_truthValue (h : Misfit seen fault reason more) (hopens : seen.Opens ls) :
    seesTruthValue ls = false := by
  obtain ⟨rest, rfl, -⟩ := hopens
  cases h with
  | other l hliteral htruth hminus =>
      exact seesTruthValue_eq_false_iff.mpr fun b rest h => htruth b (List.cons.inj h).1
  | literal | negative | minus | lastMinus => rfl

theorem Misfit.lexemes_ne_nil (h : Misfit seen fault reason more) : seen.lexemes ≠ [] := by
  cases h <;> exact List.cons_ne_nil _ _

/-- An identifier is seen only where one begins what is looked at. -/
theorem seesIdentifier_of_head? (h : ∀ w, ls.head? = some (word w) → isIdentifier w = false)
    (hne : ls ≠ []) :
    seesIdentifier (ls ++ rest) = false := by
  cases ls with
  | nil => exact (hne rfl).elim
  | cons l ls =>
      cases l with
      | word w => exact h w rfl
      | punct | literal | opening | closing => rfl

/-- What is wrong with arguments is what they are refused for, whatever follows. -/
theorem read_of_offence (h : Offence seen fault reason stretch) (hopens : seen.Opens ls) :
    read ls = .error (.argument fault stretch) := by
  have hfront := hopens
  obtain ⟨rest, rfl, hended⟩ := hopens
  cases h with
  | unknown w hw hname =>
      exact read_of_argument_error (List.cons_ne_nil _ _)
        (run_argument_of_unknown (r := .ofLexemes _) rfl hw hname)
  | noEquals l hl =>
      exact read_of_argument_error (List.cons_ne_nil _ _)
        (run_argument_of_no_equals (r := .ofLexemes _) rfl (not_sees_equals hl))
  | nameAlone =>
      obtain rfl := hended rfl
      exact read_of_argument_error (List.cons_ne_nil _ _)
        (run_argument_of_no_equals (r := .ofLexemes _) rfl rfl)
  | missing joint =>
      obtain rfl := hended rfl
      obtain ⟨r', hrest, hposition, hrun⟩ := run_argument_of_equals (r := .ofLexemes _) rfl
      refine read_of_argument_error (List.cons_ne_nil _ _) ⟨r', hrun.trans ?_⟩
      rw [value, run_bind_of_ok (run_look r')]
      simp only [hrest, hposition]
      rfl
  | bare h hname =>
      have hne := h.lexemes_ne_nil
      obtain ⟨r', hvalue⟩ := run_value_of_misfit (r := .ofLexemes _) h hfront
      refine read_of_argument_error (by simp [hne]) ⟨r', ?_⟩
      rw [run_argument_of_nameless (h.not_sees_truthValue hfront) (seesIdentifier_of_head? hname hne),
        hvalue]
      simp only [Reader.ofLexemes, Nat.zero_add]
  | named joint h =>
      obtain ⟨r', hrest, hposition, hrun⟩ := run_argument_of_equals (r := .ofLexemes _) rfl
      obtain ⟨r'', hvalue⟩ := run_value_of_misfit h ⟨rest, hrest, hended⟩
      exact read_of_argument_error (List.cons_ne_nil _ _) ⟨r'', hrun.trans (by rw [hvalue, hposition]; rfl)⟩
  | further h l => exact (List.append_assoc ..) ▸ read_of_further h l rest

/-- A whole argument is accepted, or something that follows it is wrong. -/
theorem accepted_or_further (h : Leading form b []) (rest : List Lexeme) :
    (∃ o, read (form ++ rest) = .ok o) ∨
      ∃ seen fault reason stretch, Offence seen fault reason stretch ∧ seen.Opens (form ++ rest) := by
  cases rest with
  | nil => exact .inl ⟨_, (List.append_nil form).symm ▸ read_of_leading h⟩
  | cons l rest =>
      refine .inr ⟨_, _, _, _, .further h l, rest, ?_, nofun⟩
      exact (List.append_assoc form [l] rest).symm

/-- Arguments are accepted, or something is wrong with them. -/
theorem accepted_or_offence (ls : List Lexeme) :
    (∃ o, read ls = .ok o) ∨ ∃ seen fault reason stretch,
      Offence seen fault reason stretch ∧ seen.Opens ls := by
  by_cases hnamed : ∃ w rest, ls = word w :: rest ∧ isIdentifier w = true
  · obtain ⟨w, rest, rfl, hw⟩ := hnamed
    by_cases hname : w = databaseName
    · subst hname
      cases rest with
      | nil => exact .inr ⟨_, _, _, _, .nameAlone, Seen.opens_self _⟩
      | cons l rest =>
          by_cases hequals : ∃ joint, l = punct '=' joint
          · obtain ⟨joint, rfl⟩ := hequals
            obtain rfl | ⟨b, rest, rfl⟩ | ⟨seen, fault, reason, more, hmisfit, hopens⟩ := value_cases rest
            · exact .inr ⟨_, _, _, _, .missing joint, Seen.opens_self _⟩
            · exact accepted_or_further (.named joint b []) rest
            · exact .inr ⟨_, _, _, _, .named joint hmisfit, hopens.of_behind⟩
          · have hl : ∀ joint, l ≠ punct '=' joint := fun joint h => hequals ⟨joint, h⟩
            exact .inr ⟨_, _, _, _, .noEquals l hl, Seen.opens_of_append [_, _] rest⟩
    · exact .inr ⟨_, _, _, _, .unknown w hw hname, Seen.opens_of_append [_] rest⟩
  · obtain rfl | ⟨b, rest, rfl⟩ | ⟨seen, fault, reason, more, hmisfit, hopens⟩ := value_cases ls
    · exact .inl ⟨_, read_nil⟩
    · exact accepted_or_further (.bare b []) rest
    · refine .inr ⟨seen, fault, reason, _, .bare hmisfit fun w hw => ?_, hopens⟩
      obtain ⟨rest, rfl, -⟩ := hopens
      obtain ⟨tail, htail⟩ := List.head?_eq_some_iff.mp hw
      exact Bool.eq_false_iff.mpr fun hisIdentifier =>
        hnamed ⟨w, tail ++ rest, by rw [htail]; rfl, hisIdentifier⟩

/-- Of a text that is not accepted, exactly one thing is wrong. -/
theorem not_accepted_iff (ls : List Lexeme) :
    (¬ ∃ o, read ls = .ok o) ↔
      ∃! x : ArgumentFault × String × Stretch, ∃ seen, Offence seen x.1 x.2.1 x.2.2 ∧ seen.Opens ls := by
  constructor
  · intro hnone
    obtain haccepted | ⟨seen, fault, reason, stretch, h, hopens⟩ := accepted_or_offence ls
    · exact (hnone haccepted).elim
    · refine ⟨(fault, reason, stretch), ⟨seen, h, hopens⟩, ?_⟩
      rintro ⟨fault', reason', stretch'⟩ ⟨seen', h', hopens'⟩
      cases (read_of_offence h' hopens').symm.trans (read_of_offence h hopens)
      exact congrArg (fault', ·, stretch') (h'.message_eq.symm.trans h.message_eq)
  · rintro ⟨x, ⟨seen, h, hopens⟩, -⟩ ⟨o, ho⟩
    cases ho.symm.trans (read_of_offence h hopens)

/-! ### Places -/

/-- What is at fault was seen, or it is the end behind what was seen. -/
theorem Offence.stretch_seen (h : Offence seen fault reason stretch) :
    stretch.first < seen.lexemes.length ∧ stretch.last < seen.lexemes.length ∨
      seen.ended = true ∧ stretch = .single seen.lexemes.length := by
  cases h with
  | missing joint => exact .inr ⟨rfl, rfl⟩
  | unknown | noEquals | nameAlone => exact .inl ⟨Nat.zero_lt_succ _, Nat.zero_lt_succ _⟩
  | bare h hname => cases h <;> simp
  | named joint h => cases h <;> simp [Seen.behind]
  | further h l => simp [Stretch.single]

/-- What is at fault stands at the same place in all texts in which what was seen does. -/
theorem Offence.span_eq {s s' : Source} (h : Offence seen fault reason stretch)
    (hopens : seen.Opens s.lexemes) (hopens' : seen.Opens s'.lexemes)
    (hplaces : ∀ i < seen.lexemes.length, s.tokenSpan? i = s'.tokenSpan? i) :
    s'.span stretch = s.span stretch := by
  rw [Source.span_eq_join, Source.span_eq_join]
  obtain ⟨hfirst, hlast⟩ | ⟨hended, rfl⟩ := h.stretch_seen
  · rw [hplaces _ hfirst, hplaces _ hlast]
  · have hnone : ∀ {s : Source}, seen.Opens s.lexemes → s.tokenSpan? seen.lexemes.length = none := by
      rintro s ⟨rest, hs, hrest⟩
      rw [hrest hended, List.append_nil] at hs
      have hlength : s.extents.length = seen.lexemes.length := by
        rw [← hs, Source.extents, Source.lexemes, List.length_map, List.length_map]
      rw [Source.tokenSpan?, List.getElem?_eq_none (Nat.le_of_eq hlength), Option.map_none]
    simp only [Stretch.single, hnone hopens, hnone hopens']

/-- Arguments that are not accepted are a case of `Offence`, and of one only. The case tells the
fault, the reason that is given for it and the lexemes at fault, whatever stands behind what was seen;
and where what was seen stands at the same places of two texts, both are refused with the same
diagnostic at the same span. -/
theorem refusals_depend_on_what_was_seen :
    (∀ ls, (¬ ∃ o, read ls = .ok o) ↔
        ∃! x : ArgumentFault × String × Stretch, ∃ seen, Offence seen x.1 x.2.1 x.2.2 ∧ seen.Opens ls) ∧
      ∀ seen fault reason stretch, Offence seen fault reason stretch →
        (Cause.arguments fault).message = "invalid `#[entity_id]` arguments: " ++ reason ++
            "; expected `#[entity_id]`, `#[entity_id(<bool>)]` or `#[entity_id(sqlx = <bool>)]`" ∧
        (∀ ls, seen.Opens ls → read ls = .error (.argument fault stretch)) ∧
          ∀ text text' s s', Source.read? text = some s → Source.read? text' = some s' →
            seen.Opens s.lexemes → seen.Opens s'.lexemes →
              (∀ i < seen.lexemes.length, s.tokenSpan? i = s'.tokenSpan? i) →
                Invocation.options text =
                    .error (.rejected .arguments ⟨.arguments fault, stretch⟩ (s.span stretch)) ∧
                  Invocation.options text' = Invocation.options text := by
  refine ⟨not_accepted_iff, fun seen fault reason stretch h => ⟨?_, fun ls => read_of_offence h, ?_⟩⟩
  · obtain rfl := h.message_eq
    rfl
  intro text text' s s' hs hs' hopens hopens' hplaces
  have hoptions : ∀ {text s}, Source.read? text = some s → seen.Opens s.lexemes →
      Invocation.options text =
        .error (.rejected .arguments ⟨.arguments fault, stretch⟩ (s.span stretch)) := by
    intro text s hs hopens
    rw [Invocation.options_of_read? hs, read_of_offence h hopens]
    rfl
  refine ⟨hoptions hs hopens, ?_⟩
  rw [hoptions hs hopens, hoptions hs' hopens', h.span_eq hopens hopens' hplaces]

/-- A number with a minus is refused as such behind `sqlx =`, whatever follows it. -/
theorem negative_number_is_refused_alone :
    Invocation.options "sqlx = -1" =
        .error (.rejected .arguments ⟨.arguments .noTruthValue, ⟨2, 3⟩⟩ ⟨⟨1, 7⟩, ⟨1, 9⟩⟩) ∧
      Invocation.options "sqlx = -1, \x7btrue\x7d" = Invocation.options "sqlx = -1" := by
  have h := (refusals_depend_on_what_was_seen.2 _ _ _ _ (.named false (.negative false "1" rfl))).2.2
    "sqlx = -1" "sqlx = -1, \x7btrue\x7d" _ _ rfl rfl ⟨[], rfl, fun _ => rfl⟩ ⟨_, rfl, nofun⟩
  exact h (by decide +kernel)

end TypedId.Options
