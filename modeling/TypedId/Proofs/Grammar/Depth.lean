import TypedId.Proofs.Grammar.Names
import TypedId.Proofs.Grammar.Positions
import TypedId.Proofs.Grammar.Statements

/-!
All phrases are read again, however deep they are read.

Each rule is read again if the phrases are that it refers to (`Rereadable`). Those are read one
phrase less deep, so all of them are read again at every depth, by induction (`rereadable_readWithin`).
-/

namespace TypedId.Grammar

open Lexeme Rule

variable {g : PhraseReader} {m : Rendition} {s : List Lexeme} {depth : Nat} {β : Type}

theorem tidy_readWithin (depth : Nat) : Tidy (Phrase.readWithin depth) := by
  induction depth with
  | zero => intro phrase r a r' h; cases h
  | succ depth ih => exact fun phrase r a r' h => phrase.rule.run_getsOn ih r a r' h

theorem blind_readWithin (depth : Nat) : Blind (Phrase.readWithin depth) := by
  induction depth with
  | zero => exact fun _ _ _ => rfl
  | succ depth ih => exact fun phrase r before => phrase.rule.run_onto ih r before

/-- A phrase is read again if its rule is. -/
theorem Rereads.call {phrase : Phrase} {keep : phrase.Result → β} {front : List Lexeme → Prop}
    {follow : phrase.Result → List Lexeme → List Lexeme → Prop}
    (h : Rereads (Phrase.readWithin depth) m s phrase.rule phrase.rule keep front follow) :
    Rereads (Phrase.readWithin (depth + 1)) m s (.call phrase) (.call phrase) keep front follow :=
  fun _ => h (tidy_readWithin depth)

theorem Solid.call {phrase : Phrase} {given : phrase.Result → Prop}
    (h : Solid (Phrase.readWithin depth) m s phrase.rule given) :
    Solid (Phrase.readWithin (depth + 1)) m s (.call phrase) given :=
  fun _ => h (tidy_readWithin depth)

theorem readWithin_zero (phrase : Phrase) (r : Reader) :
    ∃ fault, Phrase.readWithin 0 phrase r = .error fault :=
  ⟨_, rfl⟩

theorem not_readWithin_zero {phrase : Phrase} {r : Reader} {x : phrase.Result × Reader}
    (h : Phrase.readWithin 0 phrase r = .ok x) {P : Prop} : P := by
  obtain ⟨fault, hfault⟩ := readWithin_zero phrase r
  cases hfault.symm.trans h

/-- Nothing is read where no phrase is. -/
theorem rereadable_readWithin_zero : Rereadable (Phrase.readWithin 0) where
  blind := blind_readWithin 0
  stays ls := (tells_readWithin ls 0).stays
  type _ _ _ _ := .of_error fun r _ => readWithin_zero _ r
  noType _ r _ := (readWithin_zero _ r).imp fun _ h => ⟨h, fun _ => readWithin_zero⟩
  bound _ _ _ _ _ := .of_error fun r _ => readWithin_zero _ r
  expression _ _ _ := .of_error fun r _ => readWithin_zero _ r
  operand _ _ _ := .of_error fun r _ => readWithin_zero _ r
  atom _ _ _ := .of_error fun r _ => readWithin_zero _ r
  operators _ _ _ _ _ _ _ := .of_error fun r _ => readWithin_zero _ r
  atomBegins _ _ _ _ h := not_readWithin_zero h
  operandBegins _ _ _ _ _ h := not_readWithin_zero h
  atomSolid _ _ := .of_error fun r _ => readWithin_zero _ r
  operandSolid _ _ := .of_error fun r _ => readWithin_zero _ r
  operatorsBlock _ _ _ _ _ _ h := not_readWithin_zero h
  operatorsStay _ _ _ _ _ _ h := not_readWithin_zero h
  operatorsMove _ _ _ _ _ _ _ h := not_readWithin_zero h
  operatorsSolid _ _ _ _ _ _ := .of_error fun r _ => readWithin_zero _ r
  lastOperators _ _ _ _ _ _ := .of_error fun r _ => readWithin_zero _ r
  wildcard _ _ _ h := not_readWithin_zero h
  never _ _ _ h := not_readWithin_zero h
  name _ _ _ _ _ _ _ _ _ h := not_readWithin_zero h
  noLifetime _ r _ _ := readWithin_zero _ r
  parameters _ _ _ _ h := not_readWithin_zero h
  receiver _ _ _ _ _ _ _ _ _ h := not_readWithin_zero h
  pattern _ _ := .of_error fun r _ => readWithin_zero _ r
  statements _ _ := .of_error fun r _ => readWithin_zero _ r
  namedFields _ _ := .of_error fun r _ => readWithin_zero _ r
  item _ _ := .of_error fun r _ => readWithin_zero _ r
  importTree _ _ _ := .of_error fun r _ => readWithin_zero _ r

/-- A lifetime is a bound, or too deep. -/
theorem readWithin_bound_lifetime (depth : Nat) (r : Reader) (w : String) (rest : List Lexeme)
    (hr : r.rest = punct '\'' true :: word w :: rest) :
    (∃ fault, Phrase.readWithin depth (.bound false false) r = .error fault) ∨
      ∃ n, Phrase.readWithin depth (.bound false false) r =
        .ok (.lifetime n, r.take 2 (Lexeme.lifetime w)) := by
  cases depth with
  | zero => exact .inl ⟨_, rfl⟩
  | succ depth =>
      refine .inr ⟨r.position + 1, ?_⟩
      have hsees : seesLifetime r.rest = true := by rw [hr]; rfl
      show (Rule.bound false false).run _ r = _
      rw [bound, run_bind_of_ok (run_ahead r), if_pos hsees, run_bind_of_ok (run_lifetime_of_seen hr)]
      rfl

theorem isRange_eq_false {shape : ExprShape} (h : ∀ dots, shape ≠ .range dots) : shape.isRange = false := by
  cases shape <;> first | rfl | exact (h _ rfl).elim

theorem Rereadable.succ (hg : Rereadable (Phrase.readWithin depth)) :
    Rereadable (Phrase.readWithin (depth + 1)) where
  blind := blind_readWithin _
  stays ls := (tells_readWithin ls _).stays
  type _ _ plus told := .call ((Rereads.type hg plus told).follow_mono fun _ _ _ hk =>
    ⟨hk.1, fun ht => ⟨(hk.2 ht).1, (hk.2 ht).2⟩⟩)
  noType plus _ h := (run_type_of_beginsNoType plus h).imp' _ fun missing h =>
    ⟨h, fun hdeep => Complaint.noConfusion (show Complaint.oneOf missing = .tooDeep from hdeep)⟩
  bound _ _ captures constant behind := .call (Rereads.bound hg captures constant behind)
  expression _ _ braces := .call (Rereads.expression hg braces)
  operand _ _ braces := .call (Rereads.operand hg braces)
  atom _ _ braces := .call ((Rereads.atom hg braces).front_mono fun _ hp => hp.toExprFront)
  operators _ _ braces _ _ least h _ :=
    Rereads.operators hg braces (behindOperators_expr least) h (tidy_readWithin depth)
  atomBegins _ _ _ _ h := begins_of_run_atom hg.stays h
  operandBegins _ _ _ _ hhash h := begins_of_run_operand hg hhash h
  atomSolid _ braces := .call (.atom braces)
  operandSolid _ braces := .call (.operand hg braces)
  operatorsBlock _ _ _ _ _ _ h := block_of_run_operators hg.stays h
  operatorsStay braces dots least r a r' h := by
    cases (run_operators_of_range braces dots least r).symm.trans h
    rfl
  operatorsMove braces left r a r' hleft hnext h :=
    Moves.operators (tidy_readWithin depth) braces (isRange_eq_false hleft) hnext r a r' rfl h
  operatorsSolid _ _ braces _ hleft hs := .call (Rereads.operators_solid braces (isRange_eq_false hleft) hs)
  lastOperators _ _ braces _ _ h _ :=
    Rereads.operators hg braces behindOperators_shape h (tidy_readWithin depth)
  wildcard _ _ _ _ _ _ hr := run_pattern_wildcard hr
  never _ _ _ _ plus _ _ _ hr := run_type_never plus hr
  name plus r w rest a r' hr hw hbehind h := by
    cases (run_type_name plus hr hw hbehind).symm.trans h
    rfl
  noLifetime plus r hlifetime hbehind :=
    run_type_lifetime plus hlifetime hbehind (readWithin_bound_lifetime depth r)
  parameters r a r' hparameters h := run_type_parameters _
    (fun plus r h => (hg.noType plus r h).imp fun _ h => h.1) hg.name hg.noLifetime hparameters h
  receiver _ hws _ _ _ _ hr hcolon huntyped h := run_pattern_receiver hws hr hcolon huntyped h
  pattern _ _ := .call (Rereads.pattern hg)
  statements _ _ := .call (Rereads.statements hg)
  namedFields _ _ := .call (Rereads.namedFields hg)
  item _ _ := .call ((Rereads.item hg).front_mono fun _ hp => ⟨hp.ends, hp.outward⟩)
  importTree _ _ rootAdmitted := .call (Rereads.importTree hg rootAdmitted)

/-- All phrases are read again, however deep they are read. -/
theorem rereadable_readWithin (depth : Nat) : Rereadable (Phrase.readWithin depth) := by
  induction depth with
  | zero => exact rereadable_readWithin_zero
  | succ depth ih => exact ih.succ

end TypedId.Grammar
