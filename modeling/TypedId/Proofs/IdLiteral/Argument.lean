import TypedId.Proofs.Grammar.Calls
import TypedId.Proofs.IdLiteral.Reading

/-!
The text of a written identifier is an expression.

Attributes and a text literal are read as the expression that is looked for (`run_expression_text`),
and no other expression is taken for a text (`attributes_of_run_expression`). From the first it
follows which texts are written identifiers (`read_of_run`).
-/

namespace TypedId

open Lexeme Grammar Rule

variable {g : PhraseReader} {L text : String} {rest : List Lexeme} {r : Reader}

/-! ### A text literal is read as an expression -/

/-- Attributes before a text literal do not show in what is remembered of it. -/
theorem run_expression_text {depth : Nat} {x : List Attribute × List Lexeme} {r₁ : Reader}
    (hattributes : (hold outerAttributes).run (Phrase.readWithin (depth + 1)) r = .ok (x, r₁))
    (h : r₁.rest = literal L :: rest) (htext : Text.literalText? L = some text) (hrest : Follows rest) :
    ∃ r', (call (.expression true)).run (Phrase.readWithin (depth + 3)) r = .ok (.text r₁.position, r') ∧
      r'.position = r₁.position + 1 ∧ r'.rest = rest ∧ r'.stray = r₁.stray := by
  have hbehind : (r₁.unwritten.take 1 [literal L]).rest = rest := by
    rw [Reader.take, Reader.unwritten, h]
    rfl
  have hsign : ∀ text ∈ ["&", "*", "!", "-"], sees text r₁.rest = false := fun text hmem =>
    h ▸ Unsigned.literal L rest text (List.mem_cons_of_mem _ hmem)
  have hatom : (call (.atom true)).run (Phrase.readWithin (depth + 1)) r₁.unwritten =
      .ok (.text r₁.position, r₁.unwritten.take 1 [literal L]) := by
    have hsees : seesText r₁.unwritten.rest = true := by
      rw [Reader.unwritten, h, seesText, htext, Option.isSome_some]
    refine (run_atom_of_literal (r := r₁.unwritten) h true).trans ?_
    rw [if_pos hsees]
    rfl
  have hfollows : Follows (r₁.unwritten.take 1 [literal L]).rest := hbehind ▸ hrest
  exact ⟨_, run_expression_of_atom hattributes hsign hatom (run_trailers_follows hfollows _) rfl hfollows,
    rfl, hbehind, rfl⟩

/-! ### Nothing else is a text -/

/-- A text literal comes next. -/
theorem exists_of_seesText {ls : List Lexeme} (h : seesText ls = true) :
    ∃ L rest text, ls = literal L :: rest ∧ Text.literalText? L = some text := by
  cases ls with
  | nil => cases h
  | cons l rest =>
      cases l with
      | literal L => exact (Option.isSome_iff_exists.mp h).elim fun text htext => ⟨L, rest, text, rfl, htext⟩
      | _ => cases h

/-- Of an operand that is a text literal, nothing but attributes stands before it and nothing behind. -/
theorem attributes_of_run_operand {depth p : Nat} {braces : Bool} {r' : Reader}
    (h : (operand braces).run (Phrase.readWithin depth) r = .ok (.text p, r')) :
    ∃ found r₁ L rest text, outerAttributes.run (Phrase.readWithin depth) r.unwritten = .ok (found, r₁) ∧
      r₁.rest = literal L :: rest ∧ Text.literalText? L = some text ∧ r₁.position = p ∧
      r'.rest = rest ∧ r'.stray = r₁.stray := by
  rw [run_operand_eq (blind_readWithin depth)] at h
  obtain ⟨⟨attributes, shape⟩, r₂, hrun, hcheck⟩ := run_bind_eq_ok.mp h
  obtain ⟨rfl, rfl⟩ := checkRange_eq hcheck
  obtain ⟨r₁, r₃, hbefore, hbody, hview, hstray⟩ := of_run_prefaced hrun
  dsimp only at hbefore hbody
  refine ⟨attributes, r₁, ?_⟩
  rw [run_operandBody] at hbody
  split at hbody
  · cases of_run_borrowing hbody
  split at hbody
  · cases of_run_signed hbody
  obtain ⟨shape, r₄, hatom, htrailers⟩ := run_bind_eq_ok.mp hbody
  obtain hother | ⟨rfl, rfl, -⟩ := of_run_trailers htrailers
  · cases hother
  cases depth with
  | zero => cases hatom
  | succ depth =>
      replace hatom : (atom braces).run (Phrase.readWithin depth) r₁.unwritten = .ok (.text p, r₃) := hatom
      have hsees : seesText r₁.unwritten.rest = true :=
        begins_of_run_atom (rereadable_readWithin depth).stays hatom
      obtain ⟨L, rest, text, hr, htext⟩ := exists_of_seesText hsees
      rw [run_atom_of_literal (r := r₁.unwritten) hr braces, if_pos hsees] at hatom
      cases hatom
      refine ⟨L, rest, text, hbefore, hr, htext, rfl, ?_, hstray.symm⟩
      exact (congrArg View.rest hview).symm.trans (congrArg (List.drop 1) hr)

/-- So it is of an expression. -/
theorem attributes_of_run_expression {depth p : Nat} {braces : Bool} {r' : Reader}
    (h : (call (.expression braces)).run (Phrase.readWithin depth) r = .ok (.text p, r'))
    (hstray : r'.stray = none) :
    ∃ depth found r₁ L rest text,
      outerAttributes.run (Phrase.readWithin depth) r.unwritten = .ok (found, r₁) ∧ r₁.stray = none ∧
      r₁.rest = literal L :: rest ∧ Text.literalText? L = some text ∧ r₁.position = p ∧ r'.rest = rest := by
  obtain _ | _ | depth := depth
  · cases h
  · obtain ⟨_, _, hoperand, -⟩ := run_bind_eq_ok.mp (h : (expression braces).run _ r = _)
    cases hoperand
  · obtain ⟨shape, r₂, hoperand, hoperators⟩ := run_bind_eq_ok.mp (h : (expression braces).run _ r = _)
    have hstray₂ : r₂.stray = none := Rule.run_stray (tidy_readWithin _) _ _ _ _ hoperators hstray
    obtain hjoined | ⟨rfl, hview⟩ :=
      joined_of_run_operators (rereadable_readWithin depth).stays hoperators
    · cases hjoined
    · obtain ⟨found, r₁, L, rest, text, hattributes, hr, htext, hposition, hrest, hsame⟩ :=
        attributes_of_run_operand hoperand
      exact ⟨depth, found, r₁, L, rest, text, hattributes, hsame.symm.trans hstray₂, hr, htext, hposition,
        (congrArg View.rest hview).trans hrest⟩

namespace IdLiteral

/-- A type, a comma, attributes and a text literal are a written identifier, perhaps with another
comma. -/
theorem read_of_run {ls type rest tail : List Lexeme} {shape : TypeShape} {r : Reader} {joint : Bool}
    {n : Nat} (htype : (Rule.hold (Rule.call (.type true))).read ls = .ok ((shape, type), r))
    (hstray : r.stray = none) (hr : r.rest = punct ',' joint :: rest)
    (hattributes : ∀ q : Reader, q.rest = rest → q.stray = none → ∃ x r₁,
      (Rule.hold outerAttributes).run (Phrase.readWithin (sufficientDepth ls.length - 2)) q = .ok (x, r₁) ∧
        r₁.position = q.position + n ∧ r₁.rest = literal L :: tail ∧ r₁.stray = none)
    (htext : Text.literalText? L = some text)
    (htail : tail = [] ∨ ∃ joint, tail = [punct ',' joint]) :
    read ls = .ok ⟨type, text, r.position + 1 + n⟩ := by
  have hfollows : Follows tail := by
    obtain rfl | ⟨joint, rfl⟩ := htail
    · exact .nil
    · exact .comma joint []
  have hcomma : sees "," r.rest = true := by rw [hr]; rfl
  obtain ⟨depth, hdepth⟩ : ∃ depth, sufficientDepth ls.length = depth + 3 :=
    ⟨32 * ls.length + 29, by rw [sufficientDepth]; omega⟩
  rw [hdepth] at hattributes
  have hbehind : (r.take ",".length (Lexeme.operator ",".toList)).rest = rest := by
    rw [Reader.take, hr]
    rfl
  obtain ⟨x, r₁, hrun, hposition₁, hr₁, hstray₁⟩ := hattributes _ hbehind hstray
  obtain ⟨r', hexpression, hposition, hr', hstray'⟩ := run_expression_text hrun hr₁ htext hfollows
  replace hposition₁ : r₁.position = r.position + 1 + n := hposition₁
  rw [hposition₁] at hexpression
  have hrule : idLiteralRule.read ls =
      .ok ((type, ⟨.text (r.position + 1 + n), ⟨r.position + 1, r'.position - 1⟩⟩), r') := by
    rw [Rule.read] at htype ⊢
    rw [idLiteralRule, run_bind_of_ok htype, run_bind_of_ok (run_operator_of_sees hcomma),
      run_bind_of_ok (run_here _), hdepth, run_bind_of_ok hexpression, run_bind_of_ok (run_here _)]
    rfl
  have hliteral : literalAt ls (r.position + 1 + n) = text := by
    have hstays : r₁.toView.Within ls := by
      have hwithin := Rule.run_within (tells_readWithin ls _).stays _ _ _ _
        (Reader.within_ofLexemes ls) htype
      exact Rule.run_within (tells_readWithin ls _).stays _ _ _ _ (Reader.within_take hwithin _ _) hrun
    have hget := hstays.getElem? hr₁
    rw [hposition₁] at hget
    rw [literalAt, hget]
    simp only [htext, Option.getD_some]
  rw [read, hrule]
  have hnone : r'.stray = none := hstray'.trans hstray₁
  obtain rfl | ⟨joint, rfl⟩ := htail
  · have hsees : sees "," ([] : List Lexeme) = false := rfl
    simp only [hr', hsees, Bool.false_eq_true, if_false, hliteral, Reader.strayFault?, hnone]
    rfl
  · have hsees : sees "," [punct ',' joint] = true := rfl
    simp only [hr', hsees, if_true, Reader.take, hliteral, Reader.strayFault?, hnone]
    rfl

end IdLiteral

end TypedId
