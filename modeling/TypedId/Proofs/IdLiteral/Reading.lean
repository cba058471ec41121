import TypedId.IdLiteral
import TypedId.Proofs.Grammar.Positions

/-!
Where the text of a written identifier comes from.

A written identifier is read by its rule, and its text is what the literal at its position denotes
(`IdLiteral.textAt_of_read`).
-/

namespace TypedId

open Lexeme Grammar Ensures

variable {ls : List Lexeme} {l : IdLiteral}

namespace Grammar

theorem seesComma_iff : sees "," ls = true ↔ ∃ joint rest, ls = punct ',' joint :: rest := by
  cases ls with
  | nil => exact ⟨nofun, nofun⟩
  | cons l rest =>
      cases l with
      | punct c joint =>
          have hsees : sees "," (punct c joint :: rest) = (',' == c) := rfl
          rw [hsees, beq_iff_eq]
          constructor
          · rintro rfl
            exact ⟨joint, rest, rfl⟩
          · rintro ⟨_, _, ⟨⟩⟩
            rfl
      | _ => exact ⟨nofun, nofun⟩

/-- A comma is right behind the reader that has taken it. -/
theorem ensures_comma {g : PhraseReader} {pre : View → Prop} :
    Ensures g ls pre (Rule.operator ",") fun _ v =>
      ∃ p joint, v.position = p + 1 ∧ ls[p]? = some (punct ',' joint) := by
  intro r u r' hr _ hrun
  obtain ⟨hsees, rfl⟩ := Rule.run_operator_eq_ok.mp hrun
  obtain ⟨joint, rest, hrest⟩ := seesComma_iff.mp hsees
  exact ⟨Reader.within_take hr .., r.position, joint, rfl, hr.getElem? hrest⟩

end Grammar

/-- A text literal that stands behind a comma or a closing delimiter. -/
def TextAt (ls : List Lexeme) (position : Nat) (text : String) : Prop :=
  (∃ content, ls[position]? = some (literal content) ∧ Text.literalText? content = some text) ∧
    ∃ q, position = q + 1 ∧
      ((∃ joint, ls[q]? = some (punct ',' joint)) ∨ ∃ d, ls[q]? = some (closing d))

namespace IdLiteral

theorem literalAt_of_textAt {position : Nat} {text : String} (h : TextAt ls position text) :
    literalAt ls position = text := by
  obtain ⟨⟨content, hcontent, htext⟩, -⟩ := h
  rw [literalAt, hcontent]
  simp only [htext, Option.getD_some]

/-- The rule of a written identifier finds a text only where one stands. -/
theorem ensures_idLiteralRule {g : PhraseReader} (hg : Tells g ls) (pre : View → Prop) :
    Ensures g ls pre idLiteralRule fun x _ =>
      ∀ position, x.2.shape = .text position → ∃ text, TextAt ls position text := by
  have hs := hg.stays
  refine skip hs fun (_, type) => bind ensures_comma fun _ => here fun v hv hcomma => ?_
  refine learn (call_told hg) fun shape ⟨w, hw, htold⟩ => skip hs fun stop => .pure fun _ _ => ?_
  subst hw
  intro position hposition
  obtain ⟨⟨content, hcontent, hsome⟩, hbehind⟩ := htold position hposition
  obtain ⟨text, htext⟩ := Option.isSome_iff_exists.mp hsome
  refine ⟨text, ⟨content, hcontent, htext⟩, ?_⟩
  obtain rfl | ⟨q, d, rfl, hclosing⟩ := hbehind
  · obtain ⟨q, joint, hq, hpunct⟩ := hcomma
    exact ⟨q, hq, .inl ⟨joint, hpunct⟩⟩
  · exact ⟨q, rfl, .inr ⟨d, hclosing⟩⟩

/-- The text of a written identifier is what the literal at its position denotes. -/
theorem textAt_of_read (h : read ls = .ok l) : TextAt ls l.position l.text := by
  rw [read] at h
  split at h
  · cases h
  · next type found r hrun =>
    split at h
    · next position hshape =>
      have hensures := ensures_idLiteralRule (tells_readWithin ls (sufficientDepth ls.length))
        (fun _ => True) (.ofLexemes ls) (type, found) r (Reader.within_ofLexemes ls) trivial hrun
      obtain ⟨text, htext⟩ := hensures.2 position hshape
      simp only at h
      split at h
      · cases h
      · cases h
      · cases h
        rw [literalAt_of_textAt htext]
        exact htext
    · cases h

end IdLiteral

end TypedId
