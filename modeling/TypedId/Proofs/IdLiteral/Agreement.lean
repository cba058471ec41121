import TypedId.Identifier
import TypedId.Proofs.IdLiteral.Argument
import TypedId.Proofs.IdLiteral.Evaluation
import TypedId.Proofs.Invocation.Messages
import TypedId.Proofs.Invocation.Stages

/-!
Written identifiers and identifiers that are read agree.

A written identifier becomes code exactly if its text can be read as an identifier, and then the code
makes the one that is read; else both refuse the same text for the same reason, and both say so in
their messages (`construction_agrees_with_reading`).
-/

namespace TypedId

open Lexeme Grammar Rule

variable {L text : String}

namespace IdLiteral

/-- Whether lexemes are a type that can be read, a comma, a literal and perhaps another comma. -/
def Writes (ls type : List Lexeme) (L : String) : Prop :=
  ∃ shape r joint rest, (Rule.hold (Rule.call (.type true))).read ls = .ok ((shape, type), r) ∧
    r.stray = none ∧ r.rest = punct ',' joint :: literal L :: rest ∧
      (rest = [] ∨ ∃ joint, rest = [punct ',' joint])

/-- A type, a comma and a text literal are a written identifier. -/
theorem read_of_writes {ls type : List Lexeme} (h : Writes ls type L)
    (htext : Text.literalText? L = some text) :
    ∃ l, read ls = .ok l ∧ l.type = type ∧ l.text = text := by
  obtain ⟨shape, r, joint, rest, htype, hstray, hr, hrest⟩ := h
  refine ⟨_, read_of_run (n := 0) htype hstray hr (fun q hq hnone => ?_) htext hrest, rfl, rfl⟩
  have hsees : sees "#" q.unwritten.rest = false := by
    rw [Reader.unwritten, hq]
    rfl
  exact ⟨_, q, run_hold_eq_ok.mpr ⟨_, _, run_outerAttributes_of_not_sees hsees, rfl, rfl⟩, rfl, hq, hnone⟩

end IdLiteral

namespace Invocation

/-- Whether a written identifier becomes code exactly if its text can be read: code that makes the
identifier that is read; or else a refusal of the same text for the same reason, with both of them in
the message of the diagnostic and in that of the failure. -/
structure Agrees (entity input : String) (type : List Lexeme) (text : String) : Prop where
  expands_iff : (∃ code, construction input = .ok code) ↔
    ∃ i : Identifier entity, Identifier.read entity text = .ok i
  evaluates : ∀ i : Identifier entity, Identifier.read entity text = .ok i →
    ∃ code, construction input = .ok code ∧
      (IdLiteral.evaluate? type code).map Identifier.mk = some i
  refuses : ∀ failure : ReadFailure, Identifier.read entity text = .error failure →
    ∃ reason d span, Uuid.Worded reason reason.message ∧
      failure = ⟨entity, text, reason⟩ ∧
      failure.message = "`" ++ text ++ "` is not a valid " ++ entity ++ " id: " ++ reason.message ∧
      construction input = .error (.rejected .literal d span) ∧
      d.cause = .invalidText text reason ∧
      d.cause.message = "invalid id literal `" ++ text ++ "`: " ++ reason.message ++
        "; expected a UUID such as " ++ "`67e55044-10b1-426f-9247-bb680e5fe0c8`"

theorem agrees_of_read {input : String} {s : Source} {l : IdLiteral} (entity : String)
    (hs : Source.read? input = some s) (hl : IdLiteral.read s.lexemes = .ok l) :
    Agrees entity input l.type l.text := by
  have hconstruction : construction input =
      (located .literal s l.value >>= fun u => .ok (IdLiteral.construct l.type u)) := by
    rw [construction_of_read? hs, hl]
    rfl
  have hread : Identifier.read entity l.text =
      ((Uuid.read l.text).mapError fun reason => ⟨entity, l.text, reason⟩).map Identifier.mk := rfl
  rw [IdLiteral.value] at hconstruction
  cases huuid : Uuid.read l.text with
  | ok u =>
      rw [huuid] at hconstruction hread
      refine ⟨⟨fun _ => ⟨_, hread⟩, fun _ => ⟨_, hconstruction⟩⟩, fun i hi => ?_, fun failure hf => ?_⟩
      · cases hread.symm.trans hi
        exact ⟨_, hconstruction, by rw [IdLiteral.evaluate?_construct]; rfl⟩
      · cases hread.symm.trans hf
  | error reason =>
      rw [huuid] at hconstruction hread
      refine ⟨⟨?_, ?_⟩, fun i hi => ?_, fun failure hf => ?_⟩
      · rintro ⟨code, hcode⟩
        cases hconstruction.symm.trans hcode
      · rintro ⟨i, hi⟩
        cases hread.symm.trans hi
      · cases hread.symm.trans hi
      · cases hread.symm.trans hf
        exact ⟨reason, _, _, Uuid.worded_message reason, rfl, rfl, hconstruction, rfl,
          Cause.says_message (.invalidText l.text reason)⟩

/-- Written identifiers and identifiers that are read agree on every text. The text is what the
literal denotes, for whatever is accepted as a written identifier; and every type, comma and text
literal is. -/
theorem construction_agrees_with_reading {input : String} {s : Source} (entity : String)
    (hs : Source.read? input = some s) :
    (∀ l, IdLiteral.read s.lexemes = .ok l →
        (∃ L, s.lexemes[l.position]? = some (literal L) ∧ Text.literalText? L = some l.text) ∧
          Agrees entity input l.type l.text) ∧
      ∀ type L text, IdLiteral.Writes s.lexemes type L → Text.literalText? L = some text →
        Agrees entity input type text := by
  constructor
  · intro l hl
    exact ⟨(IdLiteral.textAt_of_read hl).1, agrees_of_read entity hs hl⟩
  · intro type L text hwrites htext
    obtain ⟨l, hl, rfl, rfl⟩ := IdLiteral.read_of_writes hwrites htext
    exact agrees_of_read entity hs hl

/-- An escape in the literal shows neither in the code nor in what is read. -/
theorem escaped_literal_agrees :
    (∃ s, Source.read? "A,\"00000000-0000-0000-0000-00000000000\\x37\"," = some s ∧
        IdLiteral.Writes s.lexemes [word "A"] "\"00000000-0000-0000-0000-00000000000\\x37\"") ∧
      ∃ code, construction "A,\"00000000-0000-0000-0000-00000000000\\x37\"," = .ok code ∧
        (IdLiteral.evaluate? [word "A"] code).map Identifier.mk =
          some (⟨Uuid.ofNat 7⟩ : Identifier "User") := by
  obtain ⟨s, hs, hlexemes⟩ : ∃ s, Source.read? "A,\"00000000-0000-0000-0000-00000000000\\x37\"," = some s ∧
      s.lexemes = [word "A", comma, literal "\"00000000-0000-0000-0000-00000000000\\x37\"", comma] :=
    ⟨_, rfl, rfl⟩
  have hwrites : IdLiteral.Writes s.lexemes [word "A"] "\"00000000-0000-0000-0000-00000000000\\x37\"" := by
    rw [hlexemes]
    exact ⟨_, _, false, [comma], rfl, rfl, rfl, .inr ⟨false, rfl⟩⟩
  have hread : Identifier.read "User" "00000000-0000-0000-0000-000000000007" = .ok ⟨Uuid.ofNat 7⟩ := rfl
  exact ⟨⟨_, hs, hwrites⟩,
    ((construction_agrees_with_reading "User" hs).2 _ _ _ hwrites rfl).evaluates _ hread⟩

end Invocation

end TypedId
