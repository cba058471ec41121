import Mathlib.Data.List.TakeWhile
import TypedId.Grammar.Pattern
import TypedId.Proofs.Grammar.Types

/-!
Names and indices of fields are read again.

An index is written in decimal digits, whatever it was taken as, so the two texts may differ in a
number.
-/

namespace TypedId.Grammar

open Lexeme

variable {g : PhraseReader} {m : Rendition} {s p : List Lexeme} {α β γ : Type}

/-! ### Indices -/

theorem hexValue?_of_isDigit {c : Char} (h : c.isDigit = true) :
    Text.hexValue? c = some (c.toNat - '0'.toNat) ∧ c ≠ '_' ∧ c.toNat - '0'.toNat < 10 := by
  have hdigit : '0' ≤ c ∧ c ≤ '9' := by
    simp only [Char.isDigit, Bool.and_eq_true, decide_eq_true_eq] at h
    exact h
  have hupper : c.toNat ≤ 57 := UInt32.le_iff_toNat_le.mp hdigit.2
  refine ⟨if_pos hdigit, ?_, ?_⟩
  · rintro rfl
    exact absurd h (by decide)
  · rw [show '0'.toNat = 48 from rfl]
    omega

/-- The value of decimal digits. -/
theorem leadingValue_digits (digits : List Char) (h : ∀ c ∈ digits, c.isDigit = true) (value : Nat) :
    Number.leadingValue 10 value digits = (Nat.ofDigitChars 10 digits value, []) := by
  induction digits generalizing value with
  | nil => rfl
  | cons c cs ih =>
      obtain ⟨hvalue, hunderscore, hlt⟩ := hexValue?_of_isDigit (h c List.mem_cons_self)
      rw [Number.leadingValue, if_neg hunderscore, hvalue]
      simp only [if_pos hlt]
      rw [ih (fun d hd => h d (List.mem_cons_of_mem _ hd)), Nat.mul_comm value 10]
      rfl

theorem isDigit_of_mem_toDigits {index : Nat} {c : Char} (h : c ∈ Nat.toDigits 10 index) :
    c.isDigit = true :=
  Nat.isDigit_of_mem_toDigits (by decide) (by decide) h

/-- An index is written as a whole number. -/
theorem isWhole_index (index : Nat) : Number.isWhole (toString index) = true := by
  have hdigits := fun (c : Char) (h : c ∈ Nat.toDigits 10 index) => isDigit_of_mem_toDigits h
  have htext : (toString index).toList = Nat.toDigits 10 index := Nat.toList_repr
  obtain ⟨c, cs, hcs⟩ := List.exists_cons_of_ne_nil (Nat.toDigits_ne_nil (n := index) (b := 10))
  have hhead : Lexer.isDigit c = true := by
    exact hdigits c (by rw [hcs]; exact List.mem_cons_self)
  have hdrop : (Nat.toDigits 10 index).dropWhile (fun c => Lexer.isDigit c || c == '_') = [] := by
    refine List.dropWhile_eq_nil_iff.mpr fun d hd => ?_
    rw [show Lexer.isDigit d = true from hdigits d hd]
    rfl
  rw [Number.isWhole, Number.isNumber, htext, Number.isWholeDecimal, hdrop, hcs]
  simp [hhead]

/-- The number that is written for an index denotes it. -/
theorem wholeValue_index (index : Nat) : Number.wholeValue (toString index) = (index, "") := by
  have hdigits := fun (c : Char) (h : c ∈ Nat.toDigits 10 index) => isDigit_of_mem_toDigits h
  have htext : (toString index).toList = Nat.toDigits 10 index := Nat.toList_repr
  have hbase : Number.base (Nat.toDigits 10 index) = (10, Nat.toDigits 10 index) := by
    have hletter : ∀ d ∈ ['x', 'o', 'b'], d ∉ Nat.toDigits 10 index := by
      intro d hd hmem
      have hnone : ∀ d ∈ ['x', 'o', 'b'], d.isDigit = false := by simp
      exact Bool.noConfusion ((hnone d hd).symm.trans (hdigits d hmem))
    unfold Number.base
    split
    · next h => exact absurd (h ▸ by simp) (hletter 'x' (by decide))
    · next h => exact absurd (h ▸ by simp) (hletter 'o' (by decide))
    · next h => exact absurd (h ▸ by simp) (hletter 'b' (by decide))
    · rfl
  rw [Number.wholeValue, htext, hbase]
  simp only
  rw [leadingValue_digits _ hdigits, Nat.ofDigitChars_toDigits (by decide) (by decide)]

/-- The number that is written for an index is read as that index. -/
theorem tupleIndex_index {text : String} {index : Nat} (h : Rule.tupleIndex text = .ok index) :
    Rule.tupleIndex (toString index) = .ok index := by
  have hsmall : index < Nat.pow 2 32 := by
    simp only [Rule.tupleIndex] at h
    split at h
    · cases h
    · split at h
      · cases h
      · split at h
        · next hlt =>
          cases h
          exact hlt
        · cases h
  simp only [Rule.tupleIndex, isWhole_index, wholeValue_index]
  simp [hsmall]

/-- A number is no text. -/
theorem literalText?_of_isWhole {text : String} (h : Number.isWhole text = true) :
    Text.literalText? text = none := by
  have hdigit := ((Bool.and_eq_true _ _).mp h).1
  rw [Number.isNumber] at hdigit
  rw [Text.literalText?, Option.map_eq_none_iff]
  unfold Text.textLiteral?
  split
  · next h => rw [h] at hdigit; cases hdigit
  · next h => rw [h] at hdigit; cases hdigit
  · rfl

theorem look_index {text text' : String} (h : Number.isWhole text = true)
    (h' : Number.isWhole text' = true) (s p : List Lexeme) :
    Look (literal text :: s) (literal text' :: p) :=
  ⟨rfl, fun _ => rfl, rfl, rfl, fun _ => rfl, rfl, rfl, rfl,
    congrArg Option.isSome ((literalText?_of_isWhole h').trans (literalText?_of_isWhole h).symm),
    fun _ => rfl, by simp [guards, sees, startsWith], rfl, rfl, rfl, rfl, rfl⟩

/-! ### Members -/

/-- Both texts begin with the name of a field or with an index, and go on alike. -/
inductive MemberSpelt (rest : List Lexeme → List Lexeme → Prop) :
    List Lexeme → List Lexeme → Prop where
  | name {s p : List Lexeme} (w : String) (hw : isIdentifier w = true) (h : rest s p) :
      MemberSpelt rest (word w :: s) (word w :: p)
  | index {s p : List Lexeme} {text text' : String} (hs : Number.isWhole text = true)
      (hp : Number.isWhole text' = true) (h : rest s p) :
      MemberSpelt rest (literal text :: s) (literal text' :: p)

theorem MemberSpelt.look {rest : List Lexeme → List Lexeme → Prop} (h : MemberSpelt rest s p) :
    Look s p := by
  cases h with
  | name w => exact look_word w _ _
  | index hs hp => exact look_index hs hp _ _

/-- An index is taken, and written in decimal digits. -/
theorem Rule.run_member_of_index {r : Reader} {text : String} {index : Nat} {rest : List Lexeme}
    (hr : r.rest = [.literal text] ++ rest) (hstray : r.stray = none)
    (hwhole : Number.isWhole text = true) (hindex : tupleIndex text = .ok index) :
    member.run g r = .ok (false, r.after [.literal text] [indexLexeme index] rest) := by
  rw [← Reader.take_eq_after [.literal text] _ hr hstray, member, run_bind_of_ok (run_look r), hr]
  simp only [List.singleton_append, seesIdentifier, hwhole, hindex, Bool.false_eq_true, if_false, if_true]
  rw [run_bind_of_ok (run_take ..)]
  rfl

namespace Rereads

/-- An index is read again, in the spelling that is written. -/
theorem memberIndex {text : String} {index : Nat} {s' : List Lexeme} (hs : s = .literal text :: s')
    (hwhole : Number.isWhole text = true) (hindex : Rule.tupleIndex text = .ok index)
    (rest : Bool → List Lexeme → List Lexeme → Prop) :
    Rereads g m s Rule.member Rule.member id (MemberSpelt (rest false) s) rest := by
  refine .of_after [.literal text] [Rule.indexLexeme index] hs (.literal text) (fun _ => false)
    (fun _ => false) (fun _ _ => rfl)
    (fun r hr hr' => Rule.run_member_of_index (hr.trans hs) hr' hwhole hindex)
    (fun q k hq hq' => ?_) fun _ k hk => ?_
  · cases m with
    | source => exact Rule.run_member_of_index hq hq' hwhole hindex
    | written => exact Rule.run_member_of_index hq hq' (isWhole_index index) (tupleIndex_index hindex)
  · subst hs
    cases m with
    | source => exact .index hwhole hwhole hk
    | written => exact .index hwhole (isWhole_index index) hk

/-- The name of a field or its index is read again. -/
theorem member (rest : Bool → List Lexeme → List Lexeme → Prop) :
    Rereads g m s Rule.member Rule.member id (fun p => ∃ named, MemberSpelt (rest named) s p) rest := by
  cases hs : seesIdentifier s with
  | true =>
      have hrun : ∀ r : Reader, seesIdentifier r.rest = true →
          Rule.member.run g r = (do let _ ← Rule.identifier; return true : Rule Bool).run g r := by
        intro r hr
        rw [Rule.member, Rule.run_bind_of_ok (Rule.run_look r), if_pos hr]
      refine ((identifier_then (fun _ => rest true) (fun _ _ _ s' => pure true true rfl fun k hk => hk)
        fun w p hw hp => ?_).congr (fun r hr => hrun r (hr ▸ hs)) fun q hq => hrun q ?_ :
          Rereads g m s _ _ _ (fun p => MemberSpelt (rest true) s p) _).front_mono fun p hp => ⟨true, hp⟩
      · obtain ⟨s', p', rfl, rfl, h⟩ := hp
        exact .name w hw h
      · exact hq.look.identifier.trans hs
  | false =>
      refine .of_run fun r _ _ hr _ hrun => ?_
      rw [Rule.member, Rule.run_bind_of_ok (Rule.run_look r), hr, if_neg (by simp [hs])] at hrun
      dsimp only at hrun
      split at hrun
      · next text s' =>
        split at hrun
        · next hwhole =>
          split at hrun
          · next index hindex =>
            exact (memberIndex rfl hwhole hindex rest).front_mono fun p hp => ⟨false, hp⟩
          · rw [Rule.run_bind, Rule.run_fail] at hrun
            cases hrun
        · rw [Rule.run_complain] at hrun
          cases hrun
      · split at hrun
        · rw [Rule.run_fail] at hrun
          cases hrun
        · rw [Rule.run_complain] at hrun
          cases hrun
      · rw [Rule.run_complain] at hrun
        cases hrun

end Rereads

end TypedId.Grammar
