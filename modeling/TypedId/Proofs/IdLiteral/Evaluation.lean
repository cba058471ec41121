import TypedId.Token.Number
import TypedId.IdLiteral

/-!
What the code of a written identifier means.

`IdLiteral.evaluate?` reads such code back: the number literals between the brackets are bytes, and
sixteen of them are an identifier. Evaluating what was written out for an identifier gives that
identifier again (`evaluate?_construct`).
-/

namespace TypedId

open Lexeme

namespace IdLiteral

/-- The byte that a number literal with the suffix of bytes denotes. -/
def byte? : Lexeme → Option Nat
  | literal text =>
    if Number.isWhole text ∧ (Number.wholeValue text).1 < 256 ∧ (Number.wholeValue text).2 = "u8" then
      some (Number.wholeValue text).1
    else none
  | _ => none

/-- The bytes that literals with commas between them denote, up to the end of their group, and what
follows the group. -/
def bytes? : List Lexeme → Option (List Nat × List Lexeme)
  | l :: punct ',' _ :: rest => do
    let b ← byte? l
    let (bs, rest) ← bytes? rest
    return (b :: bs, rest)
  | l :: closing .bracket :: rest => do
    return ([← byte? l], rest)
  | _ => none

/-- What stands before the bytes of an identifier of a type. -/
def beforeBytes (type : List Lexeme) : List Lexeme :=
  [punct '<' false] ++ type ++ [punct '>' false] ++ code ":: from_uuid" ++
    opening .parenthesis :: code ":: entity_id :: __private :: Uuid :: from_bytes" ++
      [opening .parenthesis, opening .bracket]

/-- The identifier that code for one of a type makes. -/
def evaluate? (type ls : List Lexeme) : Option Uuid := do
  let rest ← (beforeBytes type).isPrefixOf? ls
  let (bytes, rest) ← bytes? rest
  if rest = [closing .parenthesis, closing .parenthesis] then Uuid.ofBytes? bytes else none

/-! ### Bytes -/

theorem leadingValue_toDigits : ∀ b < 256,
    Number.base (Nat.toDigits 10 b ++ ['u', '8']) = (10, Nat.toDigits 10 b ++ ['u', '8']) ∧
      (Nat.toDigits 10 b ++ ['u', '8']).head?.any Lexer.isDigit = true ∧
        Number.isWholeDecimal (Nat.toDigits 10 b ++ ['u', '8']) = true ∧
          Number.leadingValue 10 0 (Nat.toDigits 10 b ++ ['u', '8']) = (b, ['u', '8']) := by
  decide +kernel

/-- The literal that is written for a byte denotes it. -/
theorem byte?_literal (b : Nat) (h : b < 256) : byte? (literal (toString b ++ "u8")) = some b := by
  have htext : (toString b ++ "u8").toList = Nat.toDigits 10 b ++ ['u', '8'] := by
    rw [String.toList_append]
    exact congrArg (· ++ ['u', '8']) String.toList_ofList
  obtain ⟨hbase, hdigit, hwhole, hvalue⟩ := leadingValue_toDigits b h
  have hisWhole : Number.isWhole (toString b ++ "u8") = true := by
    rw [Number.isWhole, Number.isNumber, htext, hdigit, hwhole, Bool.or_true, Bool.and_true]
  have hwholeValue : Number.wholeValue (toString b ++ "u8") = (b, "u8") := by
    rw [Number.wholeValue, htext, hbase]
    simp only [hvalue]
  rw [byte?, hisWhole, hwholeValue, if_pos ⟨rfl, h, rfl⟩]

/-- What denotes a byte is a whole number. -/
theorem isWhole_of_byte? {text : String} {b : Nat} (h : byte? (literal text) = some b) :
    Number.isWhole text = true := by
  rw [byte?] at h
  split at h
  · next hwhole => exact hwhole.1
  · cases h

theorem bytes?_byteLiterals (b : Nat) (bs : List Nat) (rest : List Lexeme) (h : ∀ c ∈ b :: bs, c < 256) :
    bytes? (byteLiterals (b :: bs) ++ closing .bracket :: rest) = some (b :: bs, rest) := by
  induction bs generalizing b with
  | nil =>
      have hbyte := byte?_literal b (h b (by simp))
      simp only [byteLiterals, List.map_cons, List.map_nil, List.intersperse, List.cons_append,
        List.nil_append, bytes?, hbyte, Option.pure_def, Option.bind_eq_bind, Option.bind_some]
  | cons c bs ih =>
      have hbyte := byte?_literal b (h b (by simp))
      have hrest := ih c fun d hd => h d (List.mem_cons_of_mem b hd)
      have hcons : byteLiterals (b :: c :: bs) =
          literal (toString b ++ "u8") :: punct ',' false :: byteLiterals (c :: bs) := rfl
      simp only [hcons, List.cons_append, bytes?, hbyte, hrest, Option.pure_def, Option.bind_eq_bind,
        Option.bind_some]

/-! ### Identifiers -/

theorem isPrefixOf?_append (ls rest : List Lexeme) : ls.isPrefixOf? (ls ++ rest) = some rest := by
  induction ls with
  | nil => rfl
  | cons l ls ih =>
      show (if l == l then ls.isPrefixOf? (ls ++ rest) else none) = some rest
      rw [beq_self_eq_true, if_pos rfl, ih]

theorem construct_eq (type : List Lexeme) (u : Uuid) :
    construct type u = beforeBytes type ++ (byteLiterals u.bytes ++
      closing .bracket :: [closing .parenthesis, closing .parenthesis]) := by
  simp only [construct, beforeBytes, grouped, List.append_assoc, List.cons_append, List.nil_append]

/-- The code for an identifier makes that identifier. -/
theorem evaluate?_construct (type : List Lexeme) (u : Uuid) :
    evaluate? type (construct type u) = some u := by
  have hbytes : ∀ b ∈ u.bytes, b < 256 := fun b hb => Positional.lt_of_mem_digits (by decide) hb
  obtain ⟨b, bs, hu⟩ : ∃ b bs, u.bytes = b :: bs := by
    cases hu : u.bytes with
    | nil => exact absurd (u.length_bytes) (by rw [hu]; decide)
    | cons b bs => exact ⟨b, bs, rfl⟩
  rw [evaluate?, construct_eq, isPrefixOf?_append, Option.bind_eq_bind, Option.bind_some, hu,
    bytes?_byteLiterals b bs _ (hu ▸ hbytes), ← hu, Option.bind_eq_bind, Option.bind_some]
  simp only [if_true]
  exact Uuid.ofBytes?_bytes u

end IdLiteral

end TypedId
