import TypedId.Proofs.Grammar.Calls
import TypedId.Proofs.IdLiteral.Acceptance
import TypedId.Proofs.IdLiteral.Evaluation
import TypedId.Proofs.Invocation.Stages

/-!
The code of a written identifier is one call.

The type stands between angle brackets there, and it is read again up to the closing one, whatever
type it is: nothing of a type goes on with a closing angle bracket. So the code is the call of
`from_uuid` of that type, and the argument is the call that makes a number from an array of bytes
(`construction_is_one_call`).
-/

namespace TypedId

open Lexeme Grammar Rule

variable {g : PhraseReader} {r : Reader} {type k : List Lexeme} {shape : TypeShape} {depth : Nat}

namespace IdLiteral

/-! ### The parts of the code -/

/-- The function that makes an identifier of a type. -/
def fromUuid (type : List Lexeme) : List Lexeme :=
  [punct '<' false] ++ type ++ [punct '>' false, punct ':' true, punct ':' false, word "from_uuid"]

/-- The function that makes a number from its bytes. -/
def fromBytes : List Lexeme := code ":: entity_id :: __private :: Uuid :: from_bytes"

/-- The literals of some bytes, each as a text of its own. -/
def byteTexts (bytes : List Nat) : List (List Lexeme) :=
  bytes.map fun b => [literal (toString b ++ "u8")]

theorem listed_byteTexts (bytes : List Nat) : listed (byteTexts bytes) = byteLiterals bytes := by
  induction bytes with
  | nil => rfl
  | cons b bytes ih =>
      cases bytes with
      | nil => rfl
      | cons c bytes => exact congrArg ([literal (toString b ++ "u8"), comma] ++ ·) ih

/-- The code is a call of a call of an array. -/
theorem construct_eq_calls (type : List Lexeme) (u : Uuid) :
    construct type u = fromUuid type ++ grouped .parenthesis (listed
      [fromBytes ++ grouped .parenthesis (listed [grouped .bracket (listed (byteTexts u.bytes))])]) := by
  have hcode : code ":: from_uuid" = [punct ':' true, punct ':' false, word "from_uuid"] := rfl
  have hlisted : ∀ ls, listed [ls] = ls := fun ls => List.append_nil ls
  rw [hlisted, hlisted, listed_byteTexts, construct, fromUuid, hcode]
  simp only [List.append_assoc, List.cons_append, List.nil_append, fromBytes]

/-! ### Reading the parts -/

/-- A path on a type is read where the type is. -/
theorem run_qualifiedPath_fromUuid (hr : r.rest = fromUuid type ++ k) (hstray : r.stray = none)
    (hk : k = [] ∨ seesGroup .parenthesis k = true)
    (htype : (call (.type true)).run g (r.take 1 [punct '<' false]) =
      .ok (shape, (r.take 1 [punct '<' false]).after type type
        (punct '>' false :: punct ':' true :: punct ':' false :: word "from_uuid" :: k))) :
    (qualifiedPath true).run g r =
      .ok (⟨1, false, false, true, true⟩, r.after (fromUuid type) (fromUuid type) k) := by
  have hopen : (operator? "<").run g r = .ok (true, r.take 1 [punct '<' false]) :=
    run_operator?_of_sees (by rw [hr]; rfl)
  have htake : r.take 1 [punct '<' false] = r.after [punct '<' false] [punct '<' false] _ :=
    Reader.take_eq_after [punct '<' false] _ hr hstray
  rw [qualifiedPath, run_bind_of_ok hopen, if_pos rfl, run_bind_of_ok htype, htake, Reader.after_after]
  generalize hq : r.after _ _ (punct '>' false :: punct ':' true :: punct ':' false ::
    word "from_uuid" :: k) = q
  have hafter : q.after [punct '>' false, punct ':' true, punct ':' false, word "from_uuid"]
      [punct '>' false, punct ':' true, punct ':' false, word "from_uuid"] k =
      r.after (fromUuid type) (fromUuid type) k := by
    rw [← hq, Reader.after_after]
    rfl
  rw [← hafter]
  obtain ⟨⟨position, ls⟩, written, stray⟩ := q
  cases hq
  obtain rfl | hgroup := hk
  · rfl
  · obtain ⟨k, rfl⟩ := Rereads.exists_of_seesGroup hgroup
    rfl

theorem callee_fromUuid
    (htype : ∀ (q : Reader) (k : List Lexeme), q.rest = type ++ k → q.stray = none → TypeFollow [] k →
      (call (.type true)).run (Phrase.readWithin depth) q = .ok (shape, q.after type type k)) :
    Callee depth (fromUuid type) .other where
  begins := rfl
  unsigned k := by
    intro text htext
    simp only [List.mem_cons, List.not_mem_nil, or_false] at htext
    obtain rfl | rfl | rfl | rfl | rfl := htext <;> rfl
  run r k hr hstray := by
    have hbehind : (r.take 1 [punct '<' false]).rest = type ++ punct '>' false :: punct ':' true ::
        punct ':' false :: word "from_uuid" :: opening .parenthesis :: k := by
      rw [Reader.take, hr, fromUuid]
      simp only [List.append_assoc, List.cons_append, List.nil_append, List.drop_succ_cons, List.drop_zero]
    have hpath := run_qualifiedPath_fromUuid hr hstray (.inr rfl)
      (htype _ _ hbehind hstray (.of_punct (by decide) _ _ _))
    have hatom : (call (.atom true)).run (Phrase.readWithin (depth + 1)) r =
        (pathExpression true).run (Phrase.readWithin depth) r := by
      obtain ⟨⟨position, ls⟩, written, stray⟩ := r
      cases hr
      rfl
    rw [hatom, pathExpression, run_bind_of_ok hpath]
    rfl

theorem callee_fromBytes (depth : Nat) : Callee depth fromBytes .other where
  begins := rfl
  unsigned k := by
    intro text htext
    simp only [List.mem_cons, List.not_mem_nil, or_false] at htext
    obtain rfl | rfl | rfl | rfl | rfl := htext <;> rfl
  run r k hr hstray := by
    obtain ⟨⟨position, ls⟩, written, stray⟩ := r
    cases hr
    cases hstray
    rfl

theorem isPathOn_fromUuid
    (htype : ∀ (q : Reader) (k : List Lexeme), q.rest = type ++ k → q.stray = none → TypeFollow [] k →
      (call (.type true)).run (Phrase.readWithin depth) q = .ok (shape, q.after type type k)) :
    IsPathOn (fromUuid type) type shape "from_uuid" where
  text := rfl
  whole := by
    refine read_of_run_ok (run_qualifiedPath_fromUuid (k := []) (List.append_nil _).symm rfl (.inl rfl)
      (htype _ _ ?_ rfl (.of_punct (by decide) _ _ _)))
    exact List.append_assoc ..
  selfType := read_of_run_ok (htype _ _ (List.append_assoc ..) rfl (.of_punct (by decide) _ _ _))
  alone := read_of_run_ok (htype _ _ (List.append_nil _).symm rfl (.of_nil _))

/-! ### Reading the whole -/

/-- Literals of bytes, as texts of their own. -/
theorem copies_byteTexts {bytes : List Nat} (h : ∀ b ∈ bytes, b < 256) (depth : Nat) :
    ∀ ls ∈ byteTexts bytes, (call (.expression true)).Copies (Phrase.readWithin (depth + 3)) ls .other := by
  intro ls hls
  obtain ⟨b, hb, rfl⟩ := List.mem_map.mp hls
  exact .literal depth (literalText?_of_isWhole (isWhole_of_byte? (byte?_literal b (h b hb))))

/-- The argument of a call, where it is the only one. -/
theorem copies_only {depth : Nat} {ls : List Lexeme}
    (h : (call (.expression true)).Copies (Phrase.readWithin depth) ls .other) :
    ∀ x ∈ [ls], (call (.expression true)).Copies (Phrase.readWithin depth) x .other := by
  intro x hx
  rwa [List.mem_singleton.mp hx]

end IdLiteral

namespace Invocation

open IdLiteral

/-- Whatever type and text are written, the code is one call of `from_uuid` of that type. Its only
argument is the call that makes a number from an array of sixteen literals of bytes. -/
theorem construction_is_one_call {input : String} {s : Source} {l : IdLiteral} {u : Uuid}
    (hs : Source.read? input = some s) (hl : IdLiteral.read s.lexemes = .ok l)
    (hu : Uuid.read l.text = .ok u) :
    ∃ ls taken rest shape argument array elements, construction input = .ok ls ∧
      (s.lexemes = taken ++ rest ∧ sees "," rest = true ∧ (call (.type true)).Reads taken shape l.type) ∧
      IsCall ls (fromUuid l.type) [argument] ∧ IsPathOn (fromUuid l.type) l.type shape "from_uuid" ∧
      IsCall argument fromBytes [array] ∧ IsArray array elements ∧
      elements.length = 16 ∧
      ∀ ls ∈ elements, ∃ L b, ls = [literal L] ∧ byte? (literal L) = some b ∧ b < 256 := by
  have hvalue : l.value = .ok u := by rw [IdLiteral.value, hu]
  have hconstruction : construction input = .ok (construct l.type u) := by
    rw [construction_of_read? hs, hl]
    show (located .literal s l.value >>= _) = _
    rw [hvalue]
    rfl
  have haccepted := accepted_of_read (Source.balanced_lexemes hs) hl
  generalize hlexemes : s.lexemes = lexemes at haccepted
  obtain @⟨taken, attributes, tail, type, written, shape, found, joint, L, text, htype, -, -, -⟩ := haccepted
  have hagain : ∀ (q : Reader) (k : List Lexeme), q.rest = type ++ k → q.stray = none → TypeFollow [] k →
      (call (.type true)).run (Phrase.readWithin (sufficientDepth taken.length)) q =
        .ok (shape, q.after type type k) := by
    intro q k hq hstray hk
    obtain ⟨shape', hshape, hrun⟩ := htype.run (steady_type true) .written le_rfl hq hstray hk
    obtain rfl : shape' = shape := hshape
    exact hrun
  have hbytes : ∀ b ∈ u.bytes, b < 256 := fun b hb => Positional.lt_of_mem_digits (by decide) hb
  have hdepth : 8 ≤ sufficientDepth taken.length + 1 := by
    rw [sufficientDepth]
    omega
  have harray : IsArray _ (byteTexts u.bytes) := .of_copies (copies_byteTexts hbytes 0)
  have hcopiesArray := copies_only (Copies.array fun x hx => ⟨_, copies_byteTexts hbytes 0 x hx⟩)
  have hargument := (callee_fromBytes 5).isCall hcopiesArray
  have hcopiesArgument :=
    copies_only (((callee_fromBytes 5).copies_call fun x hx => ⟨_, hcopiesArray x hx⟩).of_le hdepth)
  refine ⟨_, taken, _, shape, _, _, _, hconstruction, ⟨rfl, rfl, htype⟩, ?_,
    isPathOn_fromUuid hagain, hargument,
    harray, ?_, fun ls hls => ?_⟩
  · rw [construct_eq_calls]
    exact (callee_fromUuid hagain).isCall hcopiesArgument
  · rw [byteTexts, List.length_map, Uuid.length_bytes]
  · obtain ⟨b, hb, rfl⟩ := List.mem_map.mp hls
    exact ⟨_, b, rfl, byte?_literal b (hbytes b hb), hbytes b hb⟩

/-- A type that ends in angle brackets and a bound of a trait object are read up to the closing
bracket. -/
theorem trait_object_is_one_call :
    ∃ ls taken rest shape argument array elements,
      construction "<dyn A<B> + C>::D<E<F>>, \"00000000-0000-0000-0000-000000000007\"" = .ok ls ∧
      (∃ s l, Source.read? "<dyn A<B> + C>::D<E<F>>, \"00000000-0000-0000-0000-000000000007\"" = some s ∧
        IdLiteral.read s.lexemes = .ok l ∧
        (s.lexemes = taken ++ rest ∧ sees "," rest = true ∧ (call (.type true)).Reads taken shape l.type) ∧
        IsCall ls (fromUuid l.type) [argument] ∧ IsPathOn (fromUuid l.type) l.type shape "from_uuid") ∧
      IsCall argument fromBytes [array] ∧ IsArray array elements ∧ elements.length = 16 := by
  obtain ⟨s, hs⟩ : ∃ s, Source.read? "<dyn A<B> + C>::D<E<F>>, \"00000000-0000-0000-0000-000000000007\"" =
    some s := ⟨_, rfl⟩
  obtain ⟨l, hl, hu⟩ : ∃ l, IdLiteral.read s.lexemes = .ok l ∧ Uuid.read l.text = .ok (Uuid.ofNat 7) := by
    cases hs
    exact ⟨_, rfl, rfl⟩
  obtain ⟨ls, taken, rest, shape, argument, array, elements, hconstruction, htaken, hcall, hpath, hargument,
    harray, hlength, -⟩ := construction_is_one_call hs hl hu
  exact ⟨ls, taken, rest, shape, argument, array, elements, hconstruction,
    ⟨s, l, hs, hl, htaken, hcall, hpath⟩, hargument, harray, hlength⟩

end Invocation

end TypedId
