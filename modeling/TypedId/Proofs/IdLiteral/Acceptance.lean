import TypedId.Proofs.IdLiteral.Argument

/-!
Which texts are written identifiers.

A text is accepted exactly if it is a type, a comma, a text literal and perhaps another comma, where
attributes may stand before the literal and a suffix behind its quotes (`read_eq_ok_iff`). Each part is
one that is read alone, so nothing else of the second argument is ever taken for the text; what is
remembered of it shows neither the attributes nor the suffix.
-/

namespace TypedId

open Lexeme Grammar Rule

namespace IdLiteral

/-- The texts that are written identifiers, with what is remembered of them. -/
inductive Accepted : List Lexeme → IdLiteral → Prop where
  | intro {taken attributes tail type written : List Lexeme} {shape : TypeShape}
      {found : List Attribute} {joint : Bool} {L text : String}
      (htype : (call (.type true)).Reads taken shape type)
      (hattributes : outerAttributes.Reads attributes found written)
      (htext : Text.literalText? L = some text)
      (htail : tail = [] ∨ ∃ joint, tail = [punct ',' joint]) :
      Accepted (taken ++ punct ',' joint :: (attributes ++ literal L :: tail))
        ⟨type, text, taken.length + 1 + attributes.length⟩

variable {ls : List Lexeme} {l : IdLiteral}

/-- What comes of reading by the rule of a written identifier, where a text was found. -/
theorem accepted_of_run (hb : balanced [] ls = true) {type : List Lexeme} {p : Nat} {stretch : Stretch}
    {r : Reader} (hrun : idLiteralRule.read ls = .ok ((type, ⟨.text p, stretch⟩), r))
    (hstray : r.stray = none) (hend : r.rest = [] ∨ ∃ joint, r.rest = [punct ',' joint]) :
    ∃ text, Accepted ls ⟨type, text, p⟩ := by
  obtain ⟨⟨shape, type⟩, r₁, hhold, hrun⟩ := run_bind_eq_ok.mp hrun
  obtain ⟨shape, r₀, htype, hx, rfl⟩ := run_hold_eq_ok.mp hhold
  cases hx
  obtain ⟨⟨⟩, r₂, hcomma, hrun⟩ := run_bind_eq_ok.mp hrun
  obtain ⟨hsees, rfl⟩ := run_operator_eq_ok.mp hcomma
  rw [run_bind_of_ok (run_here _)] at hrun
  obtain ⟨shape', r₃, hexpression, hrun⟩ := run_bind_eq_ok.mp hrun
  rw [run_bind_of_ok (run_here _)] at hrun
  cases hrun
  -- Before the comma, a type is read, and it would be read alone.
  have hstray₀ : r₀.stray = none := by
    have h := Rule.run_stray (tidy_readWithin _) _ _ _ _ hexpression hstray
    exact h
  obtain ⟨taken, type, shape', hls, hafter, -, -, htaken⟩ :=
    Reads.of_run (steady_type true) ⟨[], hb⟩ htype hstray₀ (.of_nil _)
  obtain ⟨joint, rest, hrest⟩ := seesComma_iff.mp hsees
  replace hrest : r₀.rest = punct ',' joint :: rest := hrest
  replace hls : ls = taken ++ punct ',' joint :: rest := hrest ▸ hls
  -- Behind it, attributes and a text literal.
  obtain ⟨depth, found, r₁, L, tail, text, hattributes, hstray₁, hr₁, htext, rfl, rfl⟩ :=
    attributes_of_run_expression hexpression hstray
  generalize hq : Reader.unwritten (Reader.take _ _ _) = q at hattributes
  have hbehind : q.rest = rest ∧ q.position = taken.length + 1 := by
    subst hq
    refine ⟨congrArg (List.drop 1) hrest, ?_⟩
    show r₀.position + 1 = _
    rw [hafter]
    exact congrArg (· + 1) (Nat.zero_add _)
  have hbalanced : Balanced q.rest :=
    Balanced.of_suffix ⟨[], hb⟩ ⟨taken ++ [punct ',' joint], by rw [hls, hbehind.1, List.append_assoc]; rfl⟩
  obtain ⟨attributes, written, found', hrest₁, hafter₁, -, -, hreads⟩ :=
    Reads.of_run steady_outerAttributes hbalanced hattributes hstray₁ fun _ => rfl
  rw [hr₁, hbehind.1] at hrest₁
  refine ⟨text, ?_⟩
  have hposition : r₁.position = taken.length + 1 + attributes.length := by
    rw [hafter₁, ← hbehind.2]
    rfl
  have hwritten : r₀.written.reverse = type := by
    rw [hafter]
    simp [Reader.after, Reader.ofLexemes]
  rw [hposition, hwritten, hls, hrest₁]
  exact .intro htaken hreads htext hend

/-- What is accepted is read. -/
theorem read_of_accepted (h : Accepted ls l) : read ls = .ok l := by
  obtain @⟨taken, attributes, tail, type, written, shape, found, joint, L, text, htype, hattributes, htext,
    htail⟩ := h
  generalize hls : taken ++ punct ',' joint :: (attributes ++ literal L :: tail) = ls
  have hlength : ls.length = taken.length + (attributes.length + (tail.length + 1) + 1) := by
    rw [← hls]
    simp
  have hdepth : ∀ {n}, n + 2 ≤ ls.length → sufficientDepth n ≤ sufficientDepth ls.length - 2 := by
    intro n h
    rw [sufficientDepth, sufficientDepth]
    omega
  obtain ⟨shape', -, hrun⟩ := htype.run (steady_type true) .source
    ((hdepth (by omega)).trans (Nat.sub_le _ _)) (q := .ofLexemes ls) hls.symm rfl
    (.of_punct (by decide) _ _ _)
  have hhold : (hold (call (.type true))).read ls = .ok ((shape', type),
      ⟨⟨taken.length, punct ',' joint :: (attributes ++ literal L :: tail)⟩, [], none⟩) := by
    refine run_hold_eq_ok.mpr ⟨shape', _, hrun, ?_, ?_⟩ <;>
      simp [Reader.after, Reader.ofLexemes, Rendition.text]
  refine read_of_run hhold rfl rfl (fun q hq hnone => ?_) htext htail
  obtain ⟨found', -, hrun₁⟩ := hattributes.run steady_outerAttributes .source (hdepth (by omega))
    (q := q.unwritten) hq hnone fun _ => rfl
  exact ⟨_, _, run_hold_eq_ok.mpr ⟨_, _, hrun₁, rfl, rfl⟩, rfl, rfl, rfl⟩

/-- What is read is accepted. -/
theorem accepted_of_read (hb : balanced [] ls = true) (h : read ls = .ok l) : Accepted ls l := by
  have hsome : ∃ l, Accepted ls l := by
    rw [read] at h
    split at h
    · cases h
    · next type found r hrun =>
      obtain ⟨shape, stretch⟩ := found
      cases shape with
      | text p =>
          dsimp only at h
          split at h
          · cases h
          · cases h
          · next hend hnone =>
            have hstray : r.stray = none := by
              rw [Reader.strayFault?, Option.map_eq_none_iff] at hnone
              split at hnone <;> exact hnone
            have hrest : r.rest = [] ∨ ∃ joint, r.rest = [punct ',' joint] := by
              split at hend
              · next hsees =>
                obtain ⟨joint, rest, hrest⟩ := seesComma_iff.mp hsees
                rw [Reader.take, hrest] at hend
                cases (show rest = [] from hend)
                exact .inr ⟨joint, hrest⟩
              · exact .inl hend
            exact (accepted_of_run hb hrun hstray hrest).imp' _ fun _ h => h
      | _ => cases h
  obtain ⟨l', h'⟩ := hsome
  cases (read_of_accepted h').symm.trans h
  exact h'

/-- Exactly the texts that consist of a type, a comma, a text literal with or without attributes and
perhaps another comma are written identifiers. -/
theorem read_eq_ok_iff (hb : balanced [] ls = true) : read ls = .ok l ↔ Accepted ls l :=
  ⟨accepted_of_read hb, read_of_accepted⟩

/-- A type, a comma and a text are accepted. -/
theorem plain_text_is_accepted :
    balanced [] [word "A", comma, literal "\"1\""] = true ∧
      Accepted [word "A", comma, literal "\"1\""] ⟨[word "A"], "1", 2⟩ :=
  ⟨rfl, (read_eq_ok_iff rfl).mp rfl⟩

/-- An attribute before the text and a suffix behind its quotes are accepted, and nothing of what is
remembered shows them. -/
theorem attribute_and_suffix_are_dropped :
    read [word "A", comma, punct '#' false, opening .bracket, word "a", closing .bracket, literal "\"1\""] =
        .ok ⟨[word "A"], "1", 6⟩ ∧
      read [word "A", comma, literal "\"1\"_a"] = .ok ⟨[word "A"], "1", 2⟩ :=
  ⟨rfl, rfl⟩

end IdLiteral

end TypedId
