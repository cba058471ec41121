import TypedId.Token.Lexer

/-!
What a scanner leaves is the end of what it was given.

Each function of the lexer that takes something off a text gives back what follows. The lemmas here
say that this is a suffix of the text, so that the length of what was taken tells which characters
these were.
-/

namespace TypedId

namespace Text

variable {style : Style} {cs rest : List Char}

/-- Reading a quoted text leaves what stands behind its closing quotation mark. -/
theorem Style.unquote_suffix {mode : Mode} {text : List Char}
    (h : style.unquote mode cs = some (text, rest)) : rest <:+ cs := by
  induction cs generalizing mode text with
  | nil => simp [Style.unquote] at h
  | cons c cs ih =>
      rw [Style.unquote] at h
      split at h
      · exact (ih h).trans (List.suffix_cons c cs)
      · obtain ⟨⟨text', rest'⟩, h', heq⟩ := Option.map_eq_some_iff.mp h
        cases heq
        exact (ih h').trans (List.suffix_cons c cs)
      · cases h
        exact List.suffix_cons c rest
      · cases h

/-- Reading an escape leaves what stands behind it. -/
theorem Style.unescape_suffix {mode : Mode} {d : Char}
    (h : style.unescape mode cs = some (d, rest)) : rest <:+ cs := by
  induction cs generalizing mode with
  | nil => simp [Style.unescape] at h
  | cons c cs ih =>
      rw [Style.unescape] at h
      split at h
      · cases h
      · cases h
      · exact (ih h).trans (List.suffix_cons c cs)
      · cases h
        exact List.suffix_cons c rest
      · cases h
      · cases h

/-- Reading a raw text leaves what stands behind the mark that closes it. -/
theorem Style.unquoteRaw_suffix {hashes text : List Char}
    (h : style.unquoteRaw hashes cs = some (text, rest)) : rest <:+ cs := by
  fun_induction Style.unquoteRaw style hashes cs generalizing text with
  | case1 => cases h
  | case2 cs ih =>
      obtain ⟨⟨text', rest'⟩, h', heq⟩ := Option.map_eq_some_iff.mp h
      cases heq
      exact (ih h').trans ((List.suffix_cons _ _).trans (List.suffix_cons _ _))
  | case3 c cs _ hclose =>
      cases h
      exact (List.drop_suffix _ _).trans (List.suffix_cons _ _)
  | case4 => cases h
  | case5 => cases h
  | case6 => cases h
  | case7 c cs _ _ _ _ _ ih =>
      obtain ⟨⟨text', rest'⟩, h', heq⟩ := Option.map_eq_some_iff.mp h
      cases heq
      exact (ih h').trans (List.suffix_cons _ _)

/-- What stands behind the opening of a raw text, its first quotation mark included. -/
theorem rawOpening_suffix {hashes : List Char} (h : rawOpening cs = some (hashes, rest)) :
    rest <:+ cs := by
  rw [rawOpening] at h
  split at h
  · next tail hdrop =>
    split at h
    · cases h
      exact (List.suffix_cons _ _).trans (hdrop ▸ List.drop_suffix _ _)
    · cases h
  · cases h

end Text

namespace Lexer

open Text

variable {style : Style} {cs rest : List Char}

/-! ### Words -/

/-- A word is cut off at the front, character by character. -/
theorem plainWord?_eq_append {w : List Char} (h : plainWord? cs = some (w, rest)) :
    cs = w ++ rest := by
  cases cs with
  | nil => cases h
  | cons c cs =>
      rw [plainWord?] at h
      split at h
      · cases h
        rw [List.cons_append, List.takeWhile_append_dropWhile]
      · cases h

/-- This holds of raw identifiers, too: the `r#` belongs to the word. -/
theorem word?_eq_append {w : List Char} (h : word? cs = some (w, rest)) : cs = w ++ rest := by
  rw [word?.eq_def] at h
  split at h
  · obtain ⟨⟨w', rest'⟩, hplain, h⟩ := Option.bind_eq_some_iff.mp h
    simp only at h
    split at h
    · cases h
    · cases h
      rw [plainWord?_eq_append hplain]
      rfl
  · exact plainWord?_eq_append h

/-- Dropping the suffix of a literal leaves what stands behind the literal. -/
theorem dropSuffix_suffix (cs : List Char) : dropSuffix cs <:+ cs := by
  rw [dropSuffix]
  split
  · next w rest h =>
    rw [plainWord?_eq_append h]
    exact List.suffix_append _ _
  · exact List.suffix_refl cs

/-! ### Quoted literals -/

/-- Behind a character literal stands the end of the text, whether the character is escaped or not. -/
theorem restOfCharacter_suffix (h : restOfCharacter style cs = some rest) : rest <:+ cs := by
  rw [restOfCharacter.eq_def] at h
  split at h
  · cases h
  · next cs =>
    obtain ⟨⟨d, tail⟩, hescape, h⟩ := Option.bind_eq_some_iff.mp h
    have htail : tail <:+ cs := Style.unescape_suffix hescape
    simp only at h
    split at h
    · cases h
      exact (dropSuffix_suffix _).trans
        ((List.suffix_cons _ _).trans (htail.trans (List.suffix_cons _ _)))
    · cases h
  · split at h
    · cases h
      exact (dropSuffix_suffix _).trans ((List.suffix_cons _ _).trans (List.suffix_cons _ _))
    · cases h
  · cases h

/-- The same of a raw literal. -/
theorem restOfRaw_suffix (h : restOfRaw style cs = some rest) : rest <:+ cs := by
  obtain ⟨⟨hashes, tail⟩, hopening, h⟩ := Option.bind_eq_some_iff.mp h
  obtain ⟨⟨text, tail'⟩, hraw, h⟩ := Option.bind_eq_some_iff.mp h
  cases h
  exact (dropSuffix_suffix _).trans
    ((Style.unquoteRaw_suffix hraw).trans (rawOpening_suffix hopening))

/-- The same of a literal in double quotation marks, of all styles. -/
theorem restOfQuoted_suffix (h : restOfQuoted style cs = some rest) : rest <:+ cs := by
  obtain ⟨⟨text, tail⟩, hquoted, h⟩ := Option.bind_eq_some_iff.mp h
  cases h
  exact (dropSuffix_suffix _).trans (Style.unquote_suffix hquoted)

/-- Whatever quoted literal begins a text, the end of the text stands behind it. -/
theorem afterQuoted_suffix (h : afterQuoted cs = some rest) : rest <:+ cs := by
  have hone : ∀ (c : Char) (tail : List Char), rest <:+ tail → rest <:+ c :: tail :=
    fun c tail h => h.trans (List.suffix_cons c tail)
  rw [afterQuoted.eq_def] at h
  split at h
  · exact hone _ _ (restOfQuoted_suffix h)
  · exact hone _ _ (restOfRaw_suffix h)
  · exact hone _ _ (hone _ _ (restOfQuoted_suffix h))
  · exact hone _ _ (hone _ _ (restOfRaw_suffix h))
  · exact hone _ _ (hone _ _ (restOfQuoted_suffix h))
  · exact hone _ _ (hone _ _ (restOfRaw_suffix h))
  · exact hone _ _ (hone _ _ (restOfCharacter_suffix h))
  · exact hone _ _ (restOfCharacter_suffix h)
  · cases h

/-! ### Numbers -/

/-- What is left behind an exponent is left of it, or is what was left without one. -/
theorem afterExponent_suffix {before : Option (List Char)} {signed filled : Bool}
    (h : afterExponent before signed filled cs = some rest) : rest <:+ cs ∨ before = some rest := by
  fun_induction afterExponent before signed filled cs <;>
    grind [List.suffix_refl, List.suffix_cons, List.IsSuffix.trans]

/-- What stands behind the digits of a fraction and its exponent. -/
theorem afterFraction_suffix {point : Bool} (h : afterFraction point cs = some rest) :
    rest <:+ cs := by
  fun_induction afterFraction point cs <;>
    grind [List.suffix_refl, List.suffix_cons, List.IsSuffix.trans, → afterExponent_suffix]

/-- What stands behind the digits of a base; underscores are passed over with them. -/
theorem afterDigits_suffix {base : Nat} {filled : Bool} (h : afterDigits base filled cs = some rest) :
    rest <:+ cs := by
  fun_induction afterDigits base filled cs <;>
    grind [List.suffix_refl, List.suffix_cons, List.IsSuffix.trans]

/-- What stands behind the part of a number that comes before its point. -/
theorem afterWhole_suffix (h : afterWhole cs = some rest) : rest <:+ cs := by
  rw [afterWhole.eq_def] at h
  split at h <;> first
    | exact afterDigits_suffix h
    | exact (afterDigits_suffix h).trans ((List.suffix_cons _ _).trans (List.suffix_cons _ _))

/-- What stands behind the suffix of a number, which may be left out. -/
theorem afterNumberSuffix_suffix (h : afterNumberSuffix cs = some rest) : rest <:+ cs := by
  simp only [afterNumberSuffix] at h
  split at h
  · cases h
  · cases h
    exact dropSuffix_suffix cs

/-- Whatever number begins a text, the end of the text stands behind it. -/
theorem afterNumber_suffix (h : afterNumber cs = some rest) : rest <:+ cs := by
  rw [afterNumber] at h
  split at h
  · split at h
    · next tail hfraction =>
      cases h
      obtain ⟨tail, hfraction, hsuffix⟩ := Option.bind_eq_some_iff.mp hfraction
      exact (afterNumberSuffix_suffix hsuffix).trans (afterFraction_suffix hfraction)
    · obtain ⟨tail, hwhole, hsuffix⟩ := Option.bind_eq_some_iff.mp h
      exact (afterNumberSuffix_suffix hsuffix).trans (afterWhole_suffix hwhole)
  · cases h

/-! ### Comments -/

/-- A comment at the end of a line leaves the next line. -/
theorem restOfLine_suffix (cs : List Char) : (restOfLine cs).2 <:+ cs := by
  fun_induction restOfLine cs with
  | case1 => exact List.suffix_refl _
  | case2 => exact List.suffix_refl _
  | case3 => exact List.suffix_cons _ _
  | case4 c cs _ _ line rest hline ih =>
      rw [hline] at ih
      exact ih.trans (List.suffix_cons _ _)

/-- A comment in delimiters leaves what stands behind the delimiter that closes the outermost comment.
-/
theorem restOfComment_suffix {depth : Nat} {result : List Char × List Char}
    (h : restOfComment depth cs = some result) : result.2 <:+ cs := by
  have htwo : ∀ (c d : Char) (tail : List Char), tail <:+ c :: d :: tail :=
    fun c d tail => (List.suffix_cons _ _).trans (List.suffix_cons _ _)
  fun_induction restOfComment depth cs generalizing result with
  | case1 => cases h
  | case2 depth cs ih =>
      obtain ⟨found, h', rfl⟩ := Option.map_eq_some_iff.mp h
      exact (ih h').trans (htwo _ _ _)
  | case3 depth cs =>
      cases h
      exact htwo _ _ _
  | case4 depth cs _ ih =>
      obtain ⟨found, h', rfl⟩ := Option.map_eq_some_iff.mp h
      exact (ih h').trans (htwo _ _ _)
  | case5 depth c cs _ _ ih =>
      obtain ⟨found, h', rfl⟩ := Option.map_eq_some_iff.mp h
      exact (ih h').trans (List.suffix_cons _ _)

end Lexer

end TypedId
