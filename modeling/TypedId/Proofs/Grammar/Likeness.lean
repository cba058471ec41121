import TypedId.Grammar.Sight

/-!
Texts that look alike.

A text that was taken and the text that is read again in its place begin alike, up to the joints
of punctuation. The relations here say how: `Spelt`, `Worded` and the like for a text of which the
first lexemes are known, and `Look` for all that can be seen of a text's first element.
-/

namespace TypedId.Grammar

open Lexeme

variable {s p : List Lexeme} {rest rest' : List Lexeme → List Lexeme → Prop}

/-! ### Texts of which the first lexemes are known -/

/-- Both texts begin with the characters of an operator, and go on alike. -/
def Spelt : List Char → (List Lexeme → List Lexeme → Prop) → List Lexeme → List Lexeme → Prop
  | [], rest, s, p => rest s p
  | [c], rest, s, p =>
    ∃ joint joint' s' p', s = punct c joint :: s' ∧ p = punct c joint' :: p' ∧
      (joint' = true → joint = true) ∧ rest s' p'
  | c :: cs, rest, s, p =>
    ∃ s' p', s = punct c true :: s' ∧ p = punct c true :: p' ∧ Spelt cs rest s' p'

/-- Both texts begin with a word, and go on alike. -/
def Worded (w : String) (rest : List Lexeme → List Lexeme → Prop) (s p : List Lexeme) : Prop :=
  ∃ s' p', s = word w :: s' ∧ p = word w :: p' ∧ rest s' p'

/-- Both texts begin with a group, and its contents are alike. -/
def Opened (d : Delimiter) (inner : List Lexeme → List Lexeme → Prop) (s p : List Lexeme) : Prop :=
  ∃ s' p', s = opening d :: s' ∧ p = opening d :: p' ∧ inner s' p'

/-- Both texts begin with a group of a kind. -/
def Bracketed (d : Delimiter) : List Lexeme → List Lexeme → Prop :=
  Opened d fun _ _ => True

/-- Both texts end where a group does. -/
def Ended (s p : List Lexeme) : Prop :=
  ∃ d s' p', s = closing d :: s' ∧ p = closing d :: p'

/-- Both texts begin with a lifetime, and go on alike. -/
def Lifelong (rest : List Lexeme → List Lexeme → Prop) (s p : List Lexeme) : Prop :=
  ∃ w s' p', s = punct '\'' true :: word w :: s' ∧ p = punct '\'' true :: word w :: p' ∧ rest s' p'

/-- Both texts begin with a literal, and go on alike. A minus before a number may be joined to it in
one text and not in the other. -/
inductive Valued (rest : List Lexeme → List Lexeme → Prop) : List Lexeme → List Lexeme → Prop where
  | plain {s p : List Lexeme} (text : String) (h : rest s p) :
      Valued rest (literal text :: s) (literal text :: p)
  | truth {s p : List Lexeme} (w : String) (hw : w = "true" ∨ w = "false") (h : rest s p) :
      Valued rest (word w :: s) (word w :: p)
  | negative {s p : List Lexeme} (text : String) (joint joint' : Bool)
      (hnumber : Number.isNumber text = true) (h : rest s p) :
      Valued rest (punct '-' joint :: literal text :: s) (punct '-' joint' :: literal text :: p)

/-- Both texts begin with one whole group, and go on alike. -/
def Enclosed (d : Delimiter) (rest : List Lexeme → List Lexeme → Prop) (s p : List Lexeme) : Prop :=
  ∃ content s' p', s = opening d :: (content ++ closing d :: s') ∧
    p = opening d :: (content ++ closing d :: p') ∧
    (∀ k, second (opening d :: (content ++ closing d :: k)) = k) ∧ rest s' p'

/-- What stands behind an operator may be known less well. -/
theorem Spelt.mono {cs : List Char} (h : Spelt cs rest s p)
    (hrest : ∀ s' p', rest s' p' → rest' s' p') : Spelt cs rest' s p := by
  induction cs generalizing s p with
  | nil => exact hrest _ _ h
  | cons c cs ih =>
      cases cs with
      | nil =>
          obtain ⟨joint, joint', s', p', hs, hp, hjoint, h⟩ := h
          exact ⟨joint, joint', s', p', hs, hp, hjoint, hrest _ _ h⟩
      | cons d cs =>
          obtain ⟨s', p', hs, hp, h⟩ := h
          exact ⟨s', p', hs, hp, ih h⟩

theorem Worded.mono {w : String} (h : Worded w rest s p)
    (hrest : ∀ s' p', rest s' p' → rest' s' p') : Worded w rest' s p := by
  obtain ⟨s', p', hs, hp, h⟩ := h
  exact ⟨s', p', hs, hp, hrest _ _ h⟩

/-- A group that opens is a group, whatever its content. -/
theorem Opened.bracketed {d : Delimiter} (h : Opened d rest s p) : Bracketed d s p := by
  obtain ⟨s', p', hs, hp, -⟩ := h
  exact ⟨s', p', hs, hp, trivial⟩

/-- What is spelt is seen. -/
theorem Spelt.startsWith {cs : List Char} (h : Spelt cs rest s p) :
    Lexeme.startsWith cs s = true ∧ Lexeme.startsWith cs p = true := by
  induction cs generalizing s p with
  | nil => exact ⟨rfl, rfl⟩
  | cons c cs ih =>
      cases cs with
      | nil =>
          obtain ⟨joint, joint', s', p', rfl, rfl, -, -⟩ := h
          simp [Lexeme.startsWith]
      | cons d cs =>
          obtain ⟨s', p', rfl, rfl, h⟩ := h
          simpa [Lexeme.startsWith] using ih h

/-! ### All that can be seen first -/

/-- The operators of several characters that must not be seen where a shorter one is taken, or where
a phrase ends. -/
def guards : List String :=
  ["->", "=>", "==", "!=", "<=", "<<=", "-=", "*=", "&=", "|=", "||"]

/-- Two texts look alike at their first element. Only a guard may be seen in the first text and not
in the second. -/
structure Look (s p : List Lexeme) : Prop where
  ends : ends p = ends s
  word : ∀ w, seesWord w p = seesWord w s
  anyWord : seesAnyWord p = seesAnyWord s
  identifier : seesIdentifier p = seesIdentifier s
  group : ∀ d, seesGroup d p = seesGroup d s
  anyGroup : seesAnyGroup p = seesAnyGroup s
  lifetime : seesLifetime p = seesLifetime s
  literal : seesLiteral p = seesLiteral s
  text : seesText p = seesText s
  char : ∀ c, startsWith [c] p = startsWith [c] s
  guard : ∀ operator ∈ guards, sees operator p = true → sees operator s = true
  colons : sees "::" p = sees "::" s
  dots : sees ".." p = sees ".." s
  threeDots : sees "..." p = sees "..." s
  closedDots : sees "..=" p = sees "..=" s
  empty : p.isEmpty = s.isEmpty

/-- An operator of one character. -/
theorem Look.operator (h : Look s p) (text : String) {c : Char} (htext : text.toList = [c]) :
    sees text p = sees text s := by
  rw [sees, sees, htext]
  exact h.char c

/-- Texts that begin with one word look alike. -/
theorem look_word (w : String) (s p : List Lexeme) : Look (word w :: s) (word w :: p) :=
  ⟨rfl, fun _ => rfl, rfl, rfl, fun _ => rfl, rfl, rfl, rfl, rfl, fun _ => rfl,
    by simp [guards, sees, startsWith], rfl, rfl, rfl, rfl, rfl⟩

theorem look_literal (text : String) (s p : List Lexeme) :
    Look (literal text :: s) (literal text :: p) :=
  ⟨rfl, fun _ => rfl, rfl, rfl, fun _ => rfl, rfl, rfl, rfl, rfl, fun _ => rfl,
    by simp [guards, sees, startsWith], rfl, rfl, rfl, rfl, rfl⟩

theorem look_opening (d : Delimiter) (s p : List Lexeme) : Look (opening d :: s) (opening d :: p) :=
  ⟨rfl, fun _ => rfl, rfl, rfl, fun _ => rfl, rfl, rfl, rfl, rfl, fun _ => rfl,
    by simp [guards, sees, startsWith], rfl, rfl, rfl, rfl, rfl⟩

theorem look_closing (d : Delimiter) (s p : List Lexeme) : Look (closing d :: s) (closing d :: p) :=
  ⟨rfl, fun _ => rfl, rfl, rfl, fun _ => rfl, rfl, rfl, rfl, rfl, fun _ => rfl,
    by simp [guards, sees, startsWith], rfl, rfl, rfl, rfl, rfl⟩

/-- Of a lifetime the word is seen, too. -/
theorem look_lifetime (w : String) (s p : List Lexeme) :
    Look (punct '\'' true :: word w :: s) (punct '\'' true :: word w :: p) :=
  ⟨rfl, fun _ => rfl, rfl, rfl, fun _ => rfl, rfl, rfl, rfl, rfl, fun _ => rfl,
    by simp [guards, sees, startsWith], rfl, rfl, rfl, rfl, rfl⟩

theorem seesLifetime_punct {c : Char} (hc : c ≠ '\'') (joint : Bool) (s : List Lexeme) :
    seesLifetime (punct c joint :: s) = false := by
  unfold seesLifetime
  split
  · next h =>
    cases h
    exact (hc rfl).elim
  · rfl

theorem seesLiteral_punct {c : Char} (hc : c ≠ '-') (joint : Bool) (s : List Lexeme) :
    seesLiteral (punct c joint :: s) = false := by
  unfold seesLiteral
  split
  · next h => cases h
  · next h => cases h
  · next h =>
    cases h
    exact (hc rfl).elim
  · rfl

/-- Behind a character that begins no lifetime the next lexeme comes. -/
theorem second_punct {c : Char} (hc : c ≠ '\'') (joint : Bool) (s : List Lexeme) :
    second (punct c joint :: s) = s := by
  unfold second afterElement
  split
  · next h => cases h
  · next h => cases h
  · next h => cases h
  · next h =>
    cases h
    exact (hc rfl).elim
  · next h =>
    cases h
    rfl

/-- An operator is not seen where another character stands. -/
theorem startsWith_punct_of_ne {c d : Char} (hc : d ≠ c) (cs : List Char) (joint : Bool)
    (s : List Lexeme) : startsWith (d :: cs) (punct c joint :: s) = false := by
  cases cs <;> simp [startsWith, hc]

/-- An operator goes on only where characters are joined. -/
theorem startsWith_cons_punct (c d : Char) (cs : List Char) (joint : Bool) (s : List Lexeme) :
    startsWith (c :: d :: cs) (punct c joint :: s) = (joint && startsWith (d :: cs) s) := by
  simp [startsWith]

/-- An operator that is seen behind a joined character is seen behind the same one in the other text,
if that is joined as well. -/
theorem sees_punct_mono {operator : String} {c d e : Char} {cs : List Char} {joint joint' : Bool}
    {s p : List Lexeme} (hoperator : operator.toList = d :: e :: cs)
    (h : d = c → joint' = true → joint = true)
    (hrest : d = c → joint' = true → startsWith (e :: cs) p = true → startsWith (e :: cs) s = true)
    (hsees : sees operator (punct c joint' :: p) = true) :
    sees operator (punct c joint :: s) = true := by
  rw [sees, hoperator] at hsees ⊢
  by_cases hc : d = c
  · subst hc
    rw [startsWith_cons_punct, Bool.and_eq_true] at hsees ⊢
    exact ⟨h rfl hsees.1, hrest rfl hsees.1 hsees.2⟩
  · rw [startsWith_punct_of_ne hc] at hsees
    cases hsees

/-- One character that begins neither a lifetime, a number nor an operator that both texts have to
show. What follows has to look alike if a guard may begin with the character. -/
theorem look_punct {c : Char} {joint joint' : Bool} {s p : List Lexeme}
    (hc : c ∉ ['\'', '-', ':', '.'])
    (h : c ∈ ['=', '!', '<', '*', '&', '|'] → joint' = true → joint = true ∧ Look s p) :
    Look (punct c joint :: s) (punct c joint' :: p) := by
  simp only [List.mem_cons, List.not_mem_nil, or_false, not_or] at hc
  obtain ⟨hquote, hminus, hcolon, hdot⟩ := hc
  have hnone : ∀ (d : Char) (cs : List Char), d ≠ c →
      startsWith (d :: cs) (punct c joint' :: p) = startsWith (d :: cs) (punct c joint :: s) :=
    fun d cs hd => by rw [startsWith_punct_of_ne hd, startsWith_punct_of_ne hd]
  refine ⟨rfl, fun _ => rfl, rfl, rfl, fun _ => rfl, rfl, ?_, ?_, rfl, fun _ => rfl, ?_,
    hnone ':' _ (Ne.symm hcolon), hnone '.' _ (Ne.symm hdot), hnone '.' _ (Ne.symm hdot),
    hnone '.' _ (Ne.symm hdot), rfl⟩
  · rw [seesLifetime_punct hquote, seesLifetime_punct hquote]
  · rw [seesLiteral_punct hminus, seesLiteral_punct hminus]
  · intro operator hmem
    have hjoint : ∀ d ∈ ['=', '!', '<', '*', '&', '|'], d = c → joint' = true → joint = true :=
      fun d hd hdc hj => (h (hdc ▸ hd) hj).1
    have hlook : ∀ d ∈ ['=', '!', '<', '*', '&', '|'], d = c → joint' = true → Look s p :=
      fun d hd hdc hj => (h (hdc ▸ hd) hj).2
    simp only [guards, List.mem_cons, List.not_mem_nil, or_false] at hmem
    rcases hmem with rfl | rfl | rfl | rfl | rfl | rfl | rfl | rfl | rfl | rfl | rfl
    case inr.inr.inr.inr.inr.inl =>
      exact sees_punct_mono rfl (hjoint _ (by decide)) fun hdc hj =>
        (hlook _ (by decide) hdc hj).guard "<=" (by decide)
    case inl | inr.inr.inr.inr.inr.inr.inl =>
      exact sees_punct_mono rfl (fun hdc => (hminus hdc.symm).elim) fun hdc => (hminus hdc.symm).elim
    all_goals
      exact sees_punct_mono rfl (hjoint _ (by decide)) fun hdc hj hsees =>
        (hlook _ (by decide) hdc hj).char _ ▸ hsees

/-- Two colons, whatever follows them. -/
theorem look_twoColons (joint joint' : Bool) (s p : List Lexeme) :
    Look (punct ':' true :: punct ':' joint :: s) (punct ':' true :: punct ':' joint' :: p) :=
  ⟨rfl, fun _ => rfl, rfl, rfl, fun _ => rfl, rfl, rfl, rfl, rfl, fun _ => rfl,
    by simp [guards, sees, startsWith], rfl, rfl, rfl, rfl, rfl⟩

theorem look_colons (h : Spelt [':', ':'] rest s p) : Look s p := by
  obtain ⟨s', p', rfl, rfl, joint, joint', s', p', rfl, rfl, -, -⟩ := h
  exact look_twoColons joint joint' s' p'

/-- How a text looks is decided by its first word, and so on for groups, lifetimes and literals. -/
theorem Worded.look {w : String} (h : Worded w rest s p) : Look s p := by
  obtain ⟨s', p', rfl, rfl, -⟩ := h
  exact look_word w s' p'

theorem Opened.look {d : Delimiter} (h : Opened d rest s p) : Look s p := by
  obtain ⟨s', p', rfl, rfl, -⟩ := h
  exact look_opening d s' p'

theorem Enclosed.look {d : Delimiter} (h : Enclosed d rest s p) : Look s p := by
  obtain ⟨content, s', p', rfl, rfl, -, -⟩ := h
  exact look_opening d _ _

/-- Ends look alike. -/
theorem Ended.look (h : Ended s p) : Look s p := by
  obtain ⟨d, s', p', rfl, rfl⟩ := h
  exact look_closing d s' p'

theorem Lifelong.look (h : Lifelong rest s p) : Look s p := by
  obtain ⟨w, s', p', rfl, rfl, -⟩ := h
  exact look_lifetime w s' p'

/-- One character. What follows has to look alike if a guard may begin with the character. -/
theorem Spelt.look {c : Char} (h : Spelt [c] rest s p) (hc : c ∉ ['\'', '-', ':', '.'])
    (hrest : c ∈ ['=', '!', '<', '*', '&', '|'] → ∀ s' p', rest s' p' → Look s' p') : Look s p := by
  obtain ⟨joint, joint', s', p', rfl, rfl, hjoint, h⟩ := h
  exact look_punct hc fun hguard hj => ⟨hjoint hj, hrest hguard s' p' h⟩

theorem Valued.look (h : Valued rest s p) : Look s p := by
  cases h with
  | plain text => exact look_literal text _ _
  | truth w => exact look_word w _ _
  | negative text joint joint' hnumber =>
      have hliteral : ∀ (joint : Bool) ls,
          seesLiteral (punct '-' joint :: Lexeme.literal text :: ls) = true := fun _ _ => hnumber
      exact ⟨rfl, fun _ => rfl, rfl, rfl, fun _ => rfl, rfl, rfl,
        (hliteral _ _).trans (hliteral _ _).symm, rfl, fun _ => rfl,
        by simp [guards, sees, startsWith], rfl, rfl, rfl, rfl, rfl⟩

/-- What is two lexemes ahead of two colons. -/
theorem third_colons (joint joint' : Bool) (ls : List Lexeme) :
    third (punct ':' joint :: punct ':' joint' :: ls) = ls := by
  show afterElement (second (punct ':' joint :: punct ':' joint' :: ls)) = ls
  rw [second_punct (by decide)]
  exact second_punct (by decide) joint' ls

end TypedId.Grammar
