import Mathlib.Data.List.Find
import Mathlib.Data.List.Infix
import TypedId.Proofs.Grammar.Patterns

/-!
Infix operators are read again.

An operator ends where no longer one is seen. In the text that is read again the same operators are
seen as before: what follows begins with no character that would make a longer one.
-/

namespace TypedId.Grammar

open Lexeme Rule

variable {g : PhraseReader} {m : Rendition} {s p k : List Lexeme} {α β γ : Type}

/-! ### Seeing operators -/

/-- The characters of the punctuation that a text begins with, as long as they are joint. -/
def leadingChars : List Lexeme → List Char
  | punct c true :: ls => c :: leadingChars ls
  | punct c false :: _ => [c]
  | _ => []

/-- An operator is seen exactly if it begins the run of joined characters ahead. -/
theorem startsWith_iff_leadingChars (cs : List Char) (ls : List Lexeme) :
    startsWith cs ls = true ↔ cs <+: leadingChars ls := by
  induction cs generalizing ls with
  | nil => simp [startsWith]
  | cons c cs ih =>
      cases ls with
      | nil => cases cs <;> simp [startsWith, leadingChars]
      | cons l ls =>
          cases l with
          | punct d joint =>
              cases cs with
              | nil => cases joint <;> simp [startsWith, leadingChars]
              | cons c' cs => cases joint <;> simp [startsWith, leadingChars, ← ih]
          | _ => cases cs <;> simp [startsWith, leadingChars]

/-- What is seen behind an operator was seen there if all that is left of it was. -/
theorem startsWith_of_spelt {cs : List Char} {rest : List Lexeme → List Lexeme → Prop}
    (h : Spelt cs rest s p) (hcs : cs ≠ []) (ds : List Char)
    (hrest : ∀ s' p', rest s' p' → startsWith (ds.drop cs.length) p' = true →
      startsWith (ds.drop cs.length) s' = true) (hp : startsWith ds p = true) :
    startsWith ds s = true := by
  induction cs generalizing s p ds with
  | nil => exact (hcs rfl).elim
  | cons c cs ih =>
      cases ds with
      | nil => cases s <;> rfl
      | cons d ds =>
          cases cs with
          | nil =>
              obtain ⟨joint, joint', s', p', rfl, rfl, hjoint, h⟩ := h
              cases ds with
              | nil => exact hp
              | cons e ds =>
                  rw [startsWith_iff_leadingChars] at hp ⊢
                  have hr := hrest s' p' h
                  rw [startsWith_iff_leadingChars, startsWith_iff_leadingChars] at hr
                  cases joint' with
                  | false => simp [leadingChars] at hp
                  | true =>
                      rw [hjoint rfl]
                      simp only [leadingChars, List.cons_prefix_cons] at hp ⊢
                      exact ⟨hp.1, hr hp.2⟩
          | cons c' cs =>
              obtain ⟨s', p', rfl, rfl, h⟩ := h
              have ih' := ih h (List.cons_ne_nil _ _) ds hrest
              rw [startsWith_iff_leadingChars, startsWith_iff_leadingChars] at ih'
              rw [startsWith_iff_leadingChars] at hp ⊢
              simp only [leadingChars, List.cons_prefix_cons] at hp ⊢
              exact ⟨hp.1, ih' hp.2⟩

/-- Of the infix operators that are seen, the first one is the longest. -/
theorem prefix_of_infixOperator? {ls : List Lexeme} {x y : String × Precedence}
    (hx : infixOperator? ls = some x) (hy : y ∈ infixOperators) (hsees : sees y.1 ls = true) :
    y.1.toList <+: x.1.toList := by
  have hlongest : infixOperators.Pairwise fun x y => ¬ x.1.toList <+: y.1.toList := by decide
  obtain ⟨hseen, before, behind, hsplit, hbefore⟩ := List.find?_eq_some_iff_append.mp hx
  rw [hsplit] at hy hlongest
  rcases List.mem_append.mp hy with hy | hy
  · exact absurd hsees (by simpa using hbefore y hy)
  · rcases List.mem_cons.mp hy with rfl | hy
    · exact List.prefix_refl _
    · have hnot := (List.pairwise_cons.mp (List.pairwise_append.mp hlongest).2.1).1 y hy
      have hsees' := (startsWith_iff_leadingChars _ ls).mp hsees
      have hseen' := (startsWith_iff_leadingChars _ ls).mp hseen
      exact (List.prefix_or_prefix_of_prefix hsees' hseen').resolve_right hnot

/-- The characters that begin an infix operator or assign. -/
def operatorChars : List Char := ['+', '-', '*', '/', '%', '^', '&', '|', '<', '=', '>', '!']

/-- Both texts begin with an operator, and the same ones are seen in both. -/
structure OperatorsAlike (s p : List Lexeme) : Prop where
  first : ∃ c ∈ operatorChars, ∃ joint joint' s' p', s = punct c joint :: s' ∧ p = punct c joint' :: p'
  same : ∀ x ∈ infixOperators, sees x.1 p = sees x.1 s
  arrow : sees "->" s = false ∧ sees "->" p = false
  fatArrow : sees "=>" s = false ∧ sees "=>" p = false
  unmarked : seesBang s = false

/-- So the same infix operator comes next in both texts. -/
theorem OperatorsAlike.infixOperator? (h : OperatorsAlike s p) :
    Rule.infixOperator? p = Rule.infixOperator? s := by
  refine List.find?_congr ?_
  exact fun x hx => by simpa using h.same x hx

/-- A literal that begins with a character of an operator is a negative number. -/
theorem literal_of_seesLiteral {c : Char} {joint : Bool} {ls : List Lexeme}
    (h : seesLiteral (punct c joint :: ls) = true) : c = '-' ∧ ∃ text ls', ls = literal text :: ls' := by
  unfold seesLiteral at h
  split at h
  · next heq => cases heq
  · next heq => cases heq
  · next heq =>
    cases heq
    exact ⟨rfl, _, _, rfl⟩
  · cases h

/-- An operator that ends with an equals sign is seen in both texts or in none. -/
theorem OperatorsAlike.sees_eq (h : OperatorsAlike s p) :
    ∀ o ∈ ["<=", "<<=", "!=", "-=", "*=", "&=", "|="], sees o p = sees o s := by
  intro o ho
  simp only [List.mem_cons, List.not_mem_nil, or_false] at ho
  rcases ho with rfl | rfl | rfl | rfl | rfl | rfl | rfl
  · exact h.same ("<=", .compare) (by decide)
  · exact h.same ("<<=", .assign) (by decide)
  · exact h.same ("!=", .compare) (by decide)
  · exact h.same ("-=", .assign) (by decide)
  · exact h.same ("*=", .assign) (by decide)
  · exact h.same ("&=", .assign) (by decide)
  · exact h.same ("|=", .assign) (by decide)

/-- Where an operator comes, none of what no operator begins with does. -/
theorem unseen_of_operatorChars {c : Char} (hc : c ∈ operatorChars) (joint : Bool) (ls : List Lexeme) :
    sees "::" (punct c joint :: ls) = false ∧ sees ".." (punct c joint :: ls) = false ∧
      sees "?" (punct c joint :: ls) = false ∧ seesLifetime (punct c joint :: ls) = false := by
  have hne : ':' ≠ c ∧ '.' ≠ c ∧ '?' ≠ c ∧ c ≠ '\'' := by
    refine ⟨?_, ?_, ?_, ?_⟩ <;>
      · rintro rfl
        exact absurd hc (by decide)
  exact ⟨startsWith_punct_of_ne hne.1 _ _ _, startsWith_punct_of_ne hne.2.1 _ _ _,
    startsWith_punct_of_ne hne.2.2.1 _ _ _, seesLifetime_punct hne.2.2.2 _ _⟩

/-- A minus before a number begins an expression. -/
theorem OperatorsAlike.expression (h : OperatorsAlike s p) (hs : seesExpression s = false) :
    seesExpression p = false := by
  have hsame := h.sees_eq
  have harrow := h.arrow
  obtain ⟨c, hc, joint, joint', s', p', rfl, rfl⟩ := h.first
  have hnone := unseen_of_operatorChars hc
  have hchar : ∀ o ∈ ["!", "-", "*", "|", "&", "<", "#"],
      sees o (punct c joint' :: p') = sees o (punct c joint :: s') := by
    intro o ho
    simp only [List.mem_cons, List.not_mem_nil, or_false] at ho
    rcases ho with rfl | rfl | rfl | rfl | rfl | rfl | rfl <;> rfl
  have hliteral : seesLiteral (punct c joint' :: p') = true →
      (sees "-" (punct c joint :: s') && !sees "-=" (punct c joint :: s')) = true := by
    intro hp
    obtain ⟨rfl, text, ls, rfl⟩ := literal_of_seesLiteral hp
    have hequals : sees "-=" (punct '-' joint :: s') = false := by
      rw [← hsame _ (by decide : "-=" ∈ _)]
      cases joint' <;> rfl
    rw [hequals]
    rfl
  simp only [seesExpression, List.any_cons, List.any_nil, Bool.or_false, Bool.or_eq_false_iff] at hs ⊢
  simp only [hchar _ (by decide : "!" ∈ _), hchar _ (by decide : "-" ∈ _), hchar _ (by decide : "*" ∈ _),
    hchar _ (by decide : "|" ∈ _), hchar _ (by decide : "&" ∈ _), hchar _ (by decide : "<" ∈ _),
    hchar _ (by decide : "#" ∈ _), hsame _ (by decide : "!=" ∈ _), hsame _ (by decide : "*=" ∈ _),
    hsame _ (by decide : "|=" ∈ _), hsame _ (by decide : "&=" ∈ _), hsame _ (by decide : "<=" ∈ _),
    hsame _ (by decide : "<<=" ∈ _), hsame _ (by decide : "-=" ∈ _), harrow.1, harrow.2, hnone,
    Bool.or_false] at hs ⊢
  obtain ⟨⟨⟨⟨⟨⟨⟨⟨⟨⟨⟨⟨-, -⟩, -⟩, h₁⟩, h₂⟩, h₃⟩, h₄⟩, h₅⟩, -⟩, h₆⟩, -⟩, -⟩, h₇⟩ := hs
  have hvalue : seesLiteral (punct c joint' :: p') = false :=
    Bool.eq_false_iff.mpr fun hp => Bool.noConfusion (h₂.symm.trans (hliteral hp))
  exact ⟨⟨⟨⟨⟨⟨⟨⟨⟨⟨⟨⟨rfl, rfl⟩, hvalue⟩, h₁⟩, h₂⟩, h₃⟩, h₄⟩, h₅⟩, trivial⟩, h₆⟩, trivial⟩, trivial⟩, h₇⟩

theorem OperatorsAlike.bang (h : OperatorsAlike s p) : seesBang p = seesBang s := by
  have hsame := h.sees_eq
  obtain ⟨c, -, joint, joint', s', p', rfl, rfl⟩ := h.first
  rw [seesBang, seesBang, hsame _ (by decide : "!=" ∈ _)]
  rfl

/-- An operator ends the type before it in both texts. -/
theorem OperatorsAlike.type (h : OperatorsAlike s p) : TypeFollow s p := by
  have hsame := h.sees_eq
  have harrow := h.arrow
  have hbang := h.bang
  obtain ⟨c, hc, joint, joint', s', p', rfl, rfl⟩ := h.first
  have hnone := unseen_of_operatorChars hc
  have hcolons : ∀ joint ls, sees "::" (punct c joint :: ls) = false := fun joint ls => (hnone joint ls).1
  have hpath : PathFollow false (punct c joint :: s') (punct c joint' :: p') := by
    refine ⟨fun _ hs => ?_, fun _ => hcolons _ _, fun _ => ?_, fun _ => ?_⟩
    · rw [← hs]
      simp only [seesAngle, hsame _ (by decide : "<=" ∈ _), hsame _ (by decide : "<<=" ∈ _)]
      rfl
    · rw [hcolons, Bool.false_and]
    · rw [hcolons, Bool.false_and]
  have hbound : ∀ constant joint ls, seesBound constant (punct c joint :: ls) = false := by
    intro constant joint ls
    rw [seesBound, hcolons, (hnone joint ls).2.2.1, (hnone joint ls).2.2.2]
    cases constant <;> rfl
  exact ⟨hpath, fun _ _ => rfl, fun _ => rfl, fun hs => hbang.trans hs, fun hs => hs, fun _ => harrow.2,
    fun _ => rfl, fun constant _ => hbound _ _ _, fun hs => hs, fun _ => by rw [hcolons, Bool.false_and]⟩

/-- An operator ends the operand before it in both texts. -/
theorem OperatorsAlike.follow (h : OperatorsAlike s p) : ExprFollow s p := by
  have htype := h.type
  have hoperator := h.infixOperator?
  have hexpression := h.expression
  have hsame := h.sees_eq
  have hfat := h.fatArrow
  have hunmarked := h.unmarked
  have hbang := h.bang
  obtain ⟨c, hc, joint, joint', s', p', rfl, rfl⟩ := h.first
  have hnone := unseen_of_operatorChars hc
  have hdots : ∀ joint ls, sees ".." (punct c joint :: ls) = false := fun joint ls => (hnone joint ls).2.1
  refine ⟨htype, rfl, fun _ => rfl, ⟨(hnone _ _).1, (hnone _ _).1⟩,
    ⟨hunmarked, hbang.trans hunmarked⟩, rfl, rfl, rfl, ?_, rfl,
    hoperator, ?_, ?_, rfl, fun _ => (hnone _ _).2.2.2, hexpression, fun braces hs => ?_, rfl⟩
  · rw [hdots, hdots]
    rfl
  · rw [seesAssignment, seesAssignment, hfat.1, hfat.2]
    rfl
  · rw [hdots, hdots]
  · rw [← hs]
    simp only [endsRange, hdots, hfat.1, hfat.2, List.any_cons, List.any_nil,
      hsame _ (by decide : "<=" ∈ _), hsame _ (by decide : "<<=" ∈ _), hsame _ (by decide : "!=" ∈ _),
      hsame _ (by decide : "-=" ∈ _), hsame _ (by decide : "*=" ∈ _), hsame _ (by decide : "&=" ∈ _),
      hsame _ (by decide : "|=" ∈ _)]
    rfl

/-! ### Operators before operands -/

/-- What may be seen behind the beginning of an operator that is longer than it. -/
theorem ExprFront.behindOperator (h : ExprFront s p) {ds : List Char}
    (hds : ds.length ≤ 1 ∨ ds = ['<', '='] ∨ ds = ['>', '=']) (hp : startsWith ds p = true) :
    startsWith ds s = true := by
  rcases hds with hds | rfl | rfl
  · match ds, hds with
    | [], _ => cases s <;> rfl
    | [c], _ => exact (h.char c).symm.trans hp
  · exact h.guard "<=" (by decide) hp
  · have hcloser : startsWith ['>'] p = true := by
      rw [startsWith_iff_leadingChars] at hp ⊢
      exact (List.prefix_append ['>'] ['=']).trans hp
    exact Bool.noConfusion (h.closer.symm.trans ((h.char '>').symm.trans hcloser))

/-- An operator that goes on where another one ends begins with that one. -/
theorem Spelt.behind {cs ds : List Char} {rest : List Lexeme → List Lexeme → Prop}
    (h : Spelt cs rest s p) (hds : ds ≠ []) (hs : Lexeme.startsWith (cs ++ ds) s = true) :
    ∃ s' p', rest s' p' ∧ Lexeme.startsWith ds s' = true := by
  induction cs generalizing s p with
  | nil => exact ⟨s, p, h, hs⟩
  | cons c cs ih =>
      rw [startsWith_iff_leadingChars] at hs
      cases cs with
      | nil =>
          obtain ⟨joint, joint', s', p', rfl, rfl, -, h⟩ := h
          refine ⟨s', p', h, ?_⟩
          rw [startsWith_iff_leadingChars]
          cases joint with
          | true => simpa [leadingChars] using hs
          | false => simp [leadingChars, hds] at hs
      | cons d cs =>
          obtain ⟨s', p', rfl, rfl, h⟩ := h
          refine ih h ?_
          rw [startsWith_iff_leadingChars]
          simpa [leadingChars] using hs

/-- Texts that begin with one operator begin with one character. -/
theorem Spelt.first {c : Char} {cs : List Char} {rest : List Lexeme → List Lexeme → Prop}
    (h : Spelt (c :: cs) rest s p) :
    ∃ joint joint' s' p', s = punct c joint :: s' ∧ p = punct c joint' :: p' := by
  cases cs with
  | nil =>
      obtain ⟨joint, joint', s', p', rfl, rfl, -, -⟩ := h
      exact ⟨joint, joint', s', p', rfl, rfl⟩
  | cons d cs =>
      obtain ⟨s', p', rfl, rfl, -⟩ := h
      exact ⟨true, true, s', p', rfl, rfl⟩

/-- The operators that stand between operands. -/
def betweenOperands : List String := "=" :: infixOperators.map Prod.fst

/-- An operator before an operand, where no longer one is seen. -/
theorem OperatorsAlike.of_spelt {text : String} (htext : text ∈ betweenOperands)
    (hlongest : ∀ x ∈ infixOperators, sees x.1 s = true → x.1.toList <+: text.toList)
    (h : Spelt text.toList ExprFront s p) : OperatorsAlike s p := by
  have hseen := h.startsWith
  have hcomparable : ∀ {ls : List Lexeme} {ds : List Char}, startsWith text.toList ls = true →
      startsWith ds ls = true → ds <+: text.toList ∨ text.toList <+: ds := by
    intro ls ds htext hds
    rw [startsWith_iff_leadingChars] at htext hds
    exact List.prefix_or_prefix_of_prefix hds htext
  have harrows : ∀ o ∈ ["->", "=>"], sees o s = false ∧ sees o p = false := by
    intro o ho
    have hs : sees o s = false := by
      refine Bool.eq_false_iff.mpr fun hs => ?_
      have htable : ∀ t ∈ betweenOperands, ∀ o ∈ ["->", "=>"], ¬ o.toList <+: t.toList ∧
          (t.toList <+: o.toList → o.toList = t.toList ++ ['>']) := by decide
      obtain ⟨hnot, hsplit⟩ := htable text htext o ho
      have hs' : startsWith o.toList s = true := hs
      rw [hsplit ((hcomparable hseen.1 hs').resolve_left hnot)] at hs'
      obtain ⟨s', p', hfront, hcloser⟩ := h.behind (by decide) hs'
      exact Bool.noConfusion (hfront.closer.symm.trans hcloser)
    refine ⟨hs, Bool.eq_false_iff.mpr fun hp => ?_⟩
    have htable : ∀ t ∈ betweenOperands, ∀ o ∈ ["->", "=>"],
        (o.toList.drop t.toList.length).length ≤ 1 := by decide
    refine Bool.noConfusion (hs.symm.trans (startsWith_of_spelt h ?_ _ (fun s' p' hfront => ?_) hp))
    · have htable : ∀ t ∈ betweenOperands, t.toList ≠ [] := by decide
      exact htable text htext
    · exact hfront.behindOperator (.inl (htable text htext o ho))
  refine ⟨?_, fun x hx => ?_, harrows _ (by decide), harrows _ (by decide), ?_⟩
  · have htable : ∀ t ∈ betweenOperands, t.toList.head?.any operatorChars.contains = true := by decide
    have hhead := htable text htext
    cases htoList : text.toList with
    | nil => rw [htoList] at hhead; cases hhead
    | cons c cs =>
        rw [htoList] at hhead
        exact ⟨c, List.contains_iff_mem.mp hhead, (htoList ▸ h).first⟩
  · refine Bool.eq_iff_iff.mpr ⟨fun hp => ?_, fun hs => ?_⟩
    · have htable : ∀ t ∈ betweenOperands, t.toList ≠ [] ∧ ∀ x ∈ infixOperators,
          (x.1.toList.drop t.toList.length).length ≤ 1 ∨
            x.1.toList.drop t.toList.length = ['<', '='] ∨
              x.1.toList.drop t.toList.length = ['>', '='] := by decide
      obtain ⟨hne, hrest⟩ := htable text htext
      exact startsWith_of_spelt h hne _ (fun s' p' hfront => hfront.behindOperator (hrest x hx)) hp
    · have hp := hseen.2
      rw [startsWith_iff_leadingChars] at hp
      exact (startsWith_iff_leadingChars _ _).mpr ((hlongest x hx hs).trans hp)
  · have htable : ∀ t ∈ betweenOperands, (['!'] <+: t.toList ∨ t.toList <+: ['!']) →
        t.toList = ['!', '='] := by decide
    cases hs : sees "!" s with
    | false => rw [seesBang, hs, Bool.false_and]
    | true =>
        have hequals : startsWith ['!', '='] s = true :=
          htable text htext (hcomparable hseen.1 hs) ▸ hseen.1
        rw [seesBang, show sees "!=" s = true from hequals]
        exact Bool.and_false _

/-- An infix operator and its right operand. -/
theorem ExprFollow.of_infixOperator {x : String × Precedence} (hx : infixOperator? s = some x)
    (h : Spelt x.1.toList ExprFront s p) : ExprFollow s p := by
  refine (OperatorsAlike.of_spelt ?_ (fun y hy hsees => prefix_of_infixOperator? hx hy hsees) h).follow
  exact List.mem_cons_of_mem _ (List.mem_map_of_mem (List.mem_of_find?_eq_some hx))

/-- An equals sign that assigns, and its right operand. -/
theorem ExprFollow.of_assignment (hs : infixOperator? s = none) (h : Spelt ['='] ExprFront s p) :
    ExprFollow s p := by
  refine (OperatorsAlike.of_spelt (List.mem_cons_self ..) (fun y hy hsees => ?_) h).follow
  exact absurd hsees (List.find?_eq_none.mp hs y hy)

/-- The dots of a range. -/
theorem ExprFollow.of_dots (hs : sees ".." s = true) (hp : sees ".." p = true) : ExprFollow s p := by
  have hpath : PathFollow false s p := .of_dots hp
  obtain ⟨joint, s', rfl⟩ := sees_twoDots hs
  obtain ⟨joint', p', rfl⟩ := sees_twoDots hp
  refine ⟨⟨hpath, fun _ _ => rfl, fun _ => rfl, fun _ => rfl, fun _ => rfl, fun _ => rfl, fun _ => rfl,
    fun c _ => by cases c <;> rfl, fun _ => rfl, fun _ => rfl⟩, rfl, fun _ => rfl, ⟨rfl, rfl⟩, ⟨rfl, rfl⟩,
    rfl, rfl, rfl, rfl, rfl, rfl, rfl, rfl, rfl, fun _ => rfl, id, fun braces h => ?_, rfl⟩
  cases braces <;> cases h

/-! ### Ranges -/

/-- A point is alone, or two of them are seen. -/
theorem seesPoint_eq (ls : List Lexeme) : sees "." ls = (sees "." ls && !sees ".." ls || sees ".." ls) := by
  cases hdots : sees ".." ls with
  | false => rw [Bool.or_false, Bool.not_false, Bool.and_true]
  | true =>
      obtain ⟨joint, ls', rfl⟩ := sees_twoDots hdots
      rfl

theorem ExprFollow.point (h : ExprFollow s k) : sees "." k = sees "." s := by
  rw [seesPoint_eq k, seesPoint_eq s, h.dot, h.dots]

/-- What may follow an expression binds as tightly in both texts. -/
theorem ExprFollow.precedence (h : ExprFollow s k) : nextPrecedence k = nextPrecedence s := by
  rw [nextPrecedence, nextPrecedence, h.operator, h.assignment, h.dots, h.cast]

/-- No range ends before an operand that begins alike. -/
theorem Look.endsRange (h : Look s p) (braces : Bool) (hs : endsRange braces s = false) :
    Rule.endsRange braces p = false := by
  have hguards : ∀ o ∈ ["=>", "<=", "!=", "-=", "*=", "&=", "|=", "<<="],
      sees o s = false → sees o p = false := by
    intro o ho
    refine h.not_guard ?_
    revert o
    decide
  simp only [Rule.endsRange, List.any_cons, List.any_nil, Bool.or_false, Bool.or_eq_false_iff] at hs ⊢
  obtain ⟨⟨⟨⟨h₁, h₂⟩, h₃⟩, h₄⟩, h₅, h₆, h₇, h₈, h₉, h₁₀, h₁₁, h₁₂, h₁₃, h₁₄, h₁₅, h₁₆, h₁₇, h₁₈,
      h₁₉, h₂₀, h₂₁⟩ := hs
  refine ⟨⟨⟨⟨h.ends.trans h₁, ?_⟩, (h.group _).symm ▸ h₃⟩, (h.word _).trans h₄⟩,
    (h.operator _ rfl).trans h₅, (h.operator _ rfl).trans h₆, (h.operator _ rfl).trans h₇,
    hguards _ (by decide) h₈, (h.operator _ rfl).trans h₉, (h.operator _ rfl).trans h₁₀,
    (h.operator _ rfl).trans h₁₁, (h.operator _ rfl).trans h₁₂, (h.operator _ rfl).trans h₁₃,
    (h.operator _ rfl).trans h₁₄, hguards _ (by decide) h₁₅, hguards _ (by decide) h₁₆,
    hguards _ (by decide) h₁₇, hguards _ (by decide) h₁₈, hguards _ (by decide) h₁₉,
    hguards _ (by decide) h₂₀, hguards _ (by decide) h₂₁⟩
  rw [h.operator "." rfl, h.dots]
  exact h₂

/-! ### Right operands -/

/-- Whether an expression is a range. -/
def ExprShape.isRange : ExprShape → Bool
  | range _ => true
  | _ => false

/-- Whether an expression is a range is no matter of positions. -/
theorem ExprShape.isRange_eq {a a' : ExprShape} (h : a'.placeless = a.placeless) :
    a'.isRange = a.isRange := by
  cases a <;> cases a' <;> first | rfl | cases h

theorem ExprShape.ne_range {a : ExprShape} (h : a.isRange = false) (dots : Stretch) :
    a ≠ .range dots := by
  rintro rfl
  cases h

/-- Whether an expression of that shape is made by an operator. -/
def ExprShape.joined : ExprShape → Bool
  | range _ | comparison | other => true
  | _ => false

/-- A range is joined by an operator, so it is no text literal. -/
theorem ensures_restOfRange {ls : List Lexeme} {pre : View → Prop} (hg : Stays g ls) (braces : Bool) :
    Ensures g ls pre (Rule.restOfRange braces) fun a _ => a.joined = true := by
  refine .skip hg fun _ => .ahead fun _ _ _ => .ite (fun _ => .pure fun _ _ => rfl) fun _ => ?_
  exact .skip hg fun _ => .pure fun _ _ => rfl

/-- Operators make another expression, or leave one as it is and read nothing. -/
theorem ensures_operators {ls : List Lexeme} (hg : Stays g ls) (braces : Bool) (left : ExprShape)
    (least : Precedence) {start : View} :
    Ensures g ls (· = start) (Rule.operators braces left least) fun a v =>
      a.joined = true ∨ (a = left ∧ v = start) := by
  refine .repeating (I := fun a v => a.joined = true ∨ (a = left ∧ v = start)) (fun _ h => .inr ⟨rfl, h⟩)
    fun shape => .ahead fun v _ hshape => ?_
  split
  · exact .pure fun _ h => h ▸ hshape
  split
  · refine .ite (fun _ => .pure fun _ h => h ▸ hshape) fun _ =>
      .ite (fun _ => .skip hg fun _ => .skip hg fun _ => .skip hg fun _ => .pure fun _ _ => ?_) fun _ =>
        .skip hg fun _ => .skip hg fun _ => .pure fun _ _ => ?_
    all_goals
      dsimp only
      split <;> exact .inl rfl
  · refine .ite (fun _ => .skip hg fun _ => .skip hg fun _ => .pure fun _ _ => .inl rfl) fun _ =>
      .ite (fun _ => .learn (ensures_restOfRange hg braces) fun _ h => .pure fun _ _ => .inl h) fun _ =>
        .ite (fun _ => .skip hg fun _ => .skip hg fun _ => .skip hg fun _ =>
          .pure fun _ _ => .inl rfl) fun _ =>
          .pure fun _ h => h ▸ hshape

/-- Either operators have joined something to what stood on the left, or nothing was taken. -/
theorem Rule.joined_of_run_operators (hg : ∀ ls, Stays g ls) {braces : Bool} {left a : ExprShape}
    {least : Precedence} {r r' : Reader} (h : (Rule.operators braces left least).run g r = .ok (a, r')) :
    a.joined = true ∨ (a = left ∧ r'.toView = r.toView) :=
  Ensures.of_run (Q := fun v a v' => a.joined = true ∨ (a = left ∧ v' = v))
    (fun ls _ => ensures_operators (hg ls) braces left least) h

/-- Whether an operator of a precedence that comes next belongs to the operand on the right of
another. -/
def Rule.joinsOperand (precedence next : Precedence) : Prop :=
  precedence.rank < next.rank ∨ (next = precedence ∧ precedence = .assign)

instance (precedence next : Precedence) : Decidable (Rule.joinsOperand precedence next) :=
  inferInstanceAs (Decidable (_ ∨ _))

/-- What is joined to an operand binds more tightly than a way out of a loop. -/
theorem Rule.joinsOperand.ne_jump {precedence next : Precedence} (h : joinsOperand precedence next) :
    next ≠ .jump := by
  rintro rfl
  rcases h with h | ⟨rfl, h⟩
  · exact absurd h (Nat.not_lt_zero _)
  · cases h

/-- One step of the operand on the right of an operator. It gets on unless a range is on the left. -/
def Rule.rightStep (braces : Bool) (precedence : Precedence) (right : ExprShape) :
    Rule (ExprShape ⊕ Unit) := do
  let next := nextPrecedence (← ahead)
  if joinsOperand precedence next then
    let further ← call (.operators braces right next)
    return if right.isRange then .inr () else .inl further
  else return .inr ()

/-- Steps that agree everywhere give the same repetition. -/
theorem iterate_congr {σ α : Type} {step step' : σ → Reader → Outcome (σ ⊕ α)}
    (h : ∀ x r, step x r = step' x r) (bound : Nat) (x : σ) (r : Reader) :
    iterate step bound x r = iterate step' bound x r := by
  have : step = step' := funext fun x => funext (h x)
  rw [this]

/-- Whether a step gets on can be told from what is on the left. -/
theorem Rule.run_rightOperand (hg : Rereadable g) (braces : Bool) (precedence : Precedence) (r : Reader) :
    (rightOperand braces precedence).run g r =
      (do let first ← call (.operand braces); repeating (rightStep braces precedence) first).run g r := by
  have hstep : ∀ (right : ExprShape) (r : Reader),
      (do
        let v ← look
        let next := nextPrecedence v.rest
        if precedence.rank < next.rank || (next == precedence && precedence == .assign) then
          let right ← call (.operators braces right next)
          if (← here) == v.position then return .inr () else return .inl right
        else return .inr () : Rule (ExprShape ⊕ Unit)).run g r =
          (rightStep braces precedence right).run g r := by
    intro right r
    rw [rightStep, run_bind_of_ok (run_look r), run_bind_of_ok (run_ahead r)]
    dsimp only
    by_cases hjoins : joinsOperand precedence (nextPrecedence r.rest)
    · rw [if_pos (by simpa [joinsOperand] using hjoins), if_pos hjoins]
      cases hcall : g (.operators braces right (nextPrecedence r.rest)) r with
      | error fault => rw [run_bind, run_bind, run_call, hcall]
      | ok found =>
          obtain ⟨further, r'⟩ := found
          rw [run_bind_of_ok ((run_call ..).trans hcall), run_bind_of_ok ((run_call ..).trans hcall),
            run_bind_of_ok (run_here r')]
          cases hrange : right.isRange with
          | true =>
              cases right <;> cases hrange
              rw [hg.operatorsStay _ _ _ _ _ _ hcall, if_pos (beq_self_eq_true _)]
              rfl
          | false =>
              have hmove := hg.operatorsMove _ _ _ _ _ (ExprShape.ne_range hrange) hjoins.ne_jump hcall
              rw [if_neg (by simpa using Nat.ne_of_gt hmove)]
              rfl
    · rw [if_neg (by simpa [joinsOperand] using hjoins), if_neg hjoins]
  rw [rightOperand, run_bind, run_bind]
  split
  · rw [run_repeating, run_repeating]
    exact iterate_congr hstep _ _ _
  · rfl

namespace Rereads

/-- One step of the operand on the right of an operator is read again. -/
theorem rightStep (hg : Rereadable g) (braces : Bool) (precedence : Precedence)
    {right right' : ExprShape} (h : right'.placeless = right.placeless) :
    Rereads g m s (Rule.rightStep braces precedence right) (Rule.rightStep braces precedence right')
      (Sum.map ExprShape.placeless id) (ExprFollow s)
      (stepFollow (fun _ => ExprFollow) fun _ => ExprFollow) := by
  have hnext : Rereads g m s
      (if joinsOperand precedence (nextPrecedence s) then do
        let further ← Rule.call (.operators braces right (nextPrecedence s))
        Pure.pure (if right.isRange then Sum.inr () else Sum.inl further)
      else Pure.pure (Sum.inr ()))
      (if joinsOperand precedence (nextPrecedence s) then do
        let further ← Rule.call (.operators braces right' (nextPrecedence s))
        Pure.pure (if right'.isRange then Sum.inr () else Sum.inl further)
      else Pure.pure (Sum.inr ())) (Sum.map ExprShape.placeless id) (ExprFollow s)
      (stepFollow (fun _ => ExprFollow) fun _ => ExprFollow) := by
    refine .ite (fun _ _ _ => Iff.rfl) (fun _ => ?_) fun _ => pure _ _ rfl fun k hk => hk
    refine (hg.operators m s braces right right' _ h).bind fun further further' s' hfurther => ?_
    rw [ExprShape.isRange_eq h]
    cases right.isRange with
    | true => exact pure (Sum.inr ()) (Sum.inr ()) rfl fun k hk => hk
    | false => exact pure (Sum.inl further) (Sum.inl further') (congrArg Sum.inl hfurther) fun k hk => hk
  exact ahead (hnext.congr (fun _ _ => rfl) fun q hq => by rw [hq.precedence])

/-- A step on the right of an operator takes something, unless it is the last. -/
theorem rightStep_solid (hg : Rereadable g) (braces : Bool) (precedence : Precedence)
    (right : ExprShape) :
    Solid g m s (Rule.rightStep braces precedence right) fun y => y.isLeft = true := by
  refine .ahead (.ite (fun hjoins => ?_) fun _ => .pure (by simp))
  cases hrange : right.isRange with
  | true => exact .bind_right fun _ _ => .pure (by simp)
  | false => exact .bind_left (hg.operatorsSolid m s braces right (ExprShape.ne_range hrange) hjoins.ne_jump)

/-- What stands on the right of an operator is read again. -/
theorem rightOperand (hg : Rereadable g) (braces : Bool) (precedence : Precedence) :
    Rereads g m s (Rule.rightOperand braces precedence) (Rule.rightOperand braces precedence) id
      (ExprFront s) fun _ => ExprFollow := by
  have hsteps : Rereads g m s
      (do
        let first ← Rule.call (.operand braces)
        Rule.repeating (Rule.rightStep braces precedence) first)
      (do
        let first ← Rule.call (.operand braces)
        Rule.repeating (Rule.rightStep braces precedence) first) id (ExprFront s) fun _ => ExprFollow :=
    (hg.operand m s braces).bind fun first first' s' hfirst =>
      (repeating ExprShape.placeless (fun _ => ExprFollow) (fun _ => ExprFollow)
        (fun _ _ _ h => rightStep hg braces precedence h) (fun _ _ _ => id)
        (fun right s => rightStep_solid hg braces precedence right) hfirst).front_mono
        fun p hp => hp.shape _
  exact hsteps.congr (fun r _ => run_rightOperand hg braces precedence r)
    fun q _ => run_rightOperand hg braces precedence q

/-- A range is read again from its dots on. -/
theorem restOfRange (hg : Rereadable g) (braces : Bool) :
    Rereads g m s (Rule.restOfRange braces) (Rule.restOfRange braces) ExprShape.placeless
      (DotsFront (fun _ _ _ => True) s) fun a s' k => a.isRange = true → ExprFollow s' k := by
  let behind (closed : Bool) (s p : List Lexeme) : Prop :=
    (!closed && endsRange braces p) = (!closed && endsRange braces s) ∧
      (closed = false → sees "=" p = sees "=" s ∧ sees "." p = sees "." s)
  have hfront : ∀ {closed s p}, (!closed && endsRange braces s) = false → ExprFront s p →
      behind closed s p := by
    intro closed s p hs hp
    refine ⟨?_, fun _ => ⟨hp.operator _ rfl, hp.operator _ rfl⟩⟩
    cases closed with
    | true => rfl
    | false =>
        rw [Bool.not_false, Bool.true_and] at hs ⊢
        rw [hp.endsRange braces hs, hs, Bool.true_and]
  have hend : ∀ {closed s k}, (!closed && endsRange braces s) = true → ExprFollow s k →
      behind closed s k := by
    intro closed s k hs hk
    rw [Bool.and_eq_true] at hs
    exact ⟨by rw [hk.range braces hs.2, hs.2], fun _ => ⟨hk.sign, hk.point⟩⟩
  unfold Rule.restOfRange
  refine ((dots fun _ _ _ => True).bind fun between between' s' hclosed => ?_)
  refine (?_ : Rereads g m s' _ _ _ (behind between.closed s') _).front_mono
    fun p hp => ⟨trivial, hp.2⟩
  rw [hclosed]
  refine ahead (.sight (fun _ p hp => hp.1) (fun hs => ?_) fun hs => ?_)
  · exact pure (ExprShape.range between.stretch) (.range between'.stretch) rfl
      fun k hk => hend hs (hk rfl)
  · refine (rightOperand hg braces .range).bind_id (fun _ s₂ => ?_) fun p hp => hfront hs hp
    exact pure (ExprShape.range between.stretch) (.range between'.stretch) rfl fun k hk => hk rfl

/-- What may not follow a cast is not seen in either text. -/
theorem checkCast :
    Rereads g m s Rule.checkCast Rule.checkCast id (ExprFollow s) fun _ => ExprFollow := by
  unfold Rule.checkCast
  refine ahead (.fault (fun _ p hp hs => hp.dot.trans hs) (fun r _ => ?_) fun _ => ?_)
  · split
    · exact ⟨_, Rule.run_complain ..⟩
    · split <;> exact ⟨_, Rule.run_complain ..⟩
  refine .fault (fun _ p hp hs => hp.question.trans hs) (fun r _ => ⟨_, Rule.run_complain ..⟩) fun _ => ?_
  refine .fault (fun _ p hp hs => hp.bracket hs) (fun r _ => ⟨_, Rule.run_complain ..⟩) fun _ => ?_
  refine .fault (fun _ p hp hs => hp.parenthesis hs) (fun r _ => ⟨_, Rule.run_complain ..⟩) fun _ => ?_
  exact pure _ _ rfl fun k hk => hk

end Rereads

/-! ### Infix operators -/

/-- Where no operator is read that binds at least as tightly as `least`, none is read again. -/
structure OperatorsEnd (least : Precedence) (s k : List Lexeme) : Prop where
  operator : ∀ x, infixOperator? s = x → (∀ y ∈ x, y.2.rank < least.rank) → infixOperator? k = x
  assignment : seesAssignment s = false → seesAssignment k = false
  dots : sees ".." s = false → sees ".." k = false
  cast : seesWord "as" s = false → seesWord "as" k = false

/-- Where an expression may end, its operators do, however tightly they have to bind. -/
theorem ExprFollow.operatorsEnd (h : ExprFollow s k) (least : Precedence) : OperatorsEnd least s k :=
  ⟨fun _ hx _ => h.operator.trans hx, h.assignment.trans, h.dots.trans, h.cast.trans⟩

/-- The same of a place where only a way out of a loop could go on. -/
theorem QuietFollow.operatorsEnd (h : QuietFollow s k) : OperatorsEnd .jump s k := by
  refine ⟨fun x hx hleast => ?_, h.assignment, h.dots, h.cast⟩
  cases x with
  | none => exact h.operator hx
  | some y => exact absurd (hleast y rfl) (Nat.not_lt_zero _)

/-- Whether an expression is a comparison is no matter of positions. -/
theorem ExprShape.comparison_eq {a a' : ExprShape} (h : a'.placeless = a.placeless) :
    (a' == .comparison) = (a == .comparison) := by
  cases a <;> cases a' <;> first | rfl | cases h

/-- An infix operator and its right operand. -/
def Rule.infixStep (braces : Bool) (left : ExprShape) (text : String) (precedence : Precedence) :
    Rule (ExprShape ⊕ ExprShape) := do
  if precedence == .compare && left == .comparison then complain .chainedComparison
  operator text
  rightOperand braces precedence
  return .inl (if precedence == .compare then .comparison else .other)

/-- An assignment, a range or a cast from behind its left operand. -/
def Rule.otherStep (braces : Bool) (least : Precedence) (left : ExprShape) (ls : List Lexeme) :
    Rule (ExprShape ⊕ ExprShape) :=
  if least.rank ≤ Precedence.assign.rank && seesAssignment ls then do
    operator "="
    rightOperand braces .assign
    return .inl .other
  else if least.rank ≤ Precedence.range.rank && sees ".." ls then do
    return .inl (← restOfRange braces)
  else if seesWord "as" ls then do
    keyword "as"
    let _ ← call (.type false)
    checkCast
    return .inl .other
  else return .inr left

/-- One operator and its right operand, where it is no range that stands on the left. -/
def Rule.operatorAt (braces : Bool) (least : Precedence) (left : ExprShape) (ls : List Lexeme) :
    Rule (ExprShape ⊕ ExprShape) :=
  match infixOperator? ls with
  | some (text, precedence) =>
    if precedence.rank < least.rank then return .inr left else infixStep braces left text precedence
  | none => otherStep braces least left ls

/-- A range ends the operators: it is never on the left of one. -/
theorem Rule.operatorStep_of_range {left : ExprShape} (h : left.isRange = true) (braces : Bool)
    (least : Precedence) : operatorStep braces least left = (do let _ ← ahead; return .inr left) := by
  cases left <;> first | rfl | cases h

/-- Behind anything else, the step depends on what comes next. -/
theorem Rule.operatorStep_of_not_range {left : ExprShape} (h : left.isRange = false) (braces : Bool)
    (least : Precedence) :
    operatorStep braces least left = (do operatorAt braces least left (← ahead)) := by
  cases left <;> first | rfl | cases h

/-- What may be said of the text behind an expression that operators may follow. -/
structure BehindOperators (least : Precedence)
    (last : ExprShape → List Lexeme → List Lexeme → Prop) : Prop where
  of_expr : ∀ a s k, ExprFollow s k → last a s k
  ends : ∀ a s k, last a s k → OperatorsEnd least s k
  expr : ∀ a s k, (∀ braced, a ≠ .invocation braced) → last a s k → ExprFollow s k

theorem behindOperators_expr (least : Precedence) :
    BehindOperators least fun _ => ExprFollow :=
  ⟨fun _ _ _ h => h, fun _ _ _ h => h.operatorsEnd least, fun _ _ _ _ h => h⟩

theorem behindOperators_shape : BehindOperators .jump ShapeFollow := by
  refine ⟨fun a _ _ h => h.shape a, fun a _ _ h => ?_, fun a _ _ ha h => ?_⟩
  · unfold ShapeFollow at h
    split at h
    · exact h.operatorsEnd
    · exact h.operatorsEnd _
  · unfold ShapeFollow at h
    split at h
    · exact (ha true rfl).elim
    · exact h

namespace Rereads

section Steps

variable {least : Precedence} {last : ExprShape → List Lexeme → List Lexeme → Prop}
  {left left' : ExprShape}

/-- An infix operator and its right operand are read again. -/
theorem infixStep (hg : Rereadable g) (braces : Bool) (hlast : BehindOperators least last)
    (h : left'.placeless = left.placeless) {x : String × Precedence} (hx : infixOperator? s = some x) :
    Rereads g m s (Rule.infixStep braces left x.1 x.2) (Rule.infixStep braces left' x.1 x.2)
      (Sum.map ExprShape.placeless ExprShape.placeless) (ExprFollow s) (stepFollow last last) := by
  unfold Rule.infixStep
  rw [ExprShape.comparison_eq h]
  refine .sight (fun _ _ _ => rfl) (fun _ => .complain_then _ _) fun _ => ?_
  refine operator_then x.1 ExprFront (fun s' => ?_) fun p hp => .of_infixOperator hx hp
  refine then_pure ((rightOperand hg braces x.2).follow_mono fun _ s' k hk => ?_)
  exact hlast.expr _ s' k (by split <;> simp) hk

/-- An assignment, a range or a cast is read again from behind its left operand. -/
theorem otherStep (hg : Rereadable g) (braces : Bool) (hlast : BehindOperators least last)
    (h : left'.placeless = left.placeless) (hs : infixOperator? s = none) :
    RereadsBy g m s (Rule.otherStep braces least left s)
      (fun _ p => Rule.otherStep braces least left' p)
      (Sum.map ExprShape.placeless ExprShape.placeless) (last left s) (stepFollow last last) := by
  unfold Rule.otherStep
  have hends : ∀ {p}, last left s p → OperatorsEnd least s p := hlast.ends left s _
  refine .sight_mono _ (hlast.of_expr left s) (fun hseen _ p hp => by rw [hp.assignment]; exact hseen)
    (fun hunseen _ p hp => ?_) (fun _ => ?_) fun _ => ?_
  · rw [Bool.and_eq_false_iff] at hunseen ⊢
    exact hunseen.imp_right (hends hp).assignment
  · refine operator_then "=" ExprFront (fun s' => ?_) fun p hp => .of_assignment hs hp
    exact then_pure ((rightOperand hg braces .assign).follow_mono fun _ s' k hk =>
      hlast.expr .other s' k (by simp) hk)
  refine .sight_mono _ (hlast.of_expr left s) (fun hseen _ p hp => by rw [hp.dots]; exact hseen)
    (fun hunseen _ p hp => ?_) (fun hseen => ?_) fun _ => ?_
  · rw [Bool.and_eq_false_iff] at hunseen ⊢
    exact hunseen.imp_right (hends hp).dots
  · refine ((restOfRange hg braces).bind fun range range' s' hrange => ?_).front_mono
      fun p hp => .of_dots hp.dots.1 hp.dots.2
    refine pure _ _ (congrArg Sum.inl hrange) fun k hk hisRange => hlast.expr range s' k ?_ hk
    rintro braced rfl
    cases hisRange
  refine .sight_mono _ (hlast.of_expr left s) (fun hseen _ p hp => hp.cast.trans hseen)
    (fun hunseen _ p hp => (hends hp).cast hunseen) (fun _ => ?_) fun _ => ?_
  · refine keyword_then "as" (TypeFront False) (fun s' => ?_) fun p ⟨s', p', hs', hp', _⟩ => ?_
    · exact (hg.plainType m s' false).bind_id (fun _ s₂ =>
        then_pure (checkCast.mono (fun p hp => hp.toTypeFollow)
        fun _ s' k hk => hlast.expr .other s' k (by simp) hk)) fun p hp => hp
    · rw [hs', hp']
      exact .of_word _ _ _
  · exact pure _ _ (congrArg Sum.inr h) fun k hk => hk

/-- One operator and its right operand are read again. -/
theorem operatorStep (hg : Rereadable g) (braces : Bool) (hlast : BehindOperators least last)
    (h : left'.placeless = left.placeless) :
    Rereads g m s (Rule.operatorStep braces least left) (Rule.operatorStep braces least left')
      (Sum.map ExprShape.placeless ExprShape.placeless) (last left s) (stepFollow last last) := by
  cases hrange : left.isRange with
  | true =>
      rw [Rule.operatorStep_of_range hrange,
        Rule.operatorStep_of_range ((ExprShape.isRange_eq h).trans hrange)]
      exact ahead (pure _ _ (congrArg Sum.inr h) fun k hk => hk)
  | false =>
      rw [Rule.operatorStep_of_not_range hrange,
        Rule.operatorStep_of_not_range ((ExprShape.isRange_eq h).trans hrange)]
      refine ahead ?_
      unfold Rule.operatorAt
      cases hx : infixOperator? s with
      | some x =>
          obtain ⟨text, precedence⟩ := x
          by_cases hrank : precedence.rank < least.rank
          · have hstop : Rereads g m s (Pure.pure (Sum.inr left)) (Pure.pure (Sum.inr left'))
                (Sum.map ExprShape.placeless ExprShape.placeless) (last left s) (stepFollow last last) :=
              pure _ _ (congrArg Sum.inr h) fun k hk => hk
            refine hstop.congr (fun _ _ => by simp only [if_pos hrank]) fun q hq => ?_
            rw [(hlast.ends _ _ _ hq).operator _ hx (by rintro y ⟨⟩; exact hrank)]
            simp only [if_pos hrank]
          · refine ((infixStep hg braces hlast h hx).congr (fun _ _ => by simp only [if_neg hrank])
              fun q hq => ?_).front_mono (hlast.of_expr left s)
            rw [hq.operator, hx]
            simp only [if_neg hrank]
      | none =>
          refine (otherStep hg braces hlast h hx).congr (fun _ _ => rfl) fun q hq => ?_
          rw [(hlast.ends _ _ _ hq).operator _ hx (by simp)]

theorem dots_solid : Solid g m s Rule.dots fun _ => True :=
  .look fun _ => .ite (fun _ => .bind_left (operator_solid "..=" (by decide))) fun _ =>
    .ite (fun _ => .expected _) fun _ =>
      .ite (fun _ => .bind_left (operator_solid ".." (by decide))) fun _ => .expected _

/-- A step takes something, unless it is the last. -/
theorem operatorStep_solid (braces : Bool) :
    Solid g m s (Rule.operatorStep braces least left) fun y => y.isLeft = true := by
  cases hrange : left.isRange with
  | true =>
      rw [Rule.operatorStep_of_range hrange]
      exact .ahead (.pure (by simp))
  | false =>
      rw [Rule.operatorStep_of_not_range hrange]
      refine .ahead ?_
      unfold Rule.operatorAt
      split
      · next text precedence hx =>
        have htext : ∀ x ∈ infixOperators, x.1.toList ≠ [] := by decide
        have hne := htext _ (List.mem_of_find?_eq_some hx)
        exact .ite (fun _ => .pure (by simp)) fun _ => .ite (fun _ => .bind_left (.complain _))
          fun _ => .bind_left (operator_solid text hne)
      · exact .ite (fun _ => .bind_left (operator_solid "=" (by decide))) fun _ =>
          .ite (fun _ => .bind_left (.bind_left dots_solid)) fun _ =>
            .ite (fun _ => .bind_left (keyword_solid "as")) fun _ => .pure (by simp)

/-- Operators and their right operands are read again. -/
theorem operators (hg : Rereadable g) (braces : Bool) (hlast : BehindOperators least last)
    (h : left'.placeless = left.placeless) :
    Rereads g m s (Rule.operators braces left least) (Rule.operators braces left' least)
      ExprShape.placeless (last left s) last :=
  repeating ExprShape.placeless last last (fun _ _ _ h => operatorStep hg braces hlast h)
    (fun _ _ _ => id) (fun _ _ => operatorStep_solid braces) h

end Steps

end Rereads

/-! ### Getting on -/

/-- A rule takes something. -/
def Moves (g : PhraseReader) (s : List Lexeme) (rule : Rule α) : Prop :=
  ∀ r a r', r.rest = s → rule.run g r = .ok (a, r') → r.position < r'.position

namespace Moves

/-- Looking does not get on, so what follows it has to. -/
theorem look {next : View → Rule α} (h : ∀ n, Moves g s (next ⟨n, s⟩)) :
    Moves g s (Rule.look >>= next) := by
  intro r a r' hs hrun
  rw [Rule.run_bind_of_ok (Rule.run_look r), show r.toView = ⟨r.position, s⟩ by rw [← hs]] at hrun
  exact h r.position r a r' hs hrun

theorem ahead {next : List Lexeme → Rule α} (h : Moves g s (next s)) :
    Moves g s (Rule.ahead >>= next) := by
  intro r a r' hs hrun
  rw [Rule.run_bind_of_ok (Rule.run_ahead r), hs] at hrun
  exact h r a r' hs hrun

/-- Both branches have to get on. -/
theorem ite {c : Prop} [Decidable c] {rule₁ rule₂ : Rule α} (h₁ : c → Moves g s rule₁)
    (h₂ : ¬ c → Moves g s rule₂) : Moves g s (if c then rule₁ else rule₂) := by
  by_cases hc : c
  · simpa only [if_pos hc] using h₁ hc
  · simpa only [if_neg hc] using h₂ hc

/-- A rule that fails in every place gets on for want of a result. -/
theorem of_error {rule : Rule α} (h : ∀ r : Reader, ∃ fault, rule.run g r = .error fault) :
    Moves g s rule := by
  intro r a r' _ hrun
  obtain ⟨fault, hfault⟩ := h r
  rw [hfault] at hrun
  cases hrun

/-- Getting on at first is enough, since nothing is given back. -/
theorem bind {rule : Rule α} {next : α → Rule β} (hg : Tidy g) (h : Moves g s rule) :
    Moves g s (rule >>= next) := by
  intro r b r'' hs hrun
  obtain ⟨a, r', hrule, hnext⟩ := Rule.run_bind_eq_ok.mp hrun
  exact Nat.lt_of_lt_of_le (h r a r' hs hrule) ((next a).run_getsOn hg r' b r'' hnext).position

/-- An operator has at least one character. -/
theorem operator {text : String} (htext : 0 < text.length) : Moves g s (Rule.operator text) := by
  intro r a r' _ hrun
  rw [(Rule.run_operator_eq_ok.mp hrun).2]
  exact Nat.lt_add_of_pos_right htext

theorem keyword (w : String) : Moves g s (Rule.keyword w) := by
  intro r a r' _ hrun
  rw [(Rule.run_keyword_eq_ok.mp hrun).2]
  exact Nat.lt_succ_self _

theorem dots (hg : Tidy g) : Moves g s Rule.dots :=
  .look fun _ => .ite (fun _ => .bind hg (.operator (by decide))) fun _ =>
    .ite (fun _ => .of_error fun _ => Rule.run_expected ..) fun _ =>
      .ite (fun _ => .bind hg (.operator (by decide))) fun _ => .of_error fun _ => Rule.run_expected ..

end Moves

/-- An operator that comes next is read where operators that bind as tightly are. -/
theorem Rule.operatorAt_next (braces : Bool) (left : ExprShape) (hs : nextPrecedence s ≠ .jump) :
    (∃ x ∈ infixOperators, operatorAt braces (nextPrecedence s) left s = infixStep braces left x.1 x.2) ∨
      operatorAt braces (nextPrecedence s) left s =
        (do operator "="; rightOperand braces .assign; return .inl .other) ∨
      operatorAt braces (nextPrecedence s) left s = (do return .inl (← restOfRange braces)) ∨
      operatorAt braces (nextPrecedence s) left s =
        (do keyword "as"; let _ ← call (.type false); checkCast; return .inl .other) := by
  unfold operatorAt otherStep
  cases hx : infixOperator? s with
  | some x =>
      obtain ⟨text, precedence⟩ := x
      refine .inl ⟨_, List.mem_of_find?_eq_some hx, ?_⟩
      have hnext : nextPrecedence s = precedence := by simp only [nextPrecedence, hx]
      simp only [hnext, Nat.lt_irrefl, if_false]
  | none =>
      refine .inr ?_
      cases hassign : seesAssignment s with
      | true =>
          have hnext : nextPrecedence s = .assign := by simp only [nextPrecedence, hx, hassign, if_true]
          exact .inl (by simp only [hnext]; rfl)
      | false =>
          cases hdots : sees ".." s with
          | true =>
              have hnext : nextPrecedence s = .range := by simp [nextPrecedence, hx, hassign, hdots]
              exact .inr (.inl (by simp only [hnext, Bool.and_false]; rfl))
          | false =>
              cases hcast : seesWord "as" s with
              | true => exact .inr (.inr (by simp only [Bool.and_false]; rfl))
              | false => exact (hs (by simp [nextPrecedence, hx, hassign, hdots, hcast])).elim

/-- A repetition gets on if its first step does. -/
theorem Moves.repeating {σ : Type} {step : σ → Rule (σ ⊕ α)} {x : σ} (hg : Tidy g)
    (h : Moves g s (step x)) : Moves g s (.repeating step x) := by
  intro r a r' hs hrun
  rw [Rule.run_repeating, iterate] at hrun
  split at hrun
  · next y r₁ hone =>
    refine Nat.lt_of_lt_of_le (h r _ r₁ hs hone) ?_
    exact (iterate_getsOn (fun x => (step x).run_getsOn hg) _ y r₁ a r' hrun).position
  · next hone =>
    cases hrun
    exact h r _ r' hs hone
  · cases hrun

/-- A repetition takes something if its first step does. -/
theorem Solid.repeating {σ : Type} {step : σ → Rule (σ ⊕ α)} {x : σ}
    (h : Solid g m s (step x) fun _ => True) : Solid g m s (.repeating step x) fun _ => True := by
  intro hg r a r' hs hb hrun hstray _
  rw [Rule.run_repeating, iterate] at hrun
  split at hrun
  · next y r₁ hone =>
    have hon := iterate_getsOn (fun x => (step x).run_getsOn hg) _ y r₁ a r' hrun
    have hleaves := h hg r _ r₁ hs hb hone (hon.stray hstray) trivial
    cases m with
    | source => exact Nat.lt_of_le_of_lt hon.rest.length_le hleaves
    | written => exact Nat.lt_of_lt_of_le hleaves hon.written.length_le
  · next hone =>
    cases hrun
    exact h hg r _ r' hs hb hone hstray trivial
  · cases hrun

/-- A range is left as it is. -/
theorem Rule.run_operators_of_range (braces : Bool) (dots : Stretch) (least : Precedence)
    (r : Reader) : (operators braces (.range dots) least).run g r = .ok (.range dots, r) := by
  rw [operators, run_repeating, iterate, operatorStep_of_range rfl, run_bind_of_ok (run_ahead r)]
  rfl

/-- An operator that comes next is taken unless a range stands on its left. -/
theorem Moves.operators (hg : Tidy g) (braces : Bool) {left : ExprShape} (hleft : left.isRange = false)
    (hs : nextPrecedence s ≠ .jump) : Moves g s (Rule.operators braces left (nextPrecedence s)) := by
  refine .repeating hg ?_
  rw [Rule.operatorStep_of_not_range hleft]
  refine .ahead ?_
  have hlength : ∀ x ∈ infixOperators, 0 < x.1.length := by decide
  rcases Rule.operatorAt_next braces left hs with ⟨x, hx, h⟩ | h | h | h <;> rw [h]
  · exact .ite (fun _ => .bind hg (.of_error fun _ => ⟨_, Rule.run_complain ..⟩))
      fun _ => .bind hg (.operator (hlength x hx))
  · exact .bind hg (.operator (by decide))
  · exact .bind hg (.bind hg (.dots hg))
  · exact .bind hg (.keyword "as")

/-- An operator that comes next leaves a text unless a range stands on its left. -/
theorem Rereads.operators_solid (braces : Bool) {left : ExprShape} (hleft : left.isRange = false)
    (hs : nextPrecedence s ≠ .jump) :
    Solid g m s (Rule.operators braces left (nextPrecedence s)) fun _ => True := by
  refine .repeating ?_
  rw [Rule.operatorStep_of_not_range hleft]
  refine .ahead ?_
  have htext : ∀ x ∈ infixOperators, x.1.toList ≠ [] := by decide
  rcases Rule.operatorAt_next braces left hs with ⟨x, hx, h⟩ | h | h | h <;> rw [h]
  · exact .ite (fun _ => .bind_left (.complain _))
      fun _ => .bind_left (operator_solid x.1 (htext x hx))
  · exact .bind_left (operator_solid "=" (by decide))
  · exact .bind_left (.bind_left dots_solid)
  · exact .bind_left (keyword_solid "as")

end TypedId.Grammar
