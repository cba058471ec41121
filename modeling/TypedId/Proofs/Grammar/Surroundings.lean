import TypedId.Grammar.Statement
import TypedId.Proofs.Grammar.Likeness

/-!
What stands around phrases.

Where a phrase ends, the grammar looks whether it goes on. The text that is read again ends there
too if nothing is seen behind it that was not seen before: `PathFollow`, `TypeFollow` and
`ExprFollow` list what is looked for. Most phrases end before one of a few characters that nothing
goes on with, and the lemmas here say so once for each of them.
-/

namespace TypedId.Grammar

open Lexeme Rule

variable {s k : List Lexeme} {rest : List Lexeme → List Lexeme → Prop}

/-! ### Behind paths and types -/

/-- Behind a path: nothing that one goes on with comes new. -/
structure PathFollow (inExpression : Bool) (s k : List Lexeme) : Prop where
  angle : inExpression = false → seesAngle s = false → seesAngle k = false
  colons : sees "::" s = false → sees "::" k = false
  turbofish : (sees "::" s && sees "<" (third s)) = false →
    (sees "::" k && sees "<" (third k)) = false
  further : (sees "::" s && !seesGroup .parenthesis (third s)) = false →
    (sees "::" k && !seesGroup .parenthesis (third k)) = false

/-- Behind a type or bound: nothing that one goes on with comes new. -/
structure TypeFollow (s k : List Lexeme) : Prop extends PathFollow false s k where
  word : ∀ w, seesWord w s = false → seesWord w k = false
  identifier : seesIdentifier s = false → seesIdentifier k = false
  bang : seesBang s = false → seesBang k = false
  plus : sees "+" s = false → sees "+" k = false
  arrow : sees "->" s = false → sees "->" k = false
  parenthesis : seesGroup .parenthesis s = false → seesGroup .parenthesis k = false
  bound : ∀ constant, seesBound constant s = false → seesBound constant k = false
  equals : sees "=" s = false → sees "=" k = false
  arguments : (sees "::" s && seesGroup .parenthesis (third s)) = false →
    (sees "::" k && seesGroup .parenthesis (third k)) = false

/-- Behind an expression: nothing that one goes on with comes new, and an operator is seen where one
was seen. -/
structure ExprFollow (s k : List Lexeme) : Prop extends TypeFollow s k where
  brace : seesGroup .brace k = seesGroup .brace s
  bracket : seesGroup .bracket s = false → seesGroup .bracket k = false
  separate : sees "::" s = false ∧ sees "::" k = false
  unmarked : seesBang s = false ∧ seesBang k = false
  colon : sees ":" k = sees ":" s
  hash : sees "#" k = sees "#" s
  bar : sees "|" k = sees "|" s
  dot : (sees "." k && !sees ".." k) = (sees "." s && !sees ".." s)
  question : sees "?" k = sees "?" s
  operator : infixOperator? k = infixOperator? s
  assignment : seesAssignment k = seesAssignment s
  dots : sees ".." k = sees ".." s
  cast : seesWord "as" k = seesWord "as" s
  lifetime : seesLifetime s = false → seesLifetime k = false
  expression : seesExpression s = false → seesExpression k = false
  range : ∀ braces, endsRange braces s = true → endsRange braces k = true
  sign : sees "=" k = sees "=" s

/-- Behind the use of a macro with braces: nothing that an expression goes on with comes new. -/
structure QuietFollow (s k : List Lexeme) : Prop where
  parenthesis : seesGroup .parenthesis s = false → seesGroup .parenthesis k = false
  bracket : seesGroup .bracket s = false → seesGroup .bracket k = false
  dot : (sees "." k && !sees ".." k) = (sees "." s && !sees ".." s)
  question : sees "?" k = sees "?" s
  operator : infixOperator? s = none → infixOperator? k = none
  assignment : seesAssignment s = false → seesAssignment k = false
  dots : sees ".." s = false → sees ".." k = false
  cast : seesWord "as" s = false → seesWord "as" k = false

/-- Behind an expression with a block at its end. -/
structure BlockFollow (s k : List Lexeme) : Prop where
  other : seesWord "else" s = false → seesWord "else" k = false
  dot : (sees "." k && !sees ".." k) = (sees "." s && !sees ".." s)
  question : sees "?" k = sees "?" s

theorem ExprFollow.quiet (h : ExprFollow s k) : QuietFollow s k :=
  ⟨h.parenthesis, h.bracket, h.dot, h.question, fun hs => h.operator.trans hs,
    fun hs => h.assignment.trans hs, fun hs => h.dots.trans hs, fun hs => h.cast.trans hs⟩

theorem ExprFollow.block (h : ExprFollow s k) : BlockFollow s k :=
  ⟨h.word "else", h.dot, h.question⟩

/-- Behind an expression of a shape, where it may be a statement. -/
def StatementFollow : ExprShape → List Lexeme → List Lexeme → Prop
  | .block => BlockFollow
  | .invocation true => QuietFollow
  | _ => ExprFollow

/-- Behind an expression of a shape. -/
def ShapeFollow : ExprShape → List Lexeme → List Lexeme → Prop
  | .invocation true => QuietFollow
  | _ => ExprFollow

/-- What may follow any expression may follow one of a given shape. -/
theorem ExprFollow.shape (h : ExprFollow s k) (a : ExprShape) : ShapeFollow a s k := by
  unfold ShapeFollow
  split
  · exact h.quiet
  · exact h

/-- So may it follow the beginning of a statement. -/
theorem ExprFollow.statement (h : ExprFollow s k) (a : ExprShape) : StatementFollow a s k := by
  unfold StatementFollow
  split
  · exact h.block
  · exact h.quiet
  · exact h

/-- Whether what follows is no end of a range in a pattern. -/
def endsPattern (ls : List Lexeme) : Bool :=
  ends ls || seesColon ls || seesWord "if" ls || ["|", "=", ",", ";"].any (sees · ls)

/-- Whether a colon comes next that no type follows. -/
def Rule.seesUntyped (ls : List Lexeme) : Bool :=
  sees ":" ls && (seesColon (ls.drop 1) || sees "..." (ls.drop 1))

/-- Behind a pattern: nothing stands there that one goes on with, and a range ends where it ended. -/
structure PatternFollow (s k : List Lexeme) : Prop extends PathFollow true s k where
  separate : (sees "::" s && seesGroup .parenthesis (third s)) = false
  less : sees "<" s = false ∧ sees "<" k = false
  exclamation : sees "!" s = false ∧ sees "!" k = false
  point : sees "." s = false ∧ sees "." k = false
  binding : sees "@" s = false ∧ sees "@" k = false
  brace : seesGroup .brace s = false ∧ seesGroup .brace k = false
  parenthesis : seesGroup .parenthesis s = false ∧ seesGroup .parenthesis k = false
  equals : sees "=" k = sees "=" s
  untyped : seesUntyped s = true → seesUntyped k = true
  stop : endsPattern s = true → endsPattern k = true

/-- What may follow a path may follow one in an expression. -/
theorem PathFollow.inExpression {b : Bool} (h : PathFollow b s k) : PathFollow true s k :=
  ⟨fun h => Bool.noConfusion h, h.colons, h.turbofish, h.further⟩

/-! ### Ends of phrases -/

/-- No type follows the first of two colons. -/
theorem Rule.seesUntyped_colons (joint joint' : Bool) {ls : List Lexeme} (h : sees ":" ls = false) :
    seesUntyped (punct ':' joint :: punct ':' joint' :: ls) = true := by
  have hcolons : sees "::" (punct ':' joint' :: ls) = false := by
    rw [show sees "::" (punct ':' joint' :: ls) = _ from startsWith_cons_punct ..]
    exact Bool.and_eq_false_iff.mpr (.inr h)
  show ((true && !sees "::" (punct ':' joint' :: ls)) || _) = true
  rw [hcolons]
  rfl

/-- A character that no path goes on with. -/
theorem PathFollow.of_punct {c : Char} (hc : c ≠ '<' ∧ c ≠ ':') (b : Bool) (s : List Lexeme)
    (joint : Bool) (k : List Lexeme) : PathFollow b s (punct c joint :: k) := by
  have hless : ∀ cs, startsWith ('<' :: cs) (punct c joint :: k) = false :=
    fun cs => startsWith_punct_of_ne (Ne.symm hc.1) cs joint k
  have hcolon : sees "::" (punct c joint :: k) = false :=
    startsWith_punct_of_ne (Ne.symm hc.2) [':'] joint k
  refine ⟨fun _ _ => ?_, fun _ => hcolon, fun _ => ?_, fun _ => ?_⟩
  · rw [seesAngle, show sees "<" (punct c joint :: k) = false from hless []]
    rfl
  · rw [hcolon]
    rfl
  · rw [hcolon]
    rfl

/-- One of the characters that no type goes on with. -/
theorem TypeFollow.of_punct {c : Char} (hc : c ∈ [',', ';', '>', '|']) (s : List Lexeme) (joint : Bool)
    (k : List Lexeme) : TypeFollow s (punct c joint :: k) := by
  have hpath : PathFollow false s (punct c joint :: k) :=
    .of_punct ⟨by rintro rfl; exact absurd hc (by decide), by rintro rfl; exact absurd hc (by decide)⟩ ..
  simp only [List.mem_cons, List.not_mem_nil, or_false] at hc
  rcases hc with rfl | rfl | rfl | rfl <;>
    exact ⟨hpath, fun _ _ => rfl, fun _ => rfl, fun _ => rfl, fun _ => rfl, fun _ => rfl, fun _ => rfl,
      fun c _ => by cases c <;> rfl, fun _ => rfl, fun _ => rfl⟩

/-- An equals sign may follow a type, whatever it is joined to. -/
theorem TypeFollow.of_equals (joint joint' : Bool) (s k : List Lexeme) :
    TypeFollow (punct '=' joint :: s) (punct '=' joint' :: k) :=
  ⟨.of_punct (by decide) _ _ _ _, fun _ _ => rfl, fun _ => rfl, fun _ => rfl, fun _ => rfl,
    fun _ => rfl, fun _ => rfl, fun c _ => by cases c <;> rfl, id, fun _ => rfl⟩

/-- A plus may follow a type that takes no bounds. -/
theorem TypeFollow.of_plus (joint joint' : Bool) (s k : List Lexeme) :
    TypeFollow (punct '+' joint :: s) (punct '+' joint' :: k) :=
  ⟨.of_punct (by decide) _ _ _ _, fun _ _ => rfl, fun _ => rfl, fun _ => rfl, id, fun _ => rfl,
    fun _ => rfl, fun c _ => by cases c <;> rfl, fun _ => rfl,
    fun _ => rfl⟩

/-- A type that is read again may end a group, whatever followed it before. -/
theorem TypeFollow.of_closing (s : List Lexeme) (d : Delimiter) (k : List Lexeme) :
    TypeFollow s (closing d :: k) :=
  ⟨⟨fun _ _ => rfl, fun _ => rfl, fun _ => rfl, fun _ => rfl⟩, fun _ _ => rfl, fun _ => rfl,
    fun _ => rfl, fun _ => rfl, fun _ => rfl, fun _ => rfl, fun c _ => by cases c <;> rfl, fun _ => rfl,
    fun _ => rfl⟩

/-- So may a block follow it. -/
theorem TypeFollow.of_brace (s k : List Lexeme) : TypeFollow s (opening .brace :: k) :=
  ⟨⟨fun _ _ => rfl, fun _ => rfl, fun _ => rfl, fun _ => rfl⟩, fun _ _ => rfl, fun _ => rfl,
    fun _ => rfl, fun _ => rfl, fun _ => rfl, fun _ => rfl, fun c _ => by cases c <;> rfl, fun _ => rfl,
    fun _ => rfl⟩

/-- Behind both stands the same lexeme, and it is no punctuation. -/
theorem TypeFollow.of_word (w : String) (s k : List Lexeme) :
    TypeFollow (Lexeme.word w :: s) (Lexeme.word w :: k) :=
  ⟨⟨fun _ _ => rfl, fun _ => rfl, fun _ => rfl, fun _ => rfl⟩, fun _ => id, id,
    fun _ => rfl, fun _ => rfl, fun _ => rfl, fun _ => rfl, fun _ => id, fun _ => rfl, fun _ => rfl⟩

theorem TypeFollow.of_opening (d : Delimiter) (s k : List Lexeme) :
    TypeFollow (opening d :: s) (opening d :: k) :=
  ⟨⟨fun _ _ => rfl, fun _ => rfl, fun _ => rfl, fun _ => rfl⟩, fun _ => id, id,
    fun _ => rfl, fun _ => rfl, fun _ => rfl, id, fun _ => id, fun _ => rfl, fun _ => rfl⟩

/-- No colon begins the first text, and as many begin the second. -/
structure Uncoloned (s k : List Lexeme) : Prop where
  single : sees ":" k = sees ":" s
  double : sees "::" k = sees "::" s
  none : seesColon s = false

/-- Texts that look alike have a colon of their own alike. -/
theorem Look.uncoloned (h : Look s k) (hs : seesColon s = false) : Uncoloned s k :=
  ⟨h.char ':', h.colons, hs⟩

/-- A colon that begins what follows, if that does not begin with another. -/
def Coloned : List Lexeme → List Lexeme → Prop :=
  Spelt [':'] Uncoloned

/-- Two colons that are seen are two lexemes, the first joined to the second. -/
theorem exists_of_seesColons {ls : List Lexeme} (h : sees "::" ls = true) :
    ∃ joint ls', ls = punct ':' true :: punct ':' joint :: ls' := by
  cases ls with
  | nil => cases h
  | cons l ls =>
      cases l with
      | punct c joint =>
          replace h : (':' == c && joint && startsWith [':'] ls) = true := h
          simp only [Bool.and_eq_true, beq_iff_eq] at h
          obtain ⟨⟨rfl, rfl⟩, h⟩ := h
          cases ls with
          | nil => cases h
          | cons l ls =>
              cases l with
              | punct c joint =>
                  replace h : (':' == c) = true := h
                  exact ⟨joint, ls, by rw [beq_iff_eq.mp h]⟩
              | _ => cases h
      | _ => cases h

/-- Where `::` is seen, a third colon stands behind it. -/
theorem Coloned.colons (h : Coloned s k) (hk : sees "::" k = true) :
    (∃ joint s', s = punct ':' true :: punct ':' true :: punct ':' joint :: s') ∧
      ∃ joint k', k = punct ':' true :: punct ':' true :: punct ':' joint :: k' := by
  obtain ⟨joint, joint', s', k', rfl, rfl, hjoint, hsingle, hdouble, hcolon⟩ := h
  have hsees : ∀ joint ls, sees "::" (punct ':' joint :: ls) = (joint && startsWith [':'] ls) :=
    fun joint ls => startsWith_cons_punct ':' ':' [] joint ls
  rw [hsees, Bool.and_eq_true] at hk
  have hs' : sees "::" s' = true := by
    have hchar : sees ":" s' = true := hsingle.symm.trans hk.2
    cases hcolons : sees "::" s' with
    | true => rfl
    | false =>
        rw [seesColon, hchar, hcolons] at hcolon
        cases hcolon
  obtain ⟨joint₁, s₁, rfl⟩ := exists_of_seesColons hs'
  obtain ⟨joint₂, k₁, rfl⟩ := exists_of_seesColons (hdouble.trans hs')
  exact ⟨⟨joint₁, s₁, by rw [hjoint hk.1]⟩, joint₂, k₁, by rw [hk.1]⟩

/-- A colon is one of its own unless it is joined to another. -/
theorem Rule.seesColon_punct (joint : Bool) (ls : List Lexeme) :
    seesColon (punct ':' joint :: ls) = !(joint && sees ":" ls) := by
  rw [seesColon, show sees "::" (punct ':' joint :: ls) = _ from startsWith_cons_punct ..]
  rfl

/-- A colon of its own may follow a path. -/
theorem PathFollow.of_coloned (h : Coloned s k) (b : Bool) : PathFollow b s k := by
  have hangle : seesAngle k = false := by
    obtain ⟨_, _, _, k', -, rfl, -⟩ := h
    rfl
  refine ⟨fun _ _ => hangle, fun hs => ?_, fun _ => ?_, fun hs => ?_⟩ <;>
    cases hk : sees "::" k with
    | false => rfl
    | true =>
        obtain ⟨⟨_, _, rfl⟩, _, _, rfl⟩ := h.colons hk
        first
          | cases hs
          | rw [third_colons]; rfl

theorem TypeFollow.of_coloned (h : Coloned s k) : TypeFollow s k := by
  have hpath := PathFollow.of_coloned h false
  have hseparate : (sees "::" k && seesGroup .parenthesis (third k)) = false := by
    cases hk : sees "::" k with
    | false => rfl
    | true =>
        obtain ⟨-, joint, k', rfl⟩ := h.colons hk
        rw [third_colons]
        rfl
  have hbound : ∀ constant ls joint, seesBound constant (punct ':' joint :: ls) =
      sees "::" (punct ':' joint :: ls) := by
    intro constant ls joint
    cases constant <;> simp [seesBound, seesAnyWord, seesGroup, seesWord, seesLifetime, sees, startsWith]
  obtain ⟨joint, joint', s', k', rfl, rfl, -⟩ := h
  refine ⟨hpath, fun _ _ => rfl, fun _ => rfl, fun _ => rfl, fun _ => rfl, fun _ => rfl, fun _ => rfl,
    fun constant => ?_, fun _ => rfl, fun _ => hseparate⟩
  rw [hbound, hbound]
  exact hpath.colons

theorem TypeFollow.of_nil (s : List Lexeme) : TypeFollow s [] :=
  ⟨⟨fun _ _ => rfl, fun _ => rfl, fun _ => rfl, fun _ => rfl⟩, fun _ _ => rfl, fun _ => rfl,
    fun _ => rfl, fun _ => rfl, fun _ => rfl, fun _ => rfl, fun c _ => by cases c <;> rfl, fun _ => rfl,
    fun _ => rfl⟩

/-- An expression may end a group. -/
theorem ExprFollow.of_closing (s : List Lexeme) (d : Delimiter) (k : List Lexeme) :
    ExprFollow (closing d :: s) (closing d :: k) :=
  ⟨.of_closing _ d k, rfl, fun _ => rfl, ⟨rfl, rfl⟩, ⟨rfl, rfl⟩, rfl, rfl, rfl, rfl, rfl, rfl, rfl,
    rfl, rfl, fun _ => rfl, fun _ => rfl, fun _ _ => rfl, rfl⟩

/-- A comma or a semicolon, whatever follows it. -/
theorem ExprFollow.of_punct {c : Char} (hc : c = ',' ∨ c = ';') (joint joint' : Bool)
    (s k : List Lexeme) : ExprFollow (punct c joint :: s) (punct c joint' :: k) := by
  have htype : TypeFollow (punct c joint :: s) (punct c joint' :: k) :=
    .of_punct (by rcases hc with rfl | rfl <;> decide) _ _ _
  rcases hc with rfl | rfl <;>
    exact ⟨htype, rfl, fun _ => rfl, ⟨rfl, rfl⟩, ⟨rfl, rfl⟩, rfl, rfl, rfl, rfl, rfl, rfl, rfl, rfl,
      rfl, fun _ => rfl, fun _ => rfl, fun b _ => by cases b <;> rfl, rfl⟩

/-- A group may follow an expression, if it opens alike in both texts. -/
theorem ExprFollow.of_opening (d : Delimiter) (s k : List Lexeme) :
    ExprFollow (opening d :: s) (opening d :: k) :=
  ⟨.of_opening d s k, rfl, id, ⟨rfl, rfl⟩, ⟨rfl, rfl⟩, rfl, rfl, rfl, rfl, rfl, rfl, rfl, rfl, rfl, id,
    id, fun _ => id, rfl⟩

/-- So may a word. -/
theorem ExprFollow.of_word (w : String) (s k : List Lexeme) :
    ExprFollow (word w :: s) (word w :: k) :=
  ⟨.of_word w s k, rfl, fun _ => rfl, ⟨rfl, rfl⟩, ⟨rfl, rfl⟩, rfl, rfl, rfl, rfl, rfl, rfl, rfl, rfl,
    rfl, fun _ => rfl, id, fun _ => id, rfl⟩

/-- The arrow of a case may follow an expression. -/
theorem ExprFollow.of_arrow (s k : List Lexeme) (joint joint' : Bool) :
    ExprFollow (punct '=' true :: punct '>' joint :: s) (punct '=' true :: punct '>' joint' :: k) :=
  ⟨.of_equals _ _ _ _, rfl, fun _ => rfl, ⟨rfl, rfl⟩, ⟨rfl, rfl⟩, rfl, rfl, rfl, rfl, rfl,
    rfl, rfl, rfl, rfl, fun _ => rfl, fun _ => rfl, fun b _ => by cases b <;> rfl, rfl⟩

/-- A pattern may end groups of two kinds. -/
theorem PatternFollow.of_closing (s : List Lexeme) (d d' : Delimiter) (k : List Lexeme) :
    PatternFollow (closing d :: s) (closing d' :: k) :=
  ⟨⟨fun _ _ => rfl, fun _ => rfl, fun _ => rfl, fun _ => rfl⟩, rfl, ⟨rfl, rfl⟩, ⟨rfl, rfl⟩, ⟨rfl, rfl⟩,
    ⟨rfl, rfl⟩, ⟨rfl, rfl⟩, ⟨rfl, rfl⟩, rfl, fun h => Bool.noConfusion h, fun _ => rfl⟩

/-- One of the characters that end a pattern. -/
theorem PatternFollow.of_punct {c : Char} (hc : c ∈ ['|', ',', ';', '=']) (joint joint' : Bool)
    (s k : List Lexeme) : PatternFollow (punct c joint :: s) (punct c joint' :: k) := by
  have hpath : PathFollow true (punct c joint :: s) (punct c joint' :: k) :=
    .of_punct ⟨by rintro rfl; exact absurd hc (by decide), by rintro rfl; exact absurd hc (by decide)⟩ ..
  simp only [List.mem_cons, List.not_mem_nil, or_false] at hc
  rcases hc with rfl | rfl | rfl | rfl <;>
    exact ⟨hpath, rfl, ⟨rfl, rfl⟩, ⟨rfl, rfl⟩, ⟨rfl, rfl⟩, ⟨rfl, rfl⟩, ⟨rfl, rfl⟩, ⟨rfl, rfl⟩, rfl,
      fun h => Bool.noConfusion h, fun _ => by simp [endsPattern, sees, startsWith]⟩

theorem PatternFollow.of_word (w : String) (s k : List Lexeme) :
    PatternFollow (Lexeme.word w :: s) (Lexeme.word w :: k) :=
  ⟨⟨fun _ _ => rfl, fun _ => rfl, fun _ => rfl, fun _ => rfl⟩, rfl, ⟨rfl, rfl⟩, ⟨rfl, rfl⟩, ⟨rfl, rfl⟩,
    ⟨rfl, rfl⟩, ⟨rfl, rfl⟩, ⟨rfl, rfl⟩, rfl, fun h => Bool.noConfusion h, id⟩

/-- A colon, and behind it as many dots. -/
theorem PatternFollow.of_coloned (h : Coloned s k) (hdots : sees "..." (k.drop 1) = sees "..." (s.drop 1)) :
    PatternFollow s k := by
  have hpath := PathFollow.of_coloned h true
  obtain ⟨joint, joint', s', k', rfl, rfl, hjoint, hsingle, -, hcolon⟩ := h
  have hcolons : ∀ joint ls, sees "::" (punct ':' joint :: ls) = (joint && sees ":" ls) :=
    fun joint ls => startsWith_cons_punct ':' ':' [] joint ls
  refine ⟨hpath, ?_, ⟨rfl, rfl⟩, ⟨rfl, rfl⟩, ⟨rfl, rfl⟩, ⟨rfl, rfl⟩, ⟨rfl, rfl⟩, ⟨rfl, rfl⟩, rfl, ?_, ?_⟩
  · -- A third colon stands behind two of them.
    cases hs : sees ":" s' with
    | false => rw [hcolons, hs, Bool.and_false, Bool.false_and]
    | true =>
        rw [seesColon, hs, Bool.true_and, Bool.not_eq_false'] at hcolon
        obtain ⟨joint₂, s₂, rfl⟩ := exists_of_seesColons hcolon
        rw [third_colons]
        exact Bool.and_false _
  · intro h
    have hs : (seesColon s' || sees "..." s') = true := h
    rw [hcolon, Bool.false_or] at hs
    have hk : sees "..." k' = true := hdots.trans hs
    show (seesColon k' || sees "..." k') = true
    rw [hk, Bool.or_true]
  · have hends : ∀ joint ls, endsPattern (punct ':' joint :: ls) = !(joint && sees ":" ls) := by
      intro joint ls
      rw [← seesColon_punct, endsPattern]
      simp [ends, seesWord, sees, startsWith]
    rw [hends, hends, hsingle]
    cases joint' with
    | false => exact fun _ => rfl
    | true => rw [hjoint rfl]; exact id

/-- A colon, and what stands behind it looks alike and begins with none. -/
theorem PatternFollow.of_colon (h : Spelt [':'] rest s k)
    (hrest : ∀ s k, rest s k → Look s k ∧ seesColon s = false) : PatternFollow s k := by
  refine .of_coloned (h.mono fun s k h => (hrest s k h).1.uncoloned (hrest s k h).2) ?_
  obtain ⟨_, _, s', k', rfl, rfl, -, h⟩ := h
  exact (hrest s' k' h).1.threeDots

end TypedId.Grammar
