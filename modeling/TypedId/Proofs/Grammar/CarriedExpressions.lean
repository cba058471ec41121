import TypedId.Proofs.Grammar.CarriedTypes

/-!
Patterns, expressions and statements carry over what they take.
-/

namespace TypedId.Grammar

open Lexeme Rule

variable {altered : Prop} {g : PhraseReader} {before : List Lexeme} {r r' : Reader} {α β : Type}

namespace Rule

/-! ### Members -/

/-- A member is a name, or an index that is written in its own spelling. -/
theorem cases_of_run_member {named : Bool} (hrun : member.run g r = .ok (named, r')) :
    (named = true ∧ ∃ n, identifier.run g r = .ok (n, r')) ∨
      (named = false ∧ ∃ text index rest, r.rest = [Lexeme.literal text] ++ rest ∧
        tupleIndex text = .ok index ∧
        r' = r.take 1 [indexLexeme index]) := by
  rw [member, run_bind_of_ok (run_look r)] at hrun
  split at hrun
  · obtain ⟨n, r₁, hidentifier, hrun⟩ := run_bind_eq_ok.mp hrun
    cases hrun
    exact .inl ⟨rfl, n, hidentifier⟩
  split at hrun
  · next text rest hr =>
    split at hrun
    · split at hrun
      · next index hindex =>
        rw [run_bind_of_ok (run_take ..)] at hrun
        cases hrun
        exact .inr ⟨rfl, text, index, rest, hr, hindex, rfl⟩
      · cases hrun
    · rw [run_complain] at hrun
      cases hrun
  · split at hrun
    · cases hrun
    · rw [run_complain] at hrun
      cases hrun
  · rw [run_complain] at hrun
    cases hrun

/-- An index is carried over behind a point, or before a colon. -/
theorem carries_member_then {next : Bool → Rule β}
    (hplace : BehindPoint before ∨ ∀ r b r', (next false).run g r = .ok (b, r') → sees ":" r.rest = true)
    (hnext : ∀ named before, (next named).Carries True g before) :
    (member >>= next).Carries True g before := by
  intro hg r r' b hb hrun hstray
  obtain ⟨named, r₁, hmember, hrest⟩ := run_bind_eq_ok.mp hrun
  rcases cases_of_run_member hmember with ⟨rfl, n, hidentifier⟩ | ⟨rfl, text, index, rest, hr, hindex, rfl⟩
  · have hnamed : (identifier >>= fun _ => next true).run g r = .ok (b, r') := by
      rw [run_bind_of_ok hidentifier]
      exact hrest
    exact (Carries.bind .identifier fun _ => hnext true) hg r r' b hb hnamed hstray
  · have hplace' : BehindPoint before ∨ sees ":" rest = true := by
      refine hplace.imp_right fun h => ?_
      have hsees := h _ _ _ hrest
      rwa [show (r.take 1 [indexLexeme index]).rest = rest by simp [Reader.take, hr]] at hsees
    have hchange : CarriedOver True before [Lexeme.literal text] [indexLexeme index] rest :=
      .change trivial (.index hindex hplace')
    exact Carries.known_then hg hb hrun hstray hmember (.literal text) hr hchange (hnext false _)

/-! ### Ranges -/

/-- The dots of a range in an expression are carried over; three of them are refused there. -/
theorem carries_dots : dots.Carries True g before :=
  .look fun _ => .ite (.bind (.operator _) fun _ _ => .pure _) <| .ite (.expected _) <|
    .ite (.bind (.operator _) fun _ _ => .pure _) (.expected _)

/-- Three dots that are seen stand at the front, the first two joined to what follows. -/
theorem exists_of_seesDots {ls : List Lexeme} (h : sees "..." ls = true) :
    ∃ joint rest, ls = [punct '.' true, punct '.' true, punct '.' joint] ++ rest := by
  obtain ⟨_, _, -, -, -, -, -, hspelt⟩ := Rereads.spelt_of_startsWith h
  obtain ⟨_, _, rfl, -, _, _, rfl, -, joint, _, rest, _, rfl, -⟩ :=
    hspelt .source (fun _ _ => True) [] trivial
  exact ⟨joint, rest, rfl⟩

/-- The end of a range that has to be there begins neither with a comma nor with the end of a group. -/
theorem of_run_patternEnd? (hrun : patternEnd?.run g r = .ok (true, r')) :
    ends r.rest = false ∧ sees "," r.rest = false := by
  rw [patternEnd?, run_bind_of_ok (run_ahead r)] at hrun
  split at hrun
  · cases hrun
  · next h =>
    simp only [List.any_cons, Bool.or_eq_true, not_or, Bool.not_eq_true] at h
    exact ⟨h.1.1.1, h.2.2.2.1⟩

/-- A range that includes its end has one, so that nothing ends where the end is read. -/
theorem of_run_endBehind {between : Dots} {found : Bool}
    (hrun : (endBehind between).run g r = .ok (found, r'))
    (hclosed : between.closed = true) : ends r.rest = false ∧ sees "," r.rest = false := by
  obtain ⟨found', r₁, hend, hrun⟩ := run_bind_eq_ok.mp hrun
  cases found' with
  | true => exact of_run_patternEnd? hend
  | false =>
      rw [hclosed] at hrun
      obtain ⟨_, _, hcomplain, -⟩ := run_bind_eq_ok.mp hrun
      rw [run_complain] at hcomplain
      cases hcomplain

section

variable (hg : Carrying g)
include hg

/-- The end of a range in a pattern is carried over. -/
theorem carries_patternEnd? : patternEnd?.Carries True g before := by
  have hend : ∀ before, (pure true : Rule Bool).Carries True g before := fun _ => .pure _
  refine .ahead fun _ => .ite (.pure _) (.ite (.bind .literal fun _ => hend) (.ite ?_ (.ite ?_ ?_)))
  · exact .bind (carries_qualifiedPath hg _) fun _ => hend
  · exact .bind (.keyword _) fun _ _ => .bind (carries_attributedBlock hg) fun _ => hend
  · exact .bind (.expected _) fun _ => hend

/-- So is it where a range that includes its end needs one. -/
theorem carries_endBehind (between : Dots) : (endBehind between).Carries True g before :=
  .bind (carries_patternEnd? hg) fun _ _ => .ite (.bind (.complain _) fun _ _ => .pure _) (.pure _)

/-- Three dots are written with an equals sign. -/
theorem carries_rangePattern : rangePattern.Carries True g before := by
  have hrest : ∀ between before, (do
      let found ← endBehind between
      return if found then .other else .openRange between.stretch :
        Rule PatternShape).Carries True g before :=
    fun _ _ => .bind (carries_endBehind hg _) fun _ _ => .pure _
  intro ht r r' shape hb hrun hstray
  by_cases hdots : (sees "..." r.rest && !sees "..=" r.rest) = true
  · obtain ⟨joint, rest, hr⟩ := exists_of_seesDots ((Bool.and_eq_true _ _).mp hdots).1
    have hthree : patternDots.run g r =
        .ok (⟨⟨r.position, r.position + 2⟩, true⟩, r.take 3 (Lexeme.operator "..=".toList)) := by
      rw [patternDots, run_bind_of_ok (run_look r), if_pos hdots]
      rfl
    have hend := hrun
    rw [rangePattern, run_bind_of_ok hthree] at hend
    obtain ⟨found, r₁, hbehind, -⟩ := run_bind_eq_ok.mp hend
    have hthere := of_run_endBehind hbehind rfl
    rw [show (r.take 3 (Lexeme.operator "..=".toList)).rest = rest by simp [Reader.take, hr]] at hthere
    have hclosed : Closed [punct '.' true, punct '.' true, punct '.' joint] :=
      (Closed.punct _ _).append ((Closed.punct _ _).append (.punct _ _))
    exact Carries.known_then ht hb hrun hstray hthree hclosed hr
      (.change trivial (.dots _ _ _ _ hthere.1 hthere.2)) (hrest _ _)
  · have hplain : (dots >>= fun between => do
        let found ← endBehind between
        return if found then .other else .openRange between.stretch :
          Rule PatternShape).run g r = .ok (shape, r') := by
      have hpattern : patternDots.run g r = dots.run g r := by
        rw [patternDots, run_bind_of_ok (run_look r), if_neg hdots]
      rw [← hrun, rangePattern, run_bind, run_bind, hpattern]
    exact (Carries.bind carries_dots hrest) ht r r' shape hb hplain hstray

/-- A range without a start is carried over: its dots are read as those of an expression. -/
theorem carries_startlessPattern : startlessPattern.Carries True g before :=
  .bind carries_dots fun _ _ => .bind (carries_endBehind hg _) fun _ _ => .pure _

/-! ### Patterns -/

/-- A pattern with alternatives is carried over, also with the bar before the first. -/
theorem carries_alternatives : alternatives.Carries True g before :=
  .bind (.operator? "|") fun _ _ => .bind (hg.call _ _) fun _ _ =>
    .bind (.while_ fun _ => .bind (.operator "|") fun _ _ => hg.call _ _) fun _ _ => .pure _

/-- The pattern of a field is carried over up to the spelling of an index that names the field. -/
theorem carries_fieldPattern : fieldPattern.Carries True g before := by
  have hrest : ∀ named before, (do
      if sees ":" (← ahead) || !named then
        operator ":"
        let _ ← alternatives
      return false : Rule Bool).Carries True g before := fun _ _ =>
    .ahead fun _ => .ite (.bind (.operator ":") fun _ _ =>
      .bind (carries_alternatives hg) fun _ _ => .pure _) (.pure _)
  refine .bind (.keptIf _ (.bind (.keyword? "box") fun _ _ => .bind (.keyword? "ref") fun _ _ =>
    .bind (.keyword? "mut") fun _ _ => .ite (.bind .identifier fun _ _ => .pure _) ?_)) fun _ _ => .pure _
  refine carries_member_then (.inr fun r b r' hrun => ?_) hrest
  rw [run_bind_of_ok (run_ahead r), Bool.not_false, Bool.or_true, if_pos rfl] at hrun
  obtain ⟨_, _, hcolon, -⟩ := run_bind_eq_ok.mp hrun
  exact (run_operator_eq_ok.mp hcolon).1

/-- The patterns of fields are carried over with the attributes before them, and so are the dots at
their end. -/
theorem carries_fieldPatterns : fieldPatterns.Carries True g before := by
  refine .within (.repeating fun _ _ => .ahead fun _ =>
    .ite (.pure _) (.bind (carries_outerAttributes hg) fun _ _ =>
    .ahead fun _ => .ite (.bind (.operator "..") fun _ _ => .pure _)
      (.bind (carries_fieldPattern hg) fun _ _ => ?_)))
  exact .ahead fun _ => .ite (.pure _) (.bind (.operator ",") fun _ _ => .pure _)

theorem carries_patternList : (commaList alternatives).Carries True g before :=
  .separated (fun _ => .operator ",") fun _ => carries_alternatives hg

/-- A pattern that begins with a path is carried over, be it a macro, a structure, a tuple or the
start of a range. -/
theorem carries_pathPattern : pathPattern.Carries True g before := by
  refine .bind (carries_qualifiedPath hg _) fun _ _ => .ahead fun _ =>
    .ite (.bind carries_macroArguments fun _ _ => .pure _)
      (.ite (.bind (carries_fieldPatterns hg) fun _ _ => .pure _) ?_)
  refine .ite (.bind (.within (.bind (carries_patternList hg) fun _ _ => .pure _)) fun _ _ => .pure _) ?_
  exact .ite (carries_rangePattern hg) (.pure _)

/-- A value is carried over as a pattern, and as the start of a range. -/
theorem carries_valuePattern : valuePattern.Carries True g before :=
  .bind (carries_patternEnd? hg) fun _ _ => .ahead fun _ => .ite (carries_rangePattern hg) (.pure _)

theorem carries_namePattern : namePattern.Carries True g before :=
  .bind (.keyword? "ref") fun _ _ => .bind (.keyword? "mut") fun _ _ => .bind (.identifierOr _) fun _ _ =>
    .bind (.operator? "@") fun _ _ => .ite (.bind (hg.call _ _) fun _ _ => .pure _) (.pure _)

/-- A pattern for the elements of a sequence is carried over. -/
theorem carries_slicePattern : slicePattern.Carries True g before := by
  unfold slicePattern
  refine .within (.bind (.separated (fun _ => .operator ",") fun _ => ?_) fun _ _ => .pure _)
  refine .bind (carries_alternatives hg) fun shape _ => ?_
  cases shape with
  | openRange stretch => exact .fail _
  | other | rest | kept => exact .pure _

/-- A pattern is carried over, whatever it begins with; after `box` its source spelling is kept. -/
theorem carries_pattern : pattern.Carries True g before := by
  have hend : ∀ shape before, (pure shape : Rule PatternShape).Carries True g before := fun _ _ => .pure _
  refine .ahead fun _ => .ite (carries_pathPattern hg) (.ite (.bind (.keyword "_") fun _ => hend _) ?_)
  refine .ite (.bind (.kept (.bind (.keyword "box") fun _ _ => .bind (hg.call _ _) fun _ _ => .pure _))
    fun _ => hend _) ?_
  refine .ite (carries_valuePattern hg) (.ite (.bind (carries_namePattern hg) fun _ => hend _) ?_)
  refine .ite
    (.bind (.operator "&") fun _ _ => .bind (.keyword? "mut") fun _ _ =>
      .bind (hg.call _ _) fun _ => hend _) ?_
  refine .ite (.bind (.within (.bind (carries_patternList hg) fun _ _ => .pure _)) fun _ => hend _) ?_
  exact .ite (.bind (carries_slicePattern hg) fun _ => hend _)
    (.ite (carries_startlessPattern hg) (.expected _))

/-! ### Operators -/

/-- What stands on the right of an operator is carried over with the operators that bind more tightly.
-/
theorem carries_rightOperand (braces : Bool) (precedence : Precedence) :
    (rightOperand braces precedence).Carries True g before :=
  .bind (hg.call _ _) fun _ _ => .repeating fun _ _ => .look fun _ =>
    .ite (.bind (hg.call _ _) fun _ _ => .here fun _ => .ite (.pure _) (.pure _)) (.pure _)

/-- The dots of a range and its end are carried over. -/
theorem carries_restOfRange (braces : Bool) : (restOfRange braces).Carries True g before := by
  have hend : ∀ shape before, (pure shape : Rule ExprShape).Carries True g before := fun _ _ => .pure _
  refine .bind carries_dots fun _ _ => .ahead fun _ => .ite (hend _ _) ?_
  exact .bind (carries_rightOperand hg _ _) fun _ => hend _

omit hg in
/-- Looking at what may not follow a cast takes nothing. -/
theorem carries_checkCast : checkCast.Carries True g before :=
  .ahead fun _ => .ite (.ite (.complain _) (.ite (.complain _) (.complain _))) <| .ite (.complain _) <|
    .ite (.complain _) <| .ite (.complain _) (.pure _)

/-- An infix operator is carried over with what stands on its right: an operand, a type or the end of
a range. -/
theorem carries_operatorStep (braces : Bool) (least : Precedence) (left : ExprShape) :
    (operatorStep braces least left).Carries True g before := by
  refine .ahead fun ls => ?_
  split
  · exact .pure _
  split
  · next text precedence _ =>
    have hright : ∀ before, (do
        operator text
        rightOperand braces precedence
        return .inl (if precedence == .compare then .comparison else .other) :
          Rule (ExprShape ⊕ ExprShape)).Carries
          True g before :=
      fun _ => .bind (.operator _) fun _ _ => .bind (carries_rightOperand hg _ _) fun _ _ => .pure _
    exact .ite (.pure _) (.ite (.bind (.complain _) fun _ => hright) (hright _))
  · refine .ite (.bind (.operator _) fun _ _ => .bind (carries_rightOperand hg _ _) fun _ _ => .pure _)
      (.ite ?_ (.ite ?_ (.pure _)))
    · exact .bind (carries_restOfRange hg _) fun _ _ => .pure _
    · exact .bind (.keyword _) fun _ _ => .bind (hg.call _ _) fun _ _ =>
        .bind carries_checkCast fun _ _ => .pure _

/-- So are all infix operators behind an operand. -/
theorem carries_operators (braces : Bool) (left : ExprShape) (least : Precedence) :
    (operators braces left least).Carries True g before :=
  .repeating fun _ _ => carries_operatorStep hg _ _ _

/-! ### What follows an expression -/

theorem carries_expressionList : (commaList (call (.expression true))).Carries True g before :=
  .separated (fun _ => .operator ",") fun _ => hg.call _ _

theorem carries_parenthesizedExpression : parenthesizedExpression.Carries True g before :=
  .within (.bind (carries_expressionList hg) fun _ _ => .pure _)

/-- What a point selects is carried over behind it. -/
theorem carries_namedMember (hpoint : BehindPoint before) : namedMember.Carries True g before := by
  refine .keyword?_then "await" (.pure _) ?_
  refine carries_member_then (.inl hpoint) fun named _ => .ahead fun ls => ?_
  have harguments : ∀ (turbofish : Bool) before, (do
      if turbofish || (named && seesGroup .parenthesis ls) then
        within .parenthesis do
          let _ ← commaList (call (.expression true)) : Rule Unit).Carries True g before := fun _ _ =>
    .ite (carries_parenthesizedExpression hg) (.pure _)
  exact .ite (.bind (.operator "::") fun _ _ => .bind (carries_angleArguments hg) fun _ => harguments _)
    (harguments _ _)

/-- What stands behind a point is carried over: a keyword, a method, a field, or an index up to its
spelling. -/
theorem carries_afterPoint (hpoint : BehindPoint before) : afterPoint.Carries True g before := by
  intro ht r r' u hb hrun hstray
  cases hminus : sees "-" r.rest with
  | true =>
      obtain ⟨fault, hfault⟩ := run_afterPoint_of_minus (g := g) hminus
      cases hfault.symm.trans hrun
  | false =>
  cases hfraction : seesFraction r.rest with
  | false =>
      rw [run_afterPoint hfraction hminus] at hrun
      exact carries_namedMember hg hpoint ht r r' u hb hrun hstray
  | true =>
      obtain ⟨text, rest, hr, hnumber⟩ : ∃ text rest, r.rest = [Lexeme.literal text] ++ rest ∧
        Number.isFraction text = true := by
        unfold seesFraction at hfraction
        split at hfraction
        · next text rest hr => exact ⟨text, rest, hr, hfraction⟩
        · cases hfraction
      rw [run_afterPoint_of_fraction hr hnumber] at hrun
      split at hrun
      · cases hrun
      next indices hindices =>
      dsimp only at hrun
      have hwritten : (if text.endsWith "." then
            (indices.map indexLexeme).intersperse (punct '.' false) ++ [punct '.' false]
          else (indices.map indexLexeme).intersperse (punct '.' false)) =
          (indices.map indexLexeme).intersperse (punct '.' false) ++
            if text.endsWith "." then [punct '.' false] else [] := by
        split <;> simp
      rw [hwritten] at hrun
      rw [← run_bind_of_ok (run_take 1 _ r) fun _ =>
        (if text.endsWith "." then namedMember else pure () : Rule Unit)]
        at hrun
      refine Carries.known_then ht hb hrun hstray (run_take ..) (.literal text) hr
        (.change trivial (.indices rest hindices hpoint)) ?_
      exact .ite_of (fun htrailing => carries_namedMember hg ⟨before, .inr ⟨text, htrailing, rfl⟩⟩)
        fun _ => .pure _

theorem carries_selection : selection.Carries True g before := by
  rw [selection_eq]
  exact .operator_then rfl fun joint => carries_afterPoint hg ⟨before, .inl ⟨joint, rfl⟩⟩

/-- Calls, selections and the like behind an expression are carried over. -/
theorem carries_trailers (shape : ExprShape) : (trailers shape).Carries True g before := by
  refine .repeating fun _ _ => .ahead fun _ =>
    .ite (.bind (carries_parenthesizedExpression hg) fun _ _ => .pure _) ?_
  refine .ite (.bind (carries_selection hg) fun _ _ => .pure _) (.ite ?_ (.ite ?_ (.pure _)))
  · exact .bind (.within (.bind (hg.call _ _) fun _ _ => .pure _)) fun _ _ => .pure _
  · exact .bind (.operator _) fun _ _ => .pure _

/-! ### Structures, tuples and arrays -/

/-- A field of a structure is carried over with its value, up to the spelling of an index that names
it. -/
theorem carries_fieldValue : fieldValue.Carries True g before := by
  refine .bind (carries_outerAttributes hg) fun _ _ =>
    carries_member_then (.inr fun r b r' hrun => ?_) fun _ _ => ?_
  · rw [run_bind_of_ok (run_ahead r), Bool.not_false, Bool.or_true, if_pos rfl] at hrun
    obtain ⟨_, _, hcolon, -⟩ := run_bind_eq_ok.mp hrun
    exact (run_operator_eq_ok.mp hcolon).1
  · exact .ahead fun _ =>
      .ite (.bind (.operator _) fun _ _ => .bind (hg.call _ _) fun _ _ => .pure _) (.pure _)

/-- The fields of a structure are carried over, and so is the structure that gives the others. -/
theorem carries_fieldValues : fieldValues.Carries True g before := by
  refine .within (.repeating fun _ _ => .ahead fun _ =>
    .ite (.pure _) (.ite (.bind (.operator _) fun _ _ => ?_) ?_))
  · exact .ahead fun _ => .ite (.pure _) (.bind (hg.call _ _) fun _ _ => .pure _)
  · exact .bind (carries_fieldValue hg) fun _ _ => .ahead fun _ => .ite (.pure _)
      (.bind (.operator _) fun _ _ => .pure _)

/-- An expression that begins with a path is carried over, be it a macro, a structure or the path
alone. -/
theorem carries_pathExpression (braces : Bool) : (pathExpression braces).Carries True g before :=
  .bind (carries_qualifiedPath hg _) fun _ _ => .ahead fun _ =>
    .ite (.bind carries_macroArguments fun _ _ => .pure _) <|
    .ite (.bind (carries_fieldValues hg) fun _ _ => .pure _) (.pure _)

/-- Expressions in brackets are carried over, separated by commas or repeated behind a semicolon. -/
theorem carries_bracketedExpression : bracketedExpression.Carries True g before := by
  refine .within (.ahead fun _ => .ite (.pure _) (.bind (hg.call _ _) fun _ _ => .ahead fun _ =>
    .ite (.pure _) (.ite (.bind (.operator _) fun _ _ => ?_) (.ite ?_ (.complain _)))))
  · exact .bind (carries_expressionList hg) fun _ _ => .pure _
  · exact .bind (.operator _) fun _ _ => .bind (hg.call _ _) fun _ _ => .pure _

/-! ### Closures and jumps -/

/-- Attributes may be left out before a thing that may be kept in its source spelling. -/
theorem carriedOver_of_attributes (ht : Tidy g) {as : List Attribute} {taken : List Lexeme}
    (hb : Balanced r.rest)
    (hrun : outerAttributes.run g r = .ok (as, r')) (hstray : r'.stray = none)
    (hrest : r.rest = taken ++ r'.rest)
    (hbehind : beginsKept r'.rest = true) : CarriedOver True before taken [] r'.rest := by
  obtain ⟨taken', _, htaken, -, hrest', -⟩ := exists_of_run_outerAttributes hg before ht hb hrun hstray
  obtain rfl := List.append_cancel_right (hrest.symm.trans hrest')
  exact .change trivial (.attributes before htaken hbehind)

/-- A parameter of a closure is carried over with its type, if it has one. -/
theorem carries_patternBeforeType : patternBeforeType.Carries True g before :=
  .bind (hg.call _ _) fun _ _ => .ahead fun _ => .pure _

/-- The attributes before it are carried over, too, unless the source spelling of its pattern is kept.
-/
theorem carries_closureParameter : closureParameter.Carries True g before := by
  have hpattern : (prefaced parameterPreface outerAttributes patternBeforeType).Carries True g before := by
    refine .prefaced _ (fun _ => carries_outerAttributes hg) (fun _ => carries_patternBeforeType hg) ?_
    intro ht r as r₁ x r₂ taken hb hattributes hpattern hstray hdropped hrest
    obtain ⟨shape, r₃, hshape, htyped⟩ := run_bind_eq_ok.mp hpattern
    rw [run_bind_of_ok (run_ahead r₃), run_pure] at htyped
    cases htyped
    obtain rfl : shape = .kept := by
      rw [parameterPreface] at hdropped
      split at hdropped
      · next h => exact beq_iff_eq.mp ((Bool.and_eq_true _ _).mp h).1
      · cases hdropped
    refine carriedOver_of_attributes hg ht hb hattributes
      (run_stray ht _ r₁.unwritten _ _ hshape hstray) hrest ?_
    have hbox : seesWord "box" r₁.rest = true := hg.box r₁.unwritten _ hshape
    simp [beginsKept, hbox]
  refine .congr (.bind hpattern fun x _ => ?_) run_closureParameter_eq
  exact .ite (.bind (.operator _) fun _ _ => .bind (hg.call _ _) fun _ _ => .pure _) (.pure _)

/-- A closure is carried over with all words that may stand before its bars. -/
theorem carries_closure (braces : Bool) : (closure braces).Carries True g before := by
  refine .bind (carries_binder? hg) fun _ _ => .bind (.keyword? _) fun _ _ => .bind (.keyword? _) fun _ _ =>
    .bind (.keyword? _) fun _ _ => .bind (.keyword? _) fun _ _ => .bind (.operator _) fun _ _ =>
      .bind (.separated (fun _ => .operator ",") fun _ => carries_closureParameter hg) fun _ _ =>
        .bind (.operator _) fun _ _ => ?_
  refine .bind (.operator? _) fun _ _ => .ite (.bind (hg.call _ _) fun _ _ => carries_block hg) ?_
  exact .bind (hg.call _ _) fun _ _ => .pure _

theorem carries_expression? : expression?.Carries True g before :=
  .ahead fun _ => .ite (.bind (hg.call _ _) fun _ _ => .pure _) (.pure _)

/-- A way out of a loop is carried over with its label and its value. -/
theorem carries_breakExpression (braces : Bool) : (breakExpression braces).Carries True g before := by
  have hrest : ∀ before, (do
      let _ ← lifetime?
      let ls ← ahead
      if braces || !seesGroup .brace ls then expression? : Rule Unit).Carries True g before := fun _ =>
    .bind .lifetime? fun _ _ => .ahead fun _ => .ite (carries_expression? hg) (.pure _)
  refine .bind (.keyword _) fun _ _ => .look fun _ =>
    .ite (.bind (hg.call _ _) fun _ _ => .here fun _ => ?_) (hrest _)
  exact .bind (.fail _) fun _ => hrest

/-! ### Blocks -/

/-- A choice between blocks is carried over, one `else` after another. -/
theorem carries_ifExpression : ifExpression.Carries True g before := by
  refine .repeating fun _ _ => .bind (.keyword _) fun _ _ => .bind (hg.call _ _) fun _ _ =>
    .bind (carries_block hg) fun _ _ => ?_
  refine .bind (.keyword? _) fun _ _ =>
    .ite (.ahead fun _ => .ite (.pure _) (.ite ?_ (.expected _))) (.pure _)
  exact .bind (carries_block hg) fun _ _ => .pure _

/-- A loop over elements is carried over. -/
theorem carries_forExpression : forExpression.Carries True g before :=
  .bind (.keyword _) fun _ _ => .bind (carries_alternatives hg) fun _ _ => .bind (.keyword _) fun _ _ =>
    .bind (hg.call _ _) fun _ _ => carries_attributedBlock hg

theorem carries_whileExpression : whileExpression.Carries True g before :=
  .bind (.keyword _) fun _ _ => .bind (hg.call _ _) fun _ _ => carries_attributedBlock hg

theorem carries_keywordBlock (w : String) : (keywordBlock w).Carries True g before :=
  .bind (.keyword _) fun _ _ => carries_attributedBlock hg

/-- A label is carried over with its loop or block. -/
theorem carries_labelledExpression : labelledExpression.Carries True g before := by
  refine .bind .lifetime fun _ _ => .bind (.operator _) fun _ _ => .ahead fun _ =>
    .ite (carries_whileExpression hg) ?_
  exact .ite (carries_forExpression hg) <| .ite (carries_keywordBlock hg _) <|
    .ite (carries_attributedBlock hg) (.complain _)

/-- What may begin a statement and be ended by its own block is carried over. -/
theorem carries_statementHead : statementHead.Carries True g before :=
  .ahead fun _ => .ite (.bind (hg.call _ _) fun _ _ => .pure _) (.bind (hg.call _ _) fun _ _ => .pure _)

/-- What follows such a beginning is carried over. -/
theorem carries_statementTail (head : ExprShape ⊕ ExprShape) :
    (statementTail head).Carries True g before := by
  cases head with
  | inl shape =>
      exact .ahead fun _ => .ite (.bind (carries_trailers hg _) fun _ _ => hg.call _ _) (.pure _)
  | inr shape => exact hg.call _ _

/-- Attributes may be left out before an operand that is kept in its source spelling. -/
theorem carriedOver_of_statementHead (ht : Tidy g) {as : List Attribute}
    {head : ExprShape ⊕ ExprShape} {r₁ r₂ : Reader}
    {taken : List Lexeme} (hb : Balanced r.rest) (hattributes : outerAttributes.run g r = .ok (as, r₁))
    (hhead : statementHead.run g r₁.unwritten = .ok (head, r₂)) (hstray : r₂.stray = none)
    (hdropped : statementPreface head = .dropped) (hrest : r.rest = taken ++ r₁.rest) :
    CarriedOver True before taken [] r₁.rest := by
  refine carriedOver_of_attributes hg ht hb hattributes
    (run_stray ht _ r₁.unwritten _ _ hhead hstray) hrest ?_
  have hhash : sees "#" r₁.unwritten.rest = false := (of_run_while hattributes).1
  have hbegins := begins_of_run_statementHead hg.rereadable hhash hhead hdropped
  rw [show r₁.unwritten.rest = r₁.rest from rfl] at hbegins
  rcases hbegins with h | h <;> simp [beginsKept, h]

/-- An expression where one that ends with a block ends all is carried over up to attributes before
one whose source spelling is kept. -/
theorem carries_statementExpression : (statementExpression []).Carries True g before := by
  have hhead : (prefaced statementPreface outerAttributes statementHead).Carries True g before :=
    .prefaced _ (fun _ => carries_outerAttributes hg) (fun _ => carries_statementHead hg)
      fun ht _ _ _ _ _ _ => carriedOver_of_statementHead hg ht
  exact .congr (.bind hhead fun _ _ => carries_statementTail hg _)
    (run_statementExpression_eq hg.rereadable.blind)

/-- A case of a choice by patterns is carried over with its guard and its comma. -/
theorem carries_matchArm : matchArm.Carries True g before := by
  have hend : ∀ before, (do
      operator "=>"
      let shape ← statementExpression []
      if shape == .block || ends (← ahead) then
        let _ ← operator? ","
      else operator "," : Rule Unit).Carries True g before := fun _ =>
    .bind (.operator _) fun _ _ => .bind (carries_statementExpression hg) fun _ _ => .ahead fun _ =>
      .ite (.bind (.operator? _) fun _ _ => .pure _) (.operator _)
  refine .bind (carries_outerAttributes hg) fun _ _ => .bind (carries_alternatives hg) fun _ _ =>
    .bind (.keyword? _) fun _ _ => .ite (.bind (hg.call _ _) fun _ => hend) (hend _)

theorem carries_matchExpression : matchExpression.Carries True g before :=
  .bind (.keyword _) fun _ _ => .bind (hg.call _ _) fun _ _ => .within <|
    .bind (carries_innerAttributes hg) fun _ _ =>
    .bind (.while_ fun _ => carries_matchArm hg) fun _ _ => .pure _

/-! ### Atoms and operands -/

omit hg in
/-- An expression that the compiler builds in is taken without a look at its arguments and kept in its
source spelling. -/
theorem carries_builtinExpression : builtinExpression.Carries True g before :=
  .kept (.bind (.keyword _) fun _ _ => .bind (.operator _) fun _ _ => .bind .identifier fun _ _ => .group _)

/-- Every expression without operators and without anything behind it is carried over; the cases are
those of `Rule.atom`. -/
theorem carries_atom (braces : Bool) : (atom braces).Carries True g before := by
  have hend : ∀ shape before, (pure shape : Rule ExprShape).Carries True g before := fun _ _ => .pure _
  refine .look fun v => .ite (.bind .literal fun _ => hend _) ?_
  refine .ite (.bind (.keyword _) fun _ _ => .bind (.keyword? _) fun _ _ =>
    .bind (carries_block hg) fun _ => hend _) ?_
  refine .ite (.bind (.keyword _) fun _ _ => .bind (carries_block hg) fun _ => hend _) ?_
  refine .ite (.bind (carries_closure hg _) fun _ => hend _)
    (.ite (.bind carries_builtinExpression fun _ => hend _) ?_)
  refine .ite (carries_pathExpression hg _)
    (.ite (.bind (carries_parenthesizedExpression hg) fun _ => hend _) ?_)
  refine .ite (.bind (carries_breakExpression hg _) fun _ => hend _) ?_
  refine .ite (.bind (.keyword _) fun _ _ => .bind .lifetime? fun _ => hend _) ?_
  refine .ite (.bind (.keyword _) fun _ _ => .bind (carries_expression? hg) fun _ => hend _) ?_
  refine .ite (.bind (.kept (.bind (.keyword _) fun _ _ => .bind (hg.call _ _) fun _ _ => .pure _))
    fun _ => hend _) ?_
  refine .ite (.bind (carries_bracketedExpression hg) fun _ => hend _) (.ite ?_ ?_)
  · exact .bind (.keyword _) fun _ _ => .bind (carries_alternatives hg) fun _ _ =>
      .bind (.operator _) fun _ _ =>
      .bind (hg.call _ _) fun _ _ => .bind (hg.call _ _) fun _ => hend _
  refine .ite (.bind (carries_ifExpression hg) fun _ => hend _)
    (.ite (.bind (carries_whileExpression hg) fun _ => hend _) ?_)
  refine .ite (.bind (carries_forExpression hg) fun _ => hend _)
    (.ite (.bind (carries_keywordBlock hg _) fun _ => hend _) ?_)
  refine .ite (.bind (carries_matchExpression hg) fun _ => hend _) ?_
  refine .ite (.bind (.keyword _) fun _ _ => .bind (carries_expression? hg) fun _ => hend _) ?_
  refine .ite (.bind (carries_keywordBlock hg _) fun _ => hend _)
    (.ite (.bind (carries_keywordBlock hg _) fun _ => hend _) ?_)
  refine .ite (.bind (carries_attributedBlock hg) fun _ => hend _) (.ite (carries_restOfRange hg _) ?_)
  refine .ite (.bind (.keyword _) fun _ => hend _)
    (.ite (.bind (carries_labelledExpression hg) fun _ => hend _) (.complain _))

/-- An expression without infix operators is carried over with the prefix operators before it. -/
theorem carries_operandBody (braces : Bool) : (operandBody braces).Carries True g before := by
  have hborrowed : ∀ raw before, (borrowed braces raw).Carries True g before := by
    refine fun raw _ => .bind (.keyword? _) fun _ _ => ?_
    have hoperand : ∀ before, (do
        let _ ← call (.operand braces)
        return .other : Rule ExprShape).Carries True g before := fun _ =>
          .bind (hg.call _ _) fun _ _ => .pure _
    exact .ite (.bind (.keyword _) fun _ => hoperand) (hoperand _)
  refine .ahead fun _ => .ite (.bind (.operator _) fun _ _ => .ahead fun _ => ?_) (.ite ?_ ?_)
  · exact .ite (.bind (.keyword _) fun _ => hborrowed _) (hborrowed _ _)
  · exact .bind (.operator _) fun _ _ => .bind (hg.call _ _) fun _ _ => .pure _
  · exact .bind (hg.call _ _) fun _ _ => carries_trailers hg _

/-- The attributes before it are carried over, too, unless its source spelling is kept. -/
theorem carries_operand (braces : Bool) : (operand braces).Carries True g before := by
  have hbody : (prefaced operandPreface outerAttributes (operandBody braces)).Carries True g before := by
    refine .prefaced _ (fun _ => carries_outerAttributes hg) (fun _ => carries_operandBody hg _) ?_
    intro _ _ _ _ shape _ _ _ _ _ _ hdropped
    cases shape <;> cases hdropped
  refine .congr (.bind hbody fun x _ => ?_) (run_operand_eq hg.rereadable.blind braces)
  obtain ⟨attributes, shape⟩ := x
  cases shape with
  | range dots => exact .ite (.pure _) (.bind (.fail _) fun _ _ => .pure _)
  | _ => exact .pure _

/-- An expression is carried over. -/
theorem carries_expression (braces : Bool) : (expression braces).Carries True g before :=
  .bind (hg.call _ _) fun _ _ => hg.call _ _

end

end Rule

end TypedId.Grammar
