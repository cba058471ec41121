import TypedId.Expansion.Code
import TypedId.Proofs.Grammar.Alone

/-!
Literals, arrays and calls are expressions.

Where nothing follows that an expression goes on with (`Follows`), the expression is what an atom and
what stands behind it make (`run_expression_of_atom`). What is read there as it stands (`Copies`) may
be an element of an array and an argument of a call.
-/

namespace TypedId.Grammar

open Lexeme Rule

variable {g : PhraseReader} {r : Reader} {L : String} {rest : List Lexeme} {α : Type}

/-! ### The end of an expression -/

/-- What may follow an expression: nothing, a comma or semicolon, or the end of a group. -/
inductive Follows : List Lexeme → Prop where
  | nil : Follows []
  | comma (joint : Bool) (more : List Lexeme) : Follows (punct ',' joint :: more)
  | semicolon (joint : Bool) (more : List Lexeme) : Follows (punct ';' joint :: more)
  | closing (d : Delimiter) (more : List Lexeme) : Follows (closing d :: more)

/-- Nothing is read behind an expression where it may end. -/
theorem Rule.run_trailersStep_follows (h : Follows r.rest) (shape : ExprShape) :
    (trailersStep shape).run g r = .ok (.inr shape, r) := by
  rw [trailersStep, run_bind_of_ok (run_ahead r)]
  generalize r.rest = ls at h
  cases h <;> rfl

theorem Rule.run_trailers_follows (h : Follows r.rest) (shape : ExprShape) :
    (trailers shape).run g r = .ok (shape, r) := by
  rw [trailers_eq, run_repeating, iterate, run_trailersStep_follows h]

theorem Rule.run_operators_follows (h : Follows r.rest) (braces : Bool) (left : ExprShape)
    (least : Precedence) : (operators braces left least).run g r = .ok (left, r) := by
  rw [operators, run_repeating, iterate, operatorStep, run_bind_of_ok (run_ahead r)]
  have hoperator : infixOperator? r.rest = none := by
    generalize r.rest = ls at h
    cases h <;> rfl
  have hassignment : seesAssignment r.rest = false := by
    generalize r.rest = ls at h
    cases h <;> rfl
  have hrange : sees ".." r.rest = false := by
    generalize r.rest = ls at h
    cases h <;> rfl
  have hcast : seesWord "as" r.rest = false := by
    generalize r.rest = ls at h
    cases h <;> rfl
  cases left <;>
    simp only [hoperator, hassignment, hrange, hcast, Bool.and_false, Bool.false_eq_true, if_false] <;> rfl

/-! ### Operands -/

/-- Whether an expression of that shape is written with its attributes before it. -/
def ExprShape.isPlain : ExprShape → Bool
  | text _ | other => true
  | _ => false

/-- An operand without a sign is an atom and what stands behind it. -/
theorem Rule.run_operand_of_atom {braces : Bool} {x : List Attribute × List Lexeme} {r₁ r₂ r₃ : Reader}
    {a b : ExprShape} (hattributes : (hold outerAttributes).run g r = .ok (x, r₁))
    (hsign : ∀ text ∈ ["&", "*", "!", "-"], sees text r₁.rest = false)
    (hatom : (call (.atom braces)).run g r₁.unwritten = .ok (a, r₂))
    (htrailers : (trailers a).run g r₂ = .ok (b, r₃)) (hb : b.isPlain = true) :
    (operand braces).run g r =
      .ok (b, { r₃ with written := r₃.written ++ (x.2.reverse ++ r₁.written) }) := by
  have hbody : (call (.atom braces) >>= trailers).run g r₁.unwritten = .ok (b, r₃) :=
    (run_bind_of_ok hatom _).trans htrailers
  rw [operand, run_bind_of_ok (run_look r), run_bind_of_ok hattributes]
  dsimp only
  rw [run_bind_of_ok (run_ahead r₁)]
  simp only [hsign "&" (by simp), hsign "*" (by simp), hsign "!" (by simp), hsign "-" (by simp),
    Bool.false_eq_true, if_false, Bool.or_false]
  rw [run_bind_of_ok (run_hold_of_ok hbody)]
  cases b with
  | text | other =>
      dsimp only
      rw [run_bind_of_ok (run_write ..), run_pure]
      simp [Reader.take]
  | _ => cases hb

/-- An expression that ends where its first operand ends. -/
theorem Rule.run_expression_of_atom {depth : Nat} {x : List Attribute × List Lexeme} {r₁ r₂ r₃ : Reader}
    {a b : ExprShape}
    (hattributes : (hold outerAttributes).run (Phrase.readWithin (depth + 1)) r = .ok (x, r₁))
    (hsign : ∀ text ∈ ["&", "*", "!", "-"], sees text r₁.rest = false)
    (hatom : (call (.atom true)).run (Phrase.readWithin (depth + 1)) r₁.unwritten = .ok (a, r₂))
    (htrailers : (trailers a).run (Phrase.readWithin (depth + 1)) r₂ = .ok (b, r₃))
    (hb : b.isPlain = true) (hfollows : Follows r₃.rest) :
    (call (.expression true)).run (Phrase.readWithin (depth + 3)) r =
      .ok (b, { r₃ with written := r₃.written ++ (x.2.reverse ++ r₁.written) }) := by
  have hoperand : (call (.operand true)).run (Phrase.readWithin (depth + 2)) r = _ :=
    run_operand_of_atom hattributes hsign hatom htrailers hb
  show (Rule.expression true).run (Phrase.readWithin (depth + 2)) r = _
  rw [expression, run_bind_of_ok hoperand]
  exact run_operators_follows (r := { r₃ with written := r₃.written ++ (x.2.reverse ++ r₁.written) })
    hfollows true b .jump

/-- Neither attributes nor a sign come next. -/
def Unsigned (ls : List Lexeme) : Prop := ∀ text ∈ ["#", "&", "*", "!", "-"], sees text ls = false

theorem Unsigned.literal (L : String) (k : List Lexeme) : Unsigned (.literal L :: k) := by
  intro text htext
  simp only [List.mem_cons, List.not_mem_nil, or_false] at htext
  obtain rfl | rfl | rfl | rfl | rfl := htext <;> rfl

theorem Unsigned.opening (d : Delimiter) (k : List Lexeme) : Unsigned (.opening d :: k) := by
  intro text htext
  simp only [List.mem_cons, List.not_mem_nil, or_false] at htext
  obtain rfl | rfl | rfl | rfl | rfl := htext <;> rfl

/-- An expression without attributes that ends where its first operand ends. -/
theorem Rule.run_expression_after {depth : Nat} {taken written k : List Lexeme} {r₂ : Reader}
    {a b : ExprShape} (hfront : Unsigned r.rest)
    (hatom : (call (.atom true)).run (Phrase.readWithin (depth + 1)) r.unwritten = .ok (a, r₂))
    (htrailers : (trailers a).run (Phrase.readWithin (depth + 1)) r₂ =
      .ok (b, r.unwritten.after taken written k))
    (hb : b.isPlain = true) (hfollows : Follows k) :
    (call (.expression true)).run (Phrase.readWithin (depth + 3)) r = .ok (b, r.after taken written k) := by
  have hattributes : outerAttributes.run (Phrase.readWithin (depth + 1)) r.unwritten =
      .ok ([], r.unwritten) :=
    run_outerAttributes_of_not_sees (hfront "#" (by simp))
  rw [run_expression_of_atom (run_hold_of_ok hattributes)
    (fun text h => hfront text (List.mem_cons_of_mem _ h)) hatom htrailers hb hfollows]
  simp [Reader.after, Reader.unwritten]

/-! ### Texts that are read as they stand -/

/-- A rule reads a text where an expression may end behind it, and writes it as it stands. -/
structure Rule.Copies (g : PhraseReader) (rule : Rule α) (ls : List Lexeme) (a : α) : Prop where
  begins : ends ls = false
  run : ∀ (r : Reader) (k : List Lexeme), r.rest = ls ++ k → r.stray = none → Follows k →
    rule.run g r = .ok (a, r.after ls ls k)

namespace Rule.Copies

variable {rule : Rule α} {ls : List Lexeme} {a : α}

/-- However much deeper a rule may go. -/
theorem of_le {depth depth' : Nat} (h : rule.Copies (Phrase.readWithin depth) ls a) (hle : depth ≤ depth') :
    rule.Copies (Phrase.readWithin depth') ls a :=
  ⟨h.begins, fun r k hr hstray hk => run_of_le hle (h.run r k hr hstray hk)⟩

/-- Alone, too. -/
theorem read {depth : Nat} (h : rule.Copies (Phrase.readWithin depth) ls a) :
    rule.read ls = .ok (a, (Reader.ofLexemes ls).after ls ls []) :=
  read_of_run_ok (h.run _ [] (List.append_nil ls).symm rfl .nil)

end Rule.Copies

/-! ### Lists -/

/-- Texts with commas between them. -/
def listed (texts : List (List Lexeme)) : List Lexeme := (texts.intersperse [comma]).flatten

theorem length_le_listed {texts : List (List Lexeme)} (h : ∀ ls ∈ texts, ends ls = false) :
    texts.length ≤ (listed texts).length := by
  induction texts with
  | nil => exact Nat.le_refl 0
  | cons ls texts ih =>
      have hls : 0 < ls.length := List.length_pos_iff.mpr fun hnil => by
        have hends := h ls (by simp)
        rw [hnil] at hends
        cases hends
      have hrest := ih fun ls' h' => h ls' (List.mem_cons_of_mem _ h')
      cases texts with
      | nil =>
          simp [listed]
          omega
      | cons ls' texts =>
          simp only [listed, List.intersperse, List.flatten_cons, List.length_append,
            List.length_cons] at hrest ⊢
          omega

/-- One step of reading a list with commas. -/
def Rule.listStep (rule : Rule α) (soFar : List (α × Bool)) : Rule (List (α × Bool) ⊕ List (α × Bool)) := do
  if ends (← ahead) then return .inr soFar.reverse
  else
    let a ← rule
    if ends (← ahead) then return .inr ((a, false) :: soFar).reverse
    else
      operator ","
      return .inl ((a, true) :: soFar)

theorem Rule.commaList_eq (rule : Rule α) : commaList rule = repeating (listStep rule) [] := rfl

theorem Rule.run_listStep_of_ends {rule : Rule α} (h : ends r.rest = true) (soFar : List (α × Bool)) :
    (listStep rule soFar).run g r = .ok (.inr soFar.reverse, r) := by
  rw [listStep, run_bind_of_ok (run_ahead r)]
  simp only [h, if_true]
  rfl

theorem Rule.run_listStep_of_last {rule : Rule α} {a : α} {r' : Reader} (h : ends r.rest = false)
    (hrule : rule.run g r = .ok (a, r')) (h' : ends r'.rest = true) (soFar : List (α × Bool)) :
    (listStep rule soFar).run g r = .ok (.inr ((a, false) :: soFar).reverse, r') := by
  rw [listStep, run_bind_of_ok (run_ahead r)]
  simp only [h, Bool.false_eq_true, if_false]
  rw [run_bind_of_ok hrule, run_bind_of_ok (run_ahead r')]
  simp only [h', if_true]
  rfl

theorem Rule.run_listStep_of_comma {rule : Rule α} {a : α} {r' : Reader} (h : ends r.rest = false)
    (hrule : rule.run g r = .ok (a, r')) (h' : r'.rest = comma :: rest) (soFar : List (α × Bool)) :
    (listStep rule soFar).run g r = .ok (.inl ((a, true) :: soFar), r'.take 1 [comma]) := by
  have hends : ends r'.rest = false := by
    rw [h']
    rfl
  have hcomma : (operator ",").run g r' = .ok ((), r'.take 1 [comma]) :=
    run_operator_of_sees (by rw [h']; rfl)
  rw [listStep, run_bind_of_ok (run_ahead r)]
  simp only [h, Bool.false_eq_true, if_false]
  rw [run_bind_of_ok hrule, run_bind_of_ok (run_ahead r')]
  simp only [hends, Bool.false_eq_true, if_false]
  rw [run_bind_of_ok hcomma]
  rfl

namespace Rule.Copies

variable {rule : Rule α} {ls : List Lexeme} {a : α} {texts : List (List Lexeme)} {d : Delimiter}
  {k : List Lexeme}

theorem iterate_listStep (h : ∀ x ∈ texts, ∃ a, rule.Copies g x a) (bound : Nat)
    (hbound : texts.length < bound) (soFar : List (α × Bool)) (r : Reader)
    (hr : r.rest = listed texts ++ closing d :: k) (hstray : r.stray = none) :
    ∃ found, iterate (fun soFar => (listStep rule soFar).run g) bound soFar r =
      .ok (found, r.after (listed texts) (listed texts) (closing d :: k)) := by
  obtain ⟨bound, rfl⟩ := Nat.exists_eq_succ_of_ne_zero (Nat.ne_zero_of_lt hbound)
  induction texts generalizing bound soFar r with
  | nil =>
      replace hr : r.rest = closing d :: k := hr
      refine ⟨soFar.reverse, ?_⟩
      rw [iterate, run_listStep_of_ends (by rw [hr]; rfl)]
      exact congrArg (fun r => Except.ok (_, r)) (hr ▸ Reader.after_nil hstray).symm
  | cons x texts ih =>
      obtain ⟨a, hx⟩ := h x (by simp)
      have hends : ∀ k, ends (x ++ k) = false := ends_append hx.begins
      cases texts with
      | nil =>
          replace hr : r.rest = x ++ closing d :: k := by simpa [listed] using hr
          have hrun := hx.run r _ hr hstray (.closing d k)
          refine ⟨((a, false) :: soFar).reverse, ?_⟩
          rw [iterate, run_listStep_of_last (hr ▸ hends _) hrun rfl]
          simp [listed]
      | cons y texts =>
          have hlisted : listed (x :: y :: texts) =
              x ++ comma :: listed (y :: texts) := rfl
          rw [hlisted, List.append_assoc] at hr
          have hrun := hx.run r _ hr hstray (.comma _ _)
          obtain ⟨bound, rfl⟩ :=
            Nat.exists_eq_succ_of_ne_zero (Nat.ne_zero_of_lt (Nat.lt_of_succ_lt_succ hbound))
          obtain ⟨found, hmore⟩ := ih (fun z hz => h z (List.mem_cons_of_mem x hz)) ((a, true) :: soFar)
            ((r.after x x _).after [comma] [comma] (listed (y :: texts) ++ closing d :: k))
            rfl rfl bound (Nat.lt_of_succ_lt_succ hbound)
          refine ⟨found, ?_⟩
          rw [iterate, run_listStep_of_comma (hr ▸ hends _) hrun rfl]
          refine hmore.trans ?_
          rw [Reader.after_after, Reader.after_after, hlisted]
          rfl

/-- A list of texts that are read as they stand is read as it stands. -/
theorem run_commaList (h : ∀ x ∈ texts, ∃ a, rule.Copies g x a) (r : Reader)
    (hr : r.rest = listed texts ++ closing d :: k) (hstray : r.stray = none) :
    ∃ found, (commaList rule).run g r =
      .ok (found, r.after (listed texts) (listed texts) (closing d :: k)) := by
  have hlength : texts.length ≤ (listed texts).length :=
    length_le_listed fun x hx => (h x hx).elim fun _ hx => hx.begins
  rw [commaList_eq, run_repeating]
  refine iterate_listStep h _ ?_ [] r hr hstray
  rw [hr, List.length_append]
  omega

end Rule.Copies

/-! ### Literals -/

theorem Rule.run_atom_of_literal (h : r.rest = .literal L :: rest) (braces : Bool) :
    (atom braces).run g r =
      .ok (if seesText r.rest then .text r.position else .other, r.take 1 [.literal L]) := by
  have hliteral : Rule.literal.run g r = .ok ((), r.take 1 [.literal L]) := by
    rw [Rule.literal, run_bind_of_ok (run_ahead r)]
    simp only [h, seesLiteral, if_true]
    rw [run_copy, h]
    rfl
  rw [atom, run_bind_of_ok (run_look r)]
  simp only [h, seesLiteral, if_true]
  rw [run_bind_of_ok hliteral]
  split <;> rfl

/-- A literal is an expression. -/
theorem Rule.run_expression_of_literal (depth : Nat) (h : r.rest = .literal L :: rest)
    (hstray : r.stray = none)
    (hrest : Follows rest) :
    (call (.expression true)).run (Phrase.readWithin (depth + 3)) r =
      .ok (if seesText r.rest then .text r.position else .other,
        r.after [.literal L] [.literal L] rest) := by
  have hatom : (call (.atom true)).run (Phrase.readWithin (depth + 1)) r.unwritten =
      .ok (if seesText r.rest then .text r.position else .other,
        r.unwritten.after [.literal L] [.literal L] rest) := by
    refine (run_atom_of_literal (r := r.unwritten) h true).trans ?_
    exact congrArg (fun r => Except.ok (_, r)) (Reader.take_eq_after [.literal L] _ h hstray)
  exact run_expression_after (h ▸ .literal L rest) hatom (run_trailers_follows hrest _)
    (by split <;> rfl) hrest

/-- Where brackets open, an array begins. -/
theorem Rule.run_atom_of_bracket (h : seesGroup .bracket r.rest = true) (braces : Bool) :
    (atom braces).run g r = (do bracketedExpression; return .other : Rule ExprShape).run g r := by
  obtain ⟨⟨position, ls⟩, written, stray⟩ := r
  obtain ⟨rest, rfl⟩ := Rereads.exists_of_seesGroup h
  rfl

section Elements

variable {texts : List (List Lexeme)} {k : List Lexeme}

/-- Arguments in parentheses. -/
theorem Rule.run_parenthesizedExpression (h : ∀ x ∈ texts, ∃ a, (call (.expression true)).Copies g x a)
    (hr : r.rest = grouped .parenthesis (listed texts) ++ k) (hstray : r.stray = none) :
    parenthesizedExpression.run g r =
      .ok ((), r.after (grouped .parenthesis (listed texts))
        (grouped .parenthesis (listed texts)) k) := by
  have hrest : r.rest = opening .parenthesis ::
      (listed texts ++ closing .parenthesis :: k) := by
    rw [hr, grouped, List.append_assoc]
    rfl
  obtain ⟨found, hlist⟩ := Copies.run_commaList h (d := .parenthesis) (k := k)
    (r.take 1 [opening .parenthesis]) (by rw [Reader.take, hrest]; rfl) hstray
  exact run_within_of_ok (by rw [hrest]; rfl) (run_bind_of_ok hlist _)

/-- Behind the arguments of a call, an expression may end. -/
theorem Rule.run_trailers_of_arguments {shape : ExprShape}
    (h : ∀ x ∈ texts, ∃ a, (call (.expression true)).Copies g x a)
    (hr : r.rest = grouped .parenthesis (listed texts) ++ k) (hstray : r.stray = none)
    (hk : Follows k) :
    (trailers shape).run g r = .ok (.other, r.after (grouped .parenthesis (listed texts))
      (grouped .parenthesis (listed texts)) k) := by
  have hgroup : seesGroup .parenthesis r.rest = true := by rw [hr]; rfl
  have hcall : (trailersStep shape).run g r = .ok (.inl .other,
      r.after (grouped .parenthesis (listed texts))
        (grouped .parenthesis (listed texts)) k) := by
    rw [trailersStep, run_bind_of_ok (run_ahead r)]
    simp only [hgroup, if_true]
    rw [run_bind_of_ok (run_parenthesizedExpression h hr hstray), run_pure]
  obtain ⟨bound, hbound⟩ : ∃ bound, r.rest.length = bound + 1 := by
    rw [hr]
    exact ⟨_, rfl⟩
  rw [trailers_eq, run_repeating, hbound, iterate, hcall]
  dsimp only
  rw [iterate, run_trailersStep_follows hk]

/-- Elements in brackets. -/
theorem Rule.run_bracketedExpression (h : ∀ x ∈ texts, ∃ a, (call (.expression true)).Copies g x a)
    (hr : r.rest = grouped .bracket (listed texts) ++ k) (hstray : r.stray = none) :
    bracketedExpression.run g r =
      .ok ((), r.after (grouped .bracket (listed texts))
        (grouped .bracket (listed texts)) k) := by
  have hrest : r.rest = opening .bracket ::
      (listed texts ++ closing .bracket :: k) := by
    rw [hr, grouped, List.append_assoc]
    rfl
  refine run_within_of_ok (by rw [hrest]; rfl) ?_
  generalize hq : r.take 1 [opening .bracket] = q
  have hqrest : q.rest = listed texts ++ closing .bracket :: k := by
    rw [← hq, Reader.take, hrest]
    rfl
  have hqstray : q.stray = none := hq ▸ hstray
  rw [run_bind_of_ok (run_ahead q)]
  cases texts with
  | nil =>
      replace hqrest : q.rest = closing .bracket :: k := hqrest
      rw [hqrest]
      exact congrArg (fun r => Except.ok (_, r)) (hqrest ▸ Reader.after_nil hqstray).symm
  | cons x texts =>
      obtain ⟨a, hx⟩ := h x (by simp)
      cases texts with
      | nil =>
          replace hqrest : q.rest = x ++ closing .bracket :: k := by simpa [listed] using hqrest
          have hends : ends q.rest = false := hqrest ▸ ends_append hx.begins _
          simp only [hends, Bool.false_eq_true, if_false]
          rw [run_bind_of_ok (hx.run q _ hqrest hqstray (.closing _ _)), run_bind_of_ok (run_ahead _)]
          simp [listed, Reader.after, ends, run_pure]
      | cons y texts =>
          have hlisted : listed (x :: y :: texts) =
              x ++ comma :: listed (y :: texts) := rfl
          rw [hlisted, List.append_assoc] at hqrest
          have hends : ends q.rest = false := hqrest ▸ ends_append hx.begins _
          obtain ⟨found, hlist⟩ := Copies.run_commaList (fun z hz => h z (List.mem_cons_of_mem x hz))
            ((q.after x x _).after [comma] [comma]
              (listed (y :: texts) ++ closing .bracket :: k)) rfl rfl
          simp only [hends, Bool.false_eq_true, if_false]
          rw [run_bind_of_ok (hx.run q _ hqrest hqstray (.comma _ _)), run_bind_of_ok (run_ahead _)]
          have hcomma : (operator ",").run g (q.after x x (comma ::
              (listed (y :: texts) ++ closing .bracket :: k))) =
              .ok ((), (q.after x x _).after [comma] [comma]
                (listed (y :: texts) ++ closing .bracket :: k)) := rfl
          refine (run_bind_of_ok hcomma _).trans ((run_bind_of_ok hlist _).trans ?_)
          rw [run_pure, Reader.after_after, Reader.after_after, hlisted]
          rfl

/-! ### Expressions that are read as they stand -/

/-- A literal that is no text. -/
theorem Rule.Copies.literal (depth : Nat) (htext : Text.literalText? L = none) :
    (call (.expression true)).Copies (Phrase.readWithin (depth + 3)) [.literal L] .other where
  begins := rfl
  run r k hr hstray hk := by
    rw [run_expression_of_literal depth hr hstray hk, hr]
    simp only [List.cons_append, seesText, htext, Option.isSome_none, Bool.false_eq_true, if_false]
    rfl

/-- An array of expressions. -/
theorem Rule.Copies.array {depth : Nat}
    (h : ∀ x ∈ texts, ∃ a, (call (.expression true)).Copies (Phrase.readWithin depth) x a) :
    (call (.expression true)).Copies (Phrase.readWithin (depth + 3))
      (grouped .bracket (listed texts)) .other where
  begins := rfl
  run r k hr hstray hk := by
    have hatom : (call (.atom true)).run (Phrase.readWithin (depth + 1)) r.unwritten =
        .ok (.other, r.unwritten.after (grouped .bracket (listed texts))
          (grouped .bracket (listed texts)) k) := by
      refine (run_atom_of_bracket (r := r.unwritten) (by rw [Reader.unwritten, hr]; rfl) true).trans ?_
      rw [run_bind_of_ok (run_bracketedExpression h (r := r.unwritten) hr hstray), run_pure]
    exact run_expression_after (hr ▸ .opening .bracket _) hatom (run_trailers_follows hk _) rfl hk

/-- What is read as the first part of an expression in front of arguments in parentheses. -/
structure Rule.Callee (depth : Nat) (ls : List Lexeme) (a : ExprShape) : Prop where
  begins : ends ls = false
  unsigned : ∀ k, Unsigned (ls ++ k)
  run : ∀ (r : Reader) (k : List Lexeme), r.rest = ls ++ opening .parenthesis :: k → r.stray = none →
    (call (.atom true)).run (Phrase.readWithin (depth + 1)) r =
      .ok (a, r.after ls ls (opening .parenthesis :: k))

/-- A call with expressions as arguments. -/
theorem Rule.Callee.copies_call {depth : Nat} {ls : List Lexeme} {a : ExprShape}
    (hcallee : Callee depth ls a)
    (h : ∀ x ∈ texts, ∃ a, (call (.expression true)).Copies (Phrase.readWithin (depth + 1)) x a) :
    (call (.expression true)).Copies (Phrase.readWithin (depth + 3))
      (ls ++ grouped .parenthesis (listed texts)) .other where
  begins := ends_append hcallee.begins _
  run r k hr hstray hk := by
    rw [List.append_assoc] at hr
    have htrailers := @run_trailers_of_arguments (Phrase.readWithin (depth + 1))
      (r.unwritten.after ls ls _) texts k a
      h rfl rfl hk
    rw [Reader.after_after] at htrailers
    exact run_expression_after (hr ▸ hcallee.unsigned _)
      (hcallee.run r.unwritten _ hr hstray) htrailers rfl hk

end Elements

/-! ### Calls, arrays and paths as wholes -/

/-- A rule reads all of a text and writes it as it stands. -/
def Rule.Restores (rule : Rule α) (ls : List Lexeme) (a : α) : Prop :=
  rule.read ls = .ok (a, (Reader.ofLexemes ls).after ls ls [])

/-- A text that is one call: an expression that begins with the callee, and behind the callee there
are nothing but its arguments, which are expressions. -/
structure IsCall (ls callee : List Lexeme) (arguments : List (List Lexeme)) : Prop where
  text : ls = callee ++ grouped .parenthesis (listed arguments)
  whole : (call (.expression true)).Restores ls .other
  callee : ∃ shape, (call (.atom true)).read ls =
    .ok (shape, (Reader.ofLexemes ls).after callee callee (grouped .parenthesis (listed arguments)))
  arguments : ∀ ls ∈ arguments, (call (.expression true)).Restores ls .other

/-- A text that is one array of expressions. -/
structure IsArray (ls : List Lexeme) (elements : List (List Lexeme)) : Prop where
  text : ls = grouped .bracket (listed elements)
  whole : (call (.expression true)).Restores ls .other
  atom : (call (.atom true)).Restores ls .other
  elements : ∀ ls ∈ elements, (call (.expression true)).Restores ls .other

/-- A text that is the path to something of a type. -/
structure IsPathOn (ls type : List Lexeme) (shape : TypeShape) (name : String) : Prop where
  text : ls = [punct '<' false] ++ type ++ [punct '>' false, punct ':' true, punct ':' false, word name]
  whole : (qualifiedPath true).Restores ls ⟨1, false, false, true, true⟩
  /-- Behind the opening bracket, the type is read up to the closing one. -/
  selfType : (call (.type true)).read (ls.drop 1) =
    .ok (shape, (Reader.ofLexemes (ls.drop 1)).after type type
    [punct '>' false, punct ':' true, punct ':' false, word name])
  alone : (call (.type true)).Restores type shape

theorem Rule.Callee.isCall {depth : Nat} {ls : List Lexeme} {a : ExprShape} {texts : List (List Lexeme)}
    (hcallee : Callee depth ls a)
    (h : ∀ x ∈ texts, (call (.expression true)).Copies (Phrase.readWithin (depth + 1)) x .other) :
    IsCall (ls ++ grouped .parenthesis (listed texts)) ls texts where
  text := rfl
  whole := (hcallee.copies_call fun x hx => ⟨_, h x hx⟩).read
  callee := ⟨a, read_of_run_ok (hcallee.run _ _ rfl rfl)⟩
  arguments x hx := (h x hx).read

theorem IsArray.of_copies {depth : Nat} {texts : List (List Lexeme)}
    (h : ∀ x ∈ texts, (call (.expression true)).Copies (Phrase.readWithin depth) x .other) :
    IsArray (grouped .bracket (listed texts)) texts where
  text := rfl
  whole := (Copies.array fun x hx => ⟨_, h x hx⟩).read
  atom := by
    have hrun := run_bracketedExpression (r := .ofLexemes (grouped .bracket (listed texts)))
      (fun x hx => ⟨_, h x hx⟩) (List.append_nil _).symm rfl
    refine @read_of_run_ok _ _ (depth + 1) _ _ ((run_atom_of_bracket rfl true).trans ?_)
    rw [run_bind_of_ok hrun, run_pure]
  elements x hx := (h x hx).read

end TypedId.Grammar
