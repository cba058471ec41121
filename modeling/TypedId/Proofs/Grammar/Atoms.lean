import TypedId.Proofs.Grammar.Blocks

/-!
All expressions are read again.
-/

namespace TypedId.Grammar

open Lexeme Rule

variable {g : PhraseReader} {m : Rendition} {s p k : List Lexeme} {α β γ : Type}

/-! ### Atoms -/

/-- The word before a block that runs later, or before the words between. -/
theorem Worded.move (h : Worded "move" (Bracketed .brace) s p) : KeywordFollow "async" s p := by
  refine ⟨h.look, fun _ _ => ?_, fun h => absurd h (by decide), fun h => absurd h (by decide)⟩
  obtain ⟨s', p', rfl, rfl, h⟩ := h
  exact h.look

theorem Bracketed.keyword {d : Delimiter} (h : Bracketed d s p) {w : String} (hw : w ≠ "for") :
    KeywordFollow w s p := by
  refine ⟨h.look, fun _ hs => ?_, fun _ hs => ?_, fun hfor => (hw hfor).elim⟩ <;>
    · obtain ⟨s', p', rfl, rfl, -⟩ := h
      cases hs

/-- A number sign behind a word that begins an expression which is built in. -/
theorem Spelt.builtin {rest : List Lexeme → List Lexeme → Prop} (h : Spelt ['#'] rest s p) :
    PathExpressionFollow s p := by
  have hlook := h.look (by decide) fun h => absurd h (by decide)
  obtain ⟨joint, joint', s', p', rfl, rfl, -⟩ := h
  exact ⟨hlook.wordFollow, .of_punct (by decide) _ _ _ _, ⟨rfl, rfl⟩, rfl, fun _ => rfl, fun _ => rfl⟩

namespace Rereads

/-- A group of a kind is read again. -/
theorem group (d : Delimiter) {follow : Unit → List Lexeme → List Lexeme → Prop} :
    Rereads g m s (Rule.group d) (Rule.group d) id (fun p => ∃ e, Enclosed e (follow ()) s p) follow := by
  unfold Rule.group
  refine ahead (.sight (fun _ p ⟨e, hp⟩ => hp.look.group d) (fun _ => ?_) fun _ => .complain _)
  exact anyGroup_then (fun _ => follow ()) (fun _ _ => pure _ _ rfl fun k hk => hk) fun e p hp => ⟨e, hp⟩

/-- An expression that is built in is read again. -/
theorem builtinExpression {follow : Unit → List Lexeme → List Lexeme → Prop} :
    Rereads g m s Rule.builtinExpression Rule.builtinExpression id (AtomStart s) follow := by
  refine kept (keyword_then "builtin" (Spelt ['#'] fun _ _ => True) (fun s₁ => ?_) ?_)
  · refine operator_then "#" (fun _ _ => True) (fun s₂ => ?_) fun p hp => hp
    exact identifier_then (fun _ _ _ => True) (fun w n n' s₃ =>
      (group .parenthesis).front_mono fun _ _ => trivial)
      fun _ _ _ _ => trivial
  · rintro p ⟨s', p', rfl, rfl, h⟩
    exact PathFront.atom (.inl (.single (.bare "builtin" (.inl (by decide)) h.builtin)))

/-- A last call is read again. -/
theorem becomeExpression (hg : Rereadable g) {follow : Unit → List Lexeme → List Lexeme → Prop}
    (hfollow : ∀ s k, follow () s k → ExprFollow s k) :
    Rereads g m s (Rule.kept do Rule.keyword "become"; let _ ← Rule.call (.expression true))
      (Rule.kept do Rule.keyword "become"; let _ ← Rule.call (.expression true)) id (AtomStart s) follow :=
  kept (keyword_then "become" ExprFront (fun _ => lastExpression hg true hfollow) fun _ hp =>
    hp.atom (by decide) (by decide))

/-- A block that runs later is read again. -/
theorem asyncBlock (hg : Rereadable g) {follow : ExprShape → List Lexeme → List Lexeme → Prop} :
    Rereads g m s (do Rule.keyword "async"; let _ ← Rule.keyword? "move"; Rule.block; return ExprShape.other)
      (do Rule.keyword "async"; let _ ← Rule.keyword? "move"; Rule.block; return ExprShape.other)
      ExprShape.placeless (AtomStart s) follow := by
  refine keyword_then "async" (KeywordFollow "async") (fun s₁ => ?_)
    fun p hp => hp.atom_of_follow (by decide) (by decide) (by decide)
  refine keyword? (fun p hp => hp.word "move") (fun _ => ?_) fun _ => ?_
  · exact keyword_then "move" (Bracketed .brace) (fun _ => then_pure (block hg)) fun p hp => hp.move
  · exact (then_pure (block hg)).front_mono fun p hp => hp.keyword (by decide)

/-- A block behind a keyword is read again, and nothing else. -/
theorem keywordBlock_atom (hg : Rereadable g) {w : String} (hw : isIdentifier w = false)
    (hpath : w ∉ ["super", "self", "Self", "crate"]) (hplain : w ≠ "raw" ∧ w ≠ "for")
    {follow : ExprShape → List Lexeme → List Lexeme → Prop} :
    Rereads g m s (do Rule.keywordBlock w; return ExprShape.block)
      (do Rule.keywordBlock w; return ExprShape.block) ExprShape.placeless (AtomStart s) follow := by
  refine (then_pure (keywordBlock hg w)).front_mono fun p hp => ?_
  exact (hp.mono fun _ _ h => h.keyword hplain.2).atom_of_follow hw hpath hplain.1

/-- A literal is read again, and it is told where it stands if it is a text. -/
theorem literalAtom (text : Bool) (n n' : Nat) :
    Rereads g m s (do Rule.literal; return if text then ExprShape.text n else .other)
      (do Rule.literal; return if text then ExprShape.text n' else .other) ExprShape.placeless (AtomStart s)
      StatementFollow := by
  refine literal_then ExprFollow (fun _ => ?_) fun p hp => hp.atom
  cases text with
  | true => exact pure _ _ rfl fun k hk => hk
  | false => exact pure _ _ rfl fun k hk => hk

/-- An atom is read again. -/
theorem atom (hg : Rereadable g) (braces : Bool) :
    Rereads g m s (Rule.atom braces) (Rule.atom braces) ExprShape.placeless
      (AtomStart s) StatementFollow := by
  unfold Rule.atom
  refine look fun n => ?_
  refine .sight (fun _ p hp => hp.literal) (fun _ => ?_) fun _ => ?_
  · refine .congr (.of_forall fun n' p => literalAtom (seesText s) n n') (fun _ _ => rfl) fun q hq => ?_
    rw [hq.text]
  refine .sight (fun _ p hp => hp.asyncBlock) (fun _ => asyncBlock hg) fun _ => ?_
  refine .sight (fun _ p hp => hp.tryBlock) (fun _ => ?_) fun _ => ?_
  · refine keyword_then "try" (Bracketed .brace) (fun _ => then_pure (block hg)) fun p hp => ?_
    exact (hp.mono fun _ _ h => h.keyword (by decide)).atom_of_follow (by decide) (by decide) (by decide)
  refine .sight (fun _ p hp => hp.closure) (fun hs => then_pure (closure hg braces hs)) fun _ => ?_
  refine .sight (fun _ p hp => hp.builtin) (fun _ => then_pure builtinExpression) fun _ => ?_
  refine .sight (fun _ p hp => hp.path) (fun _ => ?_) fun _ => ?_
  · exact (pathExpression hg braces).keep_mono fun _ _ => congrArg _
  refine .sight (fun _ p hp => hp.group _) (fun _ => ?_) fun _ => ?_
  · exact then_pure ((parenthesizedExpression hg).front_mono fun p hp => hp.atom)
  refine .sight (fun _ p hp => hp.word _) (fun _ => then_pure (breakExpression hg braces)) fun _ => ?_
  refine .sight (fun _ p hp => hp.word _) (fun _ => ?_) fun _ => ?_
  · exact continueExpression
  refine .sight (fun _ p hp => hp.word _) (fun _ => ?_) fun _ => ?_
  · exact valueJump hg (by decide) (by decide)
  refine .sight (fun _ p hp => hp.word _) (fun _ => ?_) fun _ => ?_
  · exact then_pure (becomeExpression hg fun _ _ => id)
  refine .sight (fun _ p hp => hp.group _) (fun _ => ?_) fun _ => ?_
  · exact then_pure ((bracketedExpression hg).front_mono fun p hp => hp.atom)
  refine .sight (fun _ p hp => hp.word _) (fun _ => ?_) fun _ => ?_
  · exact letExpression hg braces
  refine .sight (fun _ p hp => hp.word _) (fun _ => then_pure (ifExpression hg)) fun _ => ?_
  refine .sight (fun _ p hp => hp.word _) (fun _ => then_pure (whileExpression hg)) fun _ => ?_
  refine .sight (fun _ p hp => hp.word _) (fun _ => then_pure (forExpression hg)) fun _ => ?_
  refine .sight (fun _ p hp => hp.word _) (fun _ => ?_) fun _ => ?_
  · exact keywordBlock_atom hg (by decide) (by decide) (by decide)
  refine .sight (fun _ p hp => hp.word _) (fun _ => then_pure (matchExpression hg)) fun _ => ?_
  refine .sight (fun _ p hp => hp.word _) (fun _ => ?_) fun _ => ?_
  · exact valueJump hg (by decide) (by decide)
  refine .sight (fun _ p hp => hp.word _) (fun _ => ?_) fun _ => ?_
  · exact keywordBlock_atom hg (by decide) (by decide) (by decide)
  refine .sight (fun _ p hp => hp.word _) (fun _ => ?_) fun _ => ?_
  · exact keywordBlock_atom hg (by decide) (by decide) (by decide)
  refine .sight (fun _ p hp => hp.group _) (fun _ => ?_) fun _ => ?_
  · exact then_pure ((attributedBlock hg).front_mono fun p hp => hp.atom)
  refine .sight (fun _ p hp => hp.dots) (fun _ => ?_) fun _ => ?_
  · exact (restOfRange hg braces).mono (fun p hp => hp.atom) fun a _ _ hk ha => by
      cases a <;> first | exact hk | cases ha
  refine .sight (fun _ p hp => hp.word _) (fun _ => ?_) fun _ => ?_
  · exact keyword_then "_" ExprFollow (fun _ => pure _ _ rfl fun k hk => hk) fun p hp =>
      hp.atom (by decide) (by decide)
  exact .sight (fun _ p hp => hp.lifetime) (fun _ => then_pure (labelledExpression hg)) fun _ => .complain _

end Rereads

/-! ### Operands -/

/-- Whether a borrowing comes next that makes a raw pointer, behind its `&`. -/
def Rule.seesRaw (ls : List Lexeme) : Bool :=
  seesWord "raw" ls && (seesWord "mut" (second ls) || seesWord "const" (second ls))

/-- Reads a borrowing from behind the word for a raw pointer. -/
def Rule.borrowed (braces raw : Bool) : Rule ExprShape := do
  let mutable ← keyword? "mut"
  if raw && !mutable then keyword "const"
  let _ ← call (.operand braces)
  return .other

/-- Reads a borrowing. -/
def Rule.borrowing (braces : Bool) : Rule ExprShape := do
  operator "&"
  let raw := seesRaw (← ahead)
  if raw then
    keyword "raw"
    borrowed braces raw
  else borrowed braces raw

/-- Reads an operand behind a sign. -/
def Rule.signed (braces : Bool) (sign : String) : Rule ExprShape := do
  operator sign
  let _ ← call (.operand braces)
  return .other

/-- The sign that comes next, if one does. -/
def Rule.nextSign (ls : List Lexeme) : String :=
  if sees "*" ls then "*" else if sees "!" ls then "!" else "-"

/-- Reads an operand from behind its attributes. -/
def Rule.operandBody (braces : Bool) : Rule ExprShape := do
  let ls ← ahead
  if sees "&" ls then borrowing braces
  else if sees "*" ls || sees "!" ls || sees "-" ls then signed braces (nextSign ls)
  else trailers (← call (.atom braces))

/-- How the attributes before an operand are written. -/
def operandPreface : ExprShape → Preface
  | .kept => .source
  | _ => .written

/-- Attributes may not stand before a range that begins with its dots. -/
def Rule.checkRange : List Attribute × ExprShape → Rule ExprShape
  | (attributes, .range dots) => do
    unless attributes.isEmpty do fail ⟨dots, .attributesOnRange, false⟩
    return .range dots
  | (_, shape) => return shape

/-- Reads an operand with its attributes. -/
def Rule.prefacedOperand (braces : Bool) : Rule ExprShape :=
  prefaced operandPreface outerAttributes (operandBody braces) >>= checkRange

theorem Rule.of_run_borrowed {braces raw : Bool} {r r' : Reader} {a : ExprShape}
    (h : (borrowed braces raw).run g r = .ok (a, r')) : a = .other := by
  obtain ⟨found, _, -, h⟩ := run_bind_eq_ok.mp h
  dsimp only at h
  split at h
  · obtain ⟨_, _, -, h⟩ := run_bind_eq_ok.mp h
    obtain ⟨_, _, -, h⟩ := run_bind_eq_ok.mp h
    cases h
    rfl
  · obtain ⟨_, _, -, h⟩ := run_bind_eq_ok.mp h
    cases h
    rfl

theorem Rule.of_run_borrowing {braces : Bool} {r r' : Reader} {a : ExprShape}
    (h : (borrowing braces).run g r = .ok (a, r')) : a = .other := by
  obtain ⟨_, r₁, -, h⟩ := run_bind_eq_ok.mp h
  rw [run_bind_of_ok (run_ahead r₁)] at h
  dsimp only at h
  split at h
  · obtain ⟨_, _, -, h⟩ := run_bind_eq_ok.mp h
    exact of_run_borrowed h
  · exact of_run_borrowed h

theorem Rule.of_run_signed {braces : Bool} {sign : String} {r r' : Reader} {a : ExprShape}
    (h : (signed braces sign).run g r = .ok (a, r')) : a = .other := by
  obtain ⟨_, _, -, h⟩ := run_bind_eq_ok.mp h
  obtain ⟨_, _, -, h⟩ := run_bind_eq_ok.mp h
  cases h
  rfl

/-- Attributes that are written before an operand of no certain shape are written with it. -/
theorem Rule.run_write_operand (hg : Blind g) {rule : Rule ExprShape}
    (hrule : ∀ r a r', rule.run g r = .ok (a, r') → a = .other) (attributes : List Attribute)
    (text : List Lexeme) (start : View) (r : Reader) :
    (do write text; rule : Rule ExprShape).run g r =
      (do
        let (b, body) ← hold rule
        match operandPreface b with
        | .written => write (text ++ body)
        | .dropped => write body
        | .source => writeSince start
        checkRange (attributes, b) : Rule ExprShape).run g r := by
  rw [run_write_then hg, run_bind, run_bind]
  cases hhold : (hold rule).run g r with
  | error fault => rfl
  | ok read =>
      obtain ⟨⟨b, body⟩, r₁⟩ := read
      obtain ⟨a, r₂, hrun, hx, -⟩ := run_hold_eq_ok.mp hhold
      obtain rfl : b = .other := (Prod.mk.inj hx).1.trans (hrule _ _ _ hrun)
      rfl

theorem Rule.run_operandBody (braces : Bool) (r : Reader) :
    (operandBody braces).run g r =
      (if sees "&" r.rest then borrowing braces
        else if sees "*" r.rest || sees "!" r.rest || sees "-" r.rest then signed braces (nextSign r.rest)
        else do trailers (← call (.atom braces))).run g r :=
  run_bind_of_ok (run_ahead r) _

theorem Rule.run_operand_eq (hg : Blind g) (braces : Bool) (r : Reader) :
    (operand braces).run g r = (prefacedOperand braces).run g r := by
  refine run_prefaced_eq r fun attributes text r₁ hbefore => ?_
  have hbody : ∀ {rule : Rule ExprShape},
      (if sees "&" r₁.rest then borrowing braces
        else if sees "*" r₁.rest || sees "!" r₁.rest || sees "-" r₁.rest then
          signed braces (nextSign r₁.rest)
        else do trailers (← call (.atom braces))) = rule →
      (hold (operandBody braces)).run g r₁ = (hold rule).run g r₁ := fun h =>
    run_hold_congr ((run_operandBody braces r₁.unwritten).trans (congrArg (run g · _) h))
  rw [run_bind_of_ok (run_ahead r₁)]
  split
  · next hborrow =>
    have hother : ∀ r a r', (borrowing braces).run g r = .ok (a, r') → a = .other :=
      fun _ _ _ => of_run_borrowing
    refine (run_write_operand hg hother attributes text r.toView r₁).trans ?_
    rewrite [run_bind, run_bind, hbody (if_pos hborrow)]
    rfl
  split
  · next hborrow hsign =>
    have hother : ∀ r a r', (signed braces (nextSign r₁.rest)).run g r = .ok (a, r') → a = .other :=
      fun _ _ _ => of_run_signed
    refine (run_write_operand hg hother attributes text r.toView r₁).trans ?_
    rewrite [run_bind, run_bind, hbody ((if_neg hborrow).trans (if_pos hsign))]
    rfl
  · next hborrow hsign =>
    rw [run_bind, run_bind, hbody ((if_neg hborrow).trans (if_neg hsign))]
    cases hhold : (hold (do trailers (← call (.atom braces)))).run g r₁ with
    | error fault => rfl
    | ok read =>
        obtain ⟨⟨shape, body⟩, r₂⟩ := read
        cases shape with
        | range dots =>
            cases attributes with
            | nil =>
                -- No attributes were read, so none are written.
                obtain ⟨_, r₃, hrun, hx, -⟩ := run_hold_eq_ok.mp hbefore
                obtain ⟨rfl, rfl⟩ := Prod.mk.inj hx
                rw [(of_run_while hrun).2 rfl]
                rfl
            | cons first others => rfl
        | _ => rfl

/-! ### Operands behind signs -/

/-- How a borrowing looks behind its `&`, and behind the word for a raw pointer. -/
def MutableFront (raw : Bool) (s p : List Lexeme) : Prop :=
  Worded "mut" ExprFront s p ∨
    if raw then Worded "const" ExprFront s p else seesWord "mut" s = false ∧ ExprFront s p

theorem MutableFront.mutable {raw : Bool} (h : MutableFront raw s p) :
    seesWord "mut" p = seesWord "mut" s := by
  rcases h with h | h
  · exact h.look.word "mut"
  · cases raw with
    | true => exact Worded.look h |>.word "mut"
    | false => exact h.2.word "mut"

/-- A borrowing that makes no raw pointer, behind its `&`. -/
theorem MutableFront.borrowing (h : MutableFront false s p) (hs : seesRaw s = false) :
    Look s p ∧ seesRaw p = seesRaw s := by
  rcases h with h | ⟨-, h⟩
  · refine ⟨h.look, ?_⟩
    obtain ⟨s', p', rfl, rfl, -⟩ := h
    rfl
  · refine ⟨h.toLook, ?_⟩
    rw [hs, seesRaw, h.word]
    cases hraw : seesWord "raw" s with
    | false => rfl
    | true =>
        rw [seesRaw, hraw, Bool.true_and, Bool.or_eq_false_iff] at hs
        rw [h.raw hraw "mut" (by decide) hs.1, h.raw hraw "const" (by decide) hs.2]
        rfl

/-- The word for a raw pointer behind the `&` of a borrowing. -/
theorem Worded.borrowing (h : Worded "raw" (MutableFront true) s p) : Look s p ∧ seesRaw p = seesRaw s := by
  refine ⟨h.look, ?_⟩
  obtain ⟨_, _, rfl, rfl, ⟨s', p', rfl, rfl, -⟩ | ⟨s', p', rfl, rfl, -⟩⟩ := h <;> rfl

namespace Rereads

/-- An operand is read again behind a sign. -/
theorem signedOperand (hg : Rereadable g) (braces : Bool) :
    Rereads g m s (do let _ ← Rule.call (.operand braces); return ExprShape.other)
      (do let _ ← Rule.call (.operand braces); return ExprShape.other) ExprShape.placeless (ExprFront s)
      ShapeFollow :=
  (hg.operand m s braces).bind fun shape _ _ _ => pure _ _ rfl fun _ hk => ExprFollow.shape hk shape

theorem borrowed (hg : Rereadable g) (braces raw : Bool) :
    Rereads g m s (Rule.borrowed braces raw) (Rule.borrowed braces raw) ExprShape.placeless
      (MutableFront raw s) ShapeFollow := by
  unfold Rule.borrowed
  refine keyword? (fun p hp => hp.mutable) (fun _ => ?_) fun hs => ?_
  · refine keyword_then "mut" ExprFront (fun s₁ => ?_) fun p hp => .inl hp
    rw [Bool.not_true, Bool.and_false]
    exact signedOperand hg braces
  · cases raw with
    | true => exact keyword_then "const" ExprFront (fun s₁ => signedOperand hg braces) fun p hp => .inr hp
    | false => exact (signedOperand hg braces).front_mono fun p hp => .inr ⟨hs, hp⟩

/-- A borrowing is read again. -/
theorem borrowing (hg : Rereadable g) (braces : Bool) :
    Rereads g m s (Rule.borrowing braces) (Rule.borrowing braces) ExprShape.placeless (ExprFront s)
      ShapeFollow := by
  refine operator_then "&" (fun s p => Look s p ∧ seesRaw p = seesRaw s) (fun s₁ => ?_) fun p hp =>
    (hp.mono fun _ _ h => h.1).sign (by decide)
  have hborrowed : ∀ raw, seesRaw s₁ = raw →
      Rereads g m s₁ (if raw then do Rule.keyword "raw"; Rule.borrowed braces raw else
        Rule.borrowed braces raw)
        (if raw then do Rule.keyword "raw"; Rule.borrowed braces raw else Rule.borrowed braces raw)
        ExprShape.placeless (fun p => Look s₁ p ∧ seesRaw p = seesRaw s₁) ShapeFollow := by
    intro raw hs
    cases raw with
    | true =>
        exact keyword_then "raw" (MutableFront true) (fun _ => borrowed hg braces true)
          fun p hp => hp.borrowing
    | false => exact (borrowed hg braces false).front_mono fun p hp => hp.borrowing hs
  refine ahead ((hborrowed _ rfl).congr (fun _ _ => rfl) fun q hq => ?_)
  rw [hq.2]

/-- An operand behind a sign is read again. -/
theorem signed (hg : Rereadable g) (braces : Bool) {c : Char} (sign : String) (hsign : sign.toList = [c])
    (hc : c ∈ ['*', '!', '-']) :
    Rereads g m s (Rule.signed braces sign) (Rule.signed braces sign) ExprShape.placeless (ExprFront s)
      ShapeFollow := by
  refine operator_then sign ExprFront (fun s₁ => signedOperand hg braces) fun p hp => ?_
  rw [hsign] at hp
  simp only [List.mem_cons, List.not_mem_nil, or_false] at hc
  rcases hc with rfl | rfl | rfl
  · exact (hp.mono fun _ _ h => h.toLook).sign (by decide)
  · exact (hp.mono fun _ _ h => h.toLook).sign (by decide)
  · exact hp.minus

/-- An operand is read again from behind its attributes. -/
theorem operandBody (hg : Rereadable g) (braces : Bool) :
    Rereads g m s (Rule.operandBody braces) (Rule.operandBody braces) ExprShape.placeless (ExprFront s)
      ShapeFollow := by
  unfold Rule.operandBody
  refine ahead (.sight (fun _ p hp => hp.operator "&" rfl) (fun _ => borrowing hg braces) fun _ => ?_)
  refine .sight (fun _ p hp => ?_) (fun _ => ?_) fun _ => ?_
  · rw [hp.operator "*" rfl, hp.operator "!" rfl, hp.operator "-" rfl]
  · have hsigned : Rereads g m s (Rule.signed braces (nextSign s)) (Rule.signed braces (nextSign s))
        ExprShape.placeless (ExprFront s) ShapeFollow := by
      rw [nextSign]
      split
      · exact signed hg braces "*" rfl (by decide)
      split
      · exact signed hg braces "!" rfl (by decide)
      · exact signed hg braces "-" rfl (by decide)
    refine hsigned.congr (fun _ _ => rfl) fun q hq => ?_
    rw [nextSign, hq.operator "*" rfl, hq.operator "!" rfl]
    rfl
  · exact (hg.atom m s braces).bind fun shape shape' s' h =>
      (trailers hg h).front_mono fun p hp => hp.statement

end Rereads

/-! ### Operands with attributes -/

theorem operandPreface_eq {a a' : ExprShape} (h : a'.placeless = a.placeless) :
    operandPreface a' = operandPreface a := by
  cases a <;> cases a' <;> first | rfl | cases h

theorem operandPreface_ne (a : ExprShape) : operandPreface a ≠ .dropped := by
  cases a <;> exact Preface.noConfusion

theorem Attributed.expression (h : Attributed ExprFront s p) : ExprFront s p :=
  h.elim (fun h => h.expression) fun h => h.2.2

theorem Rule.checkRange_eq {attributes : List Attribute} {a b : ExprShape} {r r' : Reader}
    (h : (checkRange (attributes, a)).run g r = .ok (b, r')) : b = a ∧ r' = r := by
  cases a with
  | range dots =>
      cases attributes with
      | nil => cases h; exact ⟨rfl, rfl⟩
      | cons first others => cases h
  | _ => cases h; exact ⟨rfl, rfl⟩

namespace Rereads

/-- Attributes do not stand before a range that begins with its dots, in either text. -/
theorem checkRange (attributes : List Attribute) {a a' : ExprShape} (h : a'.placeless = a.placeless) :
    Rereads g m s (Rule.checkRange (attributes, a)) (Rule.checkRange (attributes, a')) ExprShape.placeless
      (ShapeFollow a s) ShapeFollow := by
  cases a <;> cases a' <;> try cases h
  case range dots dots' =>
    cases attributes with
    | nil => exact pure _ _ rfl fun _ hk => hk
    | cons first others => exact .of_error fun r _ => ⟨_, rfl⟩
  all_goals exact pure _ _ rfl fun _ hk => hk

/-- An operand is read again. -/
theorem operand (hg : Rereadable g) (braces : Bool) :
    Rereads g m s (Rule.operand braces) (Rule.operand braces) ExprShape.placeless
      (ExprFront s) ShapeFollow := by
  refine RereadsBy.congr
    (?_ : Rereads g m s (Rule.prefacedOperand braces) (Rule.prefacedOperand braces) _ _ _)
    (fun r _ => run_operand_eq hg.blind braces r) fun q _ => run_operand_eq hg.blind braces q
  refine (prefaced operandPreface (fun _ _ => operandPreface_eq) (fun m => outerAttributes hg ExprFront)
    (fun m s' => (operandBody hg braces).mono (fun p hp hs => ⟨hp, (hp.operator "#" rfl).trans hs⟩)
      fun _ _ _ hk => hk.2) (fun p hp => hp.expression)
    (fun _ _ _ _ b _ _ _ _ hb => (operandPreface_ne b hb).elim) :
    Rereads g m s _ _ (Prod.map id ExprShape.placeless) _ _).bind ?_
  rintro ⟨attributes, a⟩ ⟨attributes', a'⟩ s' hkeep
  obtain ⟨rfl, ha⟩ := Prod.mk.inj hkeep
  exact checkRange attributes' ha

/-- An expression is read again. -/
theorem expression (hg : Rereadable g) (braces : Bool) :
    Rereads g m s (Rule.expression braces) (Rule.expression braces) ExprShape.placeless (ExprFront s)
      ShapeFollow :=
  (hg.operand m s braces).bind fun a a' s' h => hg.lastOperators m s' braces a a' h

end Rereads

/-! ### What shapes tell of beginnings -/

section Begins

variable {ls : List Lexeme} {pre : View → Prop}

open Ensures

theorem begins_of_joined {a : ExprShape} {s : List Lexeme} (h : a.joined = true) : a.Begins s := by
  cases a with
  | block | text | kept => cases h
  | _ => trivial

/-- Only some kinds of expressions have a block at their end or are kept in their source spelling. -/
theorem ensures_atomBegins (hg : Stays g ls) (braces : Bool) {start : View} :
    Ensures g ls (· = start) (Rule.atom braces) fun a _ => a.Begins start.rest := by
  -- Most kinds of expressions are read by one rule, which does not matter.
  have hone : ∀ {β : Type} {rule : Rule β} {shape : ExprShape} {pre : View → Prop}, shape.Begins start.rest →
      Ensures g ls pre (rule >>= fun _ => Pure.pure shape) fun a _ => a.Begins start.rest :=
    fun h => skip hg fun _ => .pure fun _ _ => h
  have hblock : ∀ {β : Type} {rule : Rule β} {pre : View → Prop}, seesBlockExpression start.rest = true →
      Ensures g ls pre (rule >>= fun _ => Pure.pure ExprShape.block) fun a _ => a.Begins start.rest :=
    fun h => skip hg fun _ => .pure fun _ _ => h
  refine look fun v hv hstart => ?_
  subst hstart
  refine .ite (fun _ => skip hg fun _ => .pure fun _ _ => ?_) fun _ =>
    .ite (fun _ => skip hg fun _ => skip hg fun _ => hone trivial) fun _ =>
    .ite (fun h => skip hg fun _ => hblock ?_) fun _ =>
    .ite (fun _ => hone trivial) fun hclosure =>
    .ite (fun h => hone ?_) fun _ =>
    .ite (fun _ => ?_) fun _ =>
    .ite (fun _ => hone trivial) fun _ =>
    .ite (fun _ => hone trivial) fun _ =>
    .ite (fun _ => skip hg fun _ => hone trivial) fun _ =>
    .ite (fun _ => skip hg fun _ => hone trivial) fun _ =>
    .ite (fun h => hone ?_) fun _ =>
    .ite (fun _ => hone trivial) fun _ =>
    .ite (fun _ => skip hg fun _ => skip hg fun _ => skip hg fun _ => skip hg fun _ => hone trivial) fun _ =>
    .ite (fun h => hblock ?_) fun _ =>
    .ite (fun h => hblock ?_) fun _ =>
    .ite (fun h => hblock ?_) fun _ =>
    .ite (fun h => hblock ?_) fun _ =>
    .ite (fun h => hblock ?_) fun _ =>
    .ite (fun _ => skip hg fun _ => hone trivial) fun _ =>
    .ite (fun h => hblock ?_) fun _ =>
    .ite (fun h => hblock ?_) fun _ =>
    .ite (fun h => hblock ?_) fun _ =>
    .ite (fun _ => ?_) fun _ =>
    .ite (fun _ => hone trivial) fun _ =>
    .ite (fun h => hblock ?_) fun _ => complain
  · split
    · assumption
    · trivial
  · obtain ⟨htry, hbrace⟩ := Bool.and_eq_true_iff.mp h
    simp [seesBlockExpression, htry, hbrace]
  · exact .inr (Bool.and_eq_true_iff.mp h).1
  · exact skip hg fun shape => Ensures.ahead fun _ _ _ =>
      .ite (fun _ => skip hg fun _ => .pure fun _ _ => trivial) fun _ =>
        .ite (fun _ => hone trivial) fun _ => .pure fun _ _ => trivial
  · exact .inl h
  · simp [seesBlockExpression, h]
  · simp [seesBlockExpression, h]
  · have hgeneral : seesGeneralClosure v.rest = false := by
      simp only [seesClosure, Bool.or_eq_true, not_or, Bool.not_eq_true] at hclosure
      exact hclosure.1.1.1.2
    simp [seesBlockExpression, h, hgeneral]
  · simp [seesBlockExpression, h]
  · simp [seesBlockExpression, h]
  · simp [seesBlockExpression, h]
  · have hbrace : seesGroup .brace (second v.rest) = true := by
      simp only [seesClosure, h, Bool.or_eq_true, not_or, Bool.not_eq_true, Bool.true_and] at hclosure
      simpa using hclosure.1.2
    simp [seesBlockExpression, h, hbrace]
  · simp [seesBlockExpression, h]
  · exact (ensures_restOfRange hg braces).weaken fun a _ h => begins_of_joined h
  · simp [seesBlockExpression, h]

end Begins

theorem Rule.begins_of_run_atom (hg : ∀ ls, Stays g ls) {braces : Bool} {r r' : Reader} {a : ExprShape}
    (h : (Rule.atom braces).run g r = .ok (a, r')) : a.Begins r.rest :=
  Ensures.of_run (Q := fun v a _ => a.Begins v.rest) (fun ls _ => ensures_atomBegins (hg ls) braces) h

theorem Rule.block_of_run_operators (hg : ∀ ls, Stays g ls) {braces : Bool} {left : ExprShape}
    {least : Precedence} {r r' : Reader} {a : ExprShape}
    (h : (Rule.operators braces left least).run g r = .ok (a, r')) (ha : a = .block) : left = .block := by
  subst ha
  exact (joined_of_run_operators hg h).elim nofun fun h => h.1.symm

/-- Without attributes, an operand begins as the atom in it does. -/
theorem Rule.begins_of_run_operand (hg : Rereadable g) {braces : Bool} {r r' : Reader} {a : ExprShape}
    (hhash : sees "#" r.rest = false) (h : (Rule.operand braces).run g r = .ok (a, r')) :
    a.Begins r.rest := by
  rw [run_operand_eq hg.blind] at h
  obtain ⟨⟨attributes, b⟩, r₁, hrun, hcheck⟩ := run_bind_eq_ok.mp h
  obtain ⟨rfl, rfl⟩ := checkRange_eq hcheck
  obtain ⟨r₂, r₃, hbefore, hbody, -⟩ := of_run_prefaced hrun
  dsimp only at hbody
  have hnone : (outerAttributes).run g r.unwritten = .ok ([], r.unwritten) := run_while_of_not hhash
  obtain rfl : r₂ = r.unwritten := (Prod.mk.inj (Except.ok.inj (hbefore.symm.trans hnone))).2
  rw [run_operandBody] at hbody
  split at hbody
  · obtain rfl := of_run_borrowing hbody
    exact trivial
  split at hbody
  · obtain rfl := of_run_signed hbody
    exact trivial
  · obtain ⟨b, r₄, hatom, htrailers⟩ := run_bind_eq_ok.mp hbody
    obtain rfl | ⟨rfl, -⟩ := of_run_trailers htrailers
    · exact trivial
    · have hbegins := hg.atomBegins _ _ _ _ hatom
      exact hbegins

end TypedId.Grammar
