import TypedId.Proofs.Grammar.Expressions

/-!
Expressions with blocks are read again, and what stands where one with a block at its end ends all.
-/

namespace TypedId.Grammar

open Lexeme Rule

variable {g : PhraseReader} {m : Rendition} {s p k : List Lexeme} {α β γ : Type}

namespace Rereads

/-! ### Choices and loops -/

/-- An expression is read again up to a block. -/
theorem headOfBlock (hg : Rereadable g) {next next' : Rule α} {keep : α → γ}
    {follow : α → List Lexeme → List Lexeme → Prop}
    (h : ∀ s', Rereads g m s' next next' keep (Bracketed .brace s') follow) :
    Rereads g m s (do let _ ← Rule.call (.expression false); next)
      (do let _ ← Rule.call (.expression false); next') keep (ExprFront s) follow := by
  refine expression_then hg false (Bracketed .brace) h ?_
  rintro _ _ ⟨s', p', rfl, rfl, -⟩
  exact .of_opening .brace s' p'

/-- A choice between blocks is read again. -/
theorem ifExpression (hg : Rereadable g) :
    Rereads g m s Rule.ifExpression Rule.ifExpression id (AtomStart s) fun _ => BlockFollow := by
  let loop (s p : List Lexeme) : Prop := Worded "if" (fun _ _ => True) s p
  unfold Rule.ifExpression
  refine (repeating id (fun _ => loop) (fun _ => loop) (fun x x' s hx => ?_)
    (fun _ _ _ => id) (fun x s => ?_)
    rfl : Rereads g m s _ _ _ (loop s) _).front_mono fun p hp => hp.atom (by decide) (by decide)
  · refine keyword_then "if" ExprFront (fun s₁ => headOfBlock hg fun s₂ => ?_) fun p hp =>
      hp.mono fun _ _ _ => trivial
    refine (block hg : Rereads g m s₂ _ _ _ _ fun _ s p => seesWord "else" p = seesWord "else" s).bind_id
      (fun _ s₃ => ?_) fun p hp => hp
    refine keyword? (fun p hp => hp) (fun _ => ?_) fun hs => pure _ _ rfl fun k hk =>
      (hk.other hs).trans hs.symm
    refine keyword_then "else" Look (fun s₄ => ?_) fun p hp => hp.look.word _
    refine ahead (.sight (fun _ p hp => hp.word _) (fun _ => pure _ _ rfl fun k hk => hk.look) fun _ => ?_)
    refine .sight (fun _ p hp => hp.group _) (fun _ => ?_) fun _ => .expected _
    exact then_pure ((block hg).front_mono fun p hp => hp.look)
  · exact .bind_left (keyword_solid "if")

/-- A loop with a condition is read again. -/
theorem whileExpression (hg : Rereadable g) {follow : Unit → List Lexeme → List Lexeme → Prop} :
    Rereads g m s Rule.whileExpression Rule.whileExpression id (AtomStart s) follow :=
  keyword_then "while" ExprFront (fun _ => headOfBlock hg fun _ => attributedBlock hg) fun _ hp =>
    hp.atom (by decide) (by decide)

/-- A loop over the elements of something is read again. -/
theorem forExpression (hg : Rereadable g) {follow : Unit → List Lexeme → List Lexeme → Prop} :
    Rereads g m s Rule.forExpression Rule.forExpression id (AtomStart s) follow := by
  unfold Rule.forExpression
  refine keyword_then "for" AlternativesFront (fun s₁ => ?_) fun p hp => ?_
  · refine (alternatives hg).bind fun _ _ s₂ _ => ?_
    refine keyword_then "in" ExprFront (fun _ => headOfBlock hg fun _ => attributedBlock hg) ?_
    rintro p ⟨s', p', rfl, rfl, -⟩
    exact ⟨.of_word "in" s' p', rfl⟩
  · refine (hp.mono fun s p h => ?_ : Worded "for" (KeywordFollow "for") s p).atom_of_follow (by decide)
      (by decide) (by decide)
    exact ⟨h.toLook, fun h => absurd h (by decide), fun h => absurd h (by decide), fun _ => h.parameters⟩

/-- A block behind a keyword is read again. -/
theorem keywordBlock (hg : Rereadable g) (w : String) {follow : Unit → List Lexeme → List Lexeme → Prop} :
    Rereads g m s (Rule.keywordBlock w) (Rule.keywordBlock w) id (Worded w (Bracketed .brace) s) follow :=
  keyword_then w (Bracketed .brace) (fun _ => attributedBlock hg) fun _ hp => hp

/-- A loop or block behind a label is read again. -/
theorem labelledExpression (hg : Rereadable g) {follow : Unit → List Lexeme → List Lexeme → Prop} :
    Rereads g m s Rule.labelledExpression Rule.labelledExpression id (AtomStart s) follow := by
  unfold Rule.labelledExpression
  refine lifetime_then (fun _ _ => True) (fun _ _ s₁ => ?_) fun p hp => hp.atom
  refine operator_then ":" Look (fun s₂ => ?_) fun _ _ => trivial
  refine ahead (.sight (fun _ p hp => hp.word _) (fun _ => ?_) fun _ => ?_)
  · exact (whileExpression hg).front_mono fun p hp => hp.toLook
  refine .sight (fun _ p hp => hp.word _) (fun _ => ?_) fun _ => ?_
  · exact (forExpression hg).front_mono fun p hp => hp.toLook
  refine .sight (fun _ p hp => hp.word _) (fun _ => ?_) fun _ => ?_
  · exact (keywordBlock hg "loop").front_mono fun p hp => hp.look
  refine .sight (fun _ p hp => hp.group _) (fun _ => ?_) fun _ => .complain _
  exact (attributedBlock hg).front_mono fun p hp => hp.look

end Rereads

/-! ### Where a block ends all -/

/-- Reads an expression that ends with a block, or an operand. -/
def Rule.statementHead : Rule (ExprShape ⊕ ExprShape) := do
  if seesBlockExpression (← ahead) then return .inl (← call (.atom true))
  else return .inr (← call (.operand true))

/-- How the attributes before an expression are written. -/
def statementPreface : ExprShape ⊕ ExprShape → Preface
  | .inr .kept => .dropped
  | _ => .written

/-- Reads the rest of an expression that may be a statement. -/
def Rule.statementTail : ExprShape ⊕ ExprShape → Rule ExprShape
  | .inl shape => do
    let ls ← ahead
    if (sees "." ls && !sees ".." ls) || sees "?" ls then
      let shape ← trailers shape
      call (.operators true shape .jump)
    else return shape
  | .inr shape => call (.operators true shape .jump)

/-- Reads an expression from behind its attributes, which were written as `text`. -/
def Rule.restOfStatement (text : List Lexeme) : Rule ExprShape := do
  if seesBlockExpression (← ahead) then
    write text
    statementTail (.inl (← call (.atom true)))
  else
    let (shape, body) ← hold (call (.operand true))
    unless shape == .kept do write text
    write body
    call (.operators true shape .jump)

theorem Rule.statementExpression_eq (before : List Lexeme) :
    statementExpression before = hold outerAttributes >>= fun x => restOfStatement (before ++ x.2) := rfl

/-- The attributes are written with what tells whether they are. -/
theorem Rule.run_restOfStatement (hg : Blind g) (text : List Lexeme) (start : View) (r : Reader) :
    (restOfStatement text).run g r =
      (do
        let (b, body) ← hold statementHead
        match statementPreface b with
        | .written => write (text ++ body)
        | .dropped => write body
        | .source => writeSince start
        statementTail b : Rule ExprShape).run g r := by
  rw [restOfStatement, run_bind_of_ok (run_ahead r)]
  have hhead : statementHead.run g r.unwritten =
      (if seesBlockExpression r.rest then Sum.inl <$> call (.atom true)
        else Sum.inr <$> call (.operand true) : Rule (ExprShape ⊕ ExprShape)).run g r.unwritten := by
    rw [statementHead, run_bind_of_ok (run_ahead _)]
    rfl
  cases hs : seesBlockExpression r.rest with
  | true =>
      rw [hs, if_pos rfl, run_map] at hhead
      have hunwritten : (r.take 0 text).unwritten = r.unwritten := rfl
      rw [if_pos rfl, run_bind_of_ok (run_write ..), run_bind,
        run_eq_onto hg (call (.atom true)) (r.take 0 text), hunwritten, run_bind]
      cases hatom : (call (.atom true)).run g r.unwritten with
      | error fault =>
          rw [hatom] at hhead
          rw [run_hold_of_error hhead]
          rfl
      | ok read =>
          obtain ⟨shape, r'⟩ := read
          rw [hatom] at hhead
          have honto : ({ r' with written := r.written } : Reader).take 0 (text ++ r'.written.reverse) =
              r'.onto (r.take 0 text).written := by
            simp [Reader.take, Reader.onto]
          rw [run_hold_of_ok hhead]
          dsimp only [statementPreface]
          rw [run_bind_of_ok (run_write ..), honto]
          rfl
  | false =>
      rw [hs, if_neg Bool.false_ne_true, run_map] at hhead
      rw [if_neg Bool.false_ne_true, run_bind, run_bind]
      cases hoperand : (call (.operand true)).run g r.unwritten with
      | error fault =>
          rw [hoperand] at hhead
          rw [run_hold_of_error hhead, run_hold_of_error hoperand]
      | ok read =>
          obtain ⟨shape, r'⟩ := read
          rw [hoperand] at hhead
          rw [run_hold_of_ok hhead, run_hold_of_ok hoperand]
          cases shape with
          | kept => rfl
          | _ => exact run_write_write ..

/-! ### Shapes of expressions with something behind them -/

/-- A step behind an expression makes another one of it, or leaves it as it is. -/
theorem Rule.of_run_trailersStep {shape : ExprShape} {y : ExprShape ⊕ ExprShape} {r r' : Reader}
    (h : (trailersStep shape).run g r = .ok (y, r')) :
    y = .inl .other ∨ y = .inr shape ∧ r' = r ∧
      (((sees "." r.rest && !sees ".." r.rest) || sees "?" r.rest) && !shape.isRange) = false := by
  have hone : ∀ {rule : Rule Unit} {r : Reader},
      (rule >>= fun _ => pure (Sum.inl ExprShape.other) : Rule (ExprShape ⊕ ExprShape)).run g r =
        .ok (y, r') →
        y = .inl .other := by
    intro rule r h
    obtain ⟨_, _, -, h⟩ := run_bind_eq_ok.mp h
    cases h
    rfl
  rw [trailersStep, run_bind_of_ok (run_ahead r)] at h
  split at h
  · exact .inl (hone h)
  split at h
  · exact .inl (hone h)
  split at h
  · exact .inl (hone h)
  split at h
  · exact .inl (hone h)
  next hpoint _ hquestion =>
    cases h
    refine .inr ⟨rfl, rfl, ?_⟩
    rw [Bool.not_eq_true] at hpoint hquestion
    rw [Bool.and_or_distrib_right, hpoint, hquestion]
    rfl

/-- What stands behind an expression makes another one of it. -/
theorem Rule.of_run_trailers {shape a : ExprShape} {r r' : Reader}
    (h : (trailers shape).run g r = .ok (a, r')) :
    a = .other ∨ a = shape ∧ r' = r ∧
      (((sees "." r.rest && !sees ".." r.rest) || sees "?" r.rest) && !shape.isRange) = false := by
  have hiterate : ∀ (bound : Nat) (x : ExprShape) (r : Reader),
      iterate (fun x => (trailersStep x).run g) bound x r = .ok (a, r') → a = .other ∨ a = x ∧ r' = r ∧
        (((sees "." r.rest && !sees ".." r.rest) || sees "?" r.rest) && !x.isRange) = false := by
    intro bound
    induction bound with
    | zero =>
        intro x r h
        cases h
    | succ bound ih =>
        intro x r h
        rw [iterate] at h
        split at h
        · next y r₁ hrun =>
          obtain hy | ⟨hy, -⟩ := of_run_trailersStep hrun
          · cases hy
            obtain ha | ⟨ha, -⟩ := ih _ _ h
            · exact .inl ha
            · exact .inl ha
          · cases hy
        · next b r₁ hrun =>
          cases h
          obtain hy | ⟨hy, rfl, hstop⟩ := of_run_trailersStep hrun
          · cases hy
          · cases hy
            exact .inr ⟨rfl, rfl, hstop⟩
        · cases h
  rw [trailers_eq, run_repeating] at h
  exact hiterate _ shape r h

/-! ### Statements that are expressions -/

/-- What is compared of an expression that ends with a block, or of an operand. -/
def headPlaceless : ExprShape ⊕ ExprShape → ExprShape ⊕ ExprShape :=
  Sum.map ExprShape.placeless ExprShape.placeless

/-- Behind an expression that ends with a block, or behind an operand. -/
def HeadFollow : ExprShape ⊕ ExprShape → List Lexeme → List Lexeme → Prop
  | .inl shape => StatementFollow shape
  | .inr shape => ShapeFollow shape

theorem StatementFollow.point {a : ExprShape} (h : StatementFollow a s k) :
    (sees "." k && !sees ".." k) = (sees "." s && !sees ".." s) ∧ sees "?" k = sees "?" s := by
  unfold StatementFollow at h
  split at h
  · exact ⟨h.dot, h.question⟩
  · exact ⟨h.dot, h.question⟩
  · exact ⟨h.dot, h.question⟩

theorem ShapeFollow.statement {a : ExprShape} (h : ShapeFollow a s k) : StatementFollow a s k := by
  unfold ShapeFollow at h
  split at h
  · exact h
  · exact h.statement a

theorem StatementFollow.shape {a : ExprShape} (h : StatementFollow a s k) (ha : a ≠ .block) :
    ShapeFollow a s k := by
  unfold StatementFollow at h
  split at h
  · exact (ha rfl).elim
  · exact h
  · exact h.shape a

namespace Rereads

/-- An expression that ends with a block is read again, or an operand. -/
theorem statementHead (hg : Rereadable g) :
    Rereads g m s Rule.statementHead Rule.statementHead headPlaceless (ExprFront s) HeadFollow := by
  unfold Rule.statementHead
  refine ahead (.sight (fun _ p hp => hp.block) (fun _ => ?_) fun _ => ?_)
  · exact (hg.atom m s true).bind fun a a' s' ha => pure _ _ (congrArg Sum.inl ha) fun _ hk => hk
  · exact (hg.operand m s true).bind fun a a' s' ha => pure _ _ (congrArg Sum.inr ha) fun _ hk => hk

/-- The rest of an expression that may be a statement is read again. -/
theorem statementTail (hg : Rereadable g) {b b' : ExprShape ⊕ ExprShape}
    (h : headPlaceless b' = headPlaceless b) (hb : b ≠ .inr .block) :
    Rereads g m s (Rule.statementTail b) (Rule.statementTail b') ExprShape.placeless (HeadFollow b s)
      StatementFollow := by
  cases b with
  | inl shape =>
      cases b' with
      | inr shape' => cases h
      | inl shape' =>
          have hshape : shape'.placeless = shape.placeless := Sum.inl.inj h
          have hrest : Rereads g m s
              (do let shape ← Rule.trailers shape; Rule.call (.operators true shape .jump))
              (do let shape' ← Rule.trailers shape'; Rule.call (.operators true shape' .jump))
              ExprShape.placeless (ShapeFollow shape s) ShapeFollow :=
            (trailers hg hshape).bind fun a a' s' ha => hg.lastOperators m s' true a a' ha
          refine ahead (.sight_mono (ShapeFollow shape s) (fun _ hp => hp.statement)
            (fun hs _ p hp => ?_) (fun hs _ p hp => ?_) (fun hs => ?_) fun _ => ?_)
          · obtain ⟨hdot, hquestion⟩ := hp.statement.point
            rw [hdot, hquestion, hs]
          · obtain ⟨hdot, hquestion⟩ := StatementFollow.point hp
            rw [hdot, hquestion, hs]
          · refine hrest.follow_of_run fun r a r' k hr hrun hk => hk.shape fun ha => ?_
            obtain ⟨a₁, r₁, htrailers, hoperators⟩ := run_bind_eq_ok.mp hrun
            have hblock := hg.operatorsBlock _ _ _ _ _ _ hoperators ha
            obtain rfl | ⟨rfl, -, hstop⟩ := of_run_trailers htrailers
            · cases hblock
            · rw [hr, hs, hblock] at hstop
              cases hstop
          · exact pure _ _ hshape fun _ hk => hk
  | inr shape =>
      cases b' with
      | inl shape' => cases h
      | inr shape' =>
          have hshape : shape'.placeless = shape.placeless := Sum.inr.inj h
          refine (hg.lastOperators m s true shape shape' hshape).follow_of_run fun r a r' k hr hrun hk =>
            hk.shape fun ha => ?_
          exact hb (congrArg Sum.inr (hg.operatorsBlock _ _ _ _ _ _ hrun ha))

end Rereads

/-! ### Cases -/

/-- Reads an expression that may be a statement, with the attributes before it. -/
def Rule.prefacedStatement : Rule ExprShape :=
  prefaced statementPreface outerAttributes statementHead >>= fun x => statementTail x.2

theorem Rule.run_statementExpression_eq (hg : Blind g) (r : Reader) :
    (statementExpression []).run g r = prefacedStatement.run g r := by
  refine (run_bind_of_ok (run_look r) fun _ => statementExpression []).symm.trans
    (run_prefaced_eq r fun a text r₁ _ => ?_)
  exact run_restOfStatement hg text r.toView r₁

theorem statementPreface_eq {b b' : ExprShape ⊕ ExprShape} (h : headPlaceless b' = headPlaceless b) :
    statementPreface b' = statementPreface b := by
  cases b with
  | inl a => cases b' <;> first | rfl | cases h
  | inr a =>
      cases b' with
      | inl a' => cases h
      | inr a' =>
          have ha : a'.placeless = a.placeless := Sum.inr.inj h
          cases a <;> cases a' <;> first | rfl | cases ha

/-- An operand that is read where no block begins has none at its end. -/
theorem Rule.ne_block_of_run_statementHead (hg : Rereadable g) {r r' : Reader} {b : ExprShape ⊕ ExprShape}
    (hhash : sees "#" r.rest = false) (h : statementHead.run g r = .ok (b, r')) : b ≠ .inr .block := by
  rintro rfl
  rw [statementHead, run_bind_of_ok (run_ahead r)] at h
  split at h
  · obtain ⟨a, r₁, -, h⟩ := run_bind_eq_ok.mp h
    cases h
  · next hblock =>
    obtain ⟨a, r₁, hoperand, h⟩ := run_bind_eq_ok.mp h
    cases h
    exact hblock (hg.operandBegins true r .block r' hhash hoperand)

/-- What is kept in its source spelling begins with a word that tells so. -/
theorem Rule.begins_of_run_statementHead (hg : Rereadable g) {r r' : Reader} {b : ExprShape ⊕ ExprShape}
    (hhash : sees "#" r.rest = false) (h : statementHead.run g r = .ok (b, r'))
    (hb : statementPreface b = .dropped) :
    seesWord "become" r.rest = true ∨ seesWord "builtin" r.rest = true := by
  have hkept : b = .inr .kept := by
    unfold statementPreface at hb
    split at hb
    · rfl
    · cases hb
  subst hkept
  rw [statementHead, run_bind_of_ok (run_ahead r)] at h
  split at h
  · obtain ⟨a, r₁, -, h⟩ := run_bind_eq_ok.mp h
    cases h
  · obtain ⟨a, r₁, hoperand, h⟩ := run_bind_eq_ok.mp h
    cases h
    exact hg.operandBegins true r .kept r' hhash hoperand

/-- How the cases of a choice look at their beginning: one comes first, or they end. -/
def CasesFront (s p : List Lexeme) : Prop :=
  (ends s = false ∧ Look s p ∧ Outward p) ∨ Ended s p

theorem CasesFront.look (h : CasesFront s p) : Look s p :=
  h.elim (fun h => h.2.1) Ended.look

theorem CasesFront.outward (h : CasesFront s p) : Outward p := by
  rcases h with ⟨-, -, h⟩ | ⟨d, s', p', rfl, rfl⟩
  · exact h
  · exact outward_of_not_sees rfl

theorem CasesFront.ended (h : CasesFront s p) (hs : ends s = true) : Ended s p :=
  h.resolve_left fun h => Bool.noConfusion (h.1.symm.trans hs)

theorem Look.block (h : Look s p) : BlockFollow s p :=
  ⟨(h.word "else").trans, by rw [h.operator "." rfl, h.dots], h.operator "?" rfl⟩

namespace Rereads

/-- An expression that may be a statement is read again. -/
theorem statementExpression (hg : Rereadable g) :
    Rereads g m s (Rule.statementExpression []) (Rule.statementExpression []) ExprShape.placeless
      (fun _ => True) StatementFollow := by
  refine RereadsBy.congr (?_ : Rereads g m s Rule.prefacedStatement Rule.prefacedStatement _ _ _)
    (fun r _ => run_statementExpression_eq hg.blind r) fun q _ => run_statementExpression_eq hg.blind q
  refine bind_of_run (fun x => x.2 ≠ .inr .block) (fun r x r' _ hrun => ?_)
    (prefaced statementPreface (fun _ _ => statementPreface_eq)
      (fun m => (outerAttributes hg ExprFront).keep_mono fun _ _ _ => rfl)
      (fun m s' => (statementHead hg).mono (fun p hp hs => ⟨hp, (hp.operator "#" rfl).trans hs⟩)
        fun _ _ _ hk => hk.2) (fun _ _ => trivial) ?_ :
      Rereads g m s _ _ (Prod.map (fun _ => ()) headPlaceless) _ _)
    fun x x' s' hx hkeep => statementTail hg (Prod.mk.inj hkeep).2 hx
  · obtain ⟨r₁, r₂, hbefore, hhead, -⟩ := of_run_prefaced hrun
    exact ne_block_of_run_statementHead (r := r₁.unwritten) hg (of_run_while hbefore).1 hhead
  · rintro - r a r₁ b r₂ - hbefore hhead hdropped p hp
    obtain ⟨hhash, -⟩ := of_run_while hbefore
    exact ⟨trivial, [], rfl, fun q hq => run_while_of_not (hq ▸ (hp hhash).2)⟩

/-- What stands behind the arrow of a case is read again. -/
theorem armBody (hg : Rereadable g) :
    Rereads g m s
      (do
        let shape ← Rule.statementExpression []
        if shape == .block || ends (← Rule.ahead) then
          let _ ← Rule.operator? ","
        else Rule.operator ",")
      (do
        let shape ← Rule.statementExpression []
        if shape == .block || ends (← Rule.ahead) then
          let _ ← Rule.operator? ","
        else Rule.operator ",") id (fun _ => True) fun _ => CasesFront := by
  have hcomma : ∀ {s p}, Spelt [','] CasesFront s p → Listed s p :=
    fun h => .inl (h.mono fun _ _ _ => trivial)
  refine (statementExpression hg).bind fun shape shape' s' hshape => ?_
  have hblock : (shape' == .block) = (shape == .block) := by
    cases shape <;> cases shape' <;> first | rfl | cases hshape
  rw [hblock]
  cases hs : shape == .block with
  | true =>
      obtain rfl : shape = .block := eq_of_beq hs
      refine ahead (.ite (fun _ _ _ => by simp) (fun _ => ?_) fun h => absurd rfl h)
      refine (?_ : Rereads g m s' _ _ _ (fun p => Spelt [','] CasesFront s' p ∨ CasesFront s' p)
        _).front_mono
        fun p hp => ?_
      · refine operator? (fun p hp => ?_) (fun _ => ?_) fun _ => ?_
        · rcases hp with hp | hp
          · exact hp.startsWith.2.trans hp.startsWith.1.symm
          · exact hp.look.operator "," rfl
        · exact operator_then "," CasesFront (fun s₂ => pure _ _ rfl fun k hk => hk) fun p hp => .inl hp
        · exact pure _ _ rfl fun k hk => .inr hk
      · exact hp.elim (fun hp => (Listed.look (hcomma hp)).block) fun hp => hp.look.block
  | false =>
      refine (ahead (.sight (fun _ p hp => by rw [Listed.ends hp]) (fun hends => ?_) fun _ => ?_) :
        Rereads g m s' _ _ _ (Listed s') _).front_mono fun p hp => (Listed.expression hp).statement shape
      · refine operator? (fun p hp => (Listed.look hp).operator "," rfl) (fun hsees => ?_) fun _ => ?_
        · obtain ⟨joint, s₂, rfl⟩ := exists_of_sees (c := ',') hsees
          cases hends
        · exact pure _ _ rfl fun k hk => .inr (CasesFront.ended hk hends)
      · exact (operator ",").front_mono fun p hp => hcomma hp

/-- A case of a choice is read again. -/
theorem matchArm (hg : Rereadable g) (hs : ends s = false) :
    Rereads g m s Rule.matchArm Rule.matchArm id (CasesFront s) fun _ => CasesFront := by
  unfold Rule.matchArm
  refine (outerAttributes hg AlternativesFront).bind_id (fun _ s₁ => ?_) fun p hp => .inl ⟨hs, ?_, ?_⟩
  · refine (?_ : Rereads g m s₁ _ _ _ (AlternativesFront s₁) _).front_mono
      fun p hp hs => ⟨hp, (hp.operator "#" rfl).trans hs⟩
    refine (alternatives hg).bind fun _ _ s₂ _ => ?_
    have harrow : ∀ {s}, Rereads g m s (do
          Rule.operator "=>"
          let shape ← Rule.statementExpression []
          if shape == .block || ends (← Rule.ahead) then
            let _ ← Rule.operator? ","
          else Rule.operator ",")
        (do
          Rule.operator "=>"
          let shape ← Rule.statementExpression []
          if shape == .block || ends (← Rule.ahead) then
            let _ ← Rule.operator? ","
          else Rule.operator ",") id (Spelt ['=', '>'] (fun _ _ => True) s) fun _ => CasesFront :=
      operator_then "=>" (fun _ _ => True) (fun s' => armBody hg) fun _ hp => hp
    refine (?_ : Rereads g m s₂ _ _ _
      (fun p => Worded "if" ExprFront s₂ p ∨ Spelt ['=', '>'] (fun _ _ => True) s₂ p) _).front_mono
        fun p hp => ?_
    · refine keyword? (fun p hp => ?_) (fun _ => ?_) fun _ => ?_
      · rcases hp with ⟨_, _, rfl, rfl, -⟩ | ⟨_, _, rfl, rfl, -⟩ <;> rfl
      · refine keyword_then "if" ExprFront (fun s₃ => ?_) fun p hp => .inl hp
        refine expression_then hg true (Spelt ['=', '>'] fun _ _ => True) (fun _ => harrow) ?_
        rintro _ _ ⟨_, _, rfl, rfl, joint, joint', s', p', rfl, rfl, -⟩
        exact .of_arrow s' p' joint joint'
      · exact harrow.front_mono fun p hp => .inr hp
    · rcases hp with ⟨s', p', rfl, rfl, -⟩ | ⟨s', p', rfl, rfl, -⟩
      · exact ⟨.of_word "if" s' p', rfl⟩
      · exact ⟨.of_punct (by decide) _ _ _ _, rfl⟩
  · exact hp.look fun _ _ h => h.toLook
  · rcases hp with hp | ⟨-, hp, -⟩
    · exact hp.expression.outward.2
    · exact outward_of_not_sees hp

theorem matchArm_solid :
    Solid g m s Rule.matchArm fun _ => True := by
  refine .bind_right fun _ s₁ => .bind_right fun _ s₂ => ?_
  have harrow : ∀ {s : List Lexeme} {next : Unit → Rule Unit},
      Solid g m s (Rule.operator "=>" >>= next) fun _ => True :=
    .bind_left (operator_solid "=>" (by decide))
  exact .bind_right fun found s₃ => .ite (fun _ => .bind_right fun _ _ => harrow) fun _ => harrow

/-- A choice by patterns is read again. -/
theorem matchExpression (hg : Rereadable g) {follow : Unit → List Lexeme → List Lexeme → Prop} :
    Rereads g m s Rule.matchExpression Rule.matchExpression id (AtomStart s) follow := by
  refine keyword_then "match" ExprFront (fun s₁ => headOfBlock hg fun s₂ => ?_) fun p hp =>
    hp.atom (by decide) (by decide)
  refine (within (fun _ _ => True) fun s₃ _ => ?_).front_mono fun p hp => hp.bracketed
  refine (innerAttributes hg).bind_id (fun _ s₄ => ?_) fun _ _ => trivial
  refine ((while_ CasesFront (fun s p hp => by rw [hp.look.ends]) (fun s _ => matchArm_solid)
    (fun s hs => matchArm hg (by simpa using hs)) :
    Rereads g m s₄ _ _ _ _ _).bind fun _ _ s₅ _ => pure () () rfl fun k hk _ => .inr hk).front_mono
      fun p hp => hp.outward

end Rereads

end TypedId.Grammar
