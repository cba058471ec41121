import TypedId.Proofs.Grammar.Items
import TypedId.Proofs.Grammar.Solidity

/-!
Statements are read again, and so are blocks of them.
-/

namespace TypedId.Grammar

open Lexeme Rule

variable {g : PhraseReader} {m : Rendition} {s p k : List Lexeme} {α β γ δ : Type}

/-! ### Declarations of variables -/

/-- Reads the end of the declaration of a variable, behind a value that was written as `text`. -/
def Rule.endOfLocal (text : List Lexeme) : Rule Unit := do
  unless text.getLast? == some (closing .brace) do
    if ← keyword? "else" then block
  operator ";"

/-- Reads the declaration of a variable from behind its type. -/
def Rule.localValue : Rule Unit := do
  if ← operator? "=" then
    let (_, text) ← hold (call (.expression true))
    write text
    endOfLocal text
  else operator ";"

/-- Reads the declaration of a variable from behind its pattern. -/
def Rule.restOfLocal : Rule Unit := do
  if ← operator? ":" then
    let _ ← call (.type true)
    localValue
  else localValue

theorem Rule.localStatement_eq :
    localStatement = (do
      keyword "let"
      let _ ← call .pattern
      restOfLocal) := rfl

/-- What stands behind the pattern of a variable. -/
def LocalFront (s p : List Lexeme) : Prop :=
  Spelt [':'] (TypeFront False) s p ∨ ValueEnd s p

theorem ValueEnd.pattern (h : ValueEnd s p) : PatternFollow s p := by
  rcases h with ⟨_, _, _, _, rfl, rfl, -⟩ | ⟨_, _, _, _, rfl, rfl, -⟩
  · exact .of_punct (by decide) _ _ _ _
  · exact .of_punct (by decide) _ _ _ _

theorem ValueEnd.colon (h : ValueEnd s p) : sees ":" p = sees ":" s := by
  rcases h with ⟨_, _, _, _, rfl, rfl, -⟩ | ⟨_, _, _, _, rfl, rfl, -⟩ <;> rfl

theorem LocalFront.pattern (h : LocalFront s p) : PatternFollow s p :=
  h.elim (fun h => .of_colon h fun _ _ h => ⟨h.toLook, h.colon⟩) ValueEnd.pattern

theorem LocalFront.colon (h : LocalFront s p) : sees ":" p = sees ":" s :=
  h.elim (fun h => h.startsWith.2.trans h.startsWith.1.symm) ValueEnd.colon

namespace Rereads

/-- The end of the declaration of a variable is read again. -/
theorem endOfLocal (hg : Rereadable g) (text : List Lexeme)
    {follow : Unit → List Lexeme → List Lexeme → Prop} :
    Rereads g m s (Rule.endOfLocal text) (Rule.endOfLocal text) id
      (fun p => Worded "else" (fun _ _ => True) s p ∨ Semicolon s p) follow := by
  have hend : ∀ s, Rereads g m s (Rule.operator ";") (Rule.operator ";") id (Semicolon s) follow := fun s =>
    (operator ";").front_mono fun p hp => hp.mono fun _ _ _ => trivial
  unfold Rule.endOfLocal
  refine .ite (fun _ _ _ => .rfl) (fun _ => (hend s).front_mono fun p hp => .inr hp) fun _ => ?_
  refine keyword? (fun p hp => ?_) (fun _ => ?_) fun _ => (hend s).front_mono fun p hp => .inr hp
  · rcases hp with ⟨_, _, rfl, rfl, -⟩ | ⟨_, _, _, _, rfl, rfl, -⟩ <;> rfl
  · refine keyword_then "else" (fun _ _ => True) (fun s₁ => ?_) fun p hp => .inl hp
    exact (block hg).bind_id (fun _ s₂ => hend s₂) fun _ _ => trivial

/-- The declaration of a variable is read again from behind its type. -/
theorem localValue (hg : Rereadable g) {follow : Unit → List Lexeme → List Lexeme → Prop} :
    Rereads g m s Rule.localValue Rule.localValue id (ValueEnd s) follow := by
  unfold Rule.localValue
  refine operator? (fun p hp => hp.equals) (fun _ => ?_) fun _ => ?_
  · refine operator_then "=" ExprFront (fun s₁ => ?_) fun p hp => .inl hp
    refine hold _ _ (hg.expression m s₁ true) (fun _ => Rule.endOfLocal) (fun _ => Rule.endOfLocal)
      (fun x r => Rule.run_bind_of_ok (Rule.run_write ..) _) (fun x r =>
        Rule.run_bind_of_ok (Rule.run_write ..) _)
      fun a a' text s₂ _ => (endOfLocal hg text).front_mono fun p hp => ExprFollow.shape ?_ a
    rcases hp with ⟨_, _, rfl, rfl, -⟩ | hp
    · exact .of_word _ _ _
    · exact hp.expression
  · exact (operator ";").front_mono fun p hp => .inr (hp.mono fun _ _ _ => trivial)

/-- The declaration of a variable is read again. -/
theorem localStatement (hg : Rereadable g) {follow : Unit → List Lexeme → List Lexeme → Prop} :
    Rereads g m s Rule.localStatement Rule.localStatement id (Worded "let" (fun _ _ => True) s) follow := by
  rw [Rule.localStatement_eq]
  refine keyword_then "let" (fun _ _ => True) (fun s₁ => ?_) fun p hp => hp
  refine ((hg.pattern m s₁).bind fun _ _ s₂ _ => ?_).front_mono fun _ _ => trivial
  refine (?_ : Rereads g m s₂ _ _ _ (LocalFront s₂) _).front_mono fun p hp => hp.pattern
  unfold Rule.restOfLocal
  refine operator? (fun p hp => hp.colon) (fun _ => ?_) fun _ =>
    (localValue hg).front_mono fun p hp => .inr hp
  refine operator_then ":" (TypeFront False) (fun s₃ => ?_) fun p hp => .inl hp
  exact (hg.plainType m s₃ true).bind fun _ _ s₄ _ => (localValue hg).front_mono fun p hp => hp.type

end Rereads

/-! ### Statements by their beginnings -/

/-- What is read of a statement before it is told whether it needs a semicolon. -/
inductive StatementBody where
  /-- All of it. -/
  | done
  /-- An item. -/
  | item (seen : List Lexeme) (body : ItemBody)
  /-- An expression that ends with a block, or an operand. -/
  | expression (head : ExprShape ⊕ ExprShape)

/-- How the attributes before a statement are written. -/
def StatementBody.preface : StatementBody → Preface
  | .done => .written
  | .item seen body => itemPreface (seen, body)
  | .expression head => statementPreface head

/-- What is compared of a statement. -/
def StatementBody.placeless : StatementBody → StatementBody
  | .done => .done
  | .item seen body => .item seen body.placeless
  | .expression head => .expression (headPlaceless head)

/-- Reads the use of a macro that is a statement. -/
def Rule.macroStatement : Rule StatementBody := do
  plainPath
  let _ ← macroArguments
  let _ ← operator? ";"
  return .done

/-- Reads a declaration that is a statement. -/
def Rule.declaration : Rule StatementBody := do
  localStatement
  return .done

/-- Reads an item that is a statement. -/
def Rule.statementItem : Rule StatementBody := do
  let (seen, body) ← itemContent
  return .item seen body

/-- Reads the beginning of an expression that is a statement. -/
def Rule.expressionStatement : Rule StatementBody := do
  return .expression (← statementHead)

/-- Reads a statement from behind its attributes, but for what stands behind an operand. -/
def Rule.statementBody : Rule StatementBody := do
  let ls ← ahead
  if seesMacroStatement ls then macroStatement
  else if seesWord "let" ls then declaration
  else if seesItem ls then statementItem
  else expressionStatement

/-- Reads the rest of a statement; tells whether it needs a semicolon. -/
def Rule.restOfStatementBody : StatementBody → Rule Bool
  | .done => return false
  | .item _ _ => return false
  | .expression head => do
    let shape ← statementTail head
    let closed ← operator? ";"
    return !(closed || shape == .block || shape == .invocation true)

theorem Rule.run_bind_pure (rule : Rule α) (f : α → β) (next : β → Rule γ) (r : Reader) :
    (rule >>= (fun a => pure (f a)) >>= next).run g r = (rule >>= fun a => next (f a)).run g r := by
  rw [run_bind_assoc, run_bind, run_bind]
  cases rule.run g r with
  | error fault => rfl
  | ok x => exact run_bind_of_ok (run_pure ..) next

/-- What stands before a statement is written with it. -/
theorem Rule.run_write_done (hg : Blind g) (text : List Lexeme)
    {body : Rule StatementBody} {rule : Rule Bool}
    (h : ∀ q, rule.run g q = (body >>= restOfStatementBody).run g q)
    (hdone : ∀ r b r', body.run g r = .ok (b, r') → b.preface = .written) (start : View) (r : Reader) :
    (do write text; rule : Rule Bool).run g r =
      (do
        let (b, own) ← hold body
        match b.preface with
        | .written => write (text ++ own)
        | .dropped => write own
        | .source => writeSince start
        restOfStatementBody b : Rule Bool).run g r := by
  have hthen := run_write_then hg text body r
  rw [run_bind_of_ok (run_write ..)] at hthen ⊢
  rw [h, run_bind, hthen, run_bind, run_bind]
  cases hbody : (hold body).run g r with
  | error fault => rfl
  | ok x =>
      obtain ⟨⟨b, own⟩, r₁⟩ := x
      obtain ⟨b', r₂, hrun, hx, -⟩ := run_hold_eq_ok.mp hbody
      obtain rfl : b = b' := (Prod.mk.inj hx).1
      dsimp only
      rw [hdone _ _ _ hrun]
      rfl

theorem Rule.of_run_statementBody {r r' : Reader} {head : ExprShape ⊕ ExprShape}
    (h : statementBody.run g r = .ok (.expression head, r')) : statementHead.run g r = .ok (head, r') := by
  rw [statementBody, run_bind_of_ok (run_ahead r)] at h
  split at h
  · obtain ⟨_, _, -, h⟩ := run_bind_eq_ok.mp h
    obtain ⟨_, _, -, h⟩ := run_bind_eq_ok.mp h
    obtain ⟨_, _, -, h⟩ := run_bind_eq_ok.mp h
    cases h
  split at h
  · obtain ⟨_, _, -, h⟩ := run_bind_eq_ok.mp h
    cases h
  split at h
  · obtain ⟨_, _, -, h⟩ := run_bind_eq_ok.mp h
    cases h
  · obtain ⟨_, _, hrun, h⟩ := run_bind_eq_ok.mp h
    cases h
    exact hrun

/-- A statement is written with what stands before it. -/
theorem Rule.run_statement_eq (hg : Blind g) (r : Reader) :
    statement.run g r =
      (prefaced StatementBody.preface outerAttributes statementBody >>= fun x =>
        restOfStatementBody x.2).run g r := by
  refine run_prefaced_eq r fun attributes text r₁ hbefore => ?_
  have hhash : sees "#" r₁.rest = false := by
    obtain ⟨_, r₂, hrun, -, rfl⟩ := run_hold_eq_ok.mp hbefore
    exact (of_run_while hrun).1
  have hchosen : statementBody.run g r₁.unwritten =
      (if seesMacroStatement r₁.rest then macroStatement
      else if seesWord "let" r₁.rest then declaration
      else if seesItem r₁.rest then statementItem
      else expressionStatement).run g r₁.unwritten := run_bind_of_ok (run_ahead _) _
  refine (run_bind_of_ok (run_ahead r₁) _).trans ?_
  rw [run_bind (hold statementBody), run_hold_congr hchosen, ← run_bind]
  split
  · refine run_write_done hg text (fun q => ?_) (fun q b q' hrun => ?_) r.toView r₁
    · rw [macroStatement, run_bind_assoc, run_bind, run_bind]
      cases plainPath.run g q with
      | error fault => rfl
      | ok x =>
          dsimp only
          rw [run_bind_assoc, run_bind, run_bind]
          cases macroArguments.run g x.2 with
          | error fault => rfl
          | ok y => exact (run_bind_pure (operator? ";") (fun _ => .done) restOfStatementBody y.2).symm
    · obtain ⟨_, _, -, hrun⟩ := run_bind_eq_ok.mp hrun
      obtain ⟨_, _, -, hrun⟩ := run_bind_eq_ok.mp hrun
      obtain ⟨_, _, -, hrun⟩ := run_bind_eq_ok.mp hrun
      cases hrun
      rfl
  split
  · refine run_write_done hg text (fun q => ?_) (fun q b q' hrun => ?_) r.toView r₁
    · exact (run_bind_pure localStatement (fun _ => .done) restOfStatementBody q).symm
    · obtain ⟨_, _, -, hrun⟩ := run_bind_eq_ok.mp hrun
      cases hrun
      rfl
  split
  · rw [restOfItem_eq]
    cases hcontent : itemContent.run g r₁.unwritten with
    | error fault =>
        have hitem : statementItem.run g r₁.unwritten = .error fault := by
          rw [statementItem, run_bind, hcontent]
        rw [run_bind, run_bind, run_hold_of_error hcontent, run_bind, run_hold_of_error hitem]
    | ok x =>
        obtain ⟨⟨seen, body⟩, r₂⟩ := x
        have hitem : statementItem.run g r₁.unwritten = .ok (.item seen body, r₂) :=
          run_bind_of_ok hcontent _
        rw [run_bind, run_bind_of_ok (run_hold_of_ok hcontent), run_bind_of_ok (run_hold_of_ok hitem)]
        dsimp only
        rw [run_bind_of_ok (run_here _), run_bind_of_ok (run_write ..), run_pure]
        cases body <;> rfl
  · have hstatement : (statementExpression text).run g r₁ = (restOfStatement text).run g r₁ := by
      have hnone : outerAttributes.run g r₁.unwritten = .ok ([], r₁.unwritten) := run_while_of_not hhash
      rw [statementExpression_eq, run_bind_of_ok (run_hold_of_ok hnone)]
      simp [Reader.unwritten]
    rw [run_bind, hstatement, run_restOfStatement hg text r.toView r₁, run_bind]
    cases hhead : statementHead.run g r₁.unwritten with
    | error fault =>
        have hexpression : expressionStatement.run g r₁.unwritten = .error fault := by
          rw [expressionStatement, run_bind, hhead]
        rw [run_hold_of_error hhead, run_bind, run_hold_of_error hexpression]
    | ok x =>
        obtain ⟨b, r₂⟩ := x
        have hexpression : expressionStatement.run g r₁.unwritten = .ok (.expression b, r₂) :=
          run_bind_of_ok hhead _
        rw [run_hold_of_ok hhead, run_bind_of_ok (run_hold_of_ok hexpression)]
        dsimp only [StatementBody.preface]
        rw [← run_bind]
        cases statementPreface b <;> exact run_bind_assoc ..

/-! ### How statements look -/

/-- Behind a statement: another begins in both texts, or a semicolon, or they end. -/
structure BehindStatement (s k : List Lexeme) : Prop where
  ends : ends k = ends s
  semicolon : sees ";" k = sees ";" s
  quiet : QuietFollow s k
  block : BlockFollow s k

/-- A statement begins in both texts, or a semicolon, or they end. -/
structure StatementStart (s k : List Lexeme) : Prop extends BehindStatement s k where
  outward : Outward k

theorem BehindStatement.refl (s : List Lexeme) : BehindStatement s s :=
  ⟨rfl, rfl, ⟨id, id, rfl, rfl, id, id, id, id⟩, ⟨id, rfl, rfl⟩⟩

theorem startsWith_head {c : Char} {cs : List Char} {ls : List Lexeme} (h : startsWith (c :: cs) ls = true) :
    startsWith [c] ls = true := by
  cases cs with
  | nil => exact h
  | cons d cs =>
      cases ls with
      | nil => cases h
      | cons l ls => cases l <;> simp_all [startsWith]

/-- But for two of them, every infix operator begins with a character that is one. -/
theorem infixOperators_heads : ∀ x ∈ infixOperators, x.1 = "!=" ∨ x.1 = "==" ∨
    ∃ y ∈ infixOperators, x.1.toList.head?.map ([·]) = some y.1.toList := by
  decide

/-- No infix operator comes new where no equals sign is seen. -/
theorem Look.infixOperator (h : Look s p) (heq : sees "=" s = false) (hs : infixOperator? s = none) :
    infixOperator? p = none := by
  rw [infixOperator?, List.find?_eq_none] at hs ⊢
  rintro x hx hsees
  have hchar : ∀ c ∈ x.1.toList.head?, startsWith [c] s = true := by
    intro c hc
    obtain ⟨cs, hcs⟩ := List.head?_eq_some_iff.mp hc
    have hstarts : startsWith (c :: cs) p = true := hcs ▸ hsees
    exact (h.char c).symm.trans (startsWith_head hstarts)
  obtain ⟨text, precedence⟩ := x
  rcases infixOperators_heads _ hx with heq' | heq' | ⟨y, hy, hhead⟩
  · obtain rfl : text = "!=" := heq'
    exact hs _ hx (h.guard "!=" (by decide) hsees)
  · obtain rfl : text = "==" := heq'
    exact Bool.noConfusion (heq.symm.trans (hchar '=' (show '=' ∈ "==".toList.head? by decide)))
  · obtain ⟨c, hc, hone⟩ := Option.map_eq_some_iff.mp hhead
    have hsees' : sees y.1 s = true := by
      rw [sees, ← hone]
      exact hchar c hc
    exact hs y hy hsees'

theorem StatementStart.of_look (h : Look s p) (heq : sees "=" s = false) (houtward : Outward p) :
    StatementStart s p := by
  have hassignment : seesAssignment p = false := by
    rw [seesAssignment, h.operator "=" rfl, heq]
    rfl
  exact ⟨⟨h.ends, h.operator ";" rfl,
    ⟨fun hs => (h.group _).trans hs, fun hs => (h.group _).trans hs, by rw [h.operator "." rfl, h.dots],
      h.operator "?" rfl, h.infixOperator heq, fun _ => hassignment, fun hs => h.dots.trans hs,
      fun hs => (h.word _).trans hs⟩, h.block⟩, houtward⟩

theorem StatementStart.of_ended (h : Ended s k) : StatementStart s k := by
  have hlook := h.look
  obtain ⟨d, s', k', rfl, rfl⟩ := h
  exact .of_look hlook rfl (outward_of_not_sees rfl)

/-- Where a statement begins, another may begin with a word. -/
theorem StatementStart.of_word {w : String}
    (hs : Grammar.ends s = false ∧ sees ";" s = false ∧ sees "." s = false ∧ sees "?" s = false)
    (hw : w ≠ "as" ∧ w ≠ "else") (k : List Lexeme) : StatementStart s (word w :: k) := by
  have hnot : ∀ v, w ≠ v → seesWord v (word w :: k) = false := fun v hv => beq_false_of_ne hv
  have hdot : (sees "." s && !sees ".." s) = false := by rw [hs.2.2.1]; rfl
  exact ⟨⟨hs.1.symm, hs.2.1.symm,
    ⟨fun _ => rfl, fun _ => rfl, hdot.symm, hs.2.2.2.symm, fun _ => rfl, fun _ => rfl, fun _ => rfl,
      fun _ => hnot _ hw.1⟩,
    ⟨fun _ => hnot _ hw.2, hdot.symm, hs.2.2.2.symm⟩⟩, outward_of_not_sees rfl⟩

/-- How a statement looks behind its attributes. -/
inductive StatementFront (s p : List Lexeme) : Prop where
  | invocation (hs : seesMacroStatement s = true) (h : InvocationItemFront True s p)
  | declaration (hs : seesMacroStatement s = false) (h : Worded "let" (fun _ _ => True) s p)
  | item (hs : seesMacroStatement s = false) (hitem : seesItem s = true) (h : Visible (ItemFront True) s p)
  | expression (hs : seesMacroStatement s = false) (hitem : seesItem s = false) (h : ExprFront s p)

theorem StatementFront.look (h : StatementFront s p) : Look s p := by
  cases h with
  | invocation _ h => exact PathSpelt.look h
  | declaration _ h => exact h.look
  | item _ _ h => exact h.look fun _ _ h => h.toLook
  | expression _ _ h => exact h.toLook

theorem StatementFront.macroStatement (h : StatementFront s p) :
    seesMacroStatement p = seesMacroStatement s := by
  cases h with
  | invocation _ h => exact h.behindPath.2 trivial
  | declaration hs h =>
      obtain ⟨_, _, rfl, rfl, -⟩ := h
      exact (not_seesMacroStatement (by decide) (by decide) _).trans hs.symm
  | item hs _ h =>
      rcases h with ⟨_, _, rfl, rfl, -⟩ | ⟨-, -, h⟩
      · exact (not_seesMacroStatement (by decide) (by decide) _).trans hs.symm
      · exact (h.statement trivial hs).trans hs.symm
  | expression hs _ h => exact (h.statement hs).trans hs.symm

theorem StatementFront.item_eq (h : StatementFront s p) (hs : seesMacroStatement s = false)
    (hlet : seesWord "let" s = false) :
    seesItem p = seesItem s := by
  cases h with
  | invocation hs' _ => exact Bool.noConfusion (hs.symm.trans hs')
  | declaration _ h =>
      obtain ⟨_, _, rfl, rfl, -⟩ := h
      cases hlet
  | item _ hitem h =>
      rcases h with ⟨_, _, rfl, rfl, -⟩ | ⟨-, -, h⟩
      · exact (seesItem_of_word _ (by decide)).trans hitem.symm
      · exact (h.item hitem).trans hitem.symm
  | expression _ hitem h => exact (h.item hitem).trans hitem.symm

/-- A text that begins with no equals sign. -/
theorem StatementFront.equals (h : StatementFront s p) : sees "=" s = false := by
  have hnone : seesAnyWord s = true ∨ sees "::" s = true → sees "=" s = false := by
    rintro (hs | hs)
    · cases s with
      | nil => cases hs
      | cons l s => cases l <;> first | rfl | cases hs
    · obtain ⟨_, _, rfl⟩ := exists_of_seesColons hs
      rfl
  have hbegins : seesItem s = true ∨ seesMacroStatement s = true →
      seesAnyWord s = true ∨ sees "::" s = true := by
    intro hs
    by_contra hnot
    rw [not_or, Bool.not_eq_true, Bool.not_eq_true] at hnot
    obtain ⟨hitem, hstatement⟩ := not_seesItem hnot.1 hnot.2
    rcases hs with hs | hs
    · exact Bool.noConfusion (hitem.symm.trans hs)
    · exact Bool.noConfusion (hstatement.symm.trans hs)
  cases h with
  | invocation hs _ => exact hnone (hbegins (.inr hs))
  | declaration _ h =>
      obtain ⟨_, _, rfl, -⟩ := h
      rfl
  | item _ hs _ => exact hnone (hbegins (.inl hs))
  | expression _ _ h => exact h.equals

/-- Attributes may stand before a statement. -/
theorem Attributed.statement (h : Attributed StatementFront s p) : StatementStart s p := by
  rcases h with h | ⟨-, hp, h⟩
  · refine .of_look h.look ?_ fun _ => ?_
    · obtain ⟨_, _, _, _, rfl, -⟩ := h
      rfl
    · obtain ⟨_, _, _, hp, -⟩ := h.second
      rw [hp]
      rfl
  · exact .of_look h.look h.equals (outward_of_not_sees hp)

theorem StatementBody.preface_eq {b b' : StatementBody} (h : b'.placeless = b.placeless) :
    b'.preface = b.preface := by
  cases b with
  | done => cases b' <;> first | rfl | cases h
  | item seen body =>
      cases b' with
      | done | expression => cases h
      | item seen' body' =>
          obtain ⟨hseen, hbody⟩ := StatementBody.item.inj h
          exact itemPreface_eq (Prod.ext hseen hbody)
  | expression head =>
      cases b' with
      | done | item => cases h
      | expression head' => exact statementPreface_eq (StatementBody.expression.inj h)

/-- What stands behind a statement of which all but the end was read. -/
def StatementBody.Behind : StatementBody → List Lexeme → List Lexeme → Prop
  | .done => BehindStatement
  | .item _ _ => BehindBraces
  | .expression head => HeadFollow head

theorem BehindStatement.braces (h : BehindStatement s k) : BehindBraces s k :=
  ⟨h.quiet.dot, h.quiet.question⟩

/-- Behind the arguments of a macro, where a semicolon may stand. -/
def InvocationEnd (s p : List Lexeme) : Prop :=
  BehindBraces s p ∧ sees ";" p = sees ";" s

theorem Spelt.invocationEnd {rest : List Lexeme → List Lexeme → Prop} (h : Spelt [';'] rest s p) :
    InvocationEnd s p := by
  obtain ⟨_, _, _, _, rfl, rfl, -⟩ := h
  exact ⟨⟨rfl, rfl⟩, rfl⟩

/-- Behind an expression that is a statement, where a semicolon may stand. -/
def ClosedBy (shape : ExprShape) (s p : List Lexeme) : Prop :=
  Spelt [';'] (fun _ _ => True) s p ∨
    (BehindStatement s p ∧ (shape ≠ .block → shape ≠ .invocation true → Ended s p))

theorem Ended.shape (h : Ended s k) : ExprFollow s k := by
  obtain ⟨d, s', k', rfl, rfl⟩ := h
  exact .of_closing _ _ _

theorem ClosedBy.semicolon {shape : ExprShape} (h : ClosedBy shape s p) : sees ";" p = sees ";" s := by
  rcases h with ⟨_, _, _, _, rfl, rfl, -⟩ | h
  · rfl
  · exact h.1.semicolon

theorem ClosedBy.statement {shape : ExprShape} (h : ClosedBy shape s p) : StatementFollow shape s p := by
  rcases h with ⟨_, _, _, _, rfl, rfl, -⟩ | ⟨hstart, hended⟩
  · exact (ExprFollow.of_punct (.inr rfl) _ _ _ _).statement shape
  · unfold StatementFollow
    split
    · exact hstart.block
    · exact hstart.quiet
    · next hblock hinvocation => exact (hended hblock hinvocation).shape

namespace Rereads

/-- The use of a macro that is a statement is read again. -/
theorem macroStatement :
    Rereads g m s Rule.macroStatement Rule.macroStatement StatementBody.placeless
      (InvocationItemFront True s)
      fun b s' k => (m = .written → b.preface ≠ .source) ∧ b.Behind s' k := by
  have hend : ∀ s, Rereads g m s (do let _ ← Rule.operator? ";"; return StatementBody.done)
      (do let _ ← Rule.operator? ";"; return StatementBody.done) StatementBody.placeless (InvocationEnd s)
      fun b s' k => (m = .written → b.preface ≠ .source) ∧ b.Behind s' k := by
    intro s
    refine operator? (fun p hp => hp.2) (fun _ => ?_) fun _ => ?_
    · exact operator_then ";" (fun _ _ => True) (fun s₁ => (pure _ _ rfl fun k hk => trivial)) fun p hp =>
        hp.invocationEnd
    · exact pure _ _ rfl fun k hk => ⟨hk.2.braces, hk.2.semicolon⟩
  unfold Rule.macroStatement
  refine bind_id ((plainPath (Spelt ['!'] (NamedArguments True))).follow_mono
    fun _ _ _ h => ⟨h, h.not_colons⟩)
    (fun _ s₁ => ?_) fun p hp => hp
  refine (bind_id (macroArguments fun _ => InvocationEnd) (fun _ s₂ => hend s₂) fun _ => id).front_mono
    fun p hp => ?_
  obtain ⟨d, hp⟩ := hp
  exact hp.mono fun _ _ h => .inr ⟨d, h.mono fun _ _ h _ _ => h.1⟩

/-- A statement is read again from behind its attributes, up to an operand at its beginning. -/
theorem statementBody (hg : Rereadable g) :
    Rereads g m s Rule.statementBody Rule.statementBody StatementBody.placeless (StatementFront s)
      fun b s' k => (m = .written → b.preface ≠ .source) ∧ b.Behind s' k := by
  unfold Rule.statementBody
  refine ahead (.sight (fun _ p hp => hp.macroStatement) (fun hs => ?_) fun hmacro => ?_)
  · exact macroStatement.front_mono fun p hp => .invocation hs hp
  refine .sight (fun _ p hp => hp.look.word _) (fun _ => ?_) fun hlet => ?_
  · exact ((localStatement hg).bind fun _ _ _ _ => pure _ _ rfl fun k hk => trivial).front_mono
      fun p hp => .declaration hmacro hp
  refine .sight (fun _ p hp => hp.item_eq hmacro hlet) (fun hs => ?_) fun hs => ?_
  · refine ((itemContent hg).bind fun x x' s₁ h => ?_).front_mono fun p hp => .item hmacro hs hp
    obtain ⟨hseen, hbody⟩ := Prod.mk.inj h
    refine pure _ _ ?_ fun k hk => ⟨hk.1, fun _ => hk.2⟩
    rw [StatementBody.placeless, StatementBody.placeless, hbody, show x'.1 = x.1 from hseen]
  · refine ((statementHead hg).bind fun b b' s₁ h => ?_).front_mono fun p hp => .expression hmacro hs hp
    exact pure _ _ (congrArg StatementBody.expression h) fun k hk => hk.2

/-- The rest of a statement is read again. -/
theorem restOfStatementBody (hg : Rereadable g) {b b' : StatementBody} (h : b'.placeless = b.placeless)
    (hb : b ≠ .expression (.inr .block)) :
    Rereads g m s (Rule.restOfStatementBody b) (Rule.restOfStatementBody b') id (b.Behind s)
      fun open_ s' k => BehindStatement s' k ∧ (open_ = true → Ended s' k) := by
  cases b with
  | done =>
      cases b' with
      | done => exact pure _ _ rfl fun k hk => hk.1
      | item | expression => cases h
  | item seen body =>
      cases b' with
      | item seen' body' => exact pure _ _ rfl fun k hk => hk.1.braces
      | done | expression => cases h
  | expression head =>
      cases b' with
      | done | item => cases h
      | expression head' =>
          have hhead : headPlaceless head' = headPlaceless head := StatementBody.expression.inj h
          refine (statementTail hg hhead fun h => hb (congrArg _ h)).bind fun shape shape' s₁ hshape => ?_
          have hblock : (shape' == .block || shape' == .invocation true) =
              (shape == .block || shape == .invocation true) := by
            cases shape <;> cases shape' <;> cases hshape <;> rfl
          refine (?_ : Rereads g m s₁ _ _ _ (ClosedBy shape s₁) _).front_mono fun p hp => hp.statement
          refine operator? (fun p hp => hp.semicolon) (fun _ => ?_) fun _ => ?_
          · exact operator_then ";" (fun _ _ => True) (fun s₂ => pure _ _ rfl fun k hk => trivial)
              fun p hp => .inl hp
          · refine pure _ _ ?_ fun k hk => .inr ⟨hk.1, fun hshape hinvocation => hk.2 ?_⟩
            · rw [Bool.or_assoc, Bool.or_assoc, hblock]
            · simp [hshape, hinvocation]

/-- A statement is read again. -/
theorem statement (hg : Rereadable g) :
    Rereads g m s Rule.statement Rule.statement id (StatementStart s)
      fun open_ s' k => BehindStatement s' k ∧ (open_ = true → Ended s' k) := by
  refine RereadsBy.congr (?_ : Rereads g m s
      (Rule.prefaced StatementBody.preface Rule.outerAttributes Rule.statementBody >>=
        fun x => Rule.restOfStatementBody x.2)
      (Rule.prefaced StatementBody.preface Rule.outerAttributes Rule.statementBody >>=
        fun x => Rule.restOfStatementBody x.2)
      _ _ _) (fun r _ => run_statement_eq hg.blind r) fun q _ => run_statement_eq hg.blind q
  refine bind_of_run (fun x => x.2 ≠ .expression (.inr .block)) (fun r x r' _ hrun => ?_)
    (prefaced StatementBody.preface (fun _ _ => StatementBody.preface_eq)
      (fun m => (outerAttributes hg StatementFront).keep_mono fun _ _ _ => rfl)
      (fun m s' => (statementBody hg).front_mono fun p hp hs => ⟨hp, (hp.look.operator "#" rfl).trans hs⟩)
      (fun p hp => hp.statement) ?_ : Rereads g m s _ _ (Prod.map (fun _ => ()) StatementBody.placeless) _ _)
    fun x x' s' hx hkeep => restOfStatementBody hg (Prod.mk.inj hkeep).2 hx
  · obtain ⟨r₁, r₂, hbefore, hbody, -⟩ := of_run_prefaced hrun
    intro hx
    rw [hx] at hbody
    exact ne_block_of_run_statementHead (r := r₁.unwritten) hg (of_run_while hbefore).1
      (of_run_statementBody hbody) rfl
  · rintro - r a r₁ b r₂ hr hbefore hbody hdropped p hp
    obtain ⟨hhash, hnone⟩ := of_run_while hbefore
    obtain ⟨hfront, hhash'⟩ := hp hhash
    refine ⟨?_, [], rfl, fun q hq => run_while_of_not (hq ▸ hhash')⟩
    cases b with
    | done => cases hdropped
    | item seen body => cases body <;> cases hdropped
    | expression head =>
        have hword := begins_of_run_statementHead (r := r₁.unwritten) hg hhash
          (of_run_statementBody hbody) hdropped
        cases hs : sees "#" s with
        | false =>
            have hrun : Rule.outerAttributes.run g r = .ok ([], r) := run_while_of_not (hr ▸ hs)
            cases hrun.symm.trans hbefore
            exact Attributed.statement (.inr ⟨hs, hhash', hr ▸ hfront⟩)
        | true =>
            obtain ⟨w, hw, p', rfl⟩ : ∃ w, (w ≠ "as" ∧ w ≠ "else") ∧ ∃ p', p = word w :: p' := by
              rcases hword with hword | hword
              · obtain ⟨p', hp⟩ := exists_of_seesWord ((hfront.look.word _).trans hword)
                exact ⟨_, by decide, p', hp⟩
              · obtain ⟨p', hp⟩ := exists_of_seesWord ((hfront.look.word _).trans hword)
                exact ⟨_, by decide, p', hp⟩
            obtain ⟨joint, s', rfl⟩ := exists_of_sees (c := '#') hs
            exact .of_word ⟨rfl, rfl, rfl, rfl⟩ hw p'

/-- A statement that needs no semicolon leaves something to be read again. -/
theorem statement_solid (hg : Rereadable g) : Solid g m s Rule.statement fun open_ => open_ = false := by
  refine (statement hg).solid_written (fun open_ s' hopen => ⟨.refl s', fun h => ?_⟩) fun s => ?_
  · rw [hopen] at h
    cases h
  · refine .look fun _ => .bind_right fun x s₁ => .ahead ?_
    refine .ite (fun _ => .bind_right fun _ _ => .bind_right fun _ _ => .bind_left ?_) fun _ => ?_
    · exact .bind_left (operator_solid "!" (by decide))
    refine .ite (fun _ => .bind_right fun _ _ => .bind_left .keyword_then) fun _ => ?_
    refine .ite (fun hs => .bind_left ?_) fun _ => .bind_left ?_
    · rw [restOfItem_eq]
      refine .bind_left (.hold
        (((itemContent hg : Rereads _ _ _ _ _ _ (Visible (ItemFront False) _) _)).solid
        (fun _ _ _ => ⟨nofun, False.elim⟩) ?_))
      rintro _ _ _ _ _ - (⟨_, _, _, hnil, -⟩ | ⟨-, -, hfront⟩)
      · cases hnil
      · rw [List.isEmpty_iff.mp hfront.empty.symm] at hs
        cases hs
    · refine .bind_right fun _ s₂ => .ahead (.ite (fun _ => ?_) fun _ => ?_)
      · exact .bind_right fun _ _ => .bind_left (hg.atomSolid _ true)
      · exact .bind_left (.hold (hg.operandSolid s₂ true))

/-- The statements of a block are read again. -/
theorem statements (hg : Rereadable g) :
    Rereads g m s Rule.statements Rule.statements id Outward fun _ => Ended := by
  let loop (s p : List Lexeme) : Prop := StatementStart s p ∧ (ends s = true → Ended s p)
  have hstop : ∀ {s k}, Ended s k → loop s k := fun h => ⟨.of_ended h, fun _ => h⟩
  unfold Rule.statements
  refine (repeating id (fun _ => loop) (fun _ => loop) (fun _ _ s _ => ?_) (fun _ _ _ => id)
    (fun _ s => ?_) rfl :
    Rereads g m s _ _ _ (loop s) _).front_mono fun p hp => hp.1.outward
  · have hsemicolons : Rereads g m s (Rule.while_ (sees ";") (Rule.operator ";"))
        (Rule.while_ (sees ";") (Rule.operator ";")) (List.map id) (loop s) fun _ s' k =>
          sees ";" s' = false → loop s' k := by
      refine while_ loop (fun s p hp => hp.1.semicolon) (fun s _ => operator_solid ";" (by decide))
        fun s _ => ?_
      refine (operator ";").front_mono fun p hp => ?_
      have hlook := Spelt.look (c := ';') hp (by decide) fun h => absurd h (by decide)
      obtain ⟨_, _, _, _, rfl, rfl, -⟩ := hp
      exact ⟨.of_look hlook rfl (outward_of_not_sees rfl), nofun⟩
    refine hsemicolons.bind fun _ _ s₁ _ => ?_
    refine (?_ : Rereads g m s₁ _ _ _ (loop s₁) _).front_mono fun p hp _ => hp
    refine ahead (.sight (fun _ p hp => hp.1.ends) (fun _ => pure _ _ rfl fun k hk => hstop hk)
      fun hends => ?_)
    refine bind_id (statement hg) (fun open_ s₂ => ?_) fun p hp =>
      ⟨hp, fun h => Bool.noConfusion (hends.symm.trans h)⟩
    refine ahead (.sight (fun _ p hp => hp.1.ends) (fun _ => ?_) fun hends' => ?_)
    · exact pure _ _ rfl fun k hk => ⟨(StatementStart.of_ended hk).toBehindStatement, fun _ => hk⟩
    cases open_ with
    | true => exact .complain _
    | false => exact pure _ _ rfl fun k hk => ⟨hk.1.toBehindStatement, nofun⟩
  · refine .bind_right fun _ s₁ => .ahead (.ite (fun _ => .pure nofun) fun _ => ?_)
    refine .bind_of_next (statement_solid hg) fun open_ r y r' hrun hy => ?_
    rw [run_bind_of_ok (run_ahead r)] at hrun
    split at hrun
    · cases hrun
      cases hy
    cases open_ with
    | true => cases hrun
    | false => rfl

end Rereads

end TypedId.Grammar
