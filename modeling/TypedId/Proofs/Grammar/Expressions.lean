import TypedId.Proofs.Grammar.Prefaces

/-!
Expressions that stand in brackets or begin with a word are read again.
-/

namespace TypedId.Grammar

open Lexeme Rule

variable {g : PhraseReader} {m : Rendition} {s p k : List Lexeme} {α β γ : Type}

/-! ### Structures -/

namespace Rereads

/-- An expression is read again, and then something that it does not go on with. -/
theorem expression_then (hg : Rereadable g) (braces : Bool) (inner : List Lexeme → List Lexeme → Prop)
    {next next' : Rule α} {keep : α → γ} {follow : α → List Lexeme → List Lexeme → Prop}
    (h : ∀ s', Rereads g m s' next next' keep (inner s') follow)
    (hinner : ∀ s p, inner s p → ExprFollow s p) :
    Rereads g m s (do let _ ← Rule.call (.expression braces); next)
      (do let _ ← Rule.call (.expression braces); next') keep (ExprFront s) follow :=
  (hg.expression m s braces).bind fun shape _ s' _ => (h s').front_mono fun _ hp =>
    (hinner _ _ hp).shape shape

/-- An expression is read again, and nothing else. -/
theorem lastExpression (hg : Rereadable g) (braces : Bool) {b : β} {keep : β → γ}
    {follow : β → List Lexeme → List Lexeme → Prop} (hfollow : ∀ s k, follow b s k → ExprFollow s k) :
    Rereads g m s (do let _ ← Rule.call (.expression braces); return b)
      (do let _ ← Rule.call (.expression braces); return b) keep (ExprFront s) follow :=
  expression_then hg braces (fun s k => follow b s k) (fun _ => pure b b rfl fun _ => id) hfollow

/-- The value of a field is read again. -/
theorem fieldValue (hg : Rereadable g) :
    Rereads g m s Rule.fieldValue Rule.fieldValue id (Look s) fun _ => Listed := by
  unfold Rule.fieldValue
  refine (outerAttributes hg Look).bind_id (fun _ s' => ?_) fun p hp => hp.look fun _ _ h => h
  refine (?_ : Rereads g m s' _ _ _ (Look s') _).front_mono fun p hp hs =>
    ⟨hp, (hp.operator "#" rfl).trans hs⟩
  refine (member fun _ s p => sees ":" p = sees ":" s).bind_id (fun named s₂ => ?_) fun p ⟨_, hp⟩ => hp.look
  refine ahead (.sight (fun _ p hp => by rw [hp]) (fun _ => ?_) fun _ => ?_)
  · exact operator_then ":" ExprFront (fun s₃ => lastExpression hg true fun _ _ => Listed.expression)
      fun p hp => hp.startsWith.2.trans hp.startsWith.1.symm
  · exact pure _ _ rfl fun k hk => (Listed.look hk).operator ":" rfl

/-- The fields of a structure are read again. -/
theorem fieldValues (hg : Rereadable g) {follow : Unit → List Lexeme → List Lexeme → Prop} :
    Rereads g m s Rule.fieldValues Rule.fieldValues id (Bracketed .brace s) follow := by
  unfold Rule.fieldValues
  let loop (s p : List Lexeme) : Prop := ends p = ends s ∧ sees ".." p = sees ".." s
  have hlook : ∀ {s p}, Look s p → loop s p := fun h => ⟨h.ends, h.dots⟩
  refine (within loop fun s' _ => ?_).front_mono fun p hp => hp.bracketed
  refine repeating id (fun _ => loop) (fun _ _ _ => True) (fun x x' s hx => ?_) (fun _ _ _ _ => trivial)
    (fun x s => ?_) rfl
  · refine ahead (.sight (fun _ p hp => hp.1) (fun _ => ?_) fun _ => ?_)
    · exact pure _ _ rfl fun k hk => hlook (Ended.look hk)
    refine .sight (fun _ p hp => hp.2) (fun _ => ?_) fun _ => ?_
    · refine operator_then ".." (fun s p => ends p = ends s) (fun s₂ => ?_) fun p hp => ?_
      · refine ahead (.sight (fun _ p hp => hp) (fun _ => pure _ _ rfl fun k hk => Ended.ends hk)
          fun _ => ?_)
        exact (lastExpression hg true fun _ _ hk => (Listed.of_ended hk).expression).front_mono
          fun p hp => hp.ends
      · have hdots := hp.startsWith.2.trans hp.startsWith.1.symm
        obtain ⟨_, _, rfl, rfl, -⟩ := hp
        exact ⟨rfl, hdots⟩
    · refine (fieldValue hg).bind_id (fun _ s₂ => ?_) fun p hp => hlook hp
      refine ahead (.sight (fun _ p hp => Listed.ends hp) (fun _ => ?_) fun _ => ?_)
      · exact pure _ _ rfl fun k hk => .inr hk
      · exact operator_then "," (fun _ _ => True) (fun s₃ => pure _ _ rfl fun _ _ => trivial)
          fun p hp => .inl hp
  · refine .ahead (.ite (fun _ => .pure (by simp)) fun _ => .ite (fun _ => ?_) fun _ => ?_)
    · exact .bind_left (operator_solid ".." (by decide))
    · exact .bind_right fun _ _ => .ahead (.ite (fun _ => .pure (by simp)) fun _ =>
        .bind_left (operator_solid "," (by decide)))

/-! ### Paths -/

/-- An expression that begins with a path is read again. -/
theorem pathExpression (hg : Rereadable g) (braces : Bool) :
    Rereads g m s (Rule.pathExpression braces) (Rule.pathExpression braces) id (AtomStart s)
      StatementFollow := by
  unfold Rule.pathExpression
  refine (qualifiedPath hg true PathExpressionFollow).bind_id (fun shape s' => ?_) fun p hp => hp.atom
  refine (?_ : Rereads g m s' _ _ _ (PathExpressionFollow s') _).front_mono
    fun p hp _ => ⟨hp, hp.toPathFollow⟩
  refine ahead (.sight (fun _ p hp => by rw [hp.bang]) (fun _ => ?_) fun _ => ?_)
  · exact (macroArguments fun d => StatementFollow (.invocation (d == .brace))).bind_id
      (fun _ _ => pure _ _ rfl fun k hk => hk) fun p ⟨d, hp⟩ => .of_arguments hp
  refine .sight (fun _ p hp => by rw [hp.brace]) (fun _ => ?_) fun _ => ?_
  · exact (fieldValues hg : Rereads g m s' _ _ _ _ fun _ => ExprFollow).bind_id
      (fun _ _ => pure _ _ rfl fun k hk => hk) fun p hp => hp.path
  · exact pure _ _ rfl fun k hk => ExprFollow.path hk

/-! ### Brackets -/

/-- Expressions in brackets are read again. -/
theorem bracketedExpression (hg : Rereadable g) {follow : Unit → List Lexeme → List Lexeme → Prop} :
    Rereads g m s Rule.bracketedExpression Rule.bracketedExpression id (Bracketed .bracket s) follow := by
  unfold Rule.bracketedExpression
  refine (within (fun s p => ends p = ends s) fun s' _ => ?_).front_mono fun p hp => hp.bracketed
  refine ahead (.sight (fun _ p hp => hp) (fun _ => pure _ _ rfl fun k hk => Ended.ends hk) fun _ => ?_)
  refine ((hg.expression m s' true).bind fun shape _ s₂ _ => ?_).front_mono fun p hp => hp.ends
  have hpunct : ∀ {c p}, (c = ',' ∨ c = ';') → Spelt [c] (fun _ _ => True) s₂ p →
      ExprFollow s₂ p ∧ Look s₂ p := by
    rintro c p hc ⟨joint, joint', s₃, p₃, rfl, rfl, -⟩
    refine ⟨.of_punct hc _ _ _ _, look_punct ?_ fun h => absurd h ?_⟩ <;> rcases hc with rfl | rfl <;> decide
  refine (?_ : Rereads g m s₂ _ _ _ (fun p => ExprFollow s₂ p ∧ Look s₂ p) _).front_mono
    fun p hp => hp.1.shape shape
  refine ahead (.sight (fun _ p hp => hp.2.ends) (fun _ => ?_) fun _ => ?_)
  · exact pure _ _ rfl fun k hk => ⟨(Listed.of_ended hk).expression, hk.look⟩
  refine .sight (fun _ p hp => hp.2.operator "," rfl) (fun _ => ?_) fun _ => ?_
  · refine operator_then "," (fun s p => ends p = ends s) (fun s₃ => ?_)
      fun p hp => hpunct (.inl rfl) (hp.mono fun _ _ _ => trivial)
    exact (commaList ExprShape.placeless (fun _ _ => id) (fun _ _ => Ended.ends) fun s₄ _ =>
      (hg.expression m s₄ true).mono (fun _ hp => hp.ends) fun a _ _ hk => hk.expression.shape a).bind
        fun _ _ _ _ => pure () () rfl fun _ hk => hk
  refine .sight (fun _ p hp => hp.2.operator ";" rfl) (fun _ => ?_) fun _ => .complain _
  exact operator_then ";" ExprFront
    (fun s₃ => lastExpression hg true fun _ _ hk => (Listed.of_ended hk).expression)
    fun p hp => hpunct (.inr rfl) (hp.mono fun _ _ _ => trivial)

end Rereads

/-! ### Closures -/

/-- Reads a pattern, and sees whether a type follows it. -/
def Rule.patternBeforeType : Rule (PatternShape × Bool) := do
  let shape ← call .pattern
  return (shape, sees ":" (← ahead))

/-- How the attributes before the parameter of a closure are written. -/
def parameterPreface (x : PatternShape × Bool) : Preface :=
  if x.1 == .kept && !x.2 then .dropped else .written

/-- Reads a parameter of a closure, with the attributes before it. -/
def Rule.prefacedParameter : Rule Unit :=
  prefaced parameterPreface outerAttributes patternBeforeType >>= fun x => do
    if x.2.2 then
      operator ":"
      let _ ← call (.type true)

theorem Rule.run_closureParameter_eq (r : Reader) :
    closureParameter.run g r = prefacedParameter.run g r := by
  refine (run_bind_of_ok (run_look r) fun _ => closureParameter).symm.trans
    (run_prefaced_eq r fun a text r₁ _ => ?_)
  rw [run_bind, run_bind]
  cases h : (call .pattern).run g r₁.unwritten with
  | error fault =>
      have h' : patternBeforeType.run g r₁.unwritten = .error fault := by rw [patternBeforeType, run_bind, h]
      rw [run_hold_of_error h, run_hold_of_error h']
  | ok read =>
      obtain ⟨shape, r₂⟩ := read
      have h' : patternBeforeType.run g r₁.unwritten = .ok ((shape, sees ":" r₂.rest), r₂) := by
        rw [patternBeforeType, run_bind_of_ok h, run_bind_of_ok (run_ahead r₂), run_pure]
      rw [run_hold_of_ok h, run_hold_of_ok h']
      dsimp only
      rw [run_bind_of_ok (run_ahead _)]
      dsimp only [parameterPreface]
      split
      · rfl
      · exact run_write_write ..

/-- How the parameters of a closure look at their beginning: they may end there. -/
structure ParametersFront (s p : List Lexeme) : Prop where
  bar : sees "|" p = sees "|" s
  equals : sees "=" p = false

/-- What stands behind a parameter of a closure: a comma or a bar. -/
def ParameterEnd (s k : List Lexeme) : Prop :=
  ∃ c ∈ [',', '|'], Spelt [c] (fun _ _ => True) s k

theorem ParameterEnd.pattern (h : ParameterEnd s k) : PatternFollow s k ∧ sees ":" k = sees ":" s := by
  obtain ⟨c, hc, joint, joint', s', k', rfl, rfl, -⟩ := h
  refine ⟨.of_punct ?_ _ _ _ _, rfl⟩
  simp only [List.mem_cons, List.not_mem_nil, or_false] at hc
  rcases hc with rfl | rfl <;> decide

theorem ParameterEnd.type (h : ParameterEnd s k) : TypeFollow s k := by
  obtain ⟨c, hc, joint, joint', s', k', rfl, rfl, -⟩ := h
  refine .of_punct ?_ _ _ _
  simp only [List.mem_cons, List.not_mem_nil, or_false] at hc
  rcases hc with rfl | rfl <;> decide

namespace Rereads

/-- A pattern is read again, and a type is seen behind it if one was. -/
theorem patternBeforeType (hg : Rereadable g) :
    Rereads g m s Rule.patternBeforeType Rule.patternBeforeType (Prod.map PatternShape.placeless id)
      (PatternFront s) fun _ s' k => PatternFollow s' k ∧ sees ":" k = sees ":" s' := by
  unfold Rule.patternBeforeType
  refine (hg.pattern m s).bind fun shape shape' s' hshape => ?_
  have htyped : Rereads g m s' (Pure.pure (shape, sees ":" s')) (Pure.pure (shape', sees ":" s'))
      (Prod.map PatternShape.placeless id) (fun p => PatternFollow s' p ∧ sees ":" p = sees ":" s')
      fun _ s' k => PatternFollow s' k ∧ sees ":" k = sees ":" s' :=
    pure _ _ (Prod.ext hshape rfl) fun _ hk => hk
  exact (ahead (htyped.congr (fun _ _ => rfl) fun q hq => by rw [hq.2])).front_mono fun _ hp => hp.1

theorem parameterPreface_eq {x x' : PatternShape × Bool}
    (h : Prod.map PatternShape.placeless id x' = Prod.map PatternShape.placeless id x) :
    parameterPreface x' = parameterPreface x := by
  obtain ⟨shape, typed⟩ := x
  obtain ⟨shape', typed'⟩ := x'
  obtain ⟨hshape, rfl⟩ := Prod.mk.inj h
  have hkept : (shape' == .kept) = (shape == .kept) := by
    cases shape <;> cases shape' <;> first | rfl | cases hshape
  simp only [parameterPreface, hkept, id]

/-- A parameter of a closure is read again. -/
theorem closureParameter (hg : Rereadable g) :
    Rereads g m s Rule.closureParameter Rule.closureParameter id (ParametersFront s)
      fun _ => ParameterEnd := by
  have hpattern : ∀ {s p}, PatternFront s p → ParametersFront s p := fun h =>
    ⟨h.operator "|" rfl, (h.operator "=" rfl).trans h.equals⟩
  refine RereadsBy.congr (?_ : Rereads g m s Rule.prefacedParameter Rule.prefacedParameter _ _ _)
    (fun r _ => run_closureParameter_eq r) fun q _ => run_closureParameter_eq q
  refine (prefaced parameterPreface (fun _ _ => parameterPreface_eq)
    (fun m => (outerAttributes hg PatternFront).keep_mono fun _ _ _ => rfl)
    (fun m s' => (patternBeforeType hg).mono (fun p hp hs => ⟨hp, (hp.operator "#" rfl).trans hs⟩)
      fun _ _ _ hk => hk.2) (fun p hp => ?_) ?_ :
    Rereads g m s _ _ (Prod.map (fun _ => ()) (Prod.map PatternShape.placeless id)) _ _).bind
      fun x x' s₂ hx => ?_
  · rcases hp with hp | ⟨-, -, hp⟩
    · obtain ⟨_, _, _, _, rfl, rfl, -⟩ := hp
      exact ⟨rfl, rfl⟩
    · exact hpattern hp
  · rintro - r a r₁ b r₂ rfl hbefore - - p hp
    obtain ⟨hhash, -⟩ := of_run_while hbefore
    obtain ⟨hp, hhash'⟩ := hp hhash
    refine ⟨⟨?_, (hp.operator "=" rfl).trans hp.equals⟩, [], rfl, fun q hq => run_while_of_not (hq ▸ hhash')⟩
    rw [hp.operator "|" rfl, hp.bar]
    cases hs : sees "#" r.rest with
    | true =>
        obtain ⟨_, _, hrest⟩ := exists_of_sees (c := '#') hs
        rw [hrest]
        rfl
    | false =>
        have hrun : Rule.outerAttributes.run g r = .ok ([], r) := run_while_of_not hs
        obtain rfl : r₁ = r := (Prod.mk.inj (Except.ok.inj (hbefore.symm.trans hrun))).2
        exact hp.bar.symm
  · obtain ⟨a, shape, typed⟩ := x
    obtain ⟨a', shape', typed'⟩ := x'
    obtain rfl : typed' = typed := (Prod.mk.inj (Prod.mk.inj hx).2).2
    cases typed' with
    | true =>
        refine operator_then ":" (TypeFront False) (fun s₃ => ?_) fun p hp =>
          ⟨?_, hp.startsWith.2.trans hp.startsWith.1.symm⟩
        · exact then_pure ((hg.plainType m s₃ true).follow_mono fun _ _ _ hk => hk.type)
        · exact .of_colon hp fun _ _ h => ⟨h.toLook, h.colon⟩
    | false => exact pure _ _ rfl fun k hk => hk.pattern

end Rereads

/-- The bar before the parameters of a closure. -/
theorem Spelt.lookBar (h : Spelt ['|'] ParametersFront s p) : Look s p := by
  obtain ⟨joint, joint', s', p', rfl, rfl, hjoint, h⟩ := h
  refine ⟨rfl, fun _ => rfl, rfl, rfl, fun _ => rfl, rfl, rfl, rfl, rfl, fun _ => rfl,
    fun operator hmem => ?_, rfl, rfl, rfl, rfl, rfl⟩
  simp only [guards, List.mem_cons, List.not_mem_nil, or_false] at hmem
  rcases hmem with rfl | rfl | rfl | rfl | rfl | rfl | rfl | rfl | rfl | rfl | rfl
  case inr.inr.inr.inr.inr.inr.inr.inr.inr.inl =>
    exact sees_punct_mono rfl (fun _ => hjoint) fun _ _ hp => Bool.noConfusion (h.equals.symm.trans hp)
  case inr.inr.inr.inr.inr.inr.inr.inr.inr.inr =>
    exact sees_punct_mono rfl (fun _ => hjoint) fun _ _ hp => h.bar.symm.trans hp
  all_goals exact fun hp => Bool.noConfusion hp

/-- How a closure looks at its beginning, and behind a word that decides what it is. -/
structure ClosureFront (s p : List Lexeme) : Prop extends AtomStart s p where
  behind : (seesWord "move" s || seesWord "async" s) = true → Look (second s) (second p)

theorem Spelt.closure (h : Spelt ['|'] ParametersFront s p) : ClosureFront s p := by
  have hlook := h.lookBar
  obtain ⟨joint, joint', s', p', rfl, rfl, -⟩ := h
  exact ⟨.of_char hlook (by decide), fun hs => Bool.noConfusion hs⟩

/-- The words that may stand before the parameters of a closure. -/
def closureWords : List String := ["const", "static", "async", "move"]

theorem Worded.closure {w : String} (hw : w ∈ closureWords) (h : Worded w ClosureFront s p) :
    ClosureFront s p := by
  have hwords : ∀ w ∈ closureWords, w ≠ "for" ∧ isIdentifier w = false ∧
      w ∉ ["super", "self", "Self", "crate"] ∧ w ≠ "raw" := by decide
  obtain ⟨hfor, hidentifier, hpath, hraw⟩ := hwords w hw
  have hfollow : ∀ s p, ClosureFront s p → KeywordFollow w s p := fun s p h =>
    ⟨h.toLook, fun _ hs => h.behind (by rw [hs]; rfl), fun _ hs => h.behind (by rw [hs, Bool.or_true]),
      fun hw => (hfor hw).elim⟩
  have hatom : AtomStart s p := (h.mono hfollow).atom_of_follow hidentifier hpath hraw
  obtain ⟨s', p', rfl, rfl, h⟩ := h
  exact ⟨hatom, fun _ => h.toLook⟩

namespace Rereads

/-- A word that may be left out before the parameters of a closure. -/
theorem closureWord {w : String} (hw : w ∈ closureWords) {next next' : Bool → Rule α} {keep : α → γ}
    {follow : α → List Lexeme → List Lexeme → Prop}
    (h : ∀ found s', Rereads g m s' (next found) (next' found) keep (ClosureFront s') follow) :
    Rereads g m s (Rule.keyword? w >>= next) (Rule.keyword? w >>= next') keep (ClosureFront s) follow :=
  keyword? (fun _ hp => hp.word w)
    (fun _ => keyword_then w ClosureFront (h true) fun _ hp => hp.closure hw) fun _ => h false s

/-- A closure is read again. -/
theorem closure (hg : Rereadable g) (braces : Bool) (hs : Rule.seesClosure s = true) :
    Rereads g m s (Rule.closure braces) (Rule.closure braces) id (AtomStart s) fun _ => ExprFollow := by
  unfold Rule.closure
  refine (binder? hg ClosureFront).bind_id (fun bound s₁ => ?_) fun p hp => ?_
  · refine (?_ : Rereads g m s₁ _ _ _ (ClosureFront s₁) _).front_mono
      fun p hp _ hs => ⟨(hp.word "for").trans hs, hp⟩
    refine closureWord (by decide) fun _ s₂ => closureWord (by decide) fun _ s₃ =>
      closureWord (by decide) fun _ s₄ => closureWord (by decide) fun _ s₅ => ?_
    refine operator_then "|" ParametersFront (fun s₆ => ?_) fun p hp => hp.closure
    refine (separated id ParametersFront ParameterEnd (fun _ _ h => h.bar) (fun _ _ h => ?_)
      (fun s _ => closureParameter hg) (fun s hs => ?_) (fun s => operator_solid "," (by decide))).bind
        fun _ _ s₇ _ => ?_
    · obtain ⟨c, -, _, _, _, _, rfl, rfl, -⟩ := h
      rfl
    · exact (operator ",").front_mono fun p hp => ⟨',', by decide, hp⟩
    refine operator_then "|" (fun s p => sees "->" p = sees "->" s) (fun s₈ => ?_) fun p hp _ => ?_
    · refine operator? (fun p hp => hp) (fun _ => ?_) fun hs => ?_
      · refine operator_then "->" (TypeFront False) (fun s₉ => ?_)
          fun p hp => hp.startsWith.2.trans hp.startsWith.1.symm
        refine (hg.plainType m s₉ true).bind_id (fun _ _ => (block hg).front_mono fun p hp => ?_)
          fun _ hp => hp
        obtain ⟨_, _, -, rfl, -⟩ := hp
        exact .of_brace _ _
      · exact (lastExpression hg braces fun _ _ h => h).front_mono fun p hp =>
          (hp.not_guard (by decide) hs).trans hs.symm
    · obtain ⟨_, _, _, _, rfl, rfl, -⟩ := id hp
      exact ⟨⟨rfl, rfl⟩, '|', by decide, hp.mono fun _ _ _ => trivial⟩
  · rcases hp with ⟨s', p', rfl, rfl, hp⟩ | ⟨-, -, hp⟩
    · have hparameters : seesParameters s' = true := by
        simp [Rule.seesClosure, Rule.seesGeneralClosure, seesWord, sees, Lexeme.startsWith] at hs
        exact hs
      have hlook := hp.look (by decide) fun _ _ _ h => h.toLook
      refine Worded.atom_of_follow (w := "for") ⟨s', p', rfl, rfl, hlook, ?_, ?_, fun _ => ?_⟩
        (by decide) (by decide)
        (by decide)
      · exact fun h => absurd h (by decide)
      · exact fun h => absurd h (by decide)
      · obtain ⟨joint, joint', s₂, p₂, rfl, rfl, -, hp⟩ := hp
        exact (hp.parameters joint joint' hparameters).trans hparameters.symm
    · exact hp.toAtomStart

end Rereads

/-! ### Jumps -/

/-- Where an expression may be left out stands one, or what follows it. -/
def ValueOrEnd (s p : List Lexeme) : Prop :=
  (seesExpression s = true ∧ ExprFront s p) ∨ (seesExpression s = false ∧ ExprFollow s p)

theorem ValueOrEnd.expression (h : ValueOrEnd s p) : seesExpression p = seesExpression s := by
  rcases h with ⟨hs, h⟩ | ⟨hs, h⟩
  · exact (h.toLook.expression hs).trans hs.symm
  · exact (h.expression hs).trans hs.symm

/-- How that looks which stands behind the label of a jump. -/
structure JumpFront (s p : List Lexeme) : Prop where
  colon : sees ":" p = sees ":" s
  brace : seesGroup .brace p = seesGroup .brace s
  lifetime : seesLifetime s = false → seesLifetime p = false

theorem ExprFollow.jump (h : ExprFollow s p) : JumpFront s p := ⟨h.colon, h.brace, h.lifetime⟩

theorem ValueOrEnd.jump (h : ValueOrEnd s p) : JumpFront s p :=
  h.elim (fun h => ⟨h.2.operator ":" rfl, h.2.group _, h.2.toLook.lifetime.trans⟩) fun h => h.2.jump

/-- Where a label may be left out stands one, or what follows it. -/
def LabelOr (rest : List Lexeme → List Lexeme → Prop) (s p : List Lexeme) : Prop :=
  Lifelong rest s p ∨ (seesLifetime s = false ∧ seesLifetime p = false ∧ rest s p)

theorem LabelOr.lifetime {rest : List Lexeme → List Lexeme → Prop} (h : LabelOr rest s p) :
    seesLifetime p = seesLifetime s := by
  rcases h with ⟨w, s', p', rfl, rfl, -⟩ | ⟨hs, hp, -⟩
  · rfl
  · rw [hs, hp]

namespace Rereads

/-- An expression is read again that may be left out. -/
theorem expression? (hg : Rereadable g) :
    Rereads g m s Rule.expression? Rule.expression? id (ValueOrEnd s) fun _ => ExprFollow := by
  unfold Rule.expression?
  refine ahead (.sight (fun _ p hp => hp.expression) (fun hs => ?_) fun hs => ?_)
  · exact (lastExpression hg true fun _ _ h => h).front_mono fun p hp => .inl ⟨hs, hp⟩
  · exact pure _ _ rfl fun k hk => .inr ⟨hs, hk⟩

/-- What stands behind the label of a jump is read again. -/
theorem breakValue (hg : Rereadable g) (braces : Bool) :
    Rereads g m s
      (do
        let ls ← Rule.ahead
        if braces || !seesGroup .brace ls then Rule.expression?)
      (do
        let ls ← Rule.ahead
        if braces || !seesGroup .brace ls then Rule.expression?) id (JumpFront s) fun _ => ExprFollow := by
  refine ahead (.sight (fun _ p hp => by rw [hp.brace]) (fun _ => ?_) fun _ => ?_)
  · exact (expression? hg).front_mono fun p hp => hp.jump
  · exact pure _ _ rfl fun k hk => ExprFollow.jump hk

/-- A label that may be left out is read again. -/
theorem label? {next next' : Bool → Rule α} {keep : α → γ} {rest : List Lexeme → List Lexeme → Prop}
    {follow : α → List Lexeme → List Lexeme → Prop}
    (h : ∀ found s', Rereads g m s' (next found) (next' found) keep (rest s') follow)
    (hrest : ∀ s p, rest s p → seesLifetime s = false → seesLifetime p = false) :
    Rereads g m s (Rule.lifetime? >>= next) (Rule.lifetime? >>= next') keep (LabelOr rest s) follow :=
  lifetime? (fun _ hp => hp.lifetime) (fun _ => lifetime_then rest (fun _ _ => h true) fun _ hp => .inl hp)
    fun hs => (h false s).front_mono fun _ hp => .inr ⟨hs, hrest _ _ hp hs, hp⟩

/-- A way out of a loop is read again. -/
theorem breakExpression (hg : Rereadable g) (braces : Bool) :
    Rereads g m s (Rule.breakExpression braces) (Rule.breakExpression braces) id (AtomStart s)
      fun _ => ExprFollow := by
  unfold Rule.breakExpression
  refine keyword_then "break" (LabelOr JumpFront) (fun s' => ?_) fun p hp => hp.atom (by decide) (by decide)
  refine look fun n => .fault (fun _ p hp hs => ?_) (fun r _ => ?_) fun _ => ?_
  · rcases hp with ⟨w, s₂, p₂, rfl, rfl, hp⟩ | ⟨-, hp, -⟩
    · exact (hp.colon : sees ":" p₂ = sees ":" s₂).trans hs
    · rw [hp]
      rfl
  · cases hcall : (call (.expression true)).run g r with
    | error fault => exact ⟨fault, by rw [run_bind, hcall]⟩
    | ok read => exact ⟨_, by rw [run_bind, hcall]; rfl⟩
  · exact label? (fun _ s₂ => breakValue hg braces) fun _ _ h => h.lifetime

/-- A jump to the next round of a loop is read again. -/
theorem continueExpression :
    Rereads g m s (do Rule.keyword "continue"; let _ ← Rule.lifetime?; return ExprShape.other)
      (do Rule.keyword "continue"; let _ ← Rule.lifetime?; return ExprShape.other) ExprShape.placeless
      (AtomStart s) StatementFollow := by
  refine keyword_then "continue" (LabelOr ExprFollow) (fun s' => ?_) fun p hp =>
    hp.atom (by decide) (by decide)
  exact label? (fun _ _ => pure _ _ rfl fun k hk => hk) fun _ _ h => h.lifetime

/-- A jump with a value that may be left out is read again. -/
theorem valueJump (hg : Rereadable g) {w : String} (hw : isIdentifier w = false)
    (hplain : w ∉ decisiveWords) :
    Rereads g m s (do Rule.keyword w; Rule.expression?; return ExprShape.other)
      (do Rule.keyword w; Rule.expression?; return ExprShape.other) ExprShape.placeless (AtomStart s)
      StatementFollow :=
  keyword_then w ValueOrEnd (fun _ => then_pure (expression? hg)) fun _ hp => hp.atom hw hplain

/-! ### Conditions -/

/-- A condition on a pattern is read again. -/
theorem letExpression (hg : Rereadable g) (braces : Bool) :
    Rereads g m s
      (do
        Rule.keyword "let"
        let _ ← Rule.alternatives
        Rule.operator "="
        let shape ← Rule.call (.operand braces)
        let _ ← Rule.call (.operators braces shape .compare)
        return ExprShape.other)
      (do
        Rule.keyword "let"
        let _ ← Rule.alternatives
        Rule.operator "="
        let shape ← Rule.call (.operand braces)
        let _ ← Rule.call (.operators braces shape .compare)
        return ExprShape.other) ExprShape.placeless (AtomStart s)
      StatementFollow := by
  refine keyword_then "let" (fun _ _ => True) (fun s' => ?_) fun p hp => hp.atom (by decide) (by decide)
  refine ((alternatives hg).bind fun _ _ s₂ _ => ?_).front_mono fun _ _ => trivial
  refine operator_then "=" ExprFront (fun s₃ => ?_) fun p hp => ?_
  · refine (hg.operand m s₃ braces).bind fun shape shape' s₄ hshape => ?_
    exact (then_pure (hg.operators m s₄ braces shape shape' .compare hshape)).front_mono
      fun p hp => hp.shape shape
  · obtain ⟨_, _, _, _, rfl, rfl, -⟩ := hp
    exact ⟨.of_punct (by decide) _ _ _ _, rfl⟩

end Rereads

end TypedId.Grammar
