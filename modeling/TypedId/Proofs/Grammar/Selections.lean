import TypedId.Proofs.Grammar.Beginnings

/-!
What follows an expression is read again: calls, selections and the like.

A number with a point behind a point names fields of nested tuples. It is taken at once, and each
index is written on its own, so what one step took is read again by several.
-/

namespace TypedId.Grammar

open Lexeme Rule

variable {g : PhraseReader} {m : Rendition} {s p k : List Lexeme} {α β γ : Type}

/-! ### Behind an expression -/

theorem ShapeFollow.quiet {a : ExprShape} (h : ShapeFollow a s k) : QuietFollow s k := by
  unfold ShapeFollow at h
  split at h
  · exact h
  · exact ExprFollow.quiet h

/-- A single point. -/
theorem ExprFollow.of_point {joint joint' : Bool} (hs : sees ".." (punct '.' joint :: s) = false)
    (hp : sees ".." (punct '.' joint' :: p) = false) :
    ExprFollow (punct '.' joint :: s) (punct '.' joint' :: p) := by
  refine ⟨⟨.of_punct (by decide) _ _ _ _, fun _ _ => rfl, fun _ => rfl, fun _ => rfl, fun _ => rfl,
    fun _ => rfl, fun _ => rfl, fun c _ => by cases c <;> rfl, fun _ => rfl, fun _ => rfl⟩, rfl,
    fun _ => rfl, ⟨rfl, rfl⟩, ⟨rfl, rfl⟩, rfl, rfl, rfl, ?_, rfl, rfl, rfl, hp.trans hs.symm, rfl,
    fun _ => rfl, fun _ => ?_, fun braces _ => ?_, rfl⟩
  · rw [hp, hs]
    rfl
  · rw [seesExpression, hp]
    rfl
  · have hpoint : sees "." (punct '.' joint' :: p) = true := rfl
    simp [endsRange, hp, hpoint]

theorem ExprFollow.of_question (joint joint' : Bool) (s k : List Lexeme) :
    ExprFollow (punct '?' joint :: s) (punct '?' joint' :: k) := by
  refine ⟨⟨.of_punct (by decide) _ _ _ _, fun _ _ => rfl, fun _ => rfl, fun _ => rfl, fun _ => rfl,
    fun _ => rfl, fun _ => rfl, fun _ => id, fun _ => rfl, fun _ => rfl⟩, rfl,
    fun _ => rfl, ⟨rfl, rfl⟩, ⟨rfl, rfl⟩, rfl, rfl, rfl, rfl, rfl, rfl, rfl, rfl, rfl, fun _ => rfl,
    fun _ => rfl, fun braces _ => by cases braces <;> rfl, rfl⟩

/-! ### Members -/

/-- Both texts begin with what a point selects. -/
def SelectedFront (s p : List Lexeme) : Prop :=
  Worded "await" (fun _ _ => True) s p ∨ MemberSpelt (fun _ _ => True) s p

theorem SelectedFront.look (h : SelectedFront s p) : Look s p :=
  h.elim Worded.look MemberSpelt.look

theorem MemberSpelt.mono {rest rest' : List Lexeme → List Lexeme → Prop} (h : MemberSpelt rest s p)
    (hrest : ∀ s p, rest s p → rest' s p) : MemberSpelt rest' s p := by
  cases h with
  | name w hw h => exact .name w hw (hrest _ _ h)
  | index hs hp h => exact .index hs hp (hrest _ _ h)

namespace Rereads

/-- Expressions in parentheses are read again. -/
theorem parenthesizedExpression (hg : Rereadable g) {follow : Unit → List Lexeme → List Lexeme → Prop} :
    Rereads g m s Rule.parenthesizedExpression Rule.parenthesizedExpression id (Bracketed .parenthesis s)
      follow :=
  groupedList ExprShape.placeless fun s' _ =>
    (hg.expression m s' true).mono (fun _ hp => hp.ends) fun a _ _ hk => hk.expression.shape a

/-- The arguments of a method are read again: those in angle brackets, and those in parentheses. -/
theorem methodArguments (hg : Rereadable g) (turbofish parenthesized : Bool) :
    Rereads g m s
      (do
        if turbofish then
          Rule.operator "::"
          Rule.angleArguments
        if turbofish || parenthesized then
          Rule.within .parenthesis do
            let _ ← Rule.commaList (Rule.call (.expression true)))
      (do
        if turbofish then
          Rule.operator "::"
          Rule.angleArguments
        if turbofish || parenthesized then
          Rule.within .parenthesis do
            let _ ← Rule.commaList (Rule.call (.expression true))) id
      (fun p => if turbofish then Spelt [':', ':'] (fun _ _ => True) s p
        else if parenthesized then Bracketed .parenthesis s p else ExprFollow s p) fun _ => ExprFollow := by
  cases turbofish with
  | true =>
      refine operator_then "::" (fun s p => Look s p ∧ sees "<" s = true ∧ sees "<" p = true) (fun s' => ?_)
        fun p hp => hp.mono fun _ _ _ => trivial
      exact (angleArguments hg).bind_id (fun _ s₂ => parenthesizedExpression hg) fun p hp => hp
  | false =>
      cases parenthesized with
      | true => exact parenthesizedExpression hg
      | false => exact pure _ _ rfl fun k hk => hk

/-- A method or field is read again behind a point. -/
theorem namedMember (hg : Rereadable g) :
    Rereads g m s Rule.namedMember Rule.namedMember id (SelectedFront s) fun _ => ExprFollow := by
  unfold Rule.namedMember
  refine keyword? (fun p hp => hp.look.word _) (fun _ => ?_) fun _ => ?_
  · exact keyword_then "await" (fun _ _ => True) (fun _ => pure _ _ rfl fun _ _ => trivial)
      fun p hp => .inl hp
  -- Behind a name stand arguments in both texts or in none.
  refine (member fun named s p => (named && sees "::" p) = (named && sees "::" s) ∧
    (named && seesGroup .parenthesis p) = (named && seesGroup .parenthesis s)).bind_id
      (fun named s' => ?_) fun p ⟨_, hp⟩ => .inr (hp.mono fun _ _ _ => trivial)
  refine ahead (((methodArguments hg _ _).front_mono fun p hp => ?_).congr (fun _ _ => rfl)
    fun q hq => by dsimp only; rw [hq.1, hq.2])
  cases named with
  | false => exact ⟨rfl, rfl⟩
  | true =>
      simp only [Bool.true_and] at hp ⊢
      split at hp
      · next hcolons =>
        obtain ⟨_, _, rfl, rfl, _, _, _, _, rfl, rfl, -⟩ := hp
        exact ⟨rfl, rfl⟩
      · next hcolons =>
        split at hp
        · obtain ⟨_, _, rfl, rfl, -⟩ := hp
          exact ⟨rfl, rfl⟩
        · next hparenthesis =>
          have hs := Bool.eq_false_iff.mpr hparenthesis
          exact ⟨hp.separate.2.trans hp.separate.1.symm, (hp.parenthesis hs).trans hs.symm⟩

end Rereads

/-! ### Points -/

/-- Reads what a point selects. -/
def Rule.afterPoint : Rule Unit := do
  let v ← look
  let goesOn ← match v.rest with
    | Lexeme.literal text :: _ =>
      if Number.isFraction text then nestedIndex text (.single v.position) false else pure true
    | punct '-' _ :: Lexeme.literal text :: _ =>
      if Number.isFraction text then
        nestedIndex text ⟨v.position, v.position + 1⟩ true
      else pure true
    | _ => pure true
  if goesOn then namedMember

theorem Rule.selection_eq : selection = (do operator "."; afterPoint) := rfl

/-- Whether a number with a point comes next. -/
def Rule.seesFraction : List Lexeme → Bool
  | Lexeme.literal text :: _ => Number.isFraction text
  | _ => false

/-- Where no number with a point comes next, a method or field does. -/
theorem Rule.run_afterPoint {r : Reader} (h : seesFraction r.rest = false)
    (hminus : sees "-" r.rest = false) : afterPoint.run g r = namedMember.run g r := by
  have hgoesOn : (do
      let goesOn ← pure true
      if goesOn then namedMember else pure () : Rule Unit).run g r = namedMember.run g r := rfl
  rw [afterPoint, run_bind_of_ok (run_look r)]
  dsimp only
  split
  · next text rest hr =>
    rw [hr] at h
    rw [if_neg (by simpa [seesFraction] using h)]
    exact hgoesOn
  · next hr =>
    rw [hr] at hminus
    cases hminus
  · exact hgoesOn

/-- The lexemes of some indices, each behind a point. -/
def dotted (indices : List Nat) : List Lexeme :=
  indices.flatMap fun index => [punct '.' false, indexLexeme index]

theorem length_dotted (indices : List Nat) : (dotted indices).length = 2 * indices.length := by
  induction indices with
  | nil => rfl
  | cons index indices ih =>
      rw [dotted, List.flatMap_cons, ← dotted, List.length_append, ih, List.length_cons, List.length_cons,
        List.length_cons, List.length_nil]
      omega

theorem cons_intersperse (indices : List Nat) (h : indices ≠ []) :
    punct '.' false :: (indices.map indexLexeme).intersperse (punct '.' false) = dotted indices := by
  induction indices with
  | nil => exact (h rfl).elim
  | cons index indices ih =>
      cases indices with
      | nil => rfl
      | cons index' indices =>
          have ih' := ih (List.cons_ne_nil _ _)
          rw [dotted, List.flatMap_cons, ← dotted, ← ih']
          rfl

theorem mapM_cons_eq_ok {f : α → Except γ β} {x : α} {xs : List α} {ys : List β}
    (h : (x :: xs).mapM f = .ok ys) : ∃ y ys', f x = .ok y ∧ xs.mapM f = .ok ys' ∧ ys = y :: ys' := by
  rw [List.mapM_cons] at h
  cases hx : f x with
  | error e => rw [hx] at h; cases h
  | ok y =>
      cases hxs : xs.mapM f with
      | error e => rw [hx, hxs] at h; cases h
      | ok ys' =>
          rw [hx, hxs] at h
          cases h
          exact ⟨y, ys', rfl, rfl, rfl⟩

/-- A number denotes some indices, if any. -/
theorem tupleIndices_ne_nil {text : String} (h : Number.isNumber text = true) {indices : List Nat}
    (hindices : tupleIndices text = .ok indices) : indices ≠ [] := by
  cases hcs : text.toList with
  | nil => simp [Number.isNumber, hcs] at h
  | cons c cs =>
      have hpoint : (c == '.') = false := by
        refine beq_eq_false_iff_ne.mpr ?_
        rintro rfl
        simp [Number.isNumber, hcs, Lexer.isDigit] at h
      obtain ⟨piece, pieces, hpieces⟩ :=
        List.exists_cons_of_ne_nil (List.splitOnP_ne_nil (fun x => x == '.') cs)
      rw [tupleIndices, hcs, List.splitOn, List.splitOnP_cons_eq_if_modifyHead, hpoint,
        if_neg Bool.false_ne_true, hpieces] at hindices
      obtain ⟨index, indices', -, -, rfl⟩ := mapM_cons_eq_ok hindices
      exact List.cons_ne_nil _ _

/-- The numbers that are written for the indices denote them. -/
theorem tupleIndex_of_mem {text : String} {indices : List Nat} (h : tupleIndices text = .ok indices)
    {index : Nat} (hindex : index ∈ indices) : tupleIndex (toString index) = .ok index := by
  rw [tupleIndices] at h
  generalize (text.toList.splitOn '.').filter (· ≠ []) = pieces at h
  induction pieces generalizing indices with
  | nil =>
      cases h
      cases hindex
  | cons piece pieces ih =>
      obtain ⟨first, rest, hfirst, hrest, rfl⟩ := mapM_cons_eq_ok h
      rcases List.mem_cons.mp hindex with rfl | hmem
      · exact tupleIndex_index hfirst
      · exact ih hmem hrest

/-- A number with a point names fields of nested tuples. -/
theorem Rule.run_afterPoint_of_fraction {r : Reader} {text : String} {rest : List Lexeme}
    (hr : r.rest = Lexeme.literal text :: rest) (hfraction : Number.isFraction text = true) :
    afterPoint.run g r =
      match tupleIndices text with
      | .error complaint => .error ⟨.single r.position, complaint, false⟩
      | .ok indices =>
        let lexemes := (indices.map indexLexeme).intersperse (punct '.' false)
        (if text.endsWith "." then namedMember else pure () : Rule Unit).run g
          (r.take 1 (if text.endsWith "." then lexemes ++ [punct '.' false] else lexemes)) := by
  rw [afterPoint, run_bind_of_ok (run_look r), hr]
  simp only [hfraction, if_true, nestedIndex, Bool.false_eq_true, if_false]
  cases tupleIndices text with
  | error complaint => rfl
  | ok indices => rfl

/-- Anything that a point selects begins with a word or a whole number. -/
theorem SelectedFront.not_number (h : SelectedFront s p) :
    seesFraction p = false ∧ sees "-" p = false ∧ sees "." p = false := by
  rcases h with ⟨_, _, rfl, rfl, -⟩ | h
  · exact ⟨rfl, rfl, rfl⟩
  · cases h with
    | name w => exact ⟨rfl, rfl, rfl⟩
    | index hs hp =>
        refine ⟨?_, rfl, rfl⟩
        rw [seesFraction, Number.isFraction, hp]
        exact Bool.and_false _

/-- No minus stands behind a point. -/
theorem Rule.run_afterPoint_of_minus {r : Reader} (h : sees "-" r.rest = true) :
    ∃ fault, afterPoint.run g r = .error fault := by
  obtain ⟨joint, rest, hr⟩ := exists_of_sees (c := '-') h
  have hmember : ∃ fault, member.run g r = .error fault := by
    rw [member, run_bind_of_ok (run_look r), hr]
    rw [if_neg (by simp [seesIdentifier])]
    split
    · next heq => cases heq
    · split
      · exact ⟨_, run_fail ..⟩
      · exact ⟨_, run_complain ..⟩
    · exact ⟨_, run_complain ..⟩
  have hnamed : ∃ fault, namedMember.run g r = .error fault := by
    obtain ⟨fault, hfault⟩ := hmember
    refine ⟨fault, ?_⟩
    rw [namedMember, run_bind_of_ok (run_keyword?_of_not_sees (by rw [hr]; rfl)), if_neg Bool.false_ne_true,
      run_bind, hfault]
  rw [afterPoint, run_bind_of_ok (run_look r), hr]
  dsimp only
  split
  · next heq => cases heq
  · split
    · exact ⟨_, rfl⟩
    · exact hnamed
  · exact hnamed

namespace Rereads

/-- What a point selects is read again. -/
theorem afterPoint (hg : Rereadable g) (hs : seesFraction s = false) :
    Rereads g m s Rule.afterPoint Rule.afterPoint id (SelectedFront s) fun _ => ExprFollow := by
  cases hminus : sees "-" s with
  | true => exact .of_error fun r hr => run_afterPoint_of_minus (hr ▸ hminus)
  | false =>
      exact (namedMember hg).congr (fun r hr => run_afterPoint (hr ▸ hs) (hr ▸ hminus))
        fun q hq => run_afterPoint hq.not_number.1 hq.not_number.2.1

end Rereads

/-! ### Steps -/

/-- One call, selection or the like behind an expression. -/
def Rule.trailersStep (shape : ExprShape) : Rule (ExprShape ⊕ ExprShape) := do
  let ls ← ahead
  if seesGroup .parenthesis ls then
    parenthesizedExpression
    return .inl .other
  else if sees "." ls && !sees ".." ls && !shape.isRange then
    selection
    return .inl .other
  else if seesGroup .bracket ls then
    within .bracket do
      let _ ← call (.expression true)
    return .inl .other
  else if sees "?" ls && !shape.isRange then
    operator "?"
    return .inl .other
  else return .inr shape

theorem Rule.trailers_eq (shape : ExprShape) : trailers shape = repeating trailersStep shape := rfl

namespace Rereads

/-- A step behind an expression is read again, where no number with a point is selected. -/
theorem trailersStep (hg : Rereadable g) {shape shape' : ExprShape} (h : shape'.placeless = shape.placeless)
    (hs : shape.isRange = false → ∀ joint s', s = punct '.' joint :: s' → seesFraction s' = false) :
    Rereads g m s (Rule.trailersStep shape) (Rule.trailersStep shape')
      (Sum.map ExprShape.placeless ExprShape.placeless) (ShapeFollow shape s)
      (stepFollow ShapeFollow ShapeFollow) := by
  unfold Rule.trailersStep
  rw [ExprShape.isRange_eq h]
  have hother : ∀ s', Rereads g m s' (Pure.pure (Sum.inl ExprShape.other) : Rule (ExprShape ⊕ ExprShape))
      (Pure.pure (Sum.inl ExprShape.other)) (Sum.map ExprShape.placeless ExprShape.placeless)
      (ExprFollow s') (stepFollow ShapeFollow ShapeFollow) := fun s' => pure _ _ rfl fun k hk => hk
  have hgroup : ∀ {d : Delimiter} {p}, Bracketed d s p → ShapeFollow shape s p := by
    rintro d p ⟨s', p', rfl, rfl, -⟩
    exact (ExprFollow.of_opening d s' p').shape _
  refine ahead (.sight_mono (Bracketed .parenthesis s) (fun p hp => hgroup hp) (fun _ _ p hp => ?_)
    (fun hunseen _ p hp => hp.quiet.parenthesis hunseen) (fun _ => ?_) fun _ => ?_)
  · obtain ⟨s', p', rfl, rfl, -⟩ := hp
    rfl
  · exact (parenthesizedExpression hg : Rereads g m s _ _ _ _ fun _ => ExprFollow).bind_id
      (fun _ s' => hother s') fun p hp => hp
  refine .sight_mono (fun p => sees "." p = true ∧ sees ".." p = false ∧ ExprFollow s p)
    (fun p hp => hp.2.2.shape _) (fun hseen _ p hp => ?_) (fun hunseen _ p hp => ?_)
    (fun hseen => ?_) fun _ => ?_
  · rw [Bool.and_eq_true] at hseen
    rw [hp.1, hp.2.1, hseen.2]
    rfl
  · rw [hp.quiet.dot]
    exact hunseen
  · simp only [Bool.and_eq_true, Bool.not_eq_true'] at hseen
    obtain ⟨joint, s', rfl⟩ := exists_of_sees (c := '.') hseen.1.1
    refine ((operator_then_of_cons "." rfl (afterPoint hg (hs hseen.2 joint s' rfl))).bind_id
      (fun _ s₂ => hother s₂)
      fun p hp => hp).front_mono ?_
    rintro p ⟨_, joint', _, p', heq, rfl, -, -, hp⟩
    cases heq
    have hdots : sees ".." (punct '.' joint' :: p') = false := by
      rw [show sees ".." (punct '.' joint' :: p') = _ from startsWith_cons_punct '.' '.' [] joint' p',
        show startsWith ['.'] p' = false from hp.not_number.2.2, Bool.and_false]
    exact ⟨rfl, hdots, .of_point hseen.1.2 hdots⟩
  refine .sight_mono (Bracketed .bracket s) (fun p hp => hgroup hp) (fun _ _ p hp => ?_)
    (fun hunseen _ p hp => hp.quiet.bracket hunseen) (fun _ => ?_) fun _ => ?_
  · obtain ⟨s', p', rfl, rfl, -⟩ := hp
    rfl
  · refine ((within (fun s p => ExprFront s p) fun s' _ => ?_ :
      Rereads g m s _ _ _ _ fun _ => ExprFollow).bind_id
      (fun _ s' => hother s') fun p hp => hp.bracketed)
    refine (hg.expression m s' true).bind fun a a' s₂ _ => pure () () rfl fun k hk => ?_
    obtain ⟨d, _, _, rfl, rfl⟩ := hk
    exact (ExprFollow.of_closing _ _ _).shape _
  refine .sight_mono (Spelt ['?'] ExprFollow s) (fun p hp => ?_) (fun hseen _ p hp => ?_)
    (fun hunseen _ p hp => ?_) (fun _ => ?_) fun _ => ?_
  · obtain ⟨_, _, _, _, rfl, rfl, -⟩ := hp
    exact (ExprFollow.of_question _ _ _ _).shape _
  · rw [Bool.and_eq_true] at hseen
    rw [show sees "?" p = true from hp.startsWith.2, hseen.2]
    rfl
  · rw [hp.quiet.question]
    exact hunseen
  · exact operator_then "?" ExprFollow (fun s' => hother s') fun p hp => hp
  · exact pure _ _ (congrArg Sum.inr h) fun k hk => hk

/-- A step that is repeated leaves a text. -/
theorem trailersStep_solid (hg : Rereadable g) (shape : ExprShape) :
    Solid g m s (Rule.trailersStep shape) fun y => y.isLeft = true := by
  have hgroup : ∀ {s d} {rule : Rule Unit}, Rereads g m s rule rule id (Bracketed d s) (fun _ _ _ => True) →
      Solid g m s rule fun _ => True := by
    intro s d rule h
    refine h.solid (fun _ _ _ => trivial) ?_
    rintro _ _ _ _ _ _ ⟨_, _, _, hnil, _⟩
    cases hnil
  refine .ahead (.ite (fun _ => .bind_left (hgroup (parenthesizedExpression hg))) fun _ =>
    .ite (fun _ => .bind_left (.bind_left (operator_solid "." (by decide)))) fun _ =>
      .ite (fun _ => .bind_left (hgroup (d := .bracket) ?_)) fun _ =>
        .ite (fun _ => .bind_left (operator_solid "?" (by decide))) fun _ => .pure (by simp))
  exact (within (fun s p => ExprFront s p) fun s' _ => (hg.expression m s' true).bind fun _ _ _ _ =>
    pure () () rfl fun k hk => (Listed.of_ended hk).expression.shape _).front_mono fun _ => Opened.bracketed

end Rereads

/-! ### Numbers with points -/

/-- A point, if no other follows it, begins a step. -/
theorem Rule.run_trailersStep_point {shape : ExprShape} (hshape : shape.isRange = false) {r : Reader}
    {joint : Bool} {rest : List Lexeme} (hr : r.rest = punct '.' joint :: rest)
    (hrest : sees "." rest = false)
    (hstray : r.stray = none) :
    (trailersStep shape).run g r =
      (do afterPoint; return .inl .other : Rule (ExprShape ⊕ ExprShape)).run g
        (r.after [punct '.' joint] [punct '.' false] rest) := by
  have hdots : sees ".." (punct '.' joint :: rest) = false :=
    (startsWith_cons_punct '.' '.' [] joint rest).trans
      (by rw [show startsWith ['.'] rest = false from hrest, Bool.and_false])
  have hoperator : (operator ".").run g r = .ok ((), r.after [punct '.' joint] [punct '.' false] rest) := by
    rw [run_operator_of_sees (by rw [hr]; rfl)]
    exact congrArg (fun q => Except.ok ((), q)) (Reader.take_eq_after [punct '.' joint] _ hr hstray)
  rw [trailersStep, run_bind_of_ok (run_ahead r), hr, if_neg (by simp [seesGroup]),
    if_pos (by rw [hdots, hshape]; rfl), selection_eq, run_bind, run_bind_of_ok hoperator, run_bind]

/-- One index behind a point is taken in one step. -/
theorem Rule.run_trailersStep_index {index : Nat} (hindex : tupleIndex (toString index) = .ok index)
    {shape : ExprShape} (hshape : shape.isRange = false) {r : Reader} {rest : List Lexeme}
    (hr : r.rest = dotted [index] ++ rest) (hstray : r.stray = none) :
    (trailersStep shape).run g r = .ok (.inl .other, r.after (dotted [index]) (dotted [index]) rest) := by
  have hwhole := isWhole_index index
  have hnamed : namedMember.run g (r.after [punct '.' false] [punct '.' false] (indexLexeme index :: rest)) =
      .ok ((), r.after (dotted [index]) (dotted [index]) rest) := by
    rw [namedMember, run_bind_of_ok (run_keyword?_of_not_sees rfl), if_neg Bool.false_ne_true,
      run_bind_of_ok (run_member_of_index rfl rfl hwhole hindex), run_bind_of_ok (run_ahead _)]
    simp only [Bool.false_and, Bool.false_or, Bool.false_eq_true, if_false, Reader.after_after]
    rfl
  have hfraction : seesFraction (indexLexeme index :: rest) = false := by
    show Number.isFraction (toString index) = false
    rw [Number.isFraction, hwhole]
    exact Bool.and_false _
  have hr' : r.rest = punct '.' false :: indexLexeme index :: rest := hr
  rw [run_trailersStep_point hshape hr' rfl hstray, run_bind, run_afterPoint hfraction rfl, hnamed]
  rfl

/-- Some indices behind points are taken in as many steps. -/
theorem Rule.steps_dotted {indices : List Nat}
    (hindices : ∀ index ∈ indices, tupleIndex (toString index) = .ok index) {shape : ExprShape}
    (hshape : shape.isRange = false) {r : Reader} {rest : List Lexeme}
    (hr : r.rest = dotted indices ++ rest) (hstray : r.stray = none) :
    ∃ z, z.isRange = false ∧ (indices ≠ [] → z = .other) ∧
      Rereads.Steps (fun x => (trailersStep x).run g) indices.length shape r z
        (r.after (dotted indices) (dotted indices) rest) := by
  induction indices generalizing shape r with
  | nil =>
      refine ⟨shape, hshape, fun h => (h rfl).elim, ?_⟩
      have hrest : r.rest = rest := hr
      rw [← hrest, show dotted [] = [] from rfl, Reader.after_nil hstray]
      exact .refl ..
  | cons index indices ih =>
      have hr₂ : r.rest = dotted [index] ++ (dotted indices ++ rest) := hr.trans (List.append_assoc ..)
      have hone := run_trailersStep_index (g := g) (hindices index List.mem_cons_self) hshape hr₂ hstray
      have hother : ExprShape.other.isRange = false := rfl
      obtain ⟨z, hz, hother, hsteps⟩ := ih (fun i hi => hindices i (List.mem_cons_of_mem _ hi)) hother
        (r := r.after (dotted [index]) (dotted [index]) (dotted indices ++ rest)) rfl rfl
      refine ⟨z, hz, fun _ => ?_, ?_⟩
      · cases indices with
        | nil => cases hsteps; rfl
        | cons => exact hother (List.cons_ne_nil _ _)
      · rw [Reader.after_after] at hsteps
        exact .more hone hsteps

/-! ### Numbers with points that are selected -/

/-- What is written in place of a point and a number with points. -/
def numberText (text : String) (indices : List Nat) : List Lexeme :=
  dotted indices ++ if text.endsWith "." then [punct '.' false] else []

/-- Reads what a point at the end of a number selects. -/
def Rule.behindNumber (text : String) : Rule Unit :=
  if text.endsWith "." then namedMember else pure ()

/-- A number with a point is taken in one step. -/
theorem Rule.run_trailersStep_fraction {shape : ExprShape} (hshape : shape.isRange = false) {r : Reader}
    {joint : Bool} {text : String} {rest : List Lexeme}
    (hr : r.rest = punct '.' joint :: Lexeme.literal text :: rest) (hstray : r.stray = none)
    (hfraction : Number.isFraction text = true) :
    (trailersStep shape).run g r =
      match tupleIndices text with
      | .error complaint => .error ⟨.single (r.position + 1), complaint, false⟩
      | .ok indices =>
        (do behindNumber text; return .inl .other : Rule (ExprShape ⊕ ExprShape)).run g
          (r.after [punct '.' joint, Lexeme.literal text] (numberText text indices) rest) := by
  rw [run_trailersStep_point hshape hr rfl hstray, run_bind, run_afterPoint_of_fraction rfl hfraction]
  cases hindices : tupleIndices text with
  | error complaint => rfl
  | ok indices =>
      have hne := tupleIndices_ne_nil ((Bool.and_eq_true _ _).mp hfraction).1 hindices
      have htext : punct '.' false :: (if text.endsWith "." then
          (indices.map indexLexeme).intersperse (punct '.' false) ++ [punct '.' false]
          else (indices.map indexLexeme).intersperse (punct '.' false)) = numberText text indices := by
        rw [numberText, ← cons_intersperse indices hne]
        split <;> simp
      have htake : ∀ written, (r.after [punct '.' joint] [punct '.' false]
          (Lexeme.literal text :: rest)).take 1 written =
            r.after [punct '.' joint, Lexeme.literal text] (punct '.' false :: written) rest :=
        fun written => (Reader.take_eq_after [Lexeme.literal text] written rfl rfl).trans
          (Reader.after_after ..)
      dsimp only
      rw [htake, htext, run_bind]
      rfl

namespace Rereads

theorem Steps.trans {σ : Type} {step : σ → Reader → Outcome (σ ⊕ α)} {n n' : Nat} {x y z : σ}
    {r r' r'' : Reader} (h : Steps step n x r y r') (h' : Steps step n' y r' z r'') :
    Steps step (n' + n) x r z r'' := by
  induction h with
  | refl => exact h'
  | more hone _ ih => exact .more hone (ih h')

/-- What a point at the end of a number selects is read again. -/
theorem behindNumber (hg : Rereadable g) (text : String) :
    Rereads g m s (Rule.behindNumber text) (Rule.behindNumber text) id
      (fun p => text.endsWith "." = true → SelectedFront s p) fun _ => ExprFollow := by
  unfold Rule.behindNumber
  split
  · exact (namedMember hg).front_mono fun _ hp _ => hp
  · next hend => exact pure _ _ rfl fun _ _ h => (hend h).elim

/-- What is written for a number with points is taken in as many steps as it has points. -/
theorem steps_number {text : String} {indices : List Nat}
    (hindices : ∀ index ∈ indices, Rule.tupleIndex (toString index) = .ok index) (hne : indices ≠ [])
    {shape : ExprShape} (hshape : shape.isRange = false) {q : Reader} {selected k : List Lexeme}
    {selected' : List Lexeme} (hq : q.rest = numberText text indices ++ (selected ++ k))
    (hstray : q.stray = none)
    (hselected : text.endsWith "." = true → SelectedFront selected' (selected ++ k))
    (hrun : (Rule.behindNumber text).run g (q.after (numberText text indices) (numberText text indices)
      (selected ++ k)) = .ok ((), q.after (numberText text indices ++ selected)
        (numberText text indices ++ selected) k)) :
    ∃ n, n ≤ (numberText text indices ++ selected).length ∧
      Steps (fun x => (Rule.trailersStep x).run g) n shape q .other
        (q.after (numberText text indices ++ selected) (numberText text indices ++ selected) k) := by
  have hlength := length_dotted indices
  rw [numberText] at hq hrun ⊢
  rw [Rule.behindNumber] at hrun
  by_cases hend : text.endsWith "." = true
  · simp only [if_pos hend] at hq hrun ⊢
    obtain ⟨z, hz, hother, hsteps⟩ := Rule.steps_dotted hindices hshape
      (hq.trans (List.append_assoc ..)) hstray
    obtain rfl := hother hne
    obtain ⟨hfraction, hminus, hpoint⟩ := (hselected hend).not_number
    have hone : (Rule.trailersStep .other).run g (q.after (dotted indices) (dotted indices)
        ([punct '.' false] ++ (selected ++ k))) =
          .ok (.inl .other, q.after (dotted indices ++ [punct '.' false] ++ selected)
            (dotted indices ++ [punct '.' false] ++ selected) k) := by
      rw [Rule.run_trailersStep_point rfl rfl hpoint rfl, Rule.run_bind,
        Rule.run_afterPoint hfraction hminus, Reader.after_after, hrun]
      rfl
    refine ⟨_, ?_, hsteps.trans (.more hone (.refl ..))⟩
    simp only [List.length_append, List.length_singleton]
    omega
  · simp only [if_neg hend, List.append_nil, Rule.run_pure] at hq hrun ⊢
    obtain ⟨z, hz, hother, hsteps⟩ := Rule.steps_dotted hindices hshape hq hstray
    obtain rfl := hother hne
    rw [(Prod.mk.inj (Except.ok.inj hrun)).2] at hsteps
    refine ⟨_, ?_, hsteps⟩
    rw [List.length_append]
    omega

/-- A number with a point that is selected is read again: by one step from its source, and by as many
steps as there are points from what is written. -/
theorem nestedStep (hg : Rereadable g) {joint : Bool} {text : String} {s' : List Lexeme}
    (hs : s = punct '.' joint :: Lexeme.literal text :: s') (hfraction : Number.isFraction text = true)
    {shape shape' : ExprShape} (hshape : shape.isRange = false) (h : shape'.placeless = shape.placeless) :
    RereadsStep g m s (Rule.trailersStep shape) Rule.trailersStep shape' ExprShape.placeless
      ExprShape.placeless (ShapeFollow shape s) (stepFollow ShapeFollow ShapeFollow) := by
  intro htidy r y r' hr hb hrun hstray
  have hshape' : shape'.isRange = false := (ExprShape.isRange_eq h).trans hshape
  have hstray₀ : r.stray = none := (Rule.trailersStep shape).run_stray htidy r y r' hrun hstray
  rw [Rule.run_trailersStep_fraction hshape (hr.trans hs) hstray₀ hfraction] at hrun
  cases hindices : Rule.tupleIndices text with
  | error complaint => simp [hindices] at hrun
  | ok indices =>
  rw [hindices] at hrun
  obtain ⟨u, r₁, hbehind, hpure⟩ := Rule.run_bind_eq_ok.mp hrun
  rw [Rule.run_pure] at hpure
  cases hpure
  have hclosed : Closed [punct '.' joint, Lexeme.literal text] := (Closed.punct _ _).append (.literal _)
  have hb' : Balanced ([punct '.' joint, Lexeme.literal text] ++ s') := by
    rw [hs] at hb
    exact hb
  replace hb' := hclosed.balanced hb'
  obtain ⟨taken, written, hclosed', -, hrest, hafter, hagain⟩ :=
    behindNumber (m := m) hg text htidy _ u r' rfl hb' hbehind hstray
  refine ⟨[punct '.' joint, Lexeme.literal text] ++ taken, numberText text indices ++ written,
    hclosed.append hclosed', hstray₀, ?_, ?_, fun q k hq hq' hk => ?_⟩
  · exact hs.trans (congrArg ([punct '.' joint, Lexeme.literal text] ++ ·) hrest)
  · exact hafter.trans (Reader.after_after ..)
  have hne := tupleIndices_ne_nil ((Bool.and_eq_true _ _).mp hfraction).1 hindices
  have hpoint : ∀ joint ls, sees ".." (punct '.' joint :: Lexeme.literal text :: ls) = false :=
    fun joint ls =>
    (startsWith_cons_punct '.' '.' [] joint (Lexeme.literal text :: ls)).trans (Bool.and_false _)
  cases m with
  | source =>
      obtain ⟨-, _, -, hagain⟩ := hagain (q.after [punct '.' joint, Lexeme.literal text]
        (numberText text indices) (taken ++ k)) k rfl rfl hk
      have hone : (Rule.trailersStep shape').run g q = .ok (.inl .other,
          q.after ([punct '.' joint, Lexeme.literal text] ++ taken)
            (numberText text indices ++ written) k) := by
        rw [Rule.run_trailersStep_fraction hshape' hq hq' hfraction, hindices]
        refine (Rule.run_bind_of_ok hagain _).trans ?_
        rw [Reader.after_after]
        rfl
      refine ⟨?_, 1, .other, by simp [Rendition.text], rfl, .more hone (.refl ..)⟩
      rw [hq, hs]
      exact (ExprFollow.of_point (hpoint _ _) (hpoint _ _)).shape _
  | written =>
      obtain ⟨hfront, _, -, hagain⟩ := hagain (q.after (numberText text indices) (numberText text indices)
        (written ++ k)) k rfl rfl hk
      rw [Reader.after_after] at hagain
      have hq₂ : q.rest = numberText text indices ++ (written ++ k) := by
        rw [hq]
        exact List.append_assoc ..
      obtain ⟨n, hn, hsteps⟩ := steps_number (fun _ hmem => tupleIndex_of_mem hindices hmem) hne hshape'
        hq₂ hq' hfront hagain
      refine ⟨?_, n, .other, hn, rfl, hsteps⟩
      obtain ⟨index, indices, rfl⟩ := List.exists_cons_of_ne_nil hne
      rw [hq₂, hs]
      exact (ExprFollow.of_point (hpoint _ _) rfl).shape _

/-! ### All steps -/

/-- What follows an expression is read again. -/
theorem trailers (hg : Rereadable g) {shape shape' : ExprShape} (h : shape'.placeless = shape.placeless) :
    Rereads g m s (Rule.trailers shape) (Rule.trailers shape') ExprShape.placeless (ShapeFollow shape s)
      ShapeFollow := by
  rw [Rule.trailers_eq, Rule.trailers_eq]
  refine repeatingSteps ExprShape.placeless ShapeFollow ShapeFollow (fun x x' s hx => ?_)
    (fun _ _ _ => id) h
  by_cases hs : ∃ joint text s', s = punct '.' joint :: Lexeme.literal text :: s' ∧
      Number.isFraction text = true ∧ x.isRange = false
  · obtain ⟨joint, text, s', rfl, hfraction, hrange⟩ := hs
    exact nestedStep hg rfl hfraction hrange hx
  · refine step (trailersStep hg hx fun hrange joint s' hpoint => ?_) (trailersStep_solid hg x)
    subst hpoint
    unfold seesFraction
    split
    · next text rest =>
      exact Bool.eq_false_iff.mpr fun hfraction => hs ⟨joint, text, rest, rfl, hfraction, hrange⟩
    · rfl

end Rereads

end TypedId.Grammar
