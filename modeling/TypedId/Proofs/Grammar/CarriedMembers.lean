import TypedId.Proofs.Grammar.CarriedExpressions

/-!
Functions, fields, variants and members carry over what they take.

Two changes are tied to a place in a list: a pattern is put before a parameter of a function, and the
visibility of a variant is left out. So the loops over parameters and over variants keep what stands before
each of them (`BeginsElement`).
-/

namespace TypedId.Grammar

open Lexeme Rule

variable {altered : Prop} {g : PhraseReader} {before : List Lexeme} {r r' : Reader} {α β : Type}

/-! ### Elements of a list -/

/-- Attributes end with a bracket, if there are any. -/
theorem IsAttributes.eq_nil_or_append {inner : Bool} {ls : List Lexeme} (h : IsAttributes inner ls) :
    ls = [] ∨ ∃ front, ls = front ++ [closing .bracket] := by
  induction h with
  | nil => exact .inl rfl
  | @cons joint joint' content ls _ _ ih =>
      right
      rcases ih with rfl | ⟨front, rfl⟩
      · exact ⟨(punct '#' joint :: if inner then [punct '!' joint'] else []) ++
          opening .bracket :: content, by simp⟩
      · exact ⟨_ ++ front, (List.append_assoc ..).symm⟩

/-- Attributes may stand before an element of a list. -/
theorem BeginsElement.attributes {inner attributes : List Lexeme} (h : BeginsElement inner)
    (hattributes : IsAttributes false attributes) : BeginsElement (inner ++ attributes) := by
  rcases hattributes.eq_nil_or_append with rfl | ⟨front, rfl⟩
  · rwa [List.append_nil]
  · exact .inr ⟨inner ++ front, .inr (List.append_assoc ..).symm⟩

/-- An element begins behind what was taken up to a comma. -/
theorem BeginsElement.of_comma (inner : List Lexeme) {front taken rest : List Lexeme} {joint : Bool}
    (h : front ++ punct ',' joint :: rest = taken ++ rest) : BeginsElement (inner ++ taken) := by
  obtain rfl : front ++ [punct ',' joint] = taken :=
    List.append_cancel_right ((List.append_assoc ..).trans h)
  exact .inr ⟨inner ++ front, .inl ⟨joint, (List.append_assoc ..).symm⟩⟩

namespace Rule.Carries

variable {rule : Rule α} {next : α → Rule β}

/-- One rule behind another that took whole groups. -/
theorem bind_closed (h : rule.Carries altered g before)
    (hnext : ∀ a taken, Closed taken → (next a).Carries altered g (before ++ taken)) :
    (rule >>= next).Carries altered g before :=
  bind_of h fun hg a _ r₁ taken _ _ hclosed r' b hb hrun hstray =>
    hnext a taken hclosed hg r₁ r' b hb hrun hstray

/-- An identifier stands before what is read behind it. -/
theorem identifier_then {next : Name → Rule β} (h : ∀ n w, (next n).Carries altered g (before ++ [word w])) :
    (Rule.identifier >>= next).Carries altered g before := by
  intro hg r r' b hb hrun hstray
  obtain ⟨n, r₁, hidentifier, -⟩ := run_bind_eq_ok.mp hrun
  rw [run_identifier_eq] at hidentifier
  obtain ⟨w, rest, hr, hw⟩ := word_of_run_identifierOr hidentifier
  have hword : Rule.identifier.run g r = .ok (⟨w, r.position⟩, r.take 1 [word w]) :=
    (run_identifier_eq r).trans (run_identifierOr_of_word hr hw)
  exact known_then hg hb hrun hstray hword (.word w) hr (.refl ..) (h _ w)

/-- Where an operator does not come, nothing stands before what is read instead. -/
theorem operator?_then (text : String) {next : Bool → Rule β}
    (htrue : ∀ before, (next true).Carries altered g before)
    (hfalse : (next false).Carries altered g before) :
    (Rule.operator? text >>= next).Carries altered g before := by
  intro hg r r' b hb hrun hstray
  cases hsees : sees text r.rest with
  | true =>
      have hthere : (Rule.operator text >>= fun _ => next true).run g r = .ok (b, r') := by
        rw [run_bind_of_ok (run_operator_of_sees hsees), ← hrun,
          run_bind_of_ok (run_operator?_of_sees hsees)]
      exact (bind (.operator text) fun _ => htrue) hg r r' b hb hthere hstray
  | false =>
      rw [run_bind_of_ok (run_operator?_of_not_sees hsees)] at hrun
      exact hfalse hg r r' b hb hrun hstray

/-- Where a rule that is tried fails, nothing stands before what is read instead. -/
theorem attempt_then {next : Option α → Rule β} (h : rule.Carries altered g before)
    (hsome : ∀ a before, (next (some a)).Carries altered g before)
    (hnone : (next none).Carries altered g before) :
    (Rule.attempt rule >>= next).Carries altered g before := by
  intro hg r r' b hb hrun hstray
  cases hrule : rule.run g r with
  | ok x =>
      obtain ⟨a, r₁⟩ := x
      have hthere : (rule >>= fun a => next (some a)).run g r = .ok (b, r') := by
        rw [run_bind_of_ok hrule, ← hrun, run_bind, run_attempt_eq, hrule]
      exact (bind h hsome) hg r r' b hb hthere hstray
  | error fault =>
      by_cases hdeep : fault.complaint = .tooDeep
      · have hattempt : (Rule.attempt rule).run g r = .error fault := by
          rw [run_attempt_eq, hrule]
          exact if_pos hdeep
        rw [run_bind, hattempt] at hrun
        cases hrun
      · have hattempt : (Rule.attempt rule).run g r = .ok (none, r) := by
          rw [run_attempt_eq, hrule]
          exact if_neg hdeep
        rw [run_bind_of_ok hattempt] at hrun
        exact hnone hg r r' b hb hrun hstray

/-- Things with commas between them are carried over, each in its place. -/
theorem commaList_of {opened : List Lexeme}
    (h : Tidy g → ∀ inner r r' a, Closed inner → BeginsElement inner → Balanced r.rest →
      rule.run g r = .ok (a, r') →
      r'.stray = none → (ends r'.rest || sees "," r'.rest) = true → r.Carried altered (opened ++ inner) r') :
    (Rule.commaList rule).Carries altered g opened := by
  refine repeating_of (fun _ before _ => ∃ inner,
    Closed inner ∧ BeginsElement inner ∧ before = opened ++ inner)
    (fun _ => ⟨[], .nil, .inl rfl, by simp⟩) ?_
  rintro hg soFar _ r r' y ⟨inner, hinner, hbegins, rfl⟩ hb hrun hstray
  rw [run_bind_of_ok (run_ahead r)] at hrun
  split at hrun
  · cases hrun
    exact ⟨.refl _ hstray, nofun⟩
  obtain ⟨a, r₁, hrule, hrun⟩ := run_bind_eq_ok.mp hrun
  rw [run_bind_of_ok (run_ahead r₁)] at hrun
  split at hrun
  · next hends =>
    cases hrun
    exact ⟨h hg inner r r' a hinner hbegins hb hrule hstray (by rw [hends, Bool.true_or]), nofun⟩
  obtain ⟨_, r₂, hcomma, ⟨⟩⟩ := run_bind_eq_ok.mp hrun
  obtain ⟨hsees, -⟩ := run_operator_eq_ok.mp hcomma
  obtain ⟨taken, written, hclosed, hrest, hafter, hcarried⟩ := h hg inner r r₁ a hinner hbegins hb hrule
    (run_stray hg _ _ _ _ hcomma hstray) (by rw [hsees, Bool.or_true])
  have hb₁ : Balanced r₁.rest := hclosed.balanced (hrest ▸ hb)
  refine ⟨.append hclosed hrest hafter hcarried (operator "," hg r₁ _ () hb₁ hcomma hstray), ?_⟩
  rintro soFar' taken' - hclosed' hrest'
  obtain ⟨joint, hr₁⟩ := exists_of_run_operator rfl hcomma
  refine ⟨inner ++ taken', hinner.append hclosed', ?_, List.append_assoc ..⟩
  exact .of_comma inner ((congrArg _ hr₁.symm).trans (hrest.symm.trans hrest'))

end Rule.Carries

namespace Rule

/-! ### Visibilities -/

/-- What is taken of a visibility. -/
theorem exists_of_run_visibility (hg : Tidy g) {text : List Lexeme} (hb : Balanced r.rest)
    (hrun : visibility.run g r = .ok (text, r')) (hstray : r'.stray = none) :
    ∃ taken, IsVisibility taken ∧ r.rest = taken ++ r'.rest := by
  obtain ⟨_, _, hhold, hrun⟩ := run_bind_eq_ok.mp hrun
  obtain ⟨_, q, hvisibility, rfl, rfl⟩ := run_hold_eq_ok.mp hhold
  rw [run_bind_of_ok (run_write ..)] at hrun
  cases hrun
  show ∃ taken, IsVisibility taken ∧ r.rest = taken ++ q.rest
  replace hvisibility : (_ : Rule Unit).run g r.unwritten = .ok ((), q) := hvisibility
  cases hpub : seesWord "pub" r.unwritten.rest with
  | false =>
      rw [run_bind_of_ok (run_keyword?_of_not_sees hpub)] at hvisibility
      cases hvisibility
      exact ⟨[], .inherited, rfl⟩
  | true =>
      obtain ⟨k, hr⟩ := Rereads.exists_of_seesWord hpub
      replace hr : r.rest = word "pub" :: k := hr
      rw [run_bind_of_ok (run_keyword?_of_sees hpub), if_pos rfl,
        run_bind_of_ok (run_ahead _)] at hvisibility
      have hrest : (r.unwritten.take 1 (r.unwritten.rest.take 1)).rest = k := by
        show r.rest.drop 1 = k
        rw [hr]
        rfl
      have hk : Balanced k := hb.of_suffix (hr ▸ List.suffix_cons _ _)
      split at hvisibility
      · next hsees =>
        rw [hrest] at hsees
        obtain ⟨w, k', rfl⟩ := Rereads.exists_of_seesRestriction hk hsees
        cases hvisibility
        refine ⟨_, .restricted (.word w), ?_⟩
        show r.rest = _ ++ (r.rest.drop 1).drop 3
        rw [hr]
        rfl
      split at hvisibility
      · have hpath : (keyword "in" >>= fun _ => plainPath).Carries True g ([] ++ [opening .parenthesis]) :=
          .bind (.keyword "in") fun _ _ => carries_plainPath
        obtain ⟨content, _, hcontent, hcontent', -⟩ :=
          hpath.exists_of_within hg (hrest.symm ▸ hk) hvisibility hstray
        rw [hrest] at hcontent'
        exact ⟨_, .restricted hcontent, hr.trans (congrArg _ hcontent')⟩
      · cases hvisibility
        exact ⟨_, .unrestricted, hr.trans (congrArg _ hrest.symm)⟩

section

variable (hg : Carrying g)
include hg

/-- What comes behind attributes may know that they stand before it. -/
theorem carries_outerAttributes_then {next : List Attribute → Rule β}
    (h : ∀ as attributes, IsAttributes false attributes → Closed attributes →
      (next as).Carries True g (before ++ attributes)) :
    (outerAttributes >>= next).Carries True g before := by
  intro ht r r' b hb hrun hstray
  obtain ⟨as, r₁, hattributes, hrun⟩ := run_bind_eq_ok.mp hrun
  obtain ⟨attributes, written, htaken, hclosed, hrest, hafter, hcarried⟩ :=
    exists_of_run_outerAttributes hg before ht hb hattributes (run_stray ht _ _ _ _ hrun hstray)
  have hb₁ : Balanced r₁.rest := hclosed.balanced (hrest ▸ hb)
  exact .append hclosed hrest hafter hcarried (h as attributes htaken hclosed ht r₁ r' b hb₁ hrun hstray)

/-! ### Parameters of functions -/

/-- A receiver is carried over in each of its forms: by value, by reference, with a lifetime, with a
type. -/
theorem carries_receiver : receiver.Carries True g before := by
  have hend : ∀ byReference before, (receiverFromWord byReference).Carries True g before :=
    fun _ _ => .here fun _ =>
    .bind (.keyword _) fun _ _ => .ite (.pure _) <| .bind (.operator? _) fun _ _ =>
      .ite (.bind (hg.call _ _) fun _ _ => .pure _) (.pure _)
  exact .bind (.operator? _) fun _ _ =>
    .ite (.bind .lifetime? fun _ _ => .bind (.keyword? _) fun _ => hend _)
    (.bind (.keyword? _) fun _ => hend _)

/-- A pattern is put before a type with arguments that stands alone. -/
theorem carries_plainParameter (hbefore : BeforeParameter before) :
    plainParameter.Carries True g before := by
  have htype : ∀ before, (do
      let _ ← call (.type true)
      return .typed : Rule ArgShape).Carries True g before := fun _ => .bind (hg.call _ _) fun _ _ => .pure _
  refine .ahead_of fun ht r r' shape hb hrun hstray => ?_
  split at hrun
  · next hsees =>
    exact Carries.known_then ht hb hrun hstray (run_write ..) .nil rfl
      (.change trivial (.wildcard hbefore hsees)) (htype _)
  · have hpattern : patternParameter.Carries True g before :=
      .bind (hg.call _ _) fun _ _ => .bind (.operator _) fun _ _ =>
      .bind (.operator? _) fun _ _ => .ite (.pure _) (htype _)
    exact hpattern ht r r' shape hb hrun hstray

/-- A parameter is carried over, and one that is a type with arguments alone gets a pattern, which is
where something is written that was not taken. -/
theorem carries_argument (hbefore : BeforeParameter before) : argument.Carries True g before := by
  refine .operator?_then _ (fun _ => .pure _) ?_
  rw [if_neg Bool.false_ne_true, parameter_eq]
  exact .attempt_then (carries_receiver hg) (fun _ _ => .pure _) (carries_plainParameter hg hbefore)

omit hg in
/-- A comma may be left out behind the last parameter. -/
theorem carries_commaUnlessLast : commaUnlessLast.Carries True g before :=
  .ahead fun _ => .ite (.pure _) (.operator _)

end

/-- Reads what stands behind a parameter; tells whether there may be further ones. -/
def restOfParameter (first received : Bool) (shape : ArgShape) : Rule (Bool × Bool ⊕ Unit) := do
  match shape with
  | .variadic =>
    commaUnlessLast
    return .inr ()
  | .receiver position =>
    if received then fail ⟨.single position, .secondReceiver, false⟩
    else if !first then fail ⟨.single position, .lateReceiver, false⟩
    commaUnlessLast
    return .inl (false, true)
  | .typed =>
    commaUnlessLast
    return .inl (false, received)

/-- What follows a parameter is carried over, and its attributes are known to stand before it. -/
theorem carries_restOfParameter (first received : Bool) (shape : ArgShape) :
    (restOfParameter first received shape).Carries True g before := by
  have hend : ∀ y before,
      (do commaUnlessLast; return y : Rule (Bool × Bool ⊕ Unit)).Carries True g before := fun _ _ =>
    .bind carries_commaUnlessLast fun _ _ => .pure _
  cases shape with
  | variadic | typed => exact hend _ _
  | receiver position =>
      exact .ite (.bind (.fail _) fun _ => hend _) (.ite (.bind (.fail _) fun _ => hend _) (hend _ _))

/-- Where a further parameter may follow, a comma was taken, or the parameters end. -/
theorem of_run_restOfParameter {first received : Bool} {shape : ArgShape} {x : Bool × Bool}
    (hrun : (restOfParameter first received shape).run g r = .ok (.inl x, r')) :
    ends r'.rest = true ∨ ∃ joint, r.rest = punct ',' joint :: r'.rest := by
  have hend : ∀ y, (do commaUnlessLast; return y : Rule (Bool × Bool ⊕ Unit)).run g r = .ok (.inl x, r') →
      ends r'.rest = true ∨ ∃ joint, r.rest = punct ',' joint :: r'.rest := by
    intro y hrun
    obtain ⟨_, r₁, hcomma, ⟨⟩⟩ := run_bind_eq_ok.mp hrun
    rw [commaUnlessLast, run_bind_of_ok (run_ahead r)] at hcomma
    split at hcomma
    · next hends =>
      cases hcomma
      exact .inl hends
    · exact .inr (Carries.exists_of_run_operator rfl hcomma)
  cases shape with
  | variadic | typed => exact hend _ hrun
  | receiver position =>
      rw [restOfParameter] at hrun
      split at hrun
      · cases hrun
      split at hrun
      · cases hrun
      · exact hend _ hrun

section

variable (hg : Carrying g)
include hg

/-- Parameters of a function are carried over, each in its place. -/
theorem carries_parameters {front generics : List Lexeme} {name : String} (hgenerics : Closed generics) :
    parameters.Carries True g (front ++ [word "fn"] ++ [word name] ++ generics ++
      [opening .parenthesis]) := by
  let opened := front ++ [word "fn"] ++ [word name] ++ generics ++ [opening .parenthesis]
  refine .repeating_of (fun _ before rest => ∃ inner, Closed inner ∧ before = opened ++ inner ∧
    (BeginsElement inner ∨ ends rest = true)) (fun _ =>
      ⟨[], .nil, (List.append_nil _).symm, .inl (.inl rfl)⟩) ?_
  rintro ht ⟨first, received⟩ _ r r' y ⟨inner, hinner, rfl, hbegins⟩ hb hrun hstray
  dsimp only at hrun
  rw [run_bind_of_ok (run_ahead r)] at hrun
  split at hrun
  · cases hrun
    exact ⟨.refl _ hstray, nofun⟩
  next hends =>
  replace hbegins : BeginsElement inner := hbegins.resolve_right hends
  have hstep : (outerAttributes >>= fun _ => argument >>= restOfParameter first received).run g r =
      .ok (y, r') := by
    obtain ⟨as, r₁, hattributes, hrest⟩ := run_bind_eq_ok.mp hrun
    rw [run_bind_of_ok hattributes, ← run_argument_then]
    exact hrest
  refine ⟨?_, fun x taken hy hclosed hrest => ?_⟩
  · refine (carries_outerAttributes_then hg fun _ attributes hattributes hclosed => ?_ :
      Carries True g (opened ++ inner) _) ht r r' y hb hstep hstray
    refine .bind (carries_argument hg ⟨front, name, generics, inner ++ attributes, hgenerics,
      hinner.append hclosed,
      hbegins.attributes hattributes, ?_⟩) fun _ _ => carries_restOfParameter _ _ _
    simp [opened]
  · subst hy
    refine ⟨inner ++ taken, hinner.append hclosed, List.append_assoc .., ?_⟩
    obtain ⟨_, r₁, hattributes, hrun⟩ := run_bind_eq_ok.mp hstep
    obtain ⟨shape, r₂, hargument, hrun⟩ := run_bind_eq_ok.mp hrun
    refine (of_run_restOfParameter hrun).symm.imp_left fun ⟨joint, hr₂⟩ => ?_
    obtain ⟨front', hfront⟩ : r₂.rest <:+ r.rest :=
      (run_getsOn ht _ _ _ _ hargument).rest.trans (run_getsOn ht _ _ _ _ hattributes).rest
    exact .of_comma inner ((congrArg _ hr₂.symm).trans (hfront.trans hrest))

/-- A signature is carried over. What stands before its parameters is followed exactly, since a
pattern is written only before one of them. -/
theorem carries_signature (safe : Bool) : (signature safe).Carries True g before := by
  have hend : ∀ safe before, (do
      convention?
      keyword "fn"
      let name ← identifier
      let _ ← genericParameters
      defer (within .parenthesis parameters) fun _ => do
        returnType true
        let _ ← whereClause
        return (name, safe) : Rule (Name × Bool)).Carries True g before := fun _ _ =>
    .bind carries_convention? fun _ _ => .keyword_then _ <| .identifier_then fun _ _ =>
      .bind_closed (carries_genericParameters hg) fun _ _ hgenerics =>
        .defer (.bind (.within (carries_parameters hg hgenerics)) fun _ _ =>
          .bind (carries_returnType hg _) fun _ _ => .bind (carries_whereClause hg) fun _ _ => .pure _)
  have hmarked : ∀ safe before, (do
      let _ ← keyword? "unsafe"
      convention?
      keyword "fn"
      let name ← identifier
      let _ ← genericParameters
      defer (within .parenthesis parameters) fun _ => do
        returnType true
        let _ ← whereClause
        return (name, safe) : Rule (Name × Bool)).Carries True g before := fun _ _ =>
          .bind (.keyword? _) fun _ => hend _
  refine .bind (.keyword? _) fun _ _ => .bind (.keyword? _) fun _ _ => ?_
  cases safe with
  | true => exact .bind (.keyword? _) fun _ _ => .ite (hend _ _) (hmarked _ _)
  | false => exact hmarked _ _

omit hg in
/-- The use of a macro among members is carried over. -/
theorem carries_memberInvocation : memberInvocation.Carries True g before :=
  .bind carries_plainPath fun _ _ => .bind carries_macroArguments fun _ _ => .ite (.pure _) (.operator _)

/-! ### Fields and variants -/

/-- A named field is carried over with its visibility, also one that has fields of its own. -/
theorem carries_namedField : namedField.Carries True g before :=
  .bind (carries_outerAttributes hg) fun _ _ => .bind carries_visibility fun _ _ => .ahead fun _ =>
    .bind (.identifierOr _) fun _ _ => .bind (.operator _) fun _ _ => .ahead fun _ =>
      .ite (.kept (.bind .anyWord fun _ _ => hg.call _ _)) (.bind (hg.call _ _) fun _ _ => .pure _)

theorem carries_namedFields : namedFields.Carries True g before :=
  .within <| .bind (.separated (fun _ => .operator _) fun _ => carries_namedField hg) fun _ _ => .pure _

theorem carries_positionalFields : positionalFields.Carries True g before := by
  refine .within (.bind (.separated (fun _ => .operator _) fun _ => ?_) fun _ _ => .pure _)
  exact .bind (carries_outerAttributes hg) fun _ _ => .bind carries_visibility fun _ _ => hg.call _ _

/-- What stands behind the name of a variant is carried over: fields and a value. -/
theorem carries_variantContent : variantContent.Carries True g before := by
  have hvalue : ∀ before, variantValue.Carries True g before := fun _ => .bind (.operator? _) fun _ _ =>
    .ite (.bind (hg.call _ _) fun _ _ => .pure _) (.pure _)
  exact .ahead fun _ => .ite (.bind (hg.call _ _) fun _ => hvalue) <|
    .ite (.bind (carries_positionalFields hg) fun _ => hvalue) (hvalue _)

omit hg in
/-- Behind the name of a variant there is a group, an equals sign, a comma or the end. -/
theorem behind_of_run_variantContent {u : Unit} (hrun : variantContent.run g r = .ok (u, r'))
    (h : (ends r'.rest || sees "," r'.rest) = true) : behindVariantName r.rest = true := by
  rw [variantContent, run_bind_of_ok (run_ahead r)] at hrun
  split at hrun
  · next hsees => simp [behindVariantName, hsees]
  split at hrun
  · next hsees => simp [behindVariantName, hsees]
  cases hsees : sees "=" r.rest with
  | true => simp [behindVariantName, hsees]
  | false =>
      rw [variantValue, run_bind_of_ok (run_operator?_of_not_sees hsees)] at hrun
      cases hrun
      rcases (Bool.or_eq_true _ _).mp h with h | h <;> simp [behindVariantName, h]

/-- The visibility of a variant is left out. -/
theorem carried_of_run_variant (ht : Tidy g)
    (hbefore : ∀ attributes, IsAttributes false attributes → Closed attributes →
      BeforeVariant (before ++ attributes))
    {u : Unit}
    (hb : Balanced r.rest) (hrun : variant.run g r = .ok (u, r')) (hstray : r'.stray = none)
    (hbehind : (ends r'.rest || sees "," r'.rest) = true) : r.Carried True before r' := by
  rw [variant_eq] at hrun
  obtain ⟨as, r₁, hattributes, hrun⟩ := run_bind_eq_ok.mp hrun
  obtain ⟨attributes, written, htaken, hclosed, hrest, hafter, hcarried⟩ :=
    exists_of_run_outerAttributes hg before ht hb hattributes (run_stray ht _ _ _ _ hrun hstray)
  have hb₁ : Balanced r₁.rest := hclosed.balanced (hrest ▸ hb)
  obtain ⟨x, r₂, hhold, hrun⟩ := run_bind_eq_ok.mp hrun
  have hstray₂ : r₂.stray = none := run_stray ht _ _ _ _ hrun hstray
  obtain ⟨visible, hclosed₂, hrest₂, hafter₂, -⟩ :=
    (carries_visibility : Carries True g (before ++ attributes) _).of_hold ht hb₁ hhold hstray₂
  have hvisible : IsVisibility visible := by
    obtain ⟨_, q, hvisibility, -, rfl⟩ := run_hold_eq_ok.mp hhold
    obtain ⟨visible', hvisible, hrest₂'⟩ :=
      exists_of_run_visibility ht (r := r₁.unwritten) hb₁ hvisibility hstray₂
    rwa [List.append_cancel_right (hrest₂.symm.trans hrest₂')]
  refine .append hclosed hrest hafter hcarried (.append hclosed₂ hrest₂ hafter₂ ?_ ?_)
  · obtain ⟨n, r₃, hidentifier, hcontent⟩ := run_bind_eq_ok.mp hrun
    rw [run_identifier_eq] at hidentifier
    obtain ⟨w, k, hr₂, hw⟩ := word_of_run_identifierOr hidentifier
    rw [run_identifierOr_of_word hr₂ hw] at hidentifier
    cases hidentifier
    have hname := behind_of_run_variantContent hcontent hbehind
    rw [hr₂]
    refine .change trivial (.visibility hvisible (hbefore attributes htaken hclosed) ?_ ?_)
    · simpa [seesIdentifier] using hw
    · show behindVariantName k = true
      rwa [show (r₂.take 1 [word w]).rest = k by simp [Reader.take, hr₂]] at hname
  · have hnamed : ∀ before, (identifier >>= fun _ => variantContent).Carries True g before := fun _ =>
      .bind .identifier fun _ _ => carries_variantContent hg
    exact hnamed _ ht r₂ r' u (hclosed₂.balanced (hrest₂ ▸ hb₁)) hrun hstray

/-- The variants of an enumeration are carried over up to their visibilities. -/
theorem carries_variants {front generics : List Lexeme} {name : String} (hgenerics : Closed generics) :
    (commaList variant).Carries True g
      (front ++ [word "enum"] ++ [word name] ++ generics ++ [opening .brace]) := by
  refine .commaList_of fun ht inner r r' u hinner hbegins hb hrun hstray hbehind => ?_
  refine carried_of_run_variant hg ht (fun attributes hattributes hclosed => ?_) hb hrun hstray hbehind
  exact ⟨front, name, generics, inner ++ attributes, hgenerics, hinner.append hclosed,
    hbegins.attributes hattributes, by simp⟩

/-! ### Constants and types -/

/-- A constant is carried over, be it an item or a member. -/
theorem carries_constant : constant.Carries True g before := by
  have hend : ∀ name bracketed valued before, (endOfConstant name bracketed valued).Carries True g before :=
    fun _ _ _ _ => .bind (carries_whereClause hg) fun _ _ => .bind (.operator _) fun _ _ => .pure _
  have hrest : ∀ name before, (genericParameters >>= restOfConstant name).Carries True g before := fun _ _ =>
    .bind (carries_genericParameters hg) fun _ _ => .bind (.operator _) fun _ _ =>
      .bind (hg.call _ _) fun _ _ =>
      .bind (.operator? _) fun _ _ => .ite (.bind (hg.call _ _) fun _ => hend _ _ _) (hend _ _ _ _)
  exact .bind (.keyword _) fun _ _ => .ahead fun _ => .ite (.bind .anyWord hrest) (.bind (.expected _) hrest)

/-- Bounds of which there are none end at once. -/
theorem carries_separatedBounds {stop : List Lexeme → Bool}
    (hstop : ∀ ls, stop ls = true → behindBounds ls = true) :
    (bounds? (separated (operator "+") stop (call (.bound false true)))).Carries True g before := by
  refine carries_bounds? (fun _ => .separated (fun _ => .operator _) fun _ => hg.call _ _)
    fun r r' hrun => ?_
  obtain ⟨rfl, h⟩ := Carries.of_separated_nil hrun
  exact ⟨rfl, hstop _ h⟩

/-- A type definition is carried over, with its conditions before or behind the type. -/
theorem carries_typeDefinition (place : ConditionPlace) : (typeDefinition place).Carries True g before := by
  have hend : ∀ early shape before, (endOfDefinition early shape).Carries True g before := by
    have hlast : ∀ shape before,
        (do operator ";"; return shape : Rule DefinitionShape).Carries True g before :=
      fun _ _ => .bind (.operator _) fun _ _ => .pure _
    exact fun _ _ _ => .ite (hlast _ _) (.bind (carries_whereClause hg) fun _ => hlast _)
  have hdefined : ∀ name bounded conditional before,
      (definedType place name bounded conditional).Carries True g before :=
    fun _ _ _ _ => .bind (.operator? _) fun _ _ => .ite (.bind (hg.call _ _) fun _ => hend _ _) (hend _ _ _)
  have hconditional : ∀ name bounded before, (conditionalType place name bounded).Carries True g before :=
    fun _ _ _ =>
    .ite (.bind (.pure _) fun _ => hdefined _ _ _) (.bind (carries_whereClause hg) fun _ => hdefined _ _ _)
  refine .bind (.keyword _) fun _ _ => .bind .identifier fun _ _ =>
    .bind (carries_genericParameters hg) fun _ _ =>
    .bind (carries_separatedBounds hg fun ls h => ?_) fun _ => hconditional _ _
  rw [Bool.or_eq_true, Bool.or_eq_true] at h
  rcases h with (h | h) | h <;> simp [behindBounds, h]

/-! ### Members of traits, implementations and foreign modules -/

/-- A member is carried over with its attributes and its visibility, if what follows them is. -/
theorem carries_memberOf {body : Bool → Rule Bool}
    (h : ∀ visible before, (body visible).Carries True g before) :
    (memberOf body).Carries True g before :=
  .bind (.keptIf _ (.bind (carries_outerAttributes hg) fun _ _ => .bind carries_visibility fun _ => h _))
    fun _ _ => .pure _

omit hg in
/-- A member is carried over if it is so in each of the three cases. -/
theorem carries_memberBody {function constant definition : Rule Bool} (admitted : Bool)
    (things : List Expectation)
    (hfunction : function.Carries True g before) (hconstant : constant.Carries True g before)
    (hdefinition : definition.Carries True g before) :
    (memberBody function constant definition admitted things).Carries True g before :=
  .ahead fun _ => .ite hfunction <| .ite hconstant <| .ite hdefinition <|
    .ite (.bind carries_memberInvocation fun _ _ => .pure _) (.expected _)

theorem carries_traitMember : traitMember.Carries True g before := by
  rw [traitMember_eq]
  refine carries_memberOf hg fun visible _ => .bind (.keyword? _) fun _ _ => carries_memberBody _ _ ?_ ?_ ?_
  · refine .bind (carries_signature hg _) fun _ _ => .ahead fun _ =>
      .ite (.bind (carries_attributedBlock hg) fun _ _ => .pure _) (.ite ?_ ?_)
    · exact .bind (.operator _) fun _ _ => .pure _
    · exact .bind (.expected _) fun _ _ => .pure _
  · exact .bind (carries_constant hg) fun _ _ => .pure _
  · exact .bind (carries_typeDefinition hg _) fun _ _ => .pure _

/-- A member of an implementation is carried over, also behind `default`. -/
theorem carries_implementationMember : implementationMember.Carries True g before := by
  rw [implementationMember_eq]
  have hcontent : ∀ visible default before,
      (implementationContent visible default).Carries True g before := by
    refine fun _ _ _ => carries_memberBody _ _ ?_ ?_ ?_
    · exact .bind (carries_signature hg _) fun _ _ => .bind (.operator? _) fun _ _ =>
        .ite (.pure _) (.bind (carries_attributedBlock hg) fun _ _ => .pure _)
    · exact .bind (carries_constant hg) fun _ _ => .pure _
    · exact .bind (carries_typeDefinition hg _) fun _ _ => .pure _
  exact carries_memberOf hg fun _ _ => .ahead fun _ =>
    .ite (.bind (.keyword _) fun _ => hcontent _ _) (hcontent _ _ _)

theorem carries_foreignStatic : foreignStatic.Carries True g before := by
  have hend : ∀ declared before, (do operator ";"; return declared : Rule Bool).Carries True g before :=
    fun _ _ =>
    .bind (.operator _) fun _ _ => .pure _
  have hstatic : ∀ declared before, (staticFromWord declared).Carries True g before := fun _ _ =>
    .bind (.keyword _) fun _ _ => .bind (.keyword? _) fun _ _ => .bind .identifier fun _ _ =>
      .bind (.operator _) fun _ _ => .bind (hg.call _ _) fun _ _ => .bind (.operator? _) fun _ _ =>
        .ite (.bind (hg.call _ _) fun _ => hend _) (hend _ _)
  rw [foreignStatic_eq]
  exact .bind (.keyword? _) fun _ _ => .ite (.bind (.pure _) fun _ => hstatic _)
    (.bind (.keyword? _) fun _ => hstatic _)

/-- A member of a foreign module is carried over, be it a function, a static, a type or the use of a
macro. -/
theorem carries_foreignMember : foreignMember.Carries True g before := by
  rw [foreignMember_eq]
  refine carries_memberOf hg fun _ _ => .ahead fun _ => .ite ?_
    (.ite (carries_foreignStatic hg) (.ite ?_ (.ite ?_ (.expected _))))
  · refine .bind (carries_signature hg _) fun _ _ => .ahead fun _ =>
      .ite (.bind (carries_attributedBlock hg) fun _ _ => .pure _) (.bind (.operator _) fun _ _ => .pure _)
  · exact .bind (carries_typeDefinition hg _) fun _ _ => .pure _
  · exact .bind carries_memberInvocation fun _ _ => .pure _

end

end Rule

end TypedId.Grammar
