import TypedId.Proofs.Grammar.Carrying
import TypedId.Proofs.Grammar.Depth
import TypedId.Proofs.Grammar.Modules

/-!
Attributes, paths, generic parameters and types carry over what they take.
-/

namespace TypedId.Grammar

open Lexeme Rule

variable {altered : Prop} {g : PhraseReader} {before : List Lexeme} {r r' : Reader} {α β : Type}

/-- What is known of the phrases that rules refer to. -/
structure Carrying (g : PhraseReader) : Prop where
  rereadable : Rereadable g
  call : ∀ phrase before, (Rule.call phrase).Carries True g before
  /-- A pattern that is kept in its source spelling begins with its keyword. -/
  box : ∀ r r', g .pattern r = .ok (.kept, r') → seesWord "box" r.rest = true

namespace Rule

/-! ### Attributes and visibilities -/

/-- A path of words is carried over lexeme by lexeme. -/
theorem carries_plainPath : plainPath.Carries altered g before :=
  .bind (.operator? "::") fun _ _ => .repeating fun _ _ => .ahead fun _ =>
    .ite (.bind .anyWord fun _ _ => .bind (.operator? "::") fun _ _ => .ite (.pure _) (.pure _)) <|
      .ite (.complain _) (.bind .identifier fun _ _ => .pure _)

/-- So is what restricts a visibility: a single word, or a path behind `in`. -/
theorem carries_restriction : (do
    let ls ← ahead
    if seesRestriction ls then copy 3
    else if seesRestrictingPath ls then
      within .parenthesis do
        keyword "in"
        plainPath : Rule Unit).Carries altered g before := by
  intro hg r r' _ hb hrun hstray
  rw [run_bind_of_ok (run_ahead r)] at hrun
  split at hrun
  · next hsees =>
    obtain ⟨w, k, hr⟩ := Rereads.exists_of_seesRestriction hb hsees
    rw [run_copy, hr] at hrun
    cases hrun
    exact Carries.of_same (Closed.word w).group hr hstray rfl
  · have hpath : (within .parenthesis (keyword "in" >>= fun _ => plainPath)).Carries altered g before :=
      .within (.bind (.keyword "in") fun _ _ => carries_plainPath)
    exact Carries.ite hpath (.pure _) hg r r' _ hb hrun hstray

/-- A visibility is carried over lexeme by lexeme, whatever may be changed elsewhere. -/
theorem carries_visibility : visibility.Carries altered g before :=
  .hold_write (.bind (.keyword? "pub") fun _ _ => .ite carries_restriction (.pure _)) fun _ _ => .pure _

section

variable (hg : Carrying g)
include hg

/-- The value of an attribute is carried over; it may hold an expression. -/
theorem carries_attributeValue : attributeValue.Carries True g before := by
  refine .ahead fun _ => .ite (.bind .anyGroup fun _ _ => .pure _) (.ite ?_ (.pure _))
  exact .bind (.operator "=") fun _ _ => .ahead fun _ =>
    .ite (.complain _) (.bind (hg.call _ _) fun _ _ => .pure _)

/-- What stands between the brackets of an attribute is carried over, with `unsafe` or a path before
its value. -/
theorem carries_attributeContent : (do
    if seesWord "unsafe" (← ahead) then keyword "unsafe" else plainPath
    attributeValue : Rule Unit).Carries True g before :=
  .ahead fun _ => .ite (.bind (.keyword _) fun _ _ => carries_attributeValue hg)
    (.bind carries_plainPath fun _ _ => carries_attributeValue hg)

/-- An attribute is carried over with its brackets. -/
theorem carries_singleAttribute (inner : Bool) : (singleAttribute inner).Carries True g before := by
  refine .hold_write (.bind (.operator "#") fun _ _ => ?_) fun _ _ => .pure _
  exact .ite (.bind (.operator "!") fun _ _ => .within (carries_attributeContent hg))
    (.within (carries_attributeContent hg))

theorem carries_outerAttributes : outerAttributes.Carries True g before :=
  .while_ fun _ => carries_singleAttribute hg false

/-- What is taken of an attribute. -/
theorem exists_of_run_singleAttribute (ht : Tidy g) {inner : Bool} {a : Attribute} (hb : Balanced r.rest)
    (hrun : (singleAttribute inner).run g r = .ok (a, r')) (hstray : r'.stray = none) :
    ∃ joint joint' content, Closed content ∧
      r.rest = (punct '#' joint :: if inner then [punct '!' joint'] else []) ++
      (opening .bracket :: content ++ [closing .bracket]) ++ r'.rest := by
  obtain ⟨_, _, hhold, hrun⟩ := run_bind_eq_ok.mp hrun
  obtain ⟨_, q, hattribute, rfl, rfl⟩ := run_hold_eq_ok.mp hhold
  rw [run_bind_of_ok (run_write ..)] at hrun
  cases hrun
  have hcontent : (_ : Rule Unit).Carries True g ([] ++ [opening .bracket]) := carries_attributeContent hg
  obtain ⟨_, r₁, hhash, hgroup⟩ := run_bind_eq_ok.mp hattribute
  obtain ⟨joint, hr⟩ := Carries.exists_of_run_operator (c := '#') rfl hhash
  replace hr : r.rest = punct '#' joint :: r₁.rest := hr
  have hb₁ : Balanced r₁.rest := hb.of_suffix (hr ▸ List.suffix_cons _ _)
  cases inner with
  | false =>
      obtain ⟨content, _, hclosed, hrest, -⟩ := hcontent.exists_of_within ht hb₁ hgroup hstray
      exact ⟨joint, false, content, hclosed, hr.trans (congrArg _ hrest)⟩
  | true =>
      obtain ⟨_, r₂, hbang, hgroup⟩ := run_bind_eq_ok.mp hgroup
      obtain ⟨joint', hr₁⟩ := Carries.exists_of_run_operator (c := '!') rfl hbang
      have hb₂ : Balanced r₂.rest := hb₁.of_suffix (hr₁ ▸ List.suffix_cons _ _)
      obtain ⟨content, _, hclosed, hrest, -⟩ := hcontent.exists_of_within ht hb₂ hgroup hstray
      refine ⟨joint, joint', content, hclosed, hr.trans (congrArg _ (hr₁.trans (congrArg _ hrest)))⟩

/-- What is taken of attributes. -/
theorem exists_of_run_attributes (before : List Lexeme) (ht : Tidy g) {inner : Bool}
    {wanted : List Lexeme → Bool}
    {as : List Attribute} (hb : Balanced r.rest)
    (hrun : (while_ wanted (singleAttribute inner)).run g r = .ok (as, r'))
    (hstray : r'.stray = none) :
    ∃ taken written, IsAttributes inner taken ∧ Closed taken ∧ r.rest = taken ++ r'.rest ∧
      r' = r.after taken written r'.rest ∧ CarriedOver True before taken written r'.rest := by
  obtain ⟨taken', htaken, hrest'⟩ : ∃ taken, IsAttributes inner taken ∧ r.rest = taken ++ r'.rest := by
    have hrow := (row_of_run_while hrun).1
    clear hrun
    induction hrow with
    | nil => exact ⟨[], .nil, rfl⟩
    | @cons r r₁ r' a as _ hrule hmore ih =>
        obtain ⟨joint, joint', content, hcontent, hrest⟩ :=
          exists_of_run_singleAttribute hg ht hb hrule ((hmore.getsOn ht).stray hstray)
        obtain ⟨taken, htaken, hrest'⟩ := ih (hb.of_suffix (run_getsOn ht _ _ _ _ hrule).rest) hstray
        exact ⟨_, .cons joint joint' hcontent htaken, by rw [hrest, hrest', ← List.append_assoc]⟩
  have hattributes : (while_ wanted (singleAttribute inner)).Carries True g before :=
    .while_ fun _ => carries_singleAttribute hg inner
  obtain ⟨taken, written, hclosed, hrest, hafter, hcarried⟩ := hattributes ht r r' as hb hrun hstray
  obtain rfl := List.append_cancel_right (hrest.symm.trans hrest')
  exact ⟨taken, written, htaken, hclosed, hrest, hafter, hcarried⟩

/-- The attributes before a thing, which are closed and carried over, are known as attributes to what
comes next. -/
theorem exists_of_run_outerAttributes (before : List Lexeme) (ht : Tidy g) {as : List Attribute}
    (hb : Balanced r.rest)
    (hrun : outerAttributes.run g r = .ok (as, r')) (hstray : r'.stray = none) :
    ∃ taken written, IsAttributes false taken ∧ Closed taken ∧ r.rest = taken ++ r'.rest ∧
      r' = r.after taken written r'.rest ∧ CarriedOver True before taken written r'.rest :=
  exists_of_run_attributes hg before ht hb hrun hstray

theorem carries_innerAttributes : innerAttributes.Carries True g before :=
  .while_ fun _ => carries_singleAttribute hg true

theorem carries_block : block.Carries True g before := .within (hg.call _ _)

theorem carries_attributedBlock : attributedBlock.Carries True g before :=
  .within <| .bind (carries_innerAttributes hg) fun _ _ => hg.call _ _

omit hg in
/-- The arguments of a macro are carried over without being looked into. -/
theorem carries_macroArguments : macroArguments.Carries True g before :=
  .bind (.operator "!") fun _ _ => .anyGroup

/-! ### Arguments -/

/-- An argument that is a value is carried over. -/
theorem carries_constArgument : constArgument.Carries True g before :=
  .ahead fun _ => .ite .literal <| .ite (.bind .identifier fun _ _ => .pure _) <|
    .ite (carries_attributedBlock hg) (.complain _)

/-- An argument in angle brackets is carried over, be it a lifetime, a value, a type, or a definition
or bound of an item of a trait. -/
theorem carries_angleArgument : angleArgument.Carries True g before := by
  have hend : ∀ before, (pure false : Rule Bool).Carries True g before := fun _ => .pure _
  have hvalue : ∀ before, (do
      if seesConstArgument (← ahead) then constArgument
      else let _ ← call (.type true)
      return false : Rule Bool).Carries True g before := fun _ => .ahead fun _ =>
    .ite (.bind (carries_constArgument hg) fun _ => hend) (.bind (hg.call _ _) fun _ => hend)
  refine .ahead fun _ => .ite (.bind .lifetime fun _ _ => .pure _) <| .ite
    (.bind (carries_constArgument hg) fun _ => hend) (.bind (hg.call _ _) fun _ _ => .ite ?_ (hend _))
  refine .bind (.operator? "=") fun _ _ =>
    .ite (hvalue _) (.bind (.operator? ":") fun _ _ => .ite ?_ (hend _))
  exact .bind (.joined (fun _ => .operator? "+") fun _ => hg.call _ _) fun _ => hend

end

/-! ### Angle brackets -/

/-- A list in angle brackets is carried over piece by piece. -/
theorem carried_of_run_angleBrackets (before : List Lexeme) {separator : Rule Unit} {element : Rule Bool}
    {start : List Lexeme → List Lexeme → Prop} {items : List AngleItem} (hg : Tidy g)
    (helement : AngleElement g element start) (hseparator : AngleSeparator g separator)
    (h : ∀ before, element.Carries True g before)
    (hlifetime : ∀ (q : Reader) taken written k, Balanced q.rest → q.rest = taken ++ k →
      element.run g q = .ok (true, q.after taken written k) → BeginsWithLifetime taken)
    (hb : Balanced r.rest) (hrun : (angleBrackets separator element).run g r = .ok (items, r'))
    (hstray : r'.stray = none) :
    ∃ (pieces : List Piece) (joint joint' : Bool), items = pieces.map Piece.item ∧
      Closed ([punct '<' joint] ++ pieces.flatMap Piece.source ++ [punct '>' joint']) ∧
      r.rest = [punct '<' joint] ++ pieces.flatMap Piece.source ++ [punct '>' joint'] ++ r'.rest ∧
      r' = r.after ([punct '<' joint] ++ pieces.flatMap Piece.source ++ [punct '>' joint'])
        ([punct '<' false] ++ lifetimesFirst (pieces.map Piece.item) ++ [punct '>' false]) r'.rest ∧
      CarriedOver True before ([punct '<' joint] ++ pieces.flatMap Piece.source ++ [punct '>' joint'])
        ([punct '<' false] ++ lifetimesFirst (pieces.map Piece.item) ++ [punct '>' false]) r'.rest := by
  obtain ⟨pieces, joint, joint', _, rest, hnone, hr, hpieces⟩ :=
    pieces_of_run_angleBrackets hg helement hseparator hb hrun hstray
  obtain rfl := hpieces.rest
  cases hrun.symm.trans (run_angleBrackets hseparator hpieces.again hpieces.commas hr hnone)
  -- Each piece is read where it stands.
  have hpiece : ∀ before left piece right, pieces = left ++ piece :: right → Closed piece.taken ∧
      (piece.lifetime = true → BeginsWithLifetime piece.taken) ∧
      CarriedOver True before piece.taken piece.written
        (piece.comma ++ (right.flatMap Piece.source ++ punct '>' joint' :: rest)) := by
    rintro before left piece right rfl
    let q : Reader :=
      ⟨⟨0, piece.taken ++ (piece.comma ++ (right.flatMap Piece.source ++ punct '>' joint' :: rest))⟩,
        [], none⟩
    have hread := (hpieces.again piece (by simp) q _ rfl rfl (Piece.angleStop left hpieces.commas rfl)).2.2
    have hbalanced : Balanced q.rest := by
      refine hb.of_suffix ⟨punct '<' joint :: left.flatMap Piece.source, ?_⟩
      simp [q, hr, Piece.source]
    have hcarried := h before hg q _ _ hbalanced hread rfl
    refine ⟨?_, fun htrue => ?_, hcarried.carriedOver rfl rfl⟩
    · obtain ⟨taken, _, htaken, hrest, -⟩ := hcarried
      rwa [List.append_cancel_right hrest]
    · rw [htrue] at hread
      exact hlifetime q _ _ _ hbalanced rfl hread
  refine ⟨pieces, joint, joint', rfl, ?_, by simp [hr, Reader.after], rfl, ?_⟩
  · exact ((Closed.punct _ _).append hpieces.closed).append (.punct _ _)
  · refine .angles trivial joint joint' hpieces.commas (fun piece hmem => ?_) (fun piece hmem => ?_)
      fun left piece right hsplit => (hpiece _ left piece right hsplit).2.2
    · obtain ⟨left, right, hsplit⟩ := List.append_of_mem hmem
      exact (hpiece [] left piece right hsplit).1
    · obtain ⟨left, right, hsplit⟩ := List.append_of_mem hmem
      exact (hpiece [] left piece right hsplit).2.1

/-- A list in angle brackets is carried over with its lifetimes put first, if what is told to be a
lifetime begins like one. -/
theorem carries_angleBrackets {separator : Rule Unit} {element : Rule Bool}
    {start : List Lexeme → List Lexeme → Prop}
    (helement : AngleElement g element start) (hseparator : AngleSeparator g separator)
    (h : ∀ before, element.Carries True g before)
    (hlifetime : ∀ (q : Reader) taken written k, Balanced q.rest → q.rest = taken ++ k →
      element.run g q = .ok (true, q.after taken written k) → BeginsWithLifetime taken) :
    (angleBrackets separator element).Carries True g before := by
  intro hg r r' items hb hrun hstray
  obtain ⟨pieces, joint, joint', -, hclosed, hrest, hafter, hcarried⟩ :=
    carried_of_run_angleBrackets before hg helement hseparator h hlifetime hb hrun hstray
  exact ⟨_, _, hclosed, hrest, hafter, hcarried⟩

/-- A lifetime was taken behind attributes. -/
theorem beginsWithLifetime_of_length {attributes taken rest k : List Lexeme} {w : String} {ls : List Lexeme}
    (hattributes : IsAttributes false attributes)
    (hls : ls = attributes ++ punct '\'' true :: word w :: rest)
    (htaken : ls = taken ++ k) (hlength : attributes.length + 2 ≤ taken.length) :
    BeginsWithLifetime taken := by
  have hprefix : attributes ++ [punct '\'' true, word w] <+: taken := by
    refine List.prefix_of_prefix_length_le ⟨rest, ?_⟩ ⟨k, htaken.symm⟩ (by simpa using hlength)
    rw [hls, List.append_assoc]
    rfl
  obtain ⟨tail, rfl⟩ := hprefix
  exact ⟨attributes, w, tail, hattributes, by simp⟩

/-- A lifetime that is read is taken. -/
theorem beginsWithLifetime_of_run {n : Nat} {q q' : Reader} {attributes taken written k : List Lexeme}
    (hattributes : IsAttributes false attributes) (hq : q.rest = attributes ++ r.rest)
    (htaken : q.rest = taken ++ k)
    (hposition : q.position + attributes.length = r.position) (hrun : lifetime.run g r = .ok (n, r'))
    (hmore : r'.GetsOn q') (hafter : q' = q.after taken written k) : BeginsWithLifetime taken := by
  obtain ⟨w, rest, hr⟩ := seen_of_run_lifetime hrun
  rw [run_lifetime_of_seen hr] at hrun
  cases hrun
  refine beginsWithLifetime_of_length hattributes (hr ▸ hq) htaken ?_
  have hposition' := hmore.position
  rw [hafter] at hposition'
  simp only [Reader.after, Reader.take] at hposition'
  omega

/-- What is told not to be a lifetime. -/
theorem Gives.not_run_true {rule : Rule Bool} (h : rule.Gives (· = false)) : rule.run g r ≠ .ok (true, r') :=
  fun hrun => Bool.noConfusion (h g r r' true hrun)

/-- A lifetime is read in place of an argument only where it is taken at once. -/
theorem beginsWithLifetime_of_angleArgument {q : Reader} {taken written k : List Lexeme}
    (hq : q.rest = taken ++ k)
    (hrun : angleArgument.run g q = .ok (true, q.after taken written k)) : BeginsWithLifetime taken := by
  rw [angleArgument, run_bind_of_ok (run_ahead q)] at hrun
  split at hrun
  · obtain ⟨n, r₁, hlifetime, hrun⟩ := run_bind_eq_ok.mp hrun
    cases hrun
    exact beginsWithLifetime_of_run .nil rfl hq rfl hlifetime (.refl _) rfl
  · refine (Gives.not_run_true ?_ hrun).elim
    have hend : (pure false : Rule Bool).Gives (· = false) := .pure rfl
    exact .ite (.bind fun _ => hend) <| .bind fun _ => .ite
      (.bind fun _ => .ite (.bind fun _ => .ite (.bind fun _ => hend) (.bind fun _ => hend)) <|
        .bind fun _ => .ite (.bind fun _ => hend) hend) hend

/-- A parameter that is told to be a lifetime begins like one, behind its attributes. -/
theorem beginsWithLifetime_of_itemParameter (hg : Carrying g) (ht : Tidy g) {q : Reader}
    {taken written k : List Lexeme}
    (hb : Balanced q.rest) (hq : q.rest = taken ++ k)
    (hrun : itemParameter.run g q = .ok (true, q.after taken written k)) :
    BeginsWithLifetime taken := by
  obtain ⟨as, r₁, hattributes, hrun⟩ := run_bind_eq_ok.mp hrun
  have hstray₁ : r₁.stray = none := run_stray ht _ _ _ _ hrun rfl
  obtain ⟨attributes, _, htaken, -, hrest, hafter, -⟩ :=
    exists_of_run_outerAttributes hg [] ht hb hattributes hstray₁
  have hposition : r₁.position = q.position + attributes.length :=
    congrArg (fun r : Reader => r.position) hafter
  rw [run_bind_of_ok (run_ahead r₁)] at hrun
  split at hrun
  · obtain ⟨_, r₂, hparameter, hrun⟩ := run_bind_eq_ok.mp hrun
    obtain ⟨n, r₃, hlifetime, hbounds⟩ := run_bind_eq_ok.mp hparameter
    cases hrun
    exact beginsWithLifetime_of_run htaken hrest hq hposition.symm hlifetime
      (run_getsOn ht _ _ _ _ hbounds) rfl
  · refine (Gives.not_run_true ?_ hrun).elim
    have hend : (pure false : Rule Bool).Gives (· = false) := .pure rfl
    exact .ite (.bind fun _ => hend) <| .ite (.bind fun _ => hend) <|
      .ite (.bind fun _ => hend) (.bind fun _ => hend)

section

variable (hg : Carrying g)
include hg

/-- Arguments in angle brackets are carried over, lifetimes first. -/
theorem carries_angleArguments : angleArguments.Carries True g before := by
  have hargument : AngleElement g Rule.angleArgument ArgumentFront :=
    ⟨fun _ _ _ => Rereads.angleArgument hg.rereadable, fun _ _ h => h.toLook⟩
  exact .bind (carries_angleBrackets hargument angleSeparator_comma (fun _ => carries_angleArgument hg)
    fun _ _ _ _ _ => beginsWithLifetime_of_angleArgument) fun _ _ => .pure _

theorem carries_returnType (plus : Bool) : (returnType plus).Carries True g before :=
  .bind (.operator? "->") fun _ _ => .ite (.bind (hg.call _ _) fun _ _ => .pure _) (.pure _)

/-- Arguments in parentheses are carried over with the result behind them. -/
theorem carries_parenthesizedArguments : parenthesizedArguments.Carries True g before :=
  .bind (.within (.bind (.separated (fun _ => .operator ",") fun _ => hg.call _ _) fun _ _ => .pure _))
    fun _ _ =>
    carries_returnType hg false

/-! ### Paths -/

/-- A word of a path is carried over with its arguments, and with the `::` before these. -/
theorem carries_pathSegment (inExpression : Bool) : (pathSegment inExpression).Carries True g before := by
  refine .ahead fun _ => .ite (.bind .anyWord fun _ _ => .pure _)
    (.bind (.identifierOr _) fun _ _ => .ahead fun _ => ?_)
  exact .ite (.bind (.operator? "::") fun _ _ =>
    .bind (carries_angleArguments hg) fun _ _ => .pure _) (.pure _)

theorem carries_pathSegments (inExpression : Bool) (goesOn : List Lexeme → Bool) :
    (pathSegments inExpression goesOn).Carries True g before :=
  .bind (carries_pathSegment hg _) fun _ _ =>
    .bind (.while_ fun _ => .bind (.operator "::") fun _ _ => carries_pathSegment hg _) fun _ _ => .pure _

theorem carries_path (inExpression : Bool) : (path inExpression).Carries True g before :=
  .bind (.operator? "::") fun _ _ => .bind (carries_pathSegments hg _ _) fun _ _ => .pure _

/-- A path is carried over, also one that begins with a type in angle brackets and perhaps a trait. -/
theorem carries_qualifiedPath (inExpression : Bool) :
    (qualifiedPath inExpression).Carries True g before := by
  have hrest : ∀ before, (do
      operator ">"
      operator "::"
      let segments ← pathSegments inExpression (sees "::")
      return {
        segments := segments.length
        rooted := false
        plain := false
        bareEnd := segments.getLast?.all (!·)
        qualified := true } : Rule PathShape).Carries True g before := fun _ =>
    .bind (.operator ">") fun _ _ => .bind (.operator "::") fun _ _ =>
      .bind (carries_pathSegments hg _ _) fun _ _ => .pure _
  refine .bind (.operator? "<") fun _ _ =>
    .ite (.bind (hg.call _ _) fun _ _ => .bind (.keyword? "as") fun _ _ => ?_)
    (carries_path hg _)
  exact .ite (.bind (carries_path hg _) fun _ => hrest) (hrest _)

omit hg in
/-- A captured parameter is carried over: a lifetime or a name. -/
theorem carries_capturedParameter : (do
    let ls ← Rule.ahead
    if seesLifetime ls then
      let _ ← Rule.lifetime
      return true
    else if seesIdentifier ls || seesWord "Self" ls then
      let _ ← Rule.anyWord
      return false
    else Rule.expected [.lifetime, .identifier, .operator ">"]).Carries True g before :=
  .ahead fun _ => .ite (.bind .lifetime fun _ _ => .pure _)
    (.ite (.bind .anyWord fun _ _ => .pure _) (.expected _))

omit hg in
/-- A list of captured parameters is carried over, lifetimes first. -/
theorem carries_captureList : captureList.Carries True g before := by
  have hlifetime : ∀ (q : Reader) taken written k, Balanced q.rest → q.rest = taken ++ k → (do
      let ls ← Rule.ahead
      if seesLifetime ls then
        let _ ← Rule.lifetime
        return true
      else if seesIdentifier ls || seesWord "Self" ls then
        let _ ← Rule.anyWord
        return false
      else Rule.expected [.lifetime, .identifier, .operator ">"]).run g q =
        .ok (true, q.after taken written k) →
      BeginsWithLifetime taken := by
    intro q taken written k _ hq hrun
    rw [run_bind_of_ok (run_ahead q)] at hrun
    split at hrun
    · obtain ⟨n, r₁, hlifetime, hrun⟩ := run_bind_eq_ok.mp hrun
      cases hrun
      exact beginsWithLifetime_of_run .nil rfl hq rfl hlifetime (.refl _) rfl
    · refine (Gives.not_run_true ?_ hrun).elim
      exact .ite (.bind fun _ => .pure rfl) (.expected _)
  refine .bind (.keyword "use") fun _ _ => .bind ?_ fun _ _ => .here fun _ => .pure _
  exact carries_angleBrackets ⟨fun _ _ _ => Rereads.capturedParameter, fun _ _ => id⟩
    Rereads.angleSeparator_captures
    (fun _ => carries_capturedParameter) hlifetime

/-! ### Bounds that may be left out -/

omit hg in
/-- Bounds behind a colon are carried over, and a colon without bounds is left out, if no bounds are
found only where something ends. -/
theorem carries_bounds? {bounds : Rule (List α)} (h : ∀ before, bounds.Carries True g before)
    (hnil : ∀ r r', bounds.run g r = .ok ([], r') → r' = r ∧ behindBounds r.rest = true) :
    (bounds? bounds).Carries True g before := by
  have hoptional : (optionalBounds bounds).Carries True g before :=
    .bind (.operator? ":") fun _ _ => .ite (.bind (h _) fun _ _ => .pure _) (.pure _)
  refine .congr (.bind (.unwrittenIf _ hoptional fun ht r r' found taken hb hrun hstray hnone hrest => ?_)
    fun _ _ => .pure _)
    (run_bounds?_eq bounds)
  obtain rfl : found = some true := by simpa using hnone
  cases hsees : sees ":" r.rest with
  | false =>
      rw [optionalBounds, run_bind_of_ok (run_operator?_of_not_sees hsees)] at hrun
      cases hrun
  | true =>
      rw [optionalBounds, run_bind_of_ok (run_operator?_of_sees hsees), if_pos rfl] at hrun
      obtain ⟨as, r₁, hbounds, hrun⟩ := run_bind_eq_ok.mp hrun
      obtain ⟨joint, rest, hr⟩ := exists_of_sees (c := ':') hsees
      cases as with
      | cons => cases hrun
      | nil =>
          cases hrun
          obtain ⟨rfl, hbehind⟩ := hnil _ _ hbounds
          have hrest' : (r.take ":".length (Lexeme.operator ":".toList)).rest = rest := by
            show r.rest.drop 1 = rest
            rw [hr]
            rfl
          rw [hrest'] at hrest hbehind ⊢
          obtain rfl : taken = [punct ':' joint] := List.append_cancel_right (hrest.symm.trans hr)
          exact .change trivial (.bounds before joint hbehind)

omit hg in
/-- A parameter for a lifetime is carried over up to a colon without bounds. -/
theorem carries_lifetimeParameter : lifetimeParameter.Carries True g before := by
  refine .bind .lifetime fun _ _ => .bind
    (carries_bounds? (fun _ => .joined (fun _ => .operator? "+") fun _ => .lifetime)
    fun r r' hrun => ?_) fun _ _ => .pure _
  obtain ⟨rfl, hstop⟩ := Carries.of_joined_nil hrun
  refine ⟨rfl, ?_⟩
  rw [Bool.or_eq_true] at hstop
  rcases hstop with h | h <;> simp [behindBounds, h]

/-- A parameter for a type is carried over up to a colon without bounds. -/
theorem carries_typeParameter : typeParameter.Carries True g before := by
  refine .bind .identifier fun _ _ => .bind (carries_bounds? (fun _ => .joined (fun _ => .operator? "+")
    fun _ => hg.call _ _) fun r r' hrun => ?_) fun _ _ => .bind (.operator? "=") fun _ _ =>
      .ite (.bind (hg.call _ _) fun _ _ => .pure _) (.pure _)
  obtain ⟨rfl, hstop⟩ := Carries.of_joined_nil hrun
  refine ⟨rfl, ?_⟩
  rw [Bool.or_eq_true, Bool.or_eq_true] at hstop
  rcases hstop with (h | h) | h <;> simp [behindBounds, h]

theorem carries_constParameter : constParameter.Carries True g before :=
  .bind (.keyword "const") fun _ _ => .bind .identifier fun _ _ => .bind (.operator ":") fun _ _ =>
    .bind (hg.call _ _) fun _ _ => .bind (.operator? "=") fun _ _ =>
      .ite (carries_constArgument hg) (.pure _)

/-- A parameter of any kind is carried over with its attributes. -/
theorem carries_genericParameter (kinds : List Expectation) (wildcard : Bool) :
    (genericParameter kinds wildcard).Carries True g before := by
  have hend : ∀ b before, (pure b : Rule Bool).Carries True g before := fun _ _ => .pure _
  refine .bind (carries_outerAttributes hg) fun _ _ => .ahead fun _ =>
    .ite (.bind (carries_lifetimeParameter) fun _ => hend _) ?_
  exact .ite (.bind (carries_typeParameter hg) fun _ => hend _) <|
    .ite (.bind (carries_constParameter hg) fun _ => hend _) <|
      .ite (.bind .anyWord fun _ => hend _) (.bind (.expected _) fun _ => hend _)

/-! ### Parameters and conditions -/

/-- Parameters are carried over, lifetimes first, and empty brackets are left out. -/
theorem carries_genericParameters : genericParameters.Carries True g before := by
  have hparameter : ∀ before, itemParameter.Carries True g before := fun _ => carries_genericParameter hg _ _
  have hoptional : optionalParameters.Carries True g before := .ahead fun _ => .ite (.bind (fun ht =>
    carries_angleBrackets (angleElement_itemParameter hg.rereadable) angleSeparator_comma hparameter
      (fun _ _ _ _ => beginsWithLifetime_of_itemParameter hg ht) ht) fun _ _ => .pure _) (.pure _)
  refine .congr (.bind (.unwrittenIf _ hoptional fun ht r r' found taken hb hrun hstray hnone hrest => ?_)
    fun _ _ => .pure _)
    run_genericParameters_eq
  obtain rfl : found = some true := by simpa using hnone
  rw [optionalParameters, run_bind_of_ok (run_ahead r)] at hrun
  split at hrun
  · obtain ⟨items, r₁, hangles, hrun⟩ := run_bind_eq_ok.mp hrun
    obtain ⟨pieces, joint, joint', rfl, -, hrest', -, -⟩ := carried_of_run_angleBrackets before ht
      (angleElement_itemParameter hg.rereadable) angleSeparator_comma hparameter
      (fun _ _ _ _ => beginsWithLifetime_of_itemParameter hg ht) hb hangles
      (run_stray ht _ _ _ _ hrun hstray)
    cases pieces with
    | cons => cases hrun
    | nil =>
        cases hrun
        obtain rfl := List.append_cancel_right (hrest.symm.trans hrest')
        exact .change trivial (.parameters ..)
  · cases hrun

/-- The parameters that a type or bound is general in are carried over in the order they have. -/
theorem carries_binder? : binder?.Carries True g before := by
  refine .bind (.keyword? "for") fun _ _ => .ite (.bind (.operator "<") fun _ _ => .bind ?_ fun _ _ =>
    .bind (.operator ">") fun _ _ => .pure _) (.pure _)
  exact .separated (fun _ => .operator ",") fun _ => carries_genericParameter hg _ _

/-- A condition is carried over, be it on a lifetime or on a type. -/
theorem carries_condition : condition.Carries True g before := by
  refine .ahead fun _ =>
    .ite (.bind .lifetime fun _ _ => .bind (.operator ":") fun _ _ => .bind ?_ fun _ _ => .pure _)
    (.bind (carries_binder? hg) fun _ _ => .bind (hg.call _ _) fun _ _ => .bind (.operator ":") fun _ _ =>
      .bind ?_ fun _ _ => .pure _)
  · exact .joined (fun _ => .operator? "+") fun _ => .lifetime
  · exact .joined (fun _ => .operator? "+") fun _ => hg.call _ _

/-- Conditions are carried over, and a `where` without any is left out. -/
theorem carries_whereClause : whereClause.Carries True g before := by
  have hlist : ∀ before,
      (joined "," (fun ls => endsConditions ls || seesColon ls) condition).Carries True g before :=
    fun _ => .joined (fun _ => .operator? ",") fun _ => carries_condition hg
  have hoptional : optionalConditions.Carries True g before := .bind (.keyword? "where") fun _ _ =>
    .ite (.ahead fun _ => .ite (.bind (.complain _) fun _ _ => .bind (hlist _) fun _ _ => .pure _)
      (.bind (hlist _) fun _ _ => .pure _)) (.pure _)
  refine .congr (.bind (.unwrittenIf _ hoptional fun ht r r' found taken hb hrun hstray hnone hrest => ?_)
    fun _ _ => .pure _)
    run_whereClause_eq
  cases hsees : seesWord "where" r.rest with
  | false =>
      rw [optionalConditions, run_bind_of_ok (run_keyword?_of_not_sees hsees)] at hrun
      cases hrun
      obtain rfl : taken = [] := List.append_left_eq_self.mp hrest.symm
      exact .refl ..
  | true =>
      obtain ⟨rest, hr⟩ := Rereads.exists_of_seesWord hsees
      rw [optionalConditions, run_bind_of_ok (run_keyword?_of_sees hsees), if_pos rfl,
        run_bind_of_ok (run_ahead _)]
        at hrun
      have hlist : (do
          let conditions ← joined "," (fun ls => endsConditions ls || seesColon ls) condition
          return some conditions.length : Rule (Option Nat)).run g (r.take 1 (r.rest.take 1)) =
            .ok (found, r') := by
        split at hrun
        · rw [run_bind, run_complain] at hrun
          cases hrun
        · exact hrun
      obtain ⟨conditions, r₁, hjoined, hrun⟩ := run_bind_eq_ok.mp hlist
      cases hrun
      obtain rfl : conditions = [] := List.length_eq_zero_iff.mp (by simpa using hnone)
      obtain ⟨rfl, hstop⟩ := Carries.of_joined_nil hjoined
      have hrest' : (r.take 1 (r.rest.take 1)).rest = rest := by
        show r.rest.drop 1 = rest
        rw [hr]
        rfl
      rw [hrest'] at hrest hstop ⊢
      obtain rfl : taken = [word "where"] := List.append_cancel_right (hrest.symm.trans hr)
      exact .change trivial (.conditions before hstop)

/-! ### Bounds -/

omit hg in
/-- The `const` before a bound is carried over, also in brackets. -/
theorem carries_constMark (constant : Bool) : (constMark constant).Carries True g before := by
  refine .here fun start => .ahead fun ls => .ite (.bind (.within (.keyword _)) fun _ _ => ?_)
    (.ite (.bind (.keyword _) fun _ _ => ?_) (.pure _))
  · exact .ite (.pure _) (.here fun _ => .bind (.fail _) fun _ _ => .pure _)
  · exact .ite (.pure _) (.bind (.fail _) fun _ _ => .pure _)

/-- Two colons are left out before arguments in parentheses. -/
theorem carries_traitArguments (shape : PathShape) : (traitArguments shape).Carries True g before := by
  refine .ahead_of fun ht r r' u hb hrun hstray => ?_
  have harguments : ∀ before, parenthesizedArguments.Carries True g before :=
    fun _ => carries_parenthesizedArguments hg
  dsimp only at hrun
  split at hrun
  · split at hrun
    · next hsees =>
      obtain ⟨hcolons, hparenthesis⟩ := (Bool.and_eq_true _ _).mp hsees
      obtain ⟨joint, rest, hr⟩ := exists_of_seesColons hcolons
      rw [hr, third_colons] at hparenthesis
      have hclosed : Closed [punct ':' true, punct ':' joint] := (Closed.punct _ _).append (.punct _ _)
      exact Carries.known_then ht hb hrun hstray (run_take ..) hclosed hr
        (.change trivial (.colons before _ _ hparenthesis))
        (harguments _)
    · exact harguments _ ht r r' u hb hrun hstray
  · cases hrun
    exact .refl before hstray

/-- A bound by a trait is carried over up to the `::` before arguments in parentheses. -/
theorem carries_traitBound (constant : Bool) : (traitBound constant).Carries True g before := by
  have hend : ∀ (bound : Bool) mark (optional marked : Bool) before, (do
      traitArguments (← path false)
      if bound && optional then fail ⟨.single mark, .binderOnOptionalBound, false⟩
      return if marked then .kept else .traitBound :
        Rule BoundShape).Carries True g before := fun _ _ _ _ _ =>
    .bind (carries_path hg _) fun _ _ => .bind (carries_traitArguments hg _) fun _ _ =>
      .ite (.bind (.fail _) fun _ _ => .pure _) (.pure _)
  refine .bind (carries_binder? hg) fun _ _ => .bind (carries_constMark _) fun _ _ => .here fun _ =>
    .bind (.operator? "?") fun _ _ => ?_
  exact .ite (.bind (carries_binder? hg) fun _ => hend _ _ _ _) (.bind (.pure _) fun _ => hend _ _ _ _)

/-- A bound is carried over, be it a lifetime, a list of captured parameters or a trait. -/
theorem carries_bound (captures constant : Bool) : (bound captures constant).Carries True g before := by
  refine .ahead fun _ => .ite (.bind .lifetime fun _ _ => .pure _) (.ite (.here fun _ => ?_) ?_)
  · exact .bind carries_captureList fun _ _ => .ite (.pure _) (.bind (.fail _) fun _ _ => .pure _)
  · exact .keptIf _ (.ite (.within (carries_traitBound hg _)) (carries_traitBound hg _))

theorem carries_furtherBounds (captures constant : Bool) :
    (furtherBounds captures constant).Carries True g before :=
  .repeating fun _ _ => .bind (.operator? "+") fun _ _ =>
    .ite (.ahead fun _ => .ite (.bind (hg.call _ _) fun _ _ => .pure _) (.pure _)) (.pure _)

theorem carries_bounds (plus captures constant : Bool) :
    (bounds plus captures constant).Carries True g before :=
  .bind (hg.call _ _) fun _ _ => .ite (.bind (carries_furtherBounds hg _ _) fun _ _ => .pure _)
    (.bind (.pure _) fun _ _ => .pure _)

theorem carries_addedBounds : addedBounds.Carries True g before :=
  .bind (.while_ fun _ => .bind (.operator "+") fun _ _ => hg.call _ _) fun _ _ => .pure _

/-- Bounds are carried over also where a trait is needed among them. -/
theorem carries_boundsWithTrait (start : Nat) (complaint : Complaint) (plus captures constant : Bool) :
    (boundsWithTrait start complaint plus captures constant).Carries True g before := by
  refine .bind (carries_bounds hg _ _ _) fun found _ => ?_
  split
  · exact .fail _
  · exact .pure _

theorem carries_objectBounds (start : Nat) (plus : Bool) : (objectBounds start plus).Carries True g before :=
  .bind (carries_boundsWithTrait hg _ _ _ _ _) fun _ _ => .pure _

/-! ### Types -/

/-- A type in parentheses is carried over with the bounds that may be added to it. -/
theorem carries_parenthesizedType (plus : Bool) : (parenthesizedType plus).Carries True g before := by
  refine .defer (.bind (.within (.ahead fun _ => .ite (.pure _) (.ite ?_ (.ite ?_ ?_)))) fun content _ => ?_)
  · exact .here fun _ => .bind (carries_objectBounds hg _ _) fun _ _ => .pure _
  · exact .bind (carries_traitBound hg _) fun _ _ => .pure _
  · refine .bind (hg.call _ _) fun _ _ => .ahead fun _ =>
      .ite (.bind (.operator ",") fun _ _ => .bind ?_ fun _ _ => .pure _)
      (.pure _)
    exact .separated (fun _ => .operator ",") fun _ => hg.call _ _
  · cases content with
    | done => exact .pure _
    | optionalBound => exact .ahead fun _ => .bind (carries_addedBounds hg) fun _ _ => .pure _
    | single shape =>
        exact .ahead fun _ => .ite (.bind (carries_addedBounds hg) fun _ _ => .pure _) (.pure _)

omit hg in
theorem carries_convention : convention.Carries True g before :=
  .bind (.keyword _) fun _ _ => .ahead fun _ => .ite .literal (.pure _)

omit hg in
theorem carries_convention? : convention?.Carries True g before :=
  .ahead fun _ => .ite carries_convention (.pure _)

omit hg in
theorem carries_nameAndColon : nameAndColon.Carries True g before :=
  .bind .anyWord fun _ _ => .operator ":"

/-- A parameter in the type of a function is carried over with its attributes and its name, also where
the source spelling is kept. -/
theorem carries_functionTypeParameter (first : Bool) :
    (functionTypeParameter first).Carries True g before := by
  have htype : ∀ b before, (do
      let _ ← call (.type true)
      return b : Rule Bool).Carries True g before := fun _ _ => .bind (hg.call _ _) fun _ _ => .pure _
  refine .bind (.keptIf _ (.ahead fun ls => .ite ?_ (.ite ?_ (htype _ _)))) fun _ _ => .pure _
  · refine .bind (.keyword _) fun _ _ => .ahead fun _ =>
      .ite (.bind carries_nameAndColon fun _ => htype _) ?_
    exact .bind (.keyword _) fun _ _ => .pure _
  · refine .bind carries_nameAndColon fun _ before => .ahead_of fun ht r r' b hb hrun hstray => ?_
    split at hrun
    · next hsees =>
      simp only [Bool.and_eq_true] at hsees
      obtain ⟨rest, hr⟩ := Rereads.exists_of_seesWord hsees.1.2
      obtain ⟨rest', hr'⟩ := Rereads.exists_of_seesWord (hr ▸ hsees.2)
      obtain rfl : rest = word "self" :: rest' := hr'
      have hclosed : Closed [word "mut", word "self"] := (Closed.word _).append (.word _)
      exact Carries.known_then ht hb hrun hstray (Carries.run_copy_of_known hr rfl) hclosed hr
        (.refl ..) (.pure _)
    · exact htype _ before ht r r' b hb hrun hstray

/-- So are all of them, up to the dots that stand for further ones. -/
theorem carries_functionTypeParameters : functionTypeParameters.Carries True g before := by
  have hdots : ∀ before, (do
      operator "..."
      let _ ← operator? ","
      return .inr () : Rule (Bool ⊕ Unit)).Carries True g before := fun _ =>
    .bind (.operator _) fun _ _ => .bind (.operator? _) fun _ _ => .pure _
  refine .repeating fun _ _ => .ahead fun _ => .ite (.pure _) (.bind (carries_outerAttributes hg) fun _ _ =>
    .ahead fun _ => .ite (.ite (hdots _) (.bind carries_nameAndColon fun _ => hdots)) ?_)
  refine .bind (carries_functionTypeParameter hg _) fun _ _ => .ahead fun _ => .ite (.pure _) ?_
  exact .bind (.operator _) fun _ _ => .pure _

/-- The type of a function is carried over. -/
theorem carries_functionType : functionType.Carries True g before :=
  .bind (.keyword? _) fun _ _ => .bind carries_convention? fun _ _ => .bind (.keyword _) fun _ _ =>
    .defer (.bind (.within (carries_functionTypeParameters hg)) fun _ _ => carries_returnType hg _)

/-- A type that begins with a path is carried over, with its macro arguments or its further bounds. -/
theorem carries_pathType (bound plus : Bool) : (pathType bound plus).Carries True g before := by
  refine .bind (carries_qualifiedPath hg _) fun _ _ => .ite (.pure _)
    (.ahead fun _ => .ite ?_ (.ite ?_ (.ite (.pure _) (.pure _))))
  · exact .bind carries_macroArguments fun _ _ => .pure _
  · exact .bind (carries_furtherBounds hg _ _) fun _ _ => .pure _

theorem carries_bracketedType : bracketedType.Carries True g before :=
  .within <| .bind (hg.call _ _) fun _ _ => .bind (.operator? _) fun _ _ =>
    .ite (.bind (hg.call _ _) fun _ _ => .pure _) (.pure _)

/-- The type of a raw pointer is carried over with its `const` or `mut`. -/
theorem carries_pointerType : pointerType.Carries True g before := by
  refine .bind (.operator _) fun _ before => .ahead_of fun ht r r' u hb hrun hstray => ?_
  have htype : ∀ before, (do let _ ← call (.type false) : Rule Unit).Carries True g before := fun _ =>
    .bind (hg.call _ _) fun _ _ => .pure _
  split at hrun
  · next hsees =>
    obtain ⟨w, rest, hr⟩ : ∃ w rest, r.rest = word w :: rest := by
      rcases (Bool.or_eq_true _ _).mp hsees with h | h <;> exact ⟨_, Rereads.exists_of_seesWord h⟩
    exact Carries.known_then ht hb hrun hstray (Carries.run_copy_of_known hr rfl) (.word w) hr
      (.refl ..) (htype _)
  · exact (Carries.bind (.expected _) fun _ => htype) ht r r' u hb hrun hstray

theorem carries_referenceType : referenceType.Carries True g before :=
  .bind (.operator _) fun _ _ => .bind .lifetime? fun _ _ => .bind (.keyword? _) fun _ _ =>
    .bind (hg.call _ _) fun _ _ => .pure _

/-- A type marked with `dyn` is carried over, also where its source spelling is kept. -/
theorem carries_objectType (plus : Bool) : (objectType plus).Carries True g before :=
  .bind (.keptIf _ (.here fun _ => .bind (.keyword _) fun _ _ => .bind (.operator? _) fun _ _ =>
    .bind (carries_objectBounds hg _ _) fun _ _ => .pure _)) fun _ _ => .pure _

theorem carries_implType (plus : Bool) : (implType plus).Carries True g before :=
  .here fun _ => .bind (.keyword _) fun _ _ =>
    .bind (carries_boundsWithTrait hg _ _ _ _ _) fun _ _ => .pure _

/-- A type is carried over, whatever it begins with. -/
theorem carries_type (plus : Bool) : (type plus).Carries True g before := by
  have hend : ∀ shape before, (pure shape : Rule TypeShape).Carries True g before := fun _ _ => .pure _
  refine .bind (carries_binder? hg) fun _ _ => .ahead fun _ => .ite (.expected _) ?_
  refine .ite (carries_parenthesizedType hg _) (.ite (.bind (carries_functionType hg) fun _ => hend _) ?_)
  refine .ite (carries_pathType hg _ _) (.ite (.bind (carries_objectType hg _) fun _ => hend _) ?_)
  refine .ite (.bind (carries_bracketedType hg) fun _ => hend _)
    (.ite (.bind (carries_pointerType hg) fun _ => hend _) ?_)
  refine .ite (.bind (carries_referenceType hg) fun _ => hend _)
    (.ite (.bind (.operator _) fun _ => hend _) ?_)
  refine .ite (.bind (carries_implType hg _) fun _ => hend _) (.ite (.bind (.keyword _) fun _ => hend _) ?_)
  exact .ite (.here fun _ => carries_objectBounds hg _ _) (.expected _)

end

end Rule

end TypedId.Grammar
