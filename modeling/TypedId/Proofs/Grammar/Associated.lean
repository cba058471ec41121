import TypedId.Proofs.Grammar.Contents

/-!
The members of traits, implementations and foreign modules are read again.

A member that is kept in its source spelling is read again in that spelling only, so a rule for a
member's content relies, where its written text is read again, on nothing being lacking or too much.
-/

namespace TypedId.Grammar

open Lexeme Rule

variable {g : PhraseReader} {m : Rendition} {s p k : List Lexeme} {α β γ δ : Type}

/-- How one of the things that fill a group looks at its beginning: it does not end the group, nor
does it begin with an attribute of what surrounds it. -/
structure ElementFront (s p : List Lexeme) : Prop where
  ends : ends p = ends s
  outward : Outward p

theorem Ended.element (h : Ended s p) : ElementFront s p := by
  obtain ⟨_, _, _, rfl, rfl⟩ := h
  exact ⟨rfl, outward_of_not_sees rfl⟩

theorem AttributeSpelt.outward (h : AttributeSpelt false s p) : Outward p := by
  intro _
  obtain ⟨_, _, _, hp, -⟩ := h.second
  rw [hp]
  rfl

theorem Attributed.element {rest : List Lexeme → List Lexeme → Prop} (h : Attributed rest s p)
    (hrest : ∀ s p, rest s p → Look s p) : ElementFront s p :=
  ⟨(h.look hrest).ends, h.elim AttributeSpelt.outward fun h => outward_of_not_sees h.2.1⟩

/-! ### Uses of macros -/

/-- The arguments of a macro. -/
def ArgumentsSpelt (s p : List Lexeme) : Prop :=
  ∃ d, Spelt ['!'] (Enclosed d fun _ _ => True) s p

/-- The use of a macro, from its path on. -/
def InvocationFront : List Lexeme → List Lexeme → Prop :=
  PathSpelt ArgumentsSpelt

theorem ArgumentsSpelt.sees (h : ArgumentsSpelt s p) :
    sees "!" s = true ∧ sees "!" p = true ∧ sees "::" s = false ∧ sees "::" p = false := by
  obtain ⟨_, _, _, _, _, rfl, rfl, -, -⟩ := h
  exact ⟨rfl, rfl, rfl, rfl⟩

namespace Rereads

/-- The semicolon behind the arguments of a macro is read again, unless they stand in braces. -/
theorem macroEnd (d : Delimiter) :
    Rereads g m s (Rule.macroEnd d) (Rule.macroEnd d) id (fun _ => True) fun _ _ _ => True := by
  unfold Rule.macroEnd
  cases d with
  | brace => exact pure _ _ rfl fun _ _ => trivial
  | parenthesis | bracket => exact (operator ";").front_mono fun _ _ => trivial

/-- The use of a macro as a member is read again. -/
theorem memberInvocation :
    Rereads g m s Rule.memberInvocation Rule.memberInvocation id (InvocationFront s) fun _ _ _ => True := by
  unfold Rule.memberInvocation
  refine (plainPath ArgumentsSpelt).bind_id (fun _ s₁ => ?_) fun p hp => hp
  refine (macroArguments fun _ _ _ => True).bind_id (fun d s₂ => (macroEnd d).front_mono fun p hp => trivial)
    fun p hp => ⟨hp, ArgumentsSpelt.sees hp |>.2.2.2⟩

end Rereads

/-! ### Beginnings of members -/

/-- How a member looks behind its visibility. -/
structure MemberFront (safe : Bool) (s p : List Lexeme) : Prop extends Look s p where
  parenthesis : seesGroup .parenthesis s = false
  signature : seesSignature safe p = seesSignature safe s
  bang : seesWord "default" s = true → sees "!" (second p) = sees "!" (second s)
  static : seesForeignStatic p = seesForeignStatic s

theorem MemberFront.visibility {safe : Bool} (h : MemberFront safe s p) : VisibilityFollow s p :=
  .of_look h.toLook h.parenthesis

theorem Look.macroPath (h : Look s p) : seesMacroPath p = seesMacroPath s := by
  simp only [seesMacroPath, h.identifier, h.colons, List.any_cons, List.any_nil, h.word]

/-- Words that begin neither a function nor a static. -/
theorem not_seesSignature {w : String} (hw : w ∉ ["const", "async", "safe", "unsafe", "extern", "fn"])
    (safe : Bool) (ls : List Lexeme) : seesSignature safe (word w :: ls) = false := by
  simp only [List.mem_cons, List.not_mem_nil, or_false, not_or] at hw
  simp [seesSignature, dropWord, dropConvention, seesWord, hw]

theorem not_seesForeignStatic {w : String} (hw : w ∉ ["static", "safe", "unsafe"]) (ls : List Lexeme) :
    seesForeignStatic (word w :: ls) = false := by
  simp only [List.mem_cons, List.not_mem_nil, or_false, not_or] at hw
  simp [seesForeignStatic, seesWord, hw]

/-- A word that begins neither a function nor a static, nor may be the name of a macro. -/
theorem Worded.member {w : String} {rest : List Lexeme → List Lexeme → Prop} (h : Worded w rest s p)
    (hw : w ∉ ["const", "async", "safe", "unsafe", "extern", "fn", "static", "default"]) (safe : Bool) :
    MemberFront safe s p := by
  have hlook := h.look
  obtain ⟨s', p', rfl, rfl, -⟩ := h
  simp only [List.mem_cons, List.not_mem_nil, or_false, not_or] at hw
  have hsignature : w ∉ ["const", "async", "safe", "unsafe", "extern", "fn"] := by simp [hw]
  have hstatic : w ∉ ["static", "safe", "unsafe"] := by simp [hw]
  refine ⟨hlook, rfl, ?_, fun h => absurd h (by simp [seesWord, hw]), ?_⟩
  · rw [not_seesSignature hsignature, not_seesSignature hsignature]
  · rw [not_seesForeignStatic hstatic, not_seesForeignStatic hstatic]

/-- The word `default`, and what looks alike behind it. -/
theorem Worded.defaultMember (h : Worded "default" Look s p) (safe : Bool) : MemberFront safe s p := by
  have hlook := h.look
  obtain ⟨s', p', rfl, rfl, h⟩ := h
  refine ⟨hlook, rfl, ?_, fun _ => h.operator "!" rfl, rfl⟩
  rw [not_seesSignature (by decide), not_seesSignature (by decide)]

/-- What stands behind a word that may stand before the word of a function. -/
theorem SignatureFront.second (h : SignatureFront s p) (hs : seesWord "fn" s = false) (w : String) :
    seesWord w (second p) = seesWord w (second s) := by
  have hbehind := h.drop hs
  obtain ⟨ls, s', p', hls, rfl, rfl⟩ := h
  cases ls with
  | nil => cases hs
  | cons l ls =>
      rcases hls l List.mem_cons_self with ⟨v, -, rfl⟩ | ⟨text, rfl⟩ <;> exact hbehind.look.word w

theorem SignatureFront.member (h : SignatureFront s p) (safe : Bool) : MemberFront safe s p := by
  refine ⟨h.look, ?_, h.sees safe, fun hdefault => ?_, ?_⟩
  · obtain ⟨ls, s', p', hls, rfl, -⟩ := h
    cases ls with
    | nil => rfl
    | cons l ls => rcases hls l List.mem_cons_self with ⟨v, -, rfl⟩ | ⟨text, rfl⟩ <;> rfl
  · obtain ⟨ls, s', p', hls, rfl, -⟩ := h
    cases ls with
    | nil => cases hdefault
    | cons l ls =>
        rcases hls l List.mem_cons_self with ⟨v, hv, rfl⟩ | ⟨text, rfl⟩
        · obtain rfl : v = "default" := eq_of_beq hdefault
          exact absurd hv (by decide)
        · cases hdefault
  · rw [seesForeignStatic, seesForeignStatic, h.look.word, h.look.word, h.look.word]
    cases hfn : seesWord "fn" s with
    | true =>
        obtain ⟨s', rfl⟩ := Rereads.exists_of_seesWord hfn
        rfl
    | false => rw [h.second hfn]

theorem DefinitionFront.member (h : DefinitionFront s p) (safe : Bool) : MemberFront safe s p :=
  Worded.member h (by decide) safe

theorem ConstantFront.member (h : ConstantFront s p) : MemberFront false s p := by
  have hlook := Worded.look h
  obtain ⟨_, _, rfl, rfl, w, hw, s', p', rfl, rfl, -⟩ := h
  have hne : ∀ v ∈ ["async", "unsafe", "extern", "fn"], (w == v) = false := by
    intro v hv
    refine beq_false_of_ne ?_
    rintro rfl
    simp only [List.mem_cons, List.not_mem_nil, or_false] at hv
    rcases hv with rfl | rfl | rfl | rfl <;> exact absurd hw (by decide)
  have hsignature : ∀ ls, seesSignature false (word "const" :: word w :: ls) = false := by
    intro ls
    simp [seesSignature, dropWord, dropConvention, seesWord, hne]
  exact ⟨hlook, rfl, (hsignature p').trans (hsignature s').symm, fun h => Bool.noConfusion h, rfl⟩

/-- Behind the first word of the path of a macro stands punctuation. -/
theorem PathSpelt.cases {rest : List Lexeme → List Lexeme → Prop} (h : PathSpelt rest s p)
    (hrest : ∀ s p, rest s p → Spelt ['!'] (fun _ _ => True) s p) :
    Spelt [':', ':'] (fun _ _ => True) s p ∨
      ∃ w c joint joint' s' p', seesPathWord [word w] = true ∧ c ∈ ['!', ':'] ∧
        sees "::" (punct c joint' :: p') = sees "::" (punct c joint :: s') ∧
        s = word w :: punct c joint :: s' ∧ p = word w :: punct c joint' :: p' := by
  rcases h with h | h
  · refine .inr ?_
    cases h with
    | last w hw hs hp h =>
        obtain ⟨_, _, _, _, rfl, rfl, -, -⟩ := hrest _ _ h
        refine ⟨w, '!', _, _, _, _, hw, by decide, ?_, rfl, rfl⟩
        rfl
    | further w hw joint joint' h =>
        refine ⟨w, ':', true, true, _, _, hw, by decide, ?_, rfl, rfl⟩
        rfl
  · exact .inl (h.mono fun _ _ _ => trivial)

theorem ArgumentsSpelt.exclamation (h : ArgumentsSpelt s p) : Spelt ['!'] (fun _ _ => True) s p :=
  h.elim fun _ h => h.mono fun _ _ _ => trivial

/-- Neither a function nor a static begins with a word of a path and punctuation. -/
theorem not_seesSignature_punct {w : String} (hw : seesPathWord [word w] = true) (safe : Bool) (c : Char)
    (joint : Bool) (ls : List Lexeme) :
    seesSignature safe (word w :: punct c joint :: ls) = false ∧
      seesForeignStatic (word w :: punct c joint :: ls) = false := by
  have hne : ∀ v ∈ ["const", "async", "unsafe", "extern", "fn", "static"], (w == v) = false := by
    intro v hv
    refine beq_false_of_ne ?_
    rintro rfl
    simp only [List.mem_cons, List.not_mem_nil, or_false] at hv
    rcases hv with rfl | rfl | rfl | rfl | rfl | rfl <;> exact absurd hw (by decide)
  have hsecond : second (word w :: punct c joint :: ls) = punct c joint :: ls := rfl
  have hword : ∀ v ∈ ["const", "async", "unsafe", "extern", "fn"],
      seesWord v (word w :: punct c joint :: ls) = false :=
    fun v hv => hne v (List.mem_of_mem_dropLast
      (l := ["const", "async", "unsafe", "extern", "fn", "static"]) hv)
  have hfn : ∀ b : Bool, seesWord "fn" (dropConvention
      (if b = true then (word w :: punct c joint :: ls).drop 1 else word w :: punct c joint :: ls)) =
        false := by
    rintro (_ | _)
    · simp [dropConvention, hword]
    · simp [dropConvention, seesWord]
  constructor
  · simpa [seesSignature, dropWord, hword] using hfn
      (safe && seesWord "safe" (word w :: punct c joint :: ls))
  · simp [seesForeignStatic, hsecond, seesWord, hne]

theorem InvocationFront.member (h : InvocationFront s p) (safe : Bool) : MemberFront safe s p := by
  rcases h.cases fun _ _ => ArgumentsSpelt.exclamation with h
    | ⟨w, c, joint, joint', s', p', hw, hc, -, rfl, rfl⟩
  · have hlook := look_colons h
    obtain ⟨s', p', rfl, rfl, -⟩ := h
    exact ⟨hlook, rfl, by simp [seesSignature, dropWord, dropConvention, seesWord], nofun, rfl⟩
  · have hs := not_seesSignature_punct hw safe c joint s'
    have hp := not_seesSignature_punct hw safe c joint' p'
    exact ⟨look_word w _ _, rfl, hp.1.trans hs.1.symm, fun _ => rfl, hp.2.trans hs.2.symm⟩

/-! ### Members by their beginnings -/

/-- Reads a member from behind what may stand before all of them: a function, a constant, a type, or
the use of a macro if one is `admitted`. -/
def Rule.memberBody (function constant definition : Rule Bool) (admitted : Bool)
    (things : List Expectation) :
    Rule Bool := do
  let ls ← ahead
  if seesSignature false ls then function
  else if seesWord "const" ls then constant
  else if seesWord "type" ls then definition
  else if admitted && seesMacroPath ls then
    memberInvocation
    return false
  else expected things

/-- Reads a function of a trait. -/
def Rule.traitFunction (unusual : Bool) : Rule Bool := do
  let _ ← signature false
  let ls ← ahead
  if seesGroup .brace ls then attributedBlock
  else if sees ";" ls then operator ";"
  else expected [.group .brace, .operator ";"]
  return unusual

/-- Reads a member of a trait from behind `default`; `unusual` if that or a visibility was there. -/
def Rule.traitContent (unusual : Bool) : Rule Bool :=
  memberBody (traitFunction unusual)
    (do
      let found ← constant
      return unusual || found.general)
    (do
      let _ ← typeDefinition .behindDefinition
      return unusual)
    (!unusual) (memberBeginnings ++ if unusual then [] else macroPathBeginnings)

/-- Reads what stands behind the visibility of a member of a trait. -/
def Rule.traitBody (visible : Bool) : Rule Bool := do
  let default ← keyword? "default"
  traitContent (visible || default)

/-- Reads a member behind its attributes; what is read behind its visibility depends on whether there
is one. It is kept in its source spelling if that is told. -/
def Rule.memberOf (body : Bool → Rule Bool) : Rule Unit := do
  let _ ← keptIf id do
    let _ ← outerAttributes
    let visible := !(← visibility).isEmpty
    body visible
  return ()

theorem Rule.traitMember_eq : traitMember = memberOf traitBody := rfl

/-- Reads a function of an implementation. -/
def Rule.implementationFunction : Rule Bool := do
  let _ ← signature false
  if ← operator? ";" then return true
  else
    attributedBlock
    return false

/-- Reads a member of an implementation from behind `default`. -/
def Rule.implementationContent (visible default : Bool) : Rule Bool :=
  let unusual := visible || default
  memberBody implementationFunction
    (do
      let found ← constant
      return found.general || !found.valued)
    (do
      let found ← typeDefinition .behindDefinition
      return found.bounded || !found.defined)
    (!unusual)
    ((if default then [] else [.keyword "default"]) ++ memberBeginnings ++
      if unusual then [] else macroPathBeginnings)

/-- Reads what stands behind the visibility of a member of an implementation. -/
def Rule.implementationBody (visible : Bool) : Rule Bool := do
  let ls ← ahead
  let default := seesWord "default" ls && !sees "!" (second ls)
  if default then
    keyword "default"
    implementationContent visible default
  else implementationContent visible default

theorem Rule.implementationMember_eq : implementationMember = memberOf implementationBody := rfl

/-- Reads a function of a foreign module. -/
def Rule.foreignFunction : Rule Bool := do
  let (_, declaredSafe) ← signature true
  if seesGroup .brace (← ahead) then
    attributedBlock
    return true
  else
    operator ";"
    return declaredSafe

/-- Reads what stands behind the visibility of a member of a foreign module. -/
def Rule.foreignBody (visible : Bool) : Rule Bool := do
  let ls ← ahead
  if seesSignature true ls then foreignFunction
  else if seesForeignStatic ls then foreignStatic
  else if seesWord "type" ls then
    let found ← typeDefinition .either
    return found.bounded || found.defined
  else if !visible && seesMacroPath ls then
    memberInvocation
    return false
  else expected <|
    [.keyword "fn", .keyword "static", .keyword "type"] ++
      if visible then [] else macroPathBeginnings

theorem Rule.foreignMember_eq : foreignMember = memberOf foreignBody := rfl

namespace Rereads

/-- A member is read again if what stands behind its visibility is. -/
theorem memberOf (hg : Rereadable g) (safe : Bool) {body : Bool → Rule Bool}
    (h : ∀ m s visible, Rereads g m s (body visible) (body visible) id (MemberFront safe s)
      fun a _ _ => m = .written → a = false) :
    Rereads g m s (Rule.memberOf body) (Rule.memberOf body) id (ElementFront s)
      fun _ _ _ => True := by
  have hcontent : ∀ m, Rereads g m s
      (do
        let _ ← Rule.outerAttributes
        let visible := !(← Rule.visibility).isEmpty
        body visible)
      (do
        let _ ← Rule.outerAttributes
        let visible := !(← Rule.visibility).isEmpty
        body visible) id (ElementFront s) fun a _ _ => m = .written → a = false := by
    intro m
    refine (outerAttributes hg (Visible (MemberFront safe))).bind_id (fun _ s₁ => ?_) fun p hp =>
      hp.element fun _ _ h => h.look fun _ _ h => h.toLook
    refine (?_ : Rereads g m s₁ _ _ _ (Visible (MemberFront safe) s₁) _).front_mono fun p hp hs =>
      ⟨hp, ((hp.look fun _ _ h => h.toLook).operator "#" rfl).trans hs⟩
    refine (visibility (MemberFront safe)).bind_id (fun seen s₂ => ?_) fun p hp => hp
    exact (h m s₂ _).front_mono fun p hp => ⟨hp, hp.visibility⟩
  refine bind_id (keptIf id (fun _ _ h => h) ((hcontent .source).follow_mono fun _ _ _ _ h => nomatch h)
    ((hcontent m).follow_mono fun _ _ _ h _ => h.1)) (fun _ s' =>
      pure _ _ rfl fun _ _ => trivial) fun p hp => hp

/-- A member is read again from behind what may stand before all of them. -/
theorem memberBody {function constant definition : Rule Bool} {admitted : Bool} {things : List Expectation}
    (hfunction : Rereads g m s function function id (SignatureFront s) fun a _ _ => m = .written → a = false)
    (hconstant : Rereads g m s constant constant id (ConstantFront s) fun a _ _ => m = .written → a = false)
    (hdefinition : Rereads g m s definition definition id (DefinitionFront s)
      fun a _ _ => m = .written → a = false) :
    Rereads g m s (Rule.memberBody function constant definition admitted things)
      (Rule.memberBody function constant definition admitted things) id (MemberFront false s)
      fun a _ _ => m = .written → a = false := by
  unfold Rule.memberBody
  refine ahead (.sight (fun _ p hp => hp.signature) (fun _ =>
    hfunction.front_mono fun p hp => hp.member false)
    fun _ => ?_)
  refine .sight (fun _ p hp => hp.word _) (fun _ => hconstant.front_mono fun p hp => hp.member) fun _ => ?_
  refine .sight (fun _ p hp => hp.word _) (fun _ => hdefinition.front_mono fun p hp => hp.member false)
    fun _ => ?_
  refine .sight (fun _ p hp => congrArg _ hp.macroPath) (fun _ => ?_) fun _ => .expected _
  exact memberInvocation.bind_id (fun _ s' => pure _ _ rfl fun _ _ => trivial) fun p hp => hp.member false

/-! ### Members of traits and implementations -/

/-- A function of a trait is read again. -/
theorem traitFunction (hg : Rereadable g) (unusual : Bool) :
    Rereads g m s (Rule.traitFunction unusual) (Rule.traitFunction unusual) id (SignatureFront s)
      fun _ _ _ => True := by
  unfold Rule.traitFunction
  refine (signature hg false).bind fun _ _ s₁ _ => ahead
    (.sight (fun _ p hp => hp.look.group _) (fun _ => ?_) fun _ => ?_)
  · exact (attributedBlock hg).bind_id (fun _ _ => pure _ _ rfl fun _ hk => hk) fun p hp => .inl hp
  refine .sight (fun _ p hp => hp.look.operator ";" rfl) (fun _ => ?_) fun _ => .expected_then _ _
  exact operator_then ";" (fun _ _ => True) (fun _ => pure _ _ rfl fun _ _ => trivial) fun p hp => .inr hp

/-- A member of a trait is read again from behind `default`. -/
theorem traitContent (hg : Rereadable g) (unusual : Bool) :
    Rereads g m s (Rule.traitContent unusual) (Rule.traitContent unusual) id (MemberFront false s)
      fun a _ _ => m = .written → a = false := by
  refine memberBody ((traitFunction hg unusual).follow_mono fun _ _ _ _ => trivial) ?_ ?_
  · refine (constant hg).bind fun found found' _ h => pure _ _ ?_ fun k hk hm =>
      (Bool.or_eq_false_iff.mp (hk hm)).2
    rw [id, id, (Prod.mk.inj (Prod.mk.inj h).2).1]
  · exact (memberDefinition hg fun _ => ()).bind fun _ _ _ _ => pure _ _ rfl fun _ _ _ => rfl

/-- What stands behind the visibility of a member of a trait is read again. -/
theorem traitBody (hg : Rereadable g) (visible : Bool) :
    Rereads g m s (Rule.traitBody visible) (Rule.traitBody visible) id (MemberFront false s)
      fun a _ _ => m = .written → a = false := by
  refine keyword? (fun p hp => hp.word _) (fun _ => ?_) fun _ => traitContent hg _
  exact keyword_then "default" (MemberFront false) (fun s' => traitContent hg _)
    fun p hp => Worded.defaultMember (hp.mono fun _ _ h => h.toLook) false

/-- A member of a trait is read again. -/
theorem traitMember (hg : Rereadable g) :
    Rereads g m s Rule.traitMember Rule.traitMember id (ElementFront s) fun _ _ _ => True :=
  memberOf hg false fun _ _ visible => traitBody hg visible

/-- A function of an implementation is read again. -/
theorem implementationFunction (hg : Rereadable g) :
    Rereads g m s Rule.implementationFunction Rule.implementationFunction id (SignatureFront s)
      fun _ _ _ => True := by
  unfold Rule.implementationFunction
  refine (signature hg false).bind fun _ _ s₁ _ => ?_
  refine operator? (fun p hp => hp.look.operator ";" rfl) (fun _ => ?_) fun _ => ?_
  · exact operator_then ";" (fun _ _ => True) (fun _ => pure _ _ rfl fun _ _ => trivial) fun p hp => .inr hp
  · exact (attributedBlock hg).bind_id (fun _ _ => pure _ _ rfl fun _ hk => hk) fun p hp => .inl hp

/-- A member of an implementation is read again from behind `default`. -/
theorem implementationContent (hg : Rereadable g) (visible default : Bool) :
    Rereads g m s (Rule.implementationContent visible default)
      (Rule.implementationContent visible default) id
      (MemberFront false s) fun a _ _ => m = .written → a = false := by
  refine memberBody ((implementationFunction hg).follow_mono fun _ _ _ _ => trivial) ?_ ?_
  · refine (constant hg).bind fun found found' _ h => pure _ _ ?_ fun k hk hm =>
      (Bool.or_eq_false_iff.mp (hk hm)).1
    obtain ⟨hgeneral, hvalued⟩ := Prod.mk.inj (Prod.mk.inj h).2
    rw [id, id, hgeneral, hvalued]
  · refine (memberDefinition hg id).bind fun found found' _ h => pure _ _ ?_ fun k hk hm =>
      (Bool.or_eq_false_iff.mp (hk hm)).1
    obtain ⟨hbounded, hdefined⟩ := Prod.mk.inj (Prod.mk.inj h).2
    rw [id, id, show found'.bounded = found.bounded from hbounded, hdefined]

/-- What stands behind the visibility of a member of an implementation is read again. -/
theorem implementationBody (hg : Rereadable g) (visible : Bool) :
    Rereads g m s (Rule.implementationBody visible) (Rule.implementationBody visible) id
      (MemberFront false s)
      fun a _ _ => m = .written → a = false := by
  have hdefault : ∀ p, MemberFront false s p →
      (seesWord "default" p && !sees "!" (second p)) = (seesWord "default" s && !sees "!" (second s)) := by
    intro p hp
    rw [hp.word]
    cases hs : seesWord "default" s with
    | true => rw [hp.bang hs]
    | false => rfl
  unfold Rule.implementationBody
  refine ahead (RereadsBy.congr (?_ : RereadsBy g m s _ (fun _ _ => _) _ _ _) (fun _ _ => rfl)
    fun q hq => by rw [hdefault _ hq])
  refine .sight (fun _ _ _ => rfl) (fun _ => ?_) fun _ => implementationContent hg visible _
  exact keyword_then "default" (MemberFront false) (fun s' => implementationContent hg visible _)
    fun p hp => Worded.defaultMember (hp.mono fun _ _ h => h.toLook) false

/-- A member of an implementation is read again. -/
theorem implementationMember (hg : Rereadable g) :
    Rereads g m s Rule.implementationMember Rule.implementationMember id (ElementFront s)
      fun _ _ _ => True :=
  memberOf hg false fun _ _ visible => implementationBody hg visible

end Rereads

/-! ### Members of foreign modules -/

/-- Reads a static of a foreign module from its word on. -/
def Rule.staticFromWord (declared : Bool) : Rule Bool := do
  keyword "static"
  let _ ← keyword? "mut"
  let _ ← identifier
  operator ":"
  let _ ← call (.type true)
  let valued ← operator? "="
  if valued then let _ ← call (.expression true)
  operator ";"
  return declared || valued

theorem Rule.foreignStatic_eq :
    foreignStatic = (do
      let declaredUnsafe ← keyword? "unsafe"
      let declaredSafe ← if declaredUnsafe then pure false else keyword? "safe"
      staticFromWord (declaredUnsafe || declaredSafe)) := rfl

/-- How a static of a foreign module looks at its beginning. -/
def StaticFront (s p : List Lexeme) : Prop :=
  Worded "static" (fun _ _ => True) s p ∨
    ∃ w ∈ ["unsafe", "safe"], Worded w (Worded "static" fun _ _ => True) s p

/-- A value, or the semicolon behind what has none. -/
def ValueEnd (s p : List Lexeme) : Prop :=
  Spelt ['='] ExprFront s p ∨ Semicolon s p

theorem ValueEnd.type (h : ValueEnd s p) : TypeFollow s p := by
  rcases h with ⟨_, _, _, _, rfl, rfl, -⟩ | ⟨_, _, _, _, rfl, rfl, -⟩
  · exact .of_equals _ _ _ _
  · exact .of_punct (by decide) _ _ _

theorem ValueEnd.equals (h : ValueEnd s p) : sees "=" p = sees "=" s := by
  rcases h with ⟨_, _, _, _, rfl, rfl, -⟩ | ⟨_, _, _, _, rfl, rfl, -⟩ <;> rfl

theorem Semicolon.expression (h : Semicolon s p) : ExprFollow s p := by
  obtain ⟨_, _, _, _, rfl, rfl, -⟩ := h
  exact .of_punct (.inr rfl) _ _ _ _

theorem StaticFront.member (h : StaticFront s p) : MemberFront true s p := by
  rcases h with h | ⟨w, hw, s', p', rfl, rfl, _, _, rfl, rfl, -⟩
  · have hlook := h.look
    obtain ⟨_, _, rfl, rfl, -⟩ := h
    exact ⟨hlook, rfl, by rw [not_seesSignature (by decide), not_seesSignature (by decide)], nofun, rfl⟩
  · refine ⟨look_word w _ _, rfl, ?_, ?_, ?_⟩ <;>
      simp only [List.mem_cons, List.not_mem_nil, or_false] at hw <;>
      rcases hw with rfl | rfl <;> first | rfl | nofun

namespace Rereads

/-- A static of a foreign module is read again from its word on. -/
theorem staticFromWord (hg : Rereadable g) (declared : Bool) :
    Rereads g m s (Rule.staticFromWord declared) (Rule.staticFromWord declared) id
      (Worded "static" (fun _ _ => True) s) fun _ _ _ => True := by
  refine keyword_then "static" Look (fun s₁ => ?_) fun p hp => hp.mono fun _ _ _ => trivial
  refine keyword?_look "mut" fun _ s₂ => ?_
  refine identifier_then (fun _ _ _ => True) (fun w n n' s₃ => ?_) fun w p _ hp => hp.look
  refine operator_then ":" (TypeFront False) (fun s₄ => ?_) fun p hp => trivial
  refine (hg.plainType m s₄ true).bind fun _ _ s₅ _ => ?_
  refine (?_ : Rereads g m s₅ _ _ _ (ValueEnd s₅) _).front_mono fun p hp => hp.type
  refine operator? (fun p hp => hp.equals) (fun _ => ?_) fun _ => ?_
  · refine operator_then "=" ExprFront (fun s₆ => ?_) fun p hp => .inl hp
    exact (hg.expression m s₆ true).bind fun a _ s₇ _ =>
      (semicolon_then rfl).front_mono fun p hp => hp.expression.shape a
  · exact (semicolon_then rfl).front_mono fun p hp => .inr hp

/-- A static of a foreign module is read again. -/
theorem foreignStatic (hg : Rereadable g) :
    Rereads g m s Rule.foreignStatic Rule.foreignStatic id (StaticFront s) fun _ _ _ => True := by
  rw [Rule.foreignStatic_eq]
  refine keyword? (fun p hp => hp.member.word _) (fun _ => ?_) fun _ => ?_
  · exact keyword_then "unsafe" (Worded "static" fun _ _ => True) (fun s' => staticFromWord hg _)
      fun p hp => .inr ⟨"unsafe", by decide, hp⟩
  refine keyword? (fun p hp => hp.member.word _) (fun _ => ?_) fun _ => ?_
  · exact keyword_then "safe" (Worded "static" fun _ _ => True) (fun s' => staticFromWord hg _)
      fun p hp => .inr ⟨"safe", by decide, hp⟩
  · exact (staticFromWord hg _).front_mono fun p hp => .inl hp

/-- A function of a foreign module is read again. -/
theorem foreignFunction (hg : Rereadable g) :
    Rereads g m s Rule.foreignFunction Rule.foreignFunction id (SignatureFront s) fun _ _ _ => True := by
  unfold Rule.foreignFunction
  refine (signature hg true).bind fun found found' s₁ h => ?_
  obtain ⟨name, declaredSafe⟩ := found
  obtain ⟨name', declaredSafe'⟩ := found'
  obtain rfl : declaredSafe' = declaredSafe := (Prod.mk.inj h).2
  refine ahead (.sight (fun _ p hp => hp.look.group _) (fun _ => ?_) fun _ => ?_)
  · exact (attributedBlock hg).bind_id (fun _ _ => pure _ _ rfl fun _ hk => hk) fun p hp => .inl hp
  · exact operator_then ";" (fun _ _ => True) (fun _ => pure _ _ rfl fun _ _ => trivial) fun p hp => .inr hp

/-- What stands behind the visibility of a member of a foreign module is read again. -/
theorem foreignBody (hg : Rereadable g) (visible : Bool) :
    Rereads g m s (Rule.foreignBody visible) (Rule.foreignBody visible) id (MemberFront true s)
      fun a _ _ => m = .written → a = false := by
  unfold Rule.foreignBody
  refine ahead (.sight (fun _ p hp => hp.signature) (fun _ => ?_) fun _ => ?_)
  · exact (foreignFunction hg).mono (fun p hp => hp.member true) fun _ _ _ _ => trivial
  refine .sight (fun _ p hp => hp.static) (fun _ => ?_) fun _ => ?_
  · exact (foreignStatic hg).mono (fun p hp => hp.member) fun _ _ _ _ => trivial
  refine .sight (fun _ p hp => hp.word _) (fun _ => ?_) fun _ => ?_
  · refine ((definition hg (by decide)).bind fun found found' _ h => pure _ _ ?_ fun k hk hm =>
      (Bool.or_eq_false_iff.mp (hk hm)).1).front_mono fun p hp => hp.member true
    obtain ⟨hbounded, hdefined⟩ := Prod.mk.inj (Prod.mk.inj h).2
    rw [id, id, show found'.bounded = found.bounded from hbounded, hdefined]
  refine .sight (fun _ p hp => congrArg _ hp.macroPath) (fun _ => ?_) fun _ => .expected _
  exact memberInvocation.bind_id (fun _ s' => pure _ _ rfl fun _ _ => trivial) fun p hp => hp.member true

/-- A member of a foreign module is read again. -/
theorem foreignMember (hg : Rereadable g) :
    Rereads g m s Rule.foreignMember Rule.foreignMember id (ElementFront s) fun _ _ _ => True :=
  memberOf hg true fun _ _ visible => foreignBody hg visible

/-! ### All members of something -/

/-- What fills a group is read again up to its end. -/
theorem elements {rule : Rule α} {keep : α → γ}
    (h : ∀ s, Rereads g m s rule rule keep (ElementFront s) fun _ _ _ => True) :
    Rereads g m s (Rule.while_ (fun ls => !ends ls) rule) (Rule.while_ (fun ls => !ends ls) rule)
      (List.map keep) (ElementFront s) fun _ => Ended := by
  refine (while_ ElementFront (fun _ _ h => congrArg _ h.ends) (fun s hs => ?_) fun s _ => ?_).follow_mono
    fun _ _ _ hk _ => hk.element
  · refine (h s).solid (fun _ _ _ => trivial) fun _ _ _ _ _ _ hp => ?_
    rw [← hp.ends] at hs
    cases hs
  · exact (h s).follow_mono fun _ _ _ _ => trivial

/-- Braces are read again that are filled behind attributes. -/
theorem bracedElements (hg : Rereadable g) {rule : Rule Unit}
    (h : ∀ s, Rereads g m s rule rule id (ElementFront s) fun _ _ _ => True)
    {follow : Unit → List Lexeme → List Lexeme → Prop} :
    Rereads g m s
      (Rule.within .brace do
        let _ ← Rule.innerAttributes
        let _ ← Rule.while_ (fun ls => !ends ls) rule)
      (Rule.within .brace do
        let _ ← Rule.innerAttributes
        let _ ← Rule.while_ (fun ls => !ends ls) rule) id (Bracketed .brace s) follow := by
  refine (within (fun _ _ => True) fun s' _ => ?_).front_mono fun p hp => hp.bracketed
  refine (innerAttributes hg).bind_id (fun _ s₁ => ?_) fun _ _ => trivial
  refine ((elements h).bind fun _ _ _ _ => ?_).front_mono fun p hp => hp.outward
  exact pure _ _ rfl fun _ hk => hk

end Rereads

end TypedId.Grammar
