import TypedId.Proofs.Grammar.Functions

/-!
The members of items are read again: fields and variants, and what traits, implementations and
foreign modules hold.
-/

namespace TypedId.Grammar

open Lexeme Rule

variable {g : PhraseReader} {m : Rendition} {s p k : List Lexeme} {α β γ δ : Type}

/-! ### Behind a visibility -/

/-- Without a group there is no restriction. -/
theorem Rule.seesRestriction_of_not_group (h : seesGroup .parenthesis s = false) :
    seesRestriction s = false ∧ seesRestrictingPath s = false := by
  cases s with
  | nil => exact ⟨rfl, rfl⟩
  | cons l s =>
      cases l with
      | opening d =>
          cases d with
          | parenthesis => cases h
          | bracket | brace => simp [seesRestriction, seesRestrictingPath]
      | _ => exact ⟨rfl, rfl⟩

/-- Where no parentheses come next, nothing restricts a visibility. -/
theorem VisibilityFollow.of_look (h : Look s p) (hs : seesGroup .parenthesis s = false) :
    VisibilityFollow s p :=
  have hp := seesRestriction_of_not_group ((h.group _).trans hs)
  ⟨fun hpub => (h.word _).trans hpub, fun _ => hp.1, fun _ => hp.2⟩

theorem Visible.look {rest : List Lexeme → List Lexeme → Prop} (h : Visible rest s p)
    (hrest : ∀ s p, rest s p → Look s p) : Look s p :=
  h.elim Worded.look fun h => hrest _ _ h.2.2

/-- A type may stand behind a visibility: its parentheses are not taken for a restriction. -/
theorem TypeFront.visibility {told : Prop} (h : TypeFront told s p) : VisibilityFollow s p :=
  ⟨fun hs => (h.word _).trans hs, fun hs => h.restriction.trans hs, fun hs => h.restrictingPath.trans hs⟩

/-- Where no visibility stands, none is read. -/
theorem Rule.run_visibility_of_not_sees {r : Reader} (h : seesWord "pub" r.rest = false) :
    visibility.run g r = .ok ([], r) := by
  have hnone : (do
      if ← keyword? "pub" then
        let ls ← ahead
        if seesRestriction ls then copy 3
        else if seesRestrictingPath ls then
          within .parenthesis do
            keyword "in"
            plainPath : Rule Unit).run g r.unwritten = .ok ((), r.unwritten) := by
    have hpub : seesWord "pub" r.unwritten.rest = false := h
    rw [run_bind_of_ok (run_keyword?_of_not_sees hpub)]
    rfl
  rw [visibility, run_bind_of_ok (run_hold_of_ok hnone)]
  rfl

/-! ### Fields -/

/-- What is seen behind the colon of a nameless field whose type is given by its own fields. -/
def Rule.seesOwnFields (ls : List Lexeme) : Bool :=
  seesWord "struct" ls || (seesWord "union" ls && seesGroup .brace (second ls))

/-- Reads what stands behind the colon of a field, which may be nameless. -/
def Rule.fieldType (anonymous : Bool) : Rule Unit := do
  if anonymous && seesOwnFields (← ahead) then
    kept do
      let _ ← anyWord
      call .namedFields
  else
    let _ ← call (.type true)

/-- Reads a field behind its visibility. -/
def Rule.bareField (anonymous : Bool) : Rule Unit := do
  let _ ← identifierOr ["_"]
  operator ":"
  fieldType anonymous

/-- A named field is read in two steps: what may be dropped from before it, and the field. -/
theorem Rule.namedField_eq :
    namedField = (do
      let _ ← outerAttributes
      let _ ← visibility
      bareField (seesWord "_" (← ahead))) := rfl

/-- What stands behind the colon of a field: a type, or a word and fields. -/
def FieldTypeFront (s p : List Lexeme) : Prop :=
  (∃ w, Worded w (Bracketed .brace) s p) ∨ TypeFront True s p

/-- Whether the type of a field is written as fields of its own is seen alike. -/
theorem FieldTypeFront.ownFields (h : FieldTypeFront s p) : seesOwnFields p = seesOwnFields s := by
  rcases h with ⟨w, _, _, rfl, rfl, _, _, rfl, rfl, -⟩ | h
  · rfl
  · rw [seesOwnFields, seesOwnFields, h.word, h.word]
    exact congrArg _ (h.lookBehind.second seesAnyWord_of_word fun _ _ h => h.group .brace)

namespace Rereads

/-- The type of a field is read again, whether it is one or given by fields. -/
theorem fieldType (hg : Rereadable g) (anonymous : Bool) :
    Rereads g m s (Rule.fieldType anonymous) (Rule.fieldType anonymous) id (FieldTypeFront s)
      fun _ => Listed := by
  refine ahead (.sight (fun _ p hp => congrArg _ hp.ownFields) (fun _ => ?_) fun _ => ?_)
  · refine kept (anyWord_then (fun _ => Bracketed .brace) (fun _ _ _ s' => ?_) fun w p hp => .inl ⟨w, hp⟩)
    exact (hg.namedFields .source s').follow_mono fun _ _ _ _ => trivial
  · refine (?_ : Rereads g m s _ _ _ (TypeFront True s) _).front_mono fun p hp => .inr hp
    exact (hg.type m s true True).bind fun _ _ _ _ =>
      pure _ _ rfl fun k hk => ⟨Listed.type hk, fun _ => Listed.colonless hk⟩

/-- A field is read again behind its visibility. -/
theorem bareField (hg : Rereadable g) (anonymous : Bool) :
    Rereads g m s (Rule.bareField anonymous) (Rule.bareField anonymous) id
      (fun p => ∃ w, Worded w (Spelt [':'] FieldTypeFront) s p) fun _ => Listed := by
  refine identifierOr_then ["_"] (fun _ => Spelt [':'] FieldTypeFront) (fun w n n' s' => ?_)
    fun w _ _ hp => ⟨w, hp⟩
  exact operator_then ":" FieldTypeFront (fun _ => fieldType hg anonymous) fun p hp => hp

/-- A field with a name is read again. -/
theorem namedField (hg : Rereadable g) :
    Rereads g m s Rule.namedField Rule.namedField id (Look s) fun _ => Listed := by
  rw [Rule.namedField_eq]
  refine (outerAttributes hg Look).bind_id (fun _ s₁ => ?_) fun p hp => hp.look fun _ _ h => h
  refine (?_ : Rereads g m s₁ _ _ _ (Look s₁) _).front_mono fun p hp hs =>
    ⟨hp, (hp.operator "#" rfl).trans hs⟩
  refine (visibility fun s p => ∃ w, Worded w (Spelt [':'] FieldTypeFront) s p).bind_id (fun _ s₂ => ?_)
    fun p hp => hp.look fun _ _ ⟨_, h⟩ => h.look
  refine (ahead ((bareField hg (seesWord "_" s₂)).congr (fun _ _ => rfl) fun q hq => ?_)).front_mono ?_
  · obtain ⟨w, hq⟩ := hq
    rw [hq.look.word]
  · rintro p ⟨w, hp⟩
    refine ⟨⟨w, hp⟩, .of_look hp.look ?_⟩
    obtain ⟨_, _, rfl, -, -⟩ := hp
    rfl

/-- Fields with names are read again. -/
theorem namedFields (hg : Rereadable g) {follow : Unit → List Lexeme → List Lexeme → Prop} :
    Rereads g m s Rule.namedFields Rule.namedFields id (Bracketed .brace s) follow :=
  groupedList id fun _ _ => (namedField hg).front_mono fun _ hp => hp.ends

/-- Fields without names are read again. -/
theorem positionalFields (hg : Rereadable g) {follow : Unit → List Lexeme → List Lexeme → Prop} :
    Rereads g m s Rule.positionalFields Rule.positionalFields id (Bracketed .parenthesis s) follow := by
  refine groupedList id fun s _ => ?_
  refine (?_ : Rereads g m s _ _ _ (Look s) _).front_mono fun p hp => hp.ends
  refine (outerAttributes hg Look).bind_id (fun _ s₁ => ?_) fun p hp => hp.look fun _ _ h => h
  refine (?_ : Rereads g m s₁ _ _ _ (Look s₁) _).front_mono fun p hp hs =>
    ⟨hp, (hp.operator "#" rfl).trans hs⟩
  refine (visibility (TypeFront False)).bind_id (fun _ s₂ => ?_) fun p hp => hp.look fun _ _ h => h.toLook
  exact (hg.plainType m s₂ true).mono (fun p hp => ⟨hp, hp.visibility⟩) fun _ _ _ hk => Listed.type hk

end Rereads

/-! ### Variants -/

/-- Reads the value of a variant, which may be left out. -/
def Rule.variantValue : Rule Unit := do
  if ← operator? "=" then
    let _ ← call (.expression true)

/-- Reads what stands behind the name of a variant. -/
def Rule.variantContent : Rule Unit := do
  let ls ← ahead
  if seesGroup .brace ls then
    call .namedFields
    variantValue
  else if seesGroup .parenthesis ls then
    positionalFields
    variantValue
  else variantValue

/-- A variant is read in two steps; its visibility is held back and dropped. -/
theorem Rule.variant_eq :
    variant = (do
      let _ ← outerAttributes
      let _ ← hold visibility
      let _ ← identifier
      variantContent) := rfl

/-- What is held back and not written is left out. -/
theorem Rule.run_hold_then (rule : Rule α) (next : Rule β) (r : Reader) :
    (do let _ ← hold rule; next : Rule β).run g r =
      (do let _ ← unwrittenIf (fun _ => true) rule; next : Rule β).run g r := by
  rw [run_bind, run_bind, unwrittenIf, run_bind]
  cases (hold rule).run g r <;> rfl

/-- What stands behind the fields of a variant: its value, or what follows the variant. -/
def DiscriminantFront (s p : List Lexeme) : Prop :=
  Spelt ['='] ExprFront s p ∨ Rereads.Listed s p

/-- What stands behind the name of a variant. -/
def VariantFront (s p : List Lexeme) : Prop :=
  (∃ d, Bracketed d s p) ∨ DiscriminantFront s p

theorem DiscriminantFront.look (h : DiscriminantFront s p) : Look s p :=
  h.elim (fun h => h.look (by decide) fun _ _ _ h => h.toLook) Rereads.Listed.look

theorem VariantFront.look (h : VariantFront s p) : Look s p :=
  h.elim (fun ⟨_, h⟩ => h.look) DiscriminantFront.look

/-- Both texts begin with an identifier, and go on alike. -/
def Identified (rest : List Lexeme → List Lexeme → Prop) (s p : List Lexeme) : Prop :=
  ∃ w, isIdentifier w = true ∧ Worded w rest s p

theorem Identified.look {rest : List Lexeme → List Lexeme → Prop} (h : Identified rest s p) : Look s p :=
  have ⟨_, _, h⟩ := h
  h.look

/-- A name is no visibility. -/
theorem Identified.not_pub {rest : List Lexeme → List Lexeme → Prop} (h : Identified rest s p) :
    seesWord "pub" s = false ∧ seesWord "pub" p = false := by
  obtain ⟨w, hw, _, _, rfl, rfl, -⟩ := h
  have hne : w ≠ "pub" := by
    rintro rfl
    exact absurd hw (by decide)
  exact ⟨beq_false_of_ne hne, beq_false_of_ne hne⟩

namespace Rereads

/-- The value of a variant is read again, which may be left out. -/
theorem variantValue (hg : Rereadable g) :
    Rereads g m s Rule.variantValue Rule.variantValue id (DiscriminantFront s) fun _ => Listed := by
  refine operator? (fun p hp => hp.look.operator "=" rfl) (fun _ => ?_) fun _ => ?_
  · refine operator_then "=" ExprFront (fun s' => ?_) fun p hp => .inl hp
    exact (hg.expression m s' true).bind fun a _ _ _ => pure _ _ rfl fun k hk =>
      (Listed.expression hk).shape a
  · exact pure _ _ rfl fun k hk => .inr hk

/-- What stands behind the name of a variant is read again. -/
theorem variantContent (hg : Rereadable g) :
    Rereads g m s Rule.variantContent Rule.variantContent id (VariantFront s) fun _ => Listed := by
  refine ahead (.sight (fun _ p hp => hp.look.group _) (fun _ => ?_) fun _ => ?_)
  · exact bind_id ((hg.namedFields m s).follow_mono fun _ _ _ _ => trivial) (fun _ s' => variantValue hg)
      fun p hp => .inl ⟨_, hp⟩
  refine .sight (fun _ p hp => hp.look.group _) (fun _ => ?_) fun _ => ?_
  · exact (positionalFields hg).bind_id (fun _ s' => variantValue hg) fun p hp => .inl ⟨_, hp⟩
  · exact (variantValue hg).front_mono fun p hp => .inr hp

/-- A visibility is read again that is not written. -/
theorem unwrittenVisibility :
    Rereads g m s (Rule.unwrittenIf (fun _ => true) Rule.visibility)
      (Rule.unwrittenIf (fun _ => true) Rule.visibility) (fun _ => ()) (ElementStart s)
      fun _ => Identified VariantFront := by
  refine unwrittenIf (fun _ => true) [] (fun _ _ _ => ⟨rfl, rfl⟩) (fun p hp => ?_) (fun m' =>
    (visibility (Identified VariantFront)).follow_mono fun _ _ _ hk => ?_) fun hm r a r' k hr hrun _ hk => ?_
  · have hlook := hp.look fun _ _ h => h.look
    exact ⟨hlook.ends, hlook.operator "#" rfl⟩
  · refine ⟨hk.2, .of_look hk.2.look ?_⟩
    obtain ⟨_, _, _, _, rfl, -⟩ := hk.2
    rfl
  · refine ⟨?_, rfl, fun q hq => Rule.run_visibility_of_not_sees (hq ▸ hk.not_pub.2)⟩
    cases hpub : seesWord "pub" s with
    | true =>
        obtain ⟨s', rfl⟩ := exists_of_seesWord hpub
        obtain ⟨_, _, _, _, -, rfl, -⟩ := hk
        exact ⟨rfl, rfl⟩
    | false =>
        rw [Rule.run_visibility_of_not_sees (hr ▸ hpub)] at hrun
        cases hrun
        exact hr ▸ ⟨hk.look.ends, hk.look.operator "#" rfl⟩

/-- A variant is read again; its visibility is left out. -/
theorem variant (hg : Rereadable g) :
    Rereads g m s Rule.variant Rule.variant id (fun p => ends p = ends s) fun _ => Listed := by
  rw [Rule.variant_eq]
  refine (outerAttributes hg ElementStart).bind_id (fun _ s₁ => ?_) fun p hp => ?_
  · refine (?_ : Rereads g m s₁ _ _ _ (ElementStart s₁) _).front_mono fun p hp hs => ⟨hp, hp.hash.trans hs⟩
    refine (unwrittenVisibility.bind fun _ _ s₂ _ => ?_).congr (fun r _ => Rule.run_hold_then _ _ r)
      fun q _ => Rule.run_hold_then _ _ q
    exact identifier_then (fun _ => VariantFront) (fun w n n' s₃ => variantContent hg)
      fun w p hw hp => ⟨w, hw, hp⟩
  · rcases hp with hp | ⟨-, -, hp⟩
    · exact hp.look.ends
    · exact hp.ends

end Rereads

/-! ### Constants -/

/-- A semicolon stands next in both texts. -/
def Semicolon : List Lexeme → List Lexeme → Prop :=
  Spelt [';'] fun _ _ => True

/-- At a semicolon no conditions come. -/
theorem Semicolon.not_where (h : Semicolon s k) :
    seesWord "where" s = false ∧ seesWord "where" k = false := by
  obtain ⟨_, _, _, _, rfl, rfl, -⟩ := h
  exact ⟨rfl, rfl⟩

/-- What stands where conditions before a semicolon may be left out. -/
def ConditionsFront (m : Rendition) : List Lexeme → List Lexeme → Prop :=
  WhereFront m Semicolon Semicolon

/-- A type may be followed by conditions. -/
theorem ConditionsFront.type (h : ConditionsFront m s k) : TypeFollow s k := by
  rcases h with ⟨_, _, rfl, rfl, -⟩ | ⟨-, -, _, _, _, _, _, rfl, rfl, -⟩ | ⟨-, _, _, _, _, rfl, rfl, -⟩
  · exact .of_word _ _ _
  · exact .of_punct (by decide) _ _ _
  · exact .of_punct (by decide) _ _ _

theorem ConditionsFront.equals (h : ConditionsFront m s k) : sees "=" s = false ∧ sees "=" k = false := by
  rcases h with ⟨_, _, rfl, rfl, -⟩ | ⟨-, hs, _, _, _, _, _, rfl, rfl, -⟩ | ⟨-, _, _, _, _, rfl, rfl, -⟩
  · exact ⟨rfl, rfl⟩
  · obtain ⟨_, rfl⟩ := Rereads.exists_of_seesWord hs
    exact ⟨rfl, rfl⟩
  · exact ⟨rfl, rfl⟩

/-- So may an expression. -/
theorem ConditionsFront.expression (h : ConditionsFront m s k) : ExprFollow s k := by
  rcases h with ⟨_, _, rfl, rfl, -⟩ | ⟨-, hs, _, joint, _, _, k', rfl, rfl, -⟩ | ⟨-, _, _, _, _, rfl, rfl, -⟩
  · exact .of_word _ _ _
  · obtain ⟨s', rfl⟩ := Rereads.exists_of_seesWord hs
    exact ⟨.of_punct (by decide) _ _ _, rfl, fun _ => rfl, ⟨rfl, rfl⟩, ⟨rfl, rfl⟩, rfl, rfl,
      rfl, rfl, rfl, rfl,
      rfl, rfl, rfl, fun _ => rfl, fun _ => rfl, fun b _ => by cases b <;> rfl, rfl⟩
  · exact .of_punct (.inr rfl) _ _ _ _

/-- What is compared of a constant. -/
def ConstantShape.placeless (a : ConstantShape) : String × Bool × Bool := (a.name.text, a.general, a.valued)

/-- How a constant looks at its beginning. -/
def ConstantFront : List Lexeme → List Lexeme → Prop :=
  Worded "const" fun s p => ∃ w, (isIdentifier w || w == "_") = true ∧ Worded w (fun _ _ => True) s p

/-- Reads the end of a constant. -/
def Rule.endOfConstant (name : Name) (bracketed valued : Bool) : Rule ConstantShape := do
  let conditional ← whereClause
  operator ";"
  return ⟨name, bracketed || conditional, valued⟩

/-- Reads a constant from behind its parameters. -/
def Rule.restOfConstant (name : Name) (bracketed : Bool) : Rule ConstantShape := do
  operator ":"
  let _ ← call (.type true)
  let valued ← operator? "="
  if valued then let _ ← call (.expression true)
  endOfConstant name bracketed valued

/-- A constant is read up to its parameters, and then the rest. -/
theorem Rule.constant_eq :
    constant = (do
      keyword "const"
      let ls ← ahead
      if seesIdentifier ls || seesWord "_" ls then
        let name ← anyWord
        let bracketed ← genericParameters
        restOfConstant name bracketed
      else
        let name ← expected [.identifier, .keyword "_"]
        let bracketed ← genericParameters
        restOfConstant name bracketed) := rfl

/-- The brackets of a constant make it general. -/
theorem Rule.bracketed_of_run_restOfConstant (hg : ∀ ls, Stays g ls) {name : Name} {bracketed : Bool}
    {r r' : Reader} {a : ConstantShape} (h : (restOfConstant name bracketed).run g r = .ok (a, r'))
    (ha : a.general = false) : bracketed = false := by
  refine Ensures.of_run (Q := fun _ a _ => a.general = false → bracketed = false) (fun ls v => ?_) h ha
  have hend : ∀ {pre valued}, Ensures g ls pre (endOfConstant name bracketed valued) fun a _ =>
      a.general = false → bracketed = false := fun {_ _} =>
    .skip (hg ls) fun _ => .skip (hg ls) fun _ => .pure fun _ _ h => (Bool.or_eq_false_iff.mp h).1
  exact .skip (hg ls) fun _ => .skip (hg ls) fun _ => .skip (hg ls) fun valued =>
    .ite (fun _ => .skip (hg ls) fun _ => hend) fun _ => hend

namespace Rereads

/-- The conditions before a semicolon are read again. -/
theorem conditions (hg : Rereadable g) (keep : Bool → γ) :
    Rereads g m s Rule.whereClause Rule.whereClause keep (ConditionsFront m s) fun a s' k =>
      (m = .written → keep a = keep false) ∧ Semicolon s' k :=
  (whereClause hg keep (fun _ _ => .semicolon) Semicolon).follow_mono fun _ _ _ hk =>
    ⟨hk.1, fun _ => hk.2, fun _ => ⟨hk.2, hk.2.not_where.2⟩⟩

/-- A semicolon is read again, and nothing else. -/
theorem semicolon_then {a a' : α} {keep : α → γ} (ha : keep a' = keep a)
    {follow : α → List Lexeme → List Lexeme → Prop} :
    Rereads g m s (do Rule.operator ";"; return a) (do Rule.operator ";"; return a') keep
      (Semicolon s) follow :=
  operator_then ";" (follow a) (fun _ => pure _ _ ha fun _ hk => hk) fun _ hp => hp.mono fun _ _ _ => trivial

/-- The end of a constant is read again. -/
theorem endOfConstant (hg : Rereadable g) {name name' : Name} (hname : name'.text = name.text)
    (bracketed valued : Bool) :
    Rereads g m s (Rule.endOfConstant name bracketed valued) (Rule.endOfConstant name' bracketed valued)
      ConstantShape.placeless (ConditionsFront m s) fun a _ _ => m = .written → a.general = false := by
  refine (conditions hg id).bind_id (fun conditional s' => ?_) fun p hp => hp
  refine operator_then ";" (fun _ _ => m = .written → (bracketed || conditional) = false) (fun s₂ => ?_)
    fun p hp => ⟨fun hm => ?_, hp.mono fun _ _ _ => trivial⟩
  · exact pure _ _ (by rw [ConstantShape.placeless, hname]; rfl) fun k hk => hk
  · obtain ⟨_, _, _, _, -, -, -, h⟩ := hp
    exact (Bool.or_eq_false_iff.mp (h hm)).2

/-- A constant is read again from behind its parameters. -/
theorem restOfConstant (hg : Rereadable g) {name name' : Name} (hname : name'.text = name.text)
    (bracketed : Bool) :
    Rereads g m s (Rule.restOfConstant name bracketed) (Rule.restOfConstant name' bracketed)
      ConstantShape.placeless (fun p => (m = .written → bracketed = false) ∧ sees "<" p = false)
      fun a _ _ => m = .written → a.general = false := by
  refine (RereadsBy.given (?_ : Rereads g m s _ _ _ (fun p => sees "<" p = false) _) ?_)
  · refine operator_then ":" (TypeFront False) (fun s₁ => ?_) fun p hp => ?_
    · refine (hg.plainType m s₁ true).bind fun _ _ s₂ _ => ?_
      refine (?_ : Rereads g m s₂ _ _ _ (fun p => Spelt ['='] ExprFront s₂ p ∨ ConditionsFront m s₂ p)
        _).front_mono
        fun p hp => ?_
      · refine operator? (fun p hp => ?_) (fun _ => ?_) fun _ => ?_
        · rcases hp with hp | hp
          · exact hp.startsWith.2.trans hp.startsWith.1.symm
          · exact hp.equals.2.trans hp.equals.1.symm
        · refine operator_then "=" ExprFront (fun s₃ => ?_) fun p hp => .inl hp
          exact (hg.expression m s₃ true).bind fun a _ _ _ =>
            (endOfConstant hg hname bracketed true).front_mono fun p hp => hp.expression.shape a
        · exact (endOfConstant hg hname bracketed false).front_mono fun p hp => .inr hp
      · rcases hp with ⟨_, _, _, _, rfl, rfl, -⟩ | hp
        · exact .of_equals _ _ _ _
        · exact hp.type
    · obtain ⟨_, _, _, _, -, rfl, -⟩ := hp
      rfl
  · exact fun r a r' k _ hrun hk hm => Rule.bracketed_of_run_restOfConstant hg.stays hrun (hk hm)

/-- A constant is read again; only the place of its name may differ. -/
theorem constant (hg : Rereadable g) :
    Rereads g m s Rule.constant Rule.constant ConstantShape.placeless (ConstantFront s)
      fun a _ _ => m = .written → a.general = false := by
  rw [Rule.constant_eq]
  refine keyword_then "const" (fun s p => ∃ w, (isIdentifier w || w == "_") = true ∧
    Worded w (fun _ _ => True) s p) (fun s₁ => ?_) fun p hp => hp
  refine ahead (.sight (fun _ p hp => ?_) (fun hs => ?_) fun _ => .expected_then _ _)
  · obtain ⟨_, _, hp⟩ := hp
    rw [hp.look.identifier, hp.look.word]
  · refine anyWord_then (fun _ _ _ => True) (fun w n n' s₂ => ?_) fun w p hp => ⟨w, ?_, hp⟩
    · have hname : (⟨w, n'⟩ : Name).text = (⟨w, n⟩ : Name).text := rfl
      exact (genericParameters hg id).bind_id (fun bracketed s₃ => restOfConstant hg hname bracketed)
        fun _ _ => trivial
    · obtain ⟨_, _, rfl, -, -⟩ := hp
      exact hs

end Rereads

/-! ### Bounds up to the end of a list -/

/-- Where a colon comes next, there are bounds. -/
theorem Rule.run_bounds?_of_sees {bounds : Rule (List α)} {r r' : Reader} {found : Bool}
    (h : sees ":" r.rest = true) (hrun : (bounds? bounds).run g r = .ok (found, r')) : found = true := by
  obtain ⟨⟨seen, text⟩, r₁, hhold, hrun⟩ := run_bind_eq_ok.mp hrun
  obtain ⟨b, r₂, hbounds, hx, -⟩ := run_hold_eq_ok.mp hhold
  obtain ⟨rfl, rfl⟩ := Prod.mk.inj hx
  have hcolon : sees ":" ({ r with written := [] } : Reader).rest = true := h
  have hseen : seen.isSome = true := by
    rw [run_bind_of_ok (run_operator?_of_sees hcolon), if_pos rfl] at hbounds
    obtain ⟨_, _, -, hbounds⟩ := run_bind_eq_ok.mp hbounds
    cases hbounds
    rfl
  dsimp only at hrun
  split at hrun
  · cases hrun
    exact hseen
  · obtain ⟨_, _, -, hrun⟩ := run_bind_eq_ok.mp hrun
    cases hrun
    exact hseen

/-- Where no colon comes next, there are no bounds. -/
theorem Rule.run_bounds?_of_not_sees {bounds : Rule (List α)} {r : Reader} (h : sees ":" r.rest = false) :
    (bounds? bounds).run g r = .ok (false, r) := by
  have hnone : (do if ← operator? ":" then return some (← bounds).isEmpty else
      return none : Rule (Option Bool)).run
      g r.unwritten = .ok (none, r.unwritten) := by
    have hcolon : sees ":" r.unwritten.rest = false := h
    rw [run_bind_of_ok (run_operator?_of_not_sees hcolon)]
    rfl
  rw [bounds?, run_bind_of_ok (run_hold_of_ok hnone)]
  rfl

/-- What stands behind bounds that are separated up to some place. -/
structure BoundsEnd (stop : List Lexeme → Bool) (s k : List Lexeme) : Prop extends TypeFollow s k where
  stops : stop s = true ∧ stop k = true
  colon : sees ":" s = false ∧ sees ":" k = false

namespace Rereads

/-- Bounds are read again up to some place. -/
theorem boundList (hg : Rereadable g) {stop : List Lexeme → Bool}
    (hstop : ∀ s p, Look s p → stop p = stop s) :
    Rereads g m s (Rule.separated (Rule.operator "+") stop (Rule.call (.bound false true)))
      (Rule.separated (Rule.operator "+") stop (Rule.call (.bound false true))) List.isEmpty
      (fun p => stop p = stop s) fun _ s' k => TypeFollow s' k ∧ stop s' = true ∧ stop k = true := by
  refine ((separated BoundShape.placeless (fun s p => stop p = stop s)
    (fun s p => TypeFollow s p ∧ stop p = stop s) (fun _ _ => id) (fun _ _ hp => hp.2) (fun s _ => ?_)
    (fun s _ => ?_) fun s => operator_solid "+" (by decide)).keep_mono fun _ _ =>
      isEmpty_of_map_eq).follow_mono
    fun _ s' k hk _ => ?_
  · exact (hg.plainBound m s false true).mono (fun p hp => hstop _ _ hp.toLook) fun _ _ _ hk => hk.1
  · refine (operator "+").front_mono fun p hp => ⟨hp.added.toTypeFollow, hstop _ _ ?_⟩
    exact hp.look (by decide) fun h => absurd h (by decide)
  · have hstops : stop k = stop s' := hk.2.2.trans hk.2.1.symm
    exact ⟨hstops, hk.1, hstops⟩

/-- Bounds are read again that may be left out, up to some place. -/
theorem separatedBounds (hg : Rereadable g) {stop : List Lexeme → Bool}
    (hstop : ∀ s p, Look s p → stop p = stop s) {ending : List Lexeme → List Lexeme → Prop}
    (hending : ∀ s k, ending s k → BoundsEnd stop s k) (keep : Bool → γ) :
    Rereads g m s
      (Rule.bounds? <| Rule.separated (Rule.operator "+") stop (Rule.call (.bound false true)))
      (Rule.bounds? <| Rule.separated (Rule.operator "+") stop (Rule.call (.bound false true))) keep
      (BoundsFront (fun s p => stop p = stop s) ending s)
      fun a s' k => (m = .written → keep a = keep false) ∧ ending s' k := by
  refine bounds? keep (fun m s => (boundList hg hstop).follow_mono fun _ s' k hk => ?_) fun s k hk =>
    (hending s k hk).colon
  exact ⟨(hending _ _ hk).toTypeFollow, (hending _ _ hk).stops⟩

end Rereads

/-! ### Type definitions -/

/-- Whether the bounds of a type definition end: something else of it comes next. -/
def Rule.endsBounds (ls : List Lexeme) : Bool :=
  seesWord "where" ls || sees "=" ls || sees ";" ls

/-- Reads the bounds of a type definition, which may be left out. -/
def Rule.definitionBounds : Rule Bool :=
  bounds? <| separated (operator "+") endsBounds (call (.bound false true))

/-- Reads the end of a type definition; `early` if no conditions may stand there. -/
def Rule.endOfDefinition (early : Bool) (a : DefinitionShape) : Rule DefinitionShape := do
  unless early do let _ ← whereClause
  operator ";"
  return a

/-- Reads what is defined, and the end of a type definition. -/
def Rule.definedType (place : ConditionPlace) (name : Name) (bounded conditional : Bool) :
    Rule DefinitionShape := do
  let defined ← operator? "="
  if defined then let _ ← call (.type true)
  endOfDefinition (place == .beforeDefinition || conditional) ⟨name, bounded, defined⟩

/-- Reads a type definition from behind its bounds. -/
def Rule.conditionalType (place : ConditionPlace) (name : Name) (bounded : Bool) : Rule DefinitionShape := do
  let conditional ← if place == .behindDefinition then pure false else whereClause
  definedType place name bounded conditional

/-- Reads a type definition from behind its parameters. -/
def Rule.restOfDefinition (place : ConditionPlace) (name : Name) : Rule DefinitionShape := do
  conditionalType place name (← definitionBounds)

/-- An alias is read up to its parameters, and then the rest, by where its conditions stand. -/
theorem Rule.typeDefinition_eq (place : ConditionPlace) :
    typeDefinition place = (do
      keyword "type"
      let name ← identifier
      let _ ← genericParameters
      restOfDefinition place name) := rfl

/-- What is compared of a type definition; its bounds are compared by `keep`. -/
def DefinitionShape.placeless (keep : Bool → γ) (a : DefinitionShape) : String × γ × Bool :=
  (a.name.text, keep a.bounded, a.defined)

/-- How a type definition looks at its beginning. -/
def DefinitionFront : List Lexeme → List Lexeme → Prop :=
  Worded "type" (Identified fun _ _ => True)

/-- What stands where a type is defined, or behind that. -/
def DefinedFront (m : Rendition) (s p : List Lexeme) : Prop :=
  Spelt ['='] (TypeFront False) s p ∨ ConditionsFront m s p

/-- What stands behind conditions on what is defined. -/
def DefinedEnd (s p : List Lexeme) : Prop :=
  Spelt ['='] (TypeFront False) s p ∨ Semicolon s p

theorem Look.endsBounds (h : Look s p) : Rule.endsBounds p = Rule.endsBounds s := by
  simp only [Rule.endsBounds, h.word, h.operator "=" rfl, h.operator ";" rfl]

/-- What may come between the parameters and the definition ends its bounds. -/
theorem DefinedFront.bounds (h : DefinedFront m s p) : BoundsEnd Rule.endsBounds s p := by
  rcases h with ⟨_, _, _, _, rfl, rfl, -⟩ | h
  · exact ⟨.of_equals _ _ _ _, ⟨rfl, rfl⟩, rfl, rfl⟩
  · refine ⟨h.type, ?_, ?_⟩ <;>
      rcases h with ⟨_, _, rfl, rfl, -⟩ | ⟨-, hs, _, _, _, _, _, rfl, rfl, -⟩
        | ⟨-, _, _, _, _, rfl, rfl, -⟩ <;>
      first | exact ⟨rfl, rfl⟩ | (obtain ⟨_, rfl⟩ := Rereads.exists_of_seesWord hs; exact ⟨rfl, rfl⟩)

theorem DefinedFront.equals (h : DefinedFront m s p) : sees "=" p = sees "=" s := by
  rcases h with h | h
  · exact h.startsWith.2.trans h.startsWith.1.symm
  · exact h.equals.2.trans h.equals.1.symm

/-- There no list of parameters begins. -/
theorem DefinedFront.less (h : DefinedFront m s p) : sees "<" p = false := by
  rcases h with ⟨_, _, _, _, -, rfl, -⟩ | ⟨_, _, -, rfl, -⟩ | ⟨-, -, _, _, _, _, _, -, rfl, -⟩ |
    ⟨-, _, _, _, _, -, rfl, -⟩ <;> rfl

/-- What stands behind what is defined; `early` if no conditions may stand there. -/
def DefinitionEnd (m : Rendition) (early : Bool) (s p : List Lexeme) : Prop :=
  if early = true then Semicolon s p else ConditionsFront m s p

/-- At the end of a definition conditions may come, or a semicolon. -/
theorem DefinitionEnd.conditions {early : Bool} (h : DefinitionEnd m early s p) : ConditionsFront m s p := by
  cases early with
  | true => exact .inr (.inr ⟨Semicolon.not_where h |>.1, h⟩)
  | false => exact h

/-- Bounds do not begin with an angle bracket, if what ends them does not. -/
theorem BoundsFront.less {start ending : List Lexeme → List Lexeme → Prop}
    (hending : ∀ s p, ending s p → sees "<" p = false) (h : BoundsFront start ending s p) :
    sees "<" p = false := by
  rcases h with ⟨_, _, _, _, -, rfl, -⟩ | h | ⟨-, s', h⟩
  · rfl
  · exact hending _ _ h
  · exact hending _ _ h

theorem DefinedEnd.front (h : DefinedEnd s p) : DefinedFront m s p :=
  h.imp_right fun h => .inr (.inr ⟨h.not_where.1, h⟩)

theorem DefinedEnd.clause (h : DefinedEnd s p) : ClauseEnd s p :=
  h.elim (fun h => .equals (h.mono fun _ _ _ => trivial)) .semicolon

/-- Where a definition has ended, no conditions come. -/
theorem DefinedEnd.not_where (h : DefinedEnd s p) :
    seesWord "where" s = false ∧ seesWord "where" p = false := by
  rcases h with ⟨_, _, _, _, rfl, rfl, -⟩ | h
  · exact ⟨rfl, rfl⟩
  · exact h.not_where

/-- Without `where`, there are no conditions. -/
theorem DefinedFront.end_ (h : DefinedFront m s p) (hs : seesWord "where" s = false) : DefinedEnd s p := by
  rcases h with h | ⟨_, _, rfl, -, -⟩ | ⟨-, h, -⟩ | ⟨-, h⟩
  · exact .inl h
  · cases hs
  · rw [hs] at h
    cases h
  · exact .inr h

/-- Conditions that are not there are passed over. -/
theorem Rule.run_whereClause_of_not_sees {r : Reader} (h : seesWord "where" r.rest = false) :
    whereClause.run g r = .ok (false, r) := by
  have hnone : optionalConditions.run g r.unwritten = .ok (none, r.unwritten) :=
    optionalConditions_of_not_sees h
  rw [run_whereClause_eq, run_bind, unwrittenIf, run_bind_of_ok (run_hold_of_ok hnone)]
  rfl

/-- A `where` is told of, also one without conditions. -/
theorem Rule.run_whereClause_of_sees {r r' : Reader} {found : Bool} (h : seesWord "where" r.rest = true)
    (hrun : whereClause.run g r = .ok (found, r')) : found = true := by
  rw [run_whereClause_eq] at hrun
  obtain ⟨conditions, r₁, hrun, hfound⟩ := run_bind_eq_ok.mp hrun
  cases hfound
  obtain ⟨⟨seen, text⟩, r₂, hhold, hrun⟩ := run_bind_eq_ok.mp hrun
  obtain ⟨b, r₃, hconditions, hx, -⟩ := run_hold_eq_ok.mp hhold
  obtain ⟨rfl, rfl⟩ := Prod.mk.inj hx
  have hsome := isSome_of_run_optionalConditions (r := r.unwritten) h hconditions
  dsimp only at hrun
  split at hrun
  · cases hrun
    exact hsome
  · obtain ⟨_, _, -, hrun⟩ := run_bind_eq_ok.mp hrun
    cases hrun
    exact hsome

/-- Conditions are read again that may be left out, and then something else. Where they are empty and
not written, none are found the second time. -/
theorem Rereads.whereThen (hg : Rereadable g) {next next' : Bool → Rule α} {keep : α → γ}
    {follow : α → List Lexeme → List Lexeme → Prop} (ending rest : List Lexeme → List Lexeme → Prop)
    (hending : ∀ s k, ending s k → ClauseEnd s k) (hrest : ∀ s p, rest s p → seesWord "where" p = false)
    (hbare : seesWord "where" s = false → Rereads g m s (next false) (next' false) keep (rest s) follow)
    (hclause : ∀ found' s', Rereads g m s' (next true) (next' found') keep (ending s') follow) :
    Rereads g m s (Rule.whereClause >>= next) (Rule.whereClause >>= next') keep
      (WhereFront m ending rest s) follow := by
  cases hs : seesWord "where" s with
  | false =>
      refine ((hbare hs).congr (fun r hr => ?_) fun q hq => ?_).front_mono fun p hp => .inr (.inr ⟨hs, hp⟩)
      · exact run_bind_of_ok (run_whereClause_of_not_sees (hr ▸ hs)) _
      · exact run_bind_of_ok (run_whereClause_of_not_sees (hrest _ _ hq)) _
  | true =>
      refine bind_of_run (· = true) (fun r found r' hr hrun => run_whereClause_of_sees (hr ▸ hs) hrun)
        (Rereads.whereClause hg (fun _ => ()) hending rest) fun found found' s' hfound _ => ?_
      subst hfound
      exact (hclause found' s').front_mono fun p hp => ⟨fun _ => rfl, fun _ => hp, nofun⟩

/-- The bounds of a type definition are told as they were read. -/
theorem Rule.bounded_of_run_conditionalType (hg : ∀ ls, Stays g ls) {place : ConditionPlace} {name : Name}
    {bounded : Bool} {r r' : Reader} {a : DefinitionShape}
    (h : (conditionalType place name bounded).run g r = .ok (a, r')) : a.bounded = bounded := by
  refine Ensures.of_run (Q := fun _ a _ => a.bounded = bounded) (fun ls v => ?_) h
  have hend : ∀ {pre conditional}, Ensures g ls pre (definedType place name bounded conditional) fun a _ =>
      a.bounded = bounded := by
    intro pre conditional
    have hrest : ∀ {pre early defined}, Ensures g ls pre (endOfDefinition early ⟨name, bounded, defined⟩)
        fun a _ => a.bounded = bounded := fun {_ _ _} =>
      .ite (fun _ => .skip (hg ls) fun _ => .pure fun _ _ => rfl) fun _ =>
        .skip (hg ls) fun _ => .skip (hg ls) fun _ => .pure fun _ _ => rfl
    exact .skip (hg ls) fun _ => .ite (fun _ => .skip (hg ls) fun _ => hrest) fun _ => hrest
  exact .ite (fun _ => .skip (hg ls) fun _ => hend) fun _ => .skip (hg ls) fun _ => hend

namespace Rereads

/-- The end of a type definition is read again. Where no conditions may stand, they may the second
time. -/
theorem endOfDefinition (hg : Rereadable g) {early early' : Bool} (hearly : early' = true → early = true)
    {a a' : DefinitionShape} {keep : DefinitionShape → γ} (ha : keep a' = keep a)
    {follow : DefinitionShape → List Lexeme → List Lexeme → Prop} :
    Rereads g m s (Rule.endOfDefinition early a) (Rule.endOfDefinition early' a') keep
      (DefinitionEnd m early s)
      follow := by
  cases early with
  | true =>
      refine (semicolon_then ha).congr (fun _ _ => rfl) fun q hq => ?_
      cases early' with
      | true => rfl
      | false => exact Rule.run_bind_of_ok (Rule.run_whereClause_of_not_sees hq.not_where.2) _
  | false =>
      obtain rfl : early' = false := Bool.eq_false_iff.mpr fun h => Bool.noConfusion (hearly h)
      refine (conditions hg fun _ => ()).bind fun _ _ s' _ => ?_
      exact (semicolon_then ha).front_mono fun p hp => ⟨fun _ => rfl, hp⟩

/-- What is defined is read again. -/
theorem definedType (hg : Rereadable g) {place : ConditionPlace} {name name' : Name}
    {bounded bounded' conditional conditional' : Bool} {keep : Bool → γ} (hname : name'.text = name.text)
    (hbounded : keep bounded' = keep bounded)
    (hearly : (place == .beforeDefinition || conditional') = true →
      (place == .beforeDefinition || conditional) = true) :
    Rereads g m s (Rule.definedType place name bounded conditional)
      (Rule.definedType place name' bounded' conditional') (DefinitionShape.placeless keep)
      (fun p => Spelt ['='] (TypeFront False) s p ∨
        DefinitionEnd m (place == .beforeDefinition || conditional) s p)
      fun _ _ _ => True := by
  have hend : ∀ defined s, Rereads g m s
      (Rule.endOfDefinition (place == .beforeDefinition || conditional) ⟨name, bounded, defined⟩)
      (Rule.endOfDefinition (place == .beforeDefinition || conditional') ⟨name', bounded', defined⟩)
      (DefinitionShape.placeless keep) (DefinitionEnd m (place == .beforeDefinition || conditional) s)
      fun _ _ _ => True := fun defined s =>
    endOfDefinition hg hearly (by rw [DefinitionShape.placeless, DefinitionShape.placeless, hname, hbounded])
  refine operator? (fun p hp => ?_) (fun _ => ?_) fun _ => ?_
  · exact DefinedFront.equals (hp.imp_right DefinitionEnd.conditions)
  · refine operator_then "=" (TypeFront False) (fun s' => ?_) fun p hp => .inl hp
    exact (hg.plainType m s' true).bind fun _ _ s₂ _ =>
      (hend true s₂).front_mono fun p hp => hp.conditions.type
  · exact (hend false s).front_mono fun p hp => .inr hp

/-- What follows the parameters of a type definition is read again if the whole is. -/
theorem definitionOf (hg : Rereadable g) (place : ConditionPlace) {keep : Bool → γ}
    {follow : DefinitionShape → List Lexeme → List Lexeme → Prop}
    (h : ∀ name name' s, name'.text = name.text →
      Rereads g m s (Rule.restOfDefinition place name) (Rule.restOfDefinition place name')
        (DefinitionShape.placeless keep) (fun p => sees "<" p = false) follow) :
    Rereads g m s (Rule.typeDefinition place) (Rule.typeDefinition place) (DefinitionShape.placeless keep)
      (DefinitionFront s) follow := by
  rw [Rule.typeDefinition_eq]
  refine keyword_then "type" (Identified fun _ _ => True) (fun s₁ => ?_) fun p hp => hp
  refine identifier_then (fun _ _ _ => True) (fun w n n' s₂ => ?_) fun w p hw hp => ⟨w, hw, hp⟩
  refine (genericParameters hg fun _ => ()).bind fun _ _ s₃ _ => ?_
  exact (h ⟨w, n⟩ ⟨w, n'⟩ s₃ rfl).front_mono fun p hp => ⟨fun _ => rfl, hp⟩

/-- A type definition is read again that stands in a trait or an implementation. -/
theorem memberDefinition (hg : Rereadable g) (keep : Bool → γ) :
    Rereads g m s (Rule.typeDefinition .behindDefinition) (Rule.typeDefinition .behindDefinition)
      (DefinitionShape.placeless keep) (DefinitionFront s)
      fun a _ _ => m = .written → keep a.bounded = keep false := by
  refine definitionOf hg _ fun name name' s hname => ?_
  refine ((separatedBounds hg (fun _ _ => Look.endsBounds)
    (fun _ _ => DefinedFront.bounds (m := m)) keep).bind
    fun bounded bounded' s' hbounded => ?_).front_mono fun p hp =>
      BoundsFront.less (fun _ _ => DefinedFront.less) hp
  refine (RereadsBy.given (?_ : Rereads g m s' _ _ _ (DefinedFront m s') _) ?_)
  · unfold Rule.conditionalType
    refine .sight (fun _ _ _ => rfl) (fun _ => ?_) fun h => Bool.noConfusion h
    exact ((definedType hg hname hbounded id).mono (fun p hp => hp.imp_right DefinitionEnd.conditions)
      fun _ _ _ _ => trivial).congr (fun _ _ => rfl) fun _ _ => rfl
  · intro r a r' k _ hrun hk hm
    rw [← Rule.bounded_of_run_conditionalType hg.stays hrun]
    exact hk hm

end Rereads

/-- What stands behind the bounds of a type definition that may have conditions before it. -/
def EarlyFront (m : Rendition) : List Lexeme → List Lexeme → Prop :=
  WhereFront m DefinedEnd DefinedEnd

/-- Before the definition no angle bracket comes, and a colon is seen alike. -/
theorem EarlyFront.less (h : EarlyFront m s p) : sees "<" p = false ∧ sees ":" p = sees ":" s := by
  have hend : ∀ {s p : List Lexeme}, DefinedEnd s p → sees "<" p = false ∧ sees ":" s = false ∧
      sees ":" p = false := by
    rintro s p (⟨_, _, _, _, rfl, rfl, -⟩ | ⟨_, _, _, _, rfl, rfl, -⟩) <;> exact ⟨rfl, rfl, rfl⟩
  rcases h with ⟨_, _, rfl, rfl, -⟩ | ⟨-, hs, _, h⟩ | ⟨-, h⟩
  · exact ⟨rfl, rfl⟩
  · obtain ⟨_, rfl⟩ := Rereads.exists_of_seesWord hs
    exact ⟨(hend h).1, (hend h).2.2⟩
  · exact ⟨(hend h).1, (hend h).2.2.trans (hend h).2.1.symm⟩

/-- In its source spelling nothing is left out before a definition. -/
theorem EarlyFront.bounds (h : EarlyFront .source s p) : BoundsEnd Rule.endsBounds s p := by
  rcases h with ⟨_, _, rfl, rfl, -⟩ | ⟨h, -⟩ | ⟨-, h⟩
  · exact ⟨.of_word _ _ _, ⟨rfl, rfl⟩, rfl, rfl⟩
  · cases h
  · exact (h.front (m := .source)).bounds

namespace Rereads

/-- The conditions of a type definition are read again, and what stands behind them. -/
theorem conditionalType (hg : Rereadable g) {place : ConditionPlace}
    (hplace : (place == .behindDefinition) = false) {name name' : Name} (hname : name'.text = name.text)
    (bounded : Bool) :
    Rereads g m s (Rule.conditionalType place name bounded) (Rule.conditionalType place name' bounded)
      (DefinitionShape.placeless id) (EarlyFront m s) fun _ _ _ => True := by
  unfold Rule.conditionalType
  refine .sight (fun _ _ _ => rfl) (fun h => Bool.noConfusion (h.symm.trans hplace)) fun _ => ?_
  refine whereThen hg DefinedEnd DefinedEnd (fun _ _ => DefinedEnd.clause)
    (fun _ _ h => h.not_where.2) (fun hs => ?_)
    fun found' s' => ?_
  · refine (definedType hg hname rfl id).front_mono fun p hp => ?_
    exact DefinedFront.end_ (hp.imp_right DefinitionEnd.conditions) hs
  · refine (definedType hg hname rfl fun _ => by simp).front_mono fun p hp => ?_
    refine hp.imp_right fun h => ?_
    rwa [Bool.or_true] at h

/-- A type definition is read again that may have conditions before what it defines. -/
theorem definition (hg : Rereadable g) {place : ConditionPlace}
    (hplace : (place == .behindDefinition) = false) :
    Rereads g m s (Rule.typeDefinition place) (Rule.typeDefinition place) (DefinitionShape.placeless id)
      (DefinitionFront s) fun a _ _ => m = .written → a.bounded = false := by
  refine definitionOf hg _ fun name name' s hname => ?_
  have hsource : Rereads g .source s (Rule.restOfDefinition place name) (Rule.restOfDefinition place name')
      (DefinitionShape.placeless id) (fun p => sees "<" p = false) fun _ _ _ => True := by
    refine ((separatedBounds hg (fun _ _ => Look.endsBounds) (fun _ _ => EarlyFront.bounds) id).bind_id
      (fun bounded s' => ?_) fun p hp => BoundsFront.less (fun _ _ h => EarlyFront.less h |>.1) hp)
    exact (conditionalType hg hplace hname bounded).front_mono fun p hp => ⟨nofun, hp⟩
  cases m with
  | source => exact hsource.follow_mono fun _ _ _ _ => trivial
  | written =>
      cases hs : sees ":" s with
      | false =>
          refine (((conditionalType hg hplace hname false).congr (fun r hr => ?_) fun q hq => ?_).front_mono
            fun p hp => (EarlyFront.less hp).1).follow_mono fun _ _ _ _ => trivial
          · exact Rule.run_bind_of_ok (Rule.run_bounds?_of_not_sees (hr ▸ hs)) _
          · exact Rule.run_bind_of_ok (Rule.run_bounds?_of_not_sees ((EarlyFront.less hq).2.trans hs)) _
      | true =>
          -- A definition with bounds is not read again as it is written.
          refine (hsource.unread (fun _ _ _ h => h)).follow_of_run fun r a r' k hr hrun hk => ?_
          obtain ⟨bounded, r₁, hbounds, hrest⟩ := Rule.run_bind_eq_ok.mp hrun
          have hbounded := Rule.bounded_of_run_conditionalType hg.stays hrest
          rw [Rule.run_bounds?_of_sees (hr ▸ hs) hbounds, hk rfl] at hbounded
          cases hbounded

end Rereads

end TypedId.Grammar
