import TypedId.Proofs.Grammar.Declarations

/-!
Items are read again: what holds other things, what uses macros, and every item by its beginning.
-/

namespace TypedId.Grammar

open Lexeme Rule

variable {g : PhraseReader} {m : Rendition} {s p k : List Lexeme} {α β γ δ : Type} {told : Prop}

/-! ### Traits -/

/-- Whether the bounds of a trait end: something else of it comes next. -/
def Rule.endsTraitBounds (ls : List Lexeme) : Bool :=
  seesWord "where" ls || seesGroup .brace ls

/-- What stands behind the bounds of a trait. -/
def TraitEnd (m : Rendition) : List Lexeme → List Lexeme → Prop :=
  WhereFront m (Bracketed .brace) (Bracketed .brace)

/-- What stands behind the parameters of a trait. -/
def TraitFront (m : Rendition) : List Lexeme → List Lexeme → Prop :=
  BoundsFront (fun s p => endsTraitBounds p = endsTraitBounds s) (TraitEnd m)

theorem TraitEnd.bounds (h : TraitEnd m s p) : BoundsEnd endsTraitBounds s p := by
  rcases h with ⟨_, _, rfl, rfl, -⟩ | ⟨-, hs, _, _, _, -, rfl, -⟩ | ⟨-, _, _, rfl, rfl, -⟩
  · exact ⟨.of_word _ _ _, ⟨rfl, rfl⟩, rfl, rfl⟩
  · obtain ⟨_, rfl⟩ := Rereads.exists_of_seesWord hs
    exact ⟨.of_brace _ _, ⟨rfl, rfl⟩, rfl, rfl⟩
  · exact ⟨.of_brace _ _, ⟨rfl, rfl⟩, rfl, rfl⟩

theorem TraitEnd.less (h : TraitEnd m s p) : sees "<" p = false :=
  WhereFront.less h (fun _ _ => Bracketed.less) fun _ _ => Bracketed.less

theorem TraitFront.less (h : TraitFront m s p) : sees "<" p = false :=
  BoundsFront.less (fun _ _ => TraitEnd.less) h

/-- Whether a trait comes next from behind its parameters, and no alias of one. -/
def Rule.seesTrait (ls : List Lexeme) : Bool :=
  seesGroup .brace ls || sees ":" ls || seesWord "where" ls

/-- A trait, and no alias of one, is seen in both texts. -/
theorem TraitFront.sees (h : TraitFront m s p) : seesTrait s = true ∧ seesTrait p = true := by
  have hends : ∀ {ls}, endsTraitBounds ls = true → seesTrait ls = true := by
    intro ls h
    rcases (Bool.or_eq_true _ _).mp h with h | h <;> simp [seesTrait, h]
  rcases h with ⟨_, _, _, _, rfl, rfl, -⟩ | h | ⟨hs, _, h⟩
  · exact ⟨rfl, rfl⟩
  · exact ⟨hends h.bounds.stops.1, hends h.bounds.stops.2⟩
  · exact ⟨by simp [seesTrait, hs], hends h.bounds.stops.2⟩

/-- Whether the bounds of an alias of a trait end. -/
def Rule.endsAliasBounds (ls : List Lexeme) : Bool :=
  seesWord "where" ls || sees ";" ls

/-- Reads a trait from its word on. -/
def Rule.traitFromWord : Rule ItemBody := do
  keyword "trait"
  let name ← identifier
  let _ ← genericParameters
  restOfTrait
  return .traitItem name

/-- Reads a trait that may be automatic. -/
def Rule.autoTrait : Rule ItemBody := do
  let _ ← keyword? "auto"
  traitFromWord

/-- How a trait looks that may be automatic. -/
def AutoFront (s p : List Lexeme) : Prop :=
  Worded "auto" (Worded "trait" fun _ _ => True) s p ∨ Worded "trait" (fun _ _ => True) s p

/-- How a trait looks at its beginning. -/
def TraitItemFront (s p : List Lexeme) : Prop :=
  Worded "unsafe" AutoFront s p ∨ AutoFront s p

theorem AutoFront.look (h : AutoFront s p) : Look s p :=
  h.elim Worded.look Worded.look

theorem TraitItemFront.look (h : TraitItemFront s p) : Look s p :=
  h.elim Worded.look AutoFront.look

theorem ConditionsFront.aliasEnd (h : ConditionsFront m s k) :
    endsAliasBounds s = true ∧ endsAliasBounds k = true := by
  rcases h with ⟨_, _, rfl, rfl, -⟩ | ⟨-, hs, _, _, _, _, _, rfl, rfl, -⟩ | ⟨-, _, _, _, _, rfl, rfl, -⟩
  · exact ⟨rfl, rfl⟩
  · obtain ⟨_, rfl⟩ := Rereads.exists_of_seesWord hs
    exact ⟨rfl, rfl⟩
  · exact ⟨rfl, rfl⟩

namespace Rereads

/-- A trait is read again from behind its parameters. -/
theorem restOfTrait (hg : Rereadable g) {follow : Unit → List Lexeme → List Lexeme → Prop} :
    Rereads g m s Rule.restOfTrait Rule.restOfTrait id (TraitFront m s) follow := by
  have hstop : ∀ s p, Look s p → endsTraitBounds p = endsTraitBounds s := fun s p h => by
    rw [endsTraitBounds, endsTraitBounds, h.word, h.group]
  refine (separatedBounds hg hstop (fun _ _ => TraitEnd.bounds (m := m)) fun _ => ()).bind fun _ _ s₁ _ => ?_
  refine (?_ : Rereads g m s₁ _ _ _ (TraitEnd m s₁) _).front_mono fun p hp => ⟨fun _ => rfl, hp⟩
  exact bracedThen hg fun s₂ => bracedElements hg fun s₃ => traitMember hg

/-- A trait is read again from its word on. -/
theorem traitFromWord (hg : Rereadable g) :
    Rereads g m s Rule.traitFromWord Rule.traitFromWord ItemBody.placeless
      (Worded "trait" (fun _ _ => True) s)
      fun _ _ _ => True := by
  refine keyword_then "trait" (fun _ _ => True) (fun s₁ => ?_) fun p hp => hp
  refine identifier_then (fun _ _ _ => True) (fun w n n' s₂ => ?_) fun _ _ _ _ => trivial
  refine (genericParameters hg fun _ => ()).bind fun _ _ s₃ _ => ?_
  exact (restOfTrait hg).bind_id (fun _ _ => pure _ _ rfl fun _ hk => hk) fun p hp => ⟨fun _ => rfl, hp.less⟩

/-- A trait is read again. -/
theorem traitItem (hg : Rereadable g) :
    Rereads g m s Rule.traitItem Rule.traitItem ItemBody.placeless (TraitItemFront s) fun _ _ _ => True := by
  have hauto : ∀ s, Rereads g m s Rule.autoTrait Rule.autoTrait ItemBody.placeless (AutoFront s)
      fun _ _ _ => True :=
    fun s => keyword? (fun p hp => hp.look.word "auto")
      (fun _ => keyword_then "auto" (Worded "trait" fun _ _ => True) (fun _ => traitFromWord hg)
        fun p hp => .inl hp)
      fun _ => (traitFromWord hg).front_mono fun p hp => .inr hp
  exact keyword? (fun p hp => hp.look.word "unsafe")
    (fun _ => keyword_then "unsafe" AutoFront hauto fun p hp => .inl hp)
    fun _ => (hauto s).front_mono fun p hp => .inr hp

/-- A trait or an alias of one is read again. -/
theorem traitOrAlias (hg : Rereadable g) :
    Rereads g m s Rule.traitOrAlias Rule.traitOrAlias ItemBody.placeless (Worded "trait" (fun _ _ => True) s)
      fun _ _ _ => True := by
  have hstop : ∀ s p, Look s p → endsAliasBounds p = endsAliasBounds s := fun s p h => by
    rw [endsAliasBounds, endsAliasBounds, h.word, h.operator ";" rfl]
  unfold Rule.traitOrAlias
  refine keyword_then "trait" (fun _ _ => True) (fun s₁ => ?_) fun p hp => hp
  refine identifier_then (fun _ _ _ => True) (fun w n n' s₂ => ?_) fun _ _ _ _ => trivial
  refine (genericParameters hg fun _ => ()).bind fun _ _ s₃ _ => ?_
  refine (?_ : Rereads g m s₃ _ _ _ (fun p => TraitFront m s₃ p ∨ seesTrait s₃ = false ∧
    Spelt ['='] (fun s p => endsAliasBounds p = endsAliasBounds s) s₃ p) _).front_mono
      fun p hp => ⟨fun _ => rfl, ?_⟩
  · refine ahead (RereadsBy.sight (b := seesTrait s₃) (fun _ p hp => ?_) (fun _ => ?_) fun hs => ?_)
    · rcases hp with hp | ⟨hs, _, _, _, _, rfl, rfl, -⟩
      · exact hp.sees.2.trans hp.sees.1.symm
      · rfl
    · exact (restOfTrait hg).bind_id (fun _ _ => pure _ _ rfl fun _ hk => hk) fun p hp => .inl hp
    refine .sight (fun _ p hp => ?_) (fun _ => ?_) fun _ => .expected _
    · rcases hp with hp | ⟨-, hp⟩
      · exact Bool.noConfusion (hs.symm.trans hp.sees.1)
      · exact hp.startsWith.2.trans hp.startsWith.1.symm
    refine operator_then "=" (fun s p => endsAliasBounds p = endsAliasBounds s) (fun s₄ => ?_)
      fun p hp => .inr ⟨hs, hp⟩
    refine (boundList hg hstop).bind fun _ _ s₅ _ => ?_
    refine (?_ : Rereads g m s₅ _ _ _ (ConditionsFront m s₅) _).front_mono fun p hp => ⟨hp.type, hp.aliasEnd⟩
    refine (conditions hg fun _ => ()).bind fun _ _ s₆ _ => ?_
    have hname : ItemBody.placeless (.traitAlias ⟨w, n'⟩) = ItemBody.placeless (.traitAlias ⟨w, n⟩) := rfl
    exact (semicolon_then hname).front_mono fun p hp => ⟨fun _ => rfl, hp⟩
  · rcases hp with hp | ⟨-, _, _, _, _, -, rfl, -⟩
    · exact hp.less
    · rfl

end Rereads

/-! ### Rules that remember more than others -/

/-- Whether a rule reads as another does and remembers more; `f` tells what the other remembers of
it. -/
def Rule.Mapped (g : PhraseReader) (f : α → β) (rule : Rule α) (rule₀ : Rule β) : Prop :=
  ∀ r : Reader, rule₀.run g r = (rule.run g r).map (Prod.map f id)

namespace Rule.Mapped

variable {f : α → β} {f' : γ → δ} {rule : Rule α} {rule₀ : Rule β}

protected theorem refl (rule : Rule α) : Mapped g id rule rule := by
  intro r
  cases rule.run g r <;> rfl

protected theorem pure (a : α) : Mapped g f (pure a) (pure (f a)) :=
  fun _ => rfl

theorem bind {next : α → Rule γ} {next₀ : β → Rule δ} (h : Mapped g f rule rule₀)
    (hnext : ∀ a, Mapped g f' (next a) (next₀ (f a))) : Mapped g f' (rule >>= next) (rule₀ >>= next₀) := by
  intro r
  rw [run_bind, run_bind, h r]
  cases rule.run g r with
  | error fault => rfl
  | ok x => exact hnext x.1 x.2

theorem congr {rule' : Rule α} {rule₀' : Rule β} (h : Mapped g f rule rule₀)
    (hrule : ∀ r, rule'.run g r = rule.run g r) (hrule₀ : ∀ r, rule₀'.run g r = rule₀.run g r) :
    Mapped g f rule' rule₀' := by
  intro r
  rw [hrule, hrule₀, h r]

/-- What is written need not be remembered. -/
theorem texted (hg : Blind g) (rule : Rule α) : Mapped g Prod.fst (texted rule) rule := by
  intro r
  rw [← run_hold_write hg rule r, Rule.texted, run_bind, run_bind]
  cases (hold rule).run g r with
  | error fault => rfl
  | ok x => rfl

theorem of_ok (h : Mapped g f rule rule₀) {r r' : Reader} {a : α} (hrun : rule.run g r = .ok (a, r')) :
    rule₀.run g r = .ok (f a, r') := by
  rw [h r, hrun]
  rfl

theorem of_error (h : Mapped g f rule rule₀) {r : Reader} {fault : Fault}
    (hrun : rule.run g r = .error fault) : rule₀.run g r = .error fault := by
  rw [h r, hrun]
  rfl

theorem exists_ok (h : Mapped g f rule rule₀) {r r' : Reader} {b : β} (hrun : rule₀.run g r = .ok (b, r')) :
    ∃ a, rule.run g r = .ok (a, r') ∧ f a = b := by
  cases hrule : rule.run g r with
  | error fault =>
      rw [h.of_error hrule] at hrun
      cases hrun
  | ok x =>
      rw [h.of_ok hrule] at hrun
      cases hrun
      exact ⟨x.1, rfl, rfl⟩

end Rule.Mapped

/-- A rule is read again if one is that remembers less. -/
theorem Rereads.of_mapped {f : α → β} {rule rule' : Rule α} {rule₀ rule₀' : Rule β} {keep : β → γ}
    {front : List Lexeme → Prop} {follow : β → List Lexeme → List Lexeme → Prop}
    (hrule : Mapped g f rule rule₀) (hrule' : Mapped g f rule' rule₀')
    (h : Rereads g m s rule₀ rule₀' keep front follow) :
    Rereads g m s rule rule' (keep ∘ f) front fun a => follow (f a) := by
  intro hg r a r' hs hb hrun hstray
  obtain ⟨taken, written, hclosed, hstray', hrest, hafter, hread⟩ :=
    h hg r _ r' hs hb (hrule.of_ok hrun) hstray
  refine ⟨taken, written, hclosed, hstray', hrest, hafter, fun q k hq hq' hk => ?_⟩
  obtain ⟨hfront, b', hb', hrun'⟩ := hread q k hq hq' hk
  obtain ⟨a', ha', rfl⟩ := hrule'.exists_ok hrun'
  exact ⟨hfront, a', hb', ha'⟩

/-! ### Implementations -/

/-- Reads the end of an implementation. -/
def Rule.endOfImplementation (body : ItemBody) : Rule ItemBody := do
  let _ ← whereClause
  within .brace do
    let _ ← innerAttributes
    let _ ← while_ (fun ls => !ends ls) implementationMember
  return body

/-- Reads a type behind the mark of a negative implementation; tells its text. -/
def Rule.signedText (negative : Bool) : Rule (TypeShape × List Lexeme) := do
  if negative then operator "!"
  texted (call (.type true))

/-- Reads a type behind the mark of a negative implementation. -/
def Rule.signedShape (negative : Bool) : Rule TypeShape := do
  if negative then operator "!"
  call (.type true)

/-- Reads a type behind the mark of a negative implementation; tells whether it is a trait. -/
def Rule.signedType (negative : Bool) : Rule (TypeShape × Bool) := do
  let shape ← signedShape negative
  return (shape, seesWord "for" (← ahead))

/-- Whether a type is a trait that an implementation can be of. -/
def namesTrait : TypeShape → Bool
  | .path shape => !shape.qualified
  | _ => false

/-- The text of a trait that an implementation is of. -/
def traitText (shape : TypeShape) (text : List Lexeme) : Option (List Lexeme) :=
  match shape with
  | .path shape => if shape.qualified then none else some text
  | _ => none

theorem isNone_traitText (shape : TypeShape) (text : List Lexeme) :
    (traitText shape text).isNone = !namesTrait shape := by
  cases shape with
  | path shape => cases h : shape.qualified <;> simp [traitText, namesTrait, h]
  | _ => rfl

/-- Whether the mark of a negative implementation comes next. -/
def Rule.seesNegative (ls : List Lexeme) : Bool :=
  sees "!" ls && !seesGroup .brace (second ls)

/-- Reads an implementation from behind its marks. -/
def Rule.implementationFrom (visible const : Bool) : Rule ItemBody := do
  let start ← look
  let negative := seesNegative start.rest
  let ((shape, first), whole) ← hold (signedText negative)
  let forType := seesWord "for" (← ahead)
  let stop ← here
  if forType then
    write whole
    keyword "for"
    let (_, type) ← hold (call (.type true))
    write type
    let body ← pure <| if visible || const || (traitText shape first).isNone then .kept
      else .implementation (traitText shape first) type
    endOfImplementation body
  else
    let type := if negative then start.rest.take (stop - start.position) else whole
    write type
    let body ← pure <| if visible || const then .kept else .implementation none type
    endOfImplementation body

/-- Reads an implementation from behind its parameters. -/
def Rule.markedImplementation (visible : Bool) : Rule ItemBody := do
  implementationFrom visible (← constImplementation)

/-- Reads an implementation from behind its word. -/
def Rule.restOfImplementation (visible : Bool) : Rule ItemBody := do
  if seesParameters (← ahead) then
    let _ ← genericParameters
    markedImplementation visible
  else markedImplementation visible

theorem Rule.implementationItem_eq (visible : Bool) :
    implementationItem visible = (do
      let _ ← keyword? "default"
      let _ ← keyword? "unsafe"
      keyword "impl"
      restOfImplementation visible) := rfl

/-- Reads a type behind the mark of a negative implementation; it is kept in its source spelling
where nothing is implemented for it. -/
def Rule.implementedType (negative : Bool) : Rule (TypeShape × Bool) :=
  keptIf (fun x => negative && !x.2) (signedType negative)

/-- Reads an implementation from behind its trait, or from behind its type, and remembers neither. -/
def Rule.implementedFor (visible const : Bool) (shape : TypeShape) (forType : Bool) : Rule ItemBody := do
  if forType then
    keyword "for"
    let _ ← call (.type true)
    endOfImplementation (if visible || const || !namesTrait shape then .kept else .implementation none [])
  else endOfImplementation (if visible || const then .kept else .implementation none [])

/-- Reads an implementation from behind its marks, and remembers neither its trait nor its type. -/
def Rule.implementationOf (visible const : Bool) : Rule ItemBody := do
  let ls ← ahead
  let (shape, forType) ← implementedType (seesNegative ls)
  implementedFor visible const shape forType

theorem Rule.mapped_signedText (hg : Blind g) (negative : Bool) :
    Mapped g Prod.fst (signedText negative) (signedShape negative) := by
  cases negative with
  | true => exact Mapped.bind (.refl (operator "!")) fun _ => .texted hg _
  | false => exact .texted hg _

theorem Rule.mapped_endOfImplementation (body : ItemBody) :
    Mapped g ItemBody.placeless (endOfImplementation body) (endOfImplementation body.placeless) :=
  Mapped.bind (.refl _) fun _ => .bind (.refl _) fun _ => .pure body

/-- What is remembered of an implementation is written to its end. -/
theorem Rule.mapped_bodyThen {body body₀ : ItemBody} (h : body.placeless = body₀) :
    Mapped g ItemBody.placeless (do let body ← pure body; endOfImplementation body)
      (endOfImplementation body₀) := by
  subst h
  exact (mapped_endOfImplementation body).congr (fun r => run_bind_of_ok (run_pure body r) _) fun _ => rfl

/-- The type that a trait is implemented for is read alike. -/
theorem Rule.mapped_forType (hg : Blind g) (body : List Lexeme → ItemBody) {body₀ : ItemBody}
    (h : ∀ text, (body text).placeless = body₀) :
    Mapped g ItemBody.placeless
      (do
        keyword "for"
        let x ← hold (call (.type true))
        write x.2
        let body ← pure (body x.2)
        endOfImplementation body)
      (do
        keyword "for"
        let _ ← call (.type true)
        endOfImplementation body₀) := by
  refine .bind (.refl _) fun _ => ((Mapped.texted hg (call (.type true))).bind fun x =>
    mapped_bodyThen (h x.2)).congr (fun r => ?_) fun _ => rfl
  rw [Rule.texted, run_bind, run_bind, run_bind]
  cases (hold (call (.type true))).run g r <;> rfl

/-- Of an implementation nothing is remembered but that it is one. -/
theorem Rule.mapped_implementationFrom (hg : Blind g) (visible const : Bool) :
    Mapped g ItemBody.placeless (implementationFrom visible const) (implementationOf visible const) := by
  intro r
  obtain ⟨negative, hnegative⟩ : ∃ negative, negative = seesNegative r.rest := ⟨_, rfl⟩
  rw [implementationFrom, implementationOf, run_bind_of_ok (run_ahead r),
    run_bind_of_ok (run_look r), ← hnegative]
  cases htext : (signedText negative).run g r.unwritten with
  | error fault =>
      have hshape := (mapped_signedText hg negative).of_error htext
      have htype : (signedType negative).run g r.unwritten = .error fault := by
        rw [signedType, run_bind, hshape]
      have hkept : (implementedType negative).run g r = .error fault := by
        rw [implementedType, keptIf, run_bind_of_ok (run_look r), run_bind, run_hold_of_error htype]
      rw [run_bind, run_bind, run_hold_of_error htext, hkept]
      rfl
  | ok x =>
      obtain ⟨⟨shape, first⟩, r₁⟩ := x
      have hshape := (mapped_signedText hg negative).of_ok htext
      have htype : (signedType negative).run g r.unwritten = .ok ((shape, seesWord "for" r₁.rest), r₁) := by
        rw [signedType, run_bind_of_ok hshape, run_bind_of_ok (run_ahead r₁)]
        rfl
      rw [run_bind_of_ok (run_hold_of_ok htext), run_bind_of_ok (run_ahead _), run_bind_of_ok (run_here _)]
      have hkept : ∀ text, (if negative && !seesWord "for" r₁.rest then
          r.rest.take (r₁.position - r.position) else r₁.written.reverse) = text →
          (implementedType negative).run g r =
            .ok ((shape, seesWord "for" r₁.rest), { r₁ with written := r.written }.take 0 text) := by
        rintro _ rfl
        rw [implementedType, keptIf, run_bind_of_ok (run_look r), run_bind_of_ok (run_hold_of_ok htype)]
        dsimp only
        split
        · rw [writeSince, run_bind, run_bind_of_ok (run_here _), run_write]
          rfl
        · rw [run_bind_of_ok (run_write ..)]
          rfl
      cases hfor : seesWord "for" r₁.rest with
      | true =>
          rw [hfor, Bool.not_true, Bool.and_false] at hkept
          rw [run_bind_of_ok (hkept _ rfl)]
          dsimp only
          rw [implementedFor, if_pos rfl, if_pos rfl, if_neg Bool.false_ne_true,
            run_bind_of_ok (run_write ..)]
          refine mapped_forType hg (fun text =>
            if visible || const || (traitText shape first).isNone then .kept
            else .implementation (traitText shape first) text) (fun text => ?_) _
          rw [isNone_traitText]
          split <;> rfl
      | false =>
          rw [hfor, Bool.not_false, Bool.and_true] at hkept
          rw [run_bind_of_ok (hkept _ rfl)]
          dsimp only
          rw [implementedFor, if_neg Bool.false_ne_true, if_neg Bool.false_ne_true,
            run_bind_of_ok (run_write ..)]
          refine mapped_bodyThen ?_ _
          split <;> rfl

/-- What stands behind the trait of an implementation, or behind its type. -/
def ImplementedEnd (m : Rendition) (s k : List Lexeme) : Prop :=
  Worded "for" (TypeFront False) s k ∨ TraitEnd m s k

theorem ImplementedEnd.type (h : ImplementedEnd m s k) : TypeFollow s k := by
  rcases h with ⟨_, _, rfl, rfl, -⟩ | h
  · exact .of_word _ _ _
  · exact h.bounds.toTypeFollow

theorem ImplementedEnd.word (h : ImplementedEnd m s k) : seesWord "for" k = seesWord "for" s := by
  rcases h with ⟨_, _, rfl, rfl, -⟩ | ⟨_, _, rfl, rfl, -⟩ | ⟨-, hs, _, _, _, -, rfl, -⟩
    | ⟨-, _, _, rfl, rfl, -⟩
  · rfl
  · rfl
  · obtain ⟨_, rfl⟩ := Rereads.exists_of_seesWord hs
    rfl
  · rfl

/-- Where braces stand, the type is what is implemented, without conditions. -/
theorem ImplementedEnd.braced (h : ImplementedEnd m (opening .brace :: s) k) :
    Bracketed .brace (opening .brace :: s) k := by
  rcases h with ⟨_, _, h, -⟩ | ⟨_, _, h, -⟩ | ⟨-, h, -⟩ | ⟨-, h⟩
  · cases h
  · cases h
  · cases h
  · exact h

/-- How what is implemented looks at its beginning, the mark of a negative implementation with it. -/
structure ImplementedFront (s p : List Lexeme) : Prop extends Look s p where
  negative : seesNegative p = seesNegative s
  question : sees "?" s = false
  parameters : seesParameters p = seesParameters s

theorem Spelt.implemented {rest : List Lexeme → List Lexeme → Prop} (h : Spelt ['!'] rest s p)
    (hrest : ∀ s p, rest s p → Look s p) : ImplementedFront s p := by
  have hlook := h.look (by decide) fun _ => hrest
  obtain ⟨_, _, s', p', rfl, rfl, -, h⟩ := h
  refine ⟨hlook, ?_, rfl, rfl⟩
  rw [seesNegative, seesNegative, second_punct (by decide), second_punct (by decide), (hrest _ _ h).group]
  rfl

theorem TypeFront.implemented (h : TypeFront told s p) (hs : sees "!" s = false)
    (hquestion : sees "?" s = false) :
    ImplementedFront s p := by
  refine ⟨h.toLook, ?_, hquestion, h.parameters⟩
  rw [seesNegative, seesNegative, h.operator "!" rfl, hs]
  rfl

namespace Rereads

/-- A type is read again behind the mark of a negative implementation. -/
theorem signedShape (hg : Rereadable g) (m' : Rendition) :
    Rereads g m s (Rule.signedShape (seesNegative s)) (Rule.signedShape (seesNegative s)) id
      (ImplementedFront s)
      fun _ => ImplementedEnd m' := by
  cases hnegative : seesNegative s with
  | true =>
      refine operator_then "!" (TypeFront False) (fun s₁ => ?_) fun p hp =>
        Spelt.implemented hp fun _ _ h => h.toLook
      exact (hg.plainType m s₁ true).follow_mono fun _ _ _ hk => hk.type
  | false =>
      cases hbang : sees "!" s with
      | true =>
          -- An exclamation mark before braces is the type.
          rw [seesNegative, hbang, Bool.true_and, Bool.not_eq_false'] at hnegative
          obtain ⟨joint, s', rfl⟩ := exists_of_sees (c := '!') hbang
          rw [second_punct (by decide)] at hnegative
          obtain ⟨s'', rfl⟩ := exists_of_seesGroup hnegative
          refine .of_run fun r₀ a r₀' hr₀ _ hrun₀ => ?_
          have hnever : ∀ (r : Reader) joint rest, r.rest = punct '!' joint :: opening .brace :: rest →
              (Rule.signedShape false).run g r = (do Rule.operator "!"; return TypeShape.other :
                Rule TypeShape).run g r := by
            intro r joint rest hr
            rw [Rule.run_bind_of_ok (Rule.run_operator_of_sees (by rw [hr]; rfl))]
            exact hg.never _ _ _ hrun₀ true r joint rest hr
          have hread : Rereads g m (punct '!' joint :: opening .brace :: s'')
              (do Rule.operator "!"; return TypeShape.other)
              (do Rule.operator "!"; return TypeShape.other) id
              (Spelt ['!'] (Bracketed .brace) (punct '!' joint :: opening .brace :: s''))
              fun _ => ImplementedEnd m' := by
            refine RereadsBy.front_mono
              (operator_then_of_cons (c := '!') "!" rfl (pure _ _ rfl fun k hk => hk.braced)) ?_
            rintro p ⟨_, joint', _, p', hs, rfl, hjoint, rfl, hp⟩
            cases hs
            exact ⟨_, joint', _, p', rfl, rfl, hjoint, hp⟩
          refine (hread.congr (fun r hr => hnever r _ _ hr) fun q hq => ?_).front_mono fun p hp =>
            Spelt.implemented hp fun _ _ h => h.look
          obtain ⟨_, _, _, _, -, hq, -, _, _, -, rfl, -⟩ := hq
          exact hnever q _ _ hq
      | false =>
          -- No type begins with a question mark.
          refine (RereadsBy.given (C := sees "?" s = false)
            ((hg.plainType m s true).follow_mono fun _ _ _ hk => hk.type)
            fun r a r' k hr hrun _ => ?_).front_mono fun p hp => hp.2.implemented hbang hp.1
          refine Bool.eq_false_iff.mpr fun hquestion => ?_
          obtain ⟨fault, hfault, -⟩ := hg.noType true r (by rw [hr]; simp [beginsNoType, hquestion])
          rw [Rule.run_call, hfault] at hrun
          cases hrun

/-- A type is read again behind the mark of a negative implementation; it is told whether it is a
trait. -/
theorem signedType (hg : Rereadable g) (m' : Rendition) :
    Rereads g m s (Rule.signedType (seesNegative s)) (Rule.signedType (seesNegative s)) id
      (ImplementedFront s)
      fun _ => ImplementedEnd m' := by
  refine (signedShape hg m').bind_id (fun shape s' => ?_) fun p hp => hp
  have hpure : Rereads g m s' (Pure.pure (shape, seesWord "for" s'))
      (Pure.pure (shape, seesWord "for" s')) id
      (ImplementedEnd m' s') fun _ => ImplementedEnd m' := pure _ _ rfl fun _ hk => hk
  exact ahead (hpure.congr (fun _ _ => rfl) fun q hq => by rw [hq.word])

/-- The end of an implementation is read again. -/
theorem endOfImplementation (hg : Rereadable g) (body : ItemBody) :
    Rereads g m s (Rule.endOfImplementation body) (Rule.endOfImplementation body) id (TraitEnd m s)
      fun a _ _ => m = .written → a ≠ .kept := by
  refine bracedThen hg fun s' => ?_
  exact (bracedElements hg fun _ => implementationMember hg).bind_id (fun _ _ => pure _ _ rfl fun _ hk => hk)
    fun p hp => hp

/-- What stands behind a trait that is implemented, or behind a type, is read again. -/
theorem implementedFor (hg : Rereadable g) (visible const : Bool) (shape : TypeShape) (forType : Bool) :
    Rereads g m s (Rule.implementedFor visible const shape forType)
      (Rule.implementedFor visible const shape forType) id
      (ImplementedEnd m s) fun a _ _ => m = .written → a ≠ .kept := by
  unfold Rule.implementedFor
  refine .sight (fun _ _ _ => rfl) (fun _ => ?_) fun _ => ?_
  · refine keyword_then "for" (TypeFront False) (fun s₁ => ?_) fun p hp => .inl hp
    refine bind_id ((hg.plainType m s₁ true).follow_mono fun _ s₂ k (hk : TraitEnd m s₂ k) =>
      hk.bounds.toTypeFollow)
      (fun _ s₂ => endOfImplementation hg _) fun p hp => hp
  · exact (endOfImplementation hg _).front_mono fun p hp => .inr hp

/-- An implementation is read again from behind its marks. -/
theorem implementationOf (hg : Rereadable g) (visible const : Bool) :
    Rereads g m s (Rule.implementationOf visible const) (Rule.implementationOf visible const) id
      (ImplementedFront s)
      fun a _ _ => m = .written → a ≠ .kept := by
  have htype : Rereads g m s (Rule.implementedType (seesNegative s))
      (Rule.implementedType (seesNegative s)) id
      (ImplementedFront s) fun _ => ImplementedEnd m :=
    keptIf _ (fun _ _ h => congrArg (fun x : TypeShape × Bool => seesNegative s && !x.2) h) (signedType hg m)
      ((signedType hg m).follow_mono fun _ _ _ hk => hk.2)
  refine ahead (RereadsBy.congr (bind_id htype (fun x s' => ?_) fun p hp => hp)
    (fun _ _ => rfl) fun q hq => by
    rw [hq.negative])
  exact implementedFor hg visible const x.1 x.2

/-- An implementation is read again from behind its marks, and what it is of may be told differently. -/
theorem implementationFrom (hg : Rereadable g) (visible const : Bool) :
    Rereads g m s (Rule.implementationFrom visible const)
      (Rule.implementationFrom visible const) ItemBody.placeless
      (ImplementedFront s) fun a _ _ => m = .written → a.placeless ≠ .kept :=
  of_mapped (Rule.mapped_implementationFrom hg.blind visible const)
    (Rule.mapped_implementationFrom hg.blind visible const)
    (implementationOf hg visible const)

end Rereads

namespace RereadsBy

variable {rule rule₁ rule₂ : Rule α} {again again' : Nat → List Lexeme → Rule α} {keep : α → γ}
  {front : List Lexeme → Prop} {follow : α → List Lexeme → List Lexeme → Prop}

/-- A rule that succeeds as one of two others does. -/
theorem or (h₁ : RereadsBy g m s rule₁ again keep front follow)
    (h₂ : RereadsBy g m s rule₂ again keep front follow)
    (hrule : ∀ r x, r.rest = s → rule.run g r = .ok x → rule₁.run g r = .ok x ∨ rule₂.run g r = .ok x) :
    RereadsBy g m s rule again keep front follow := by
  intro hg r a r' hs hb hrun hstray
  rcases hrule r _ hs hrun with hrun | hrun
  · exact h₁ hg r a r' hs hb hrun hstray
  · exact h₂ hg r a r' hs hb hrun hstray

/-- What the second rule remembers may be changed to what is compared alike. -/
theorem again_of_run (h : RereadsBy g m s rule again keep front follow)
    (hagain : ∀ q a a' q' s' k, front q.rest → follow a s' k → keep a' = keep a →
      (again q.position q.rest).run g q = .ok (a', q') →
      ∃ a'', keep a'' = keep a ∧ (again' q.position q.rest).run g q = .ok (a'', q')) :
    RereadsBy g m s rule again' keep front follow := by
  intro hg r a r' hs hb hrun hstray
  obtain ⟨taken, written, hclosed, hstray', hrest, hafter, hread⟩ := h hg r a r' hs hb hrun hstray
  refine ⟨taken, written, hclosed, hstray', hrest, hafter, fun q k hq hq' hk => ?_⟩
  obtain ⟨hp, a', ha', hrun'⟩ := hread q k hq hq' hk
  exact ⟨hp, hagain q a a' _ _ k hp hk ha' hrun'⟩

end RereadsBy

/-- Reads something without writing it, and then something else. -/
def Rule.unwrittenThen (rule : Rule α) (next : α → Rule β) : Rule β := do
  let x ← hold rule
  next x.1

namespace Rereads

/-- What is not written is not read again. -/
theorem unwritten_then {rule : Rule α} {again : Rule α} {keep : α → γ} {front : List Lexeme → Prop}
    {next : α → Rule β} {again' : Rule β} {keep' : β → δ} {front' : List Lexeme → Prop}
    {follow : β → List Lexeme → List Lexeme → Prop}
    (h : Rereads g .source s rule again keep front fun _ _ _ => True)
    (hnext : ∀ a s', Rereads g .written s' (next a) again' keep' front' follow) :
    Rereads g .written s (Rule.unwrittenThen rule next) again' keep' front' follow := by
  intro hg r b r' hs hb hrun hstray
  obtain ⟨x, r₂, hhold, hrun⟩ := Rule.run_bind_eq_ok.mp hrun
  obtain ⟨a, r₁, hrule, rfl, rfl⟩ := Rule.run_hold_eq_ok.mp hhold
  have hstray₁ := Rule.run_stray hg _ _ b r' hrun hstray
  obtain ⟨taken, written, hclosed, hstray₀, hrest, hafter, -⟩ := h hg r.unwritten a r₁ hs hb hrule hstray₁
  have hmid : ({ r₁ with written := r.written } : Reader) = r.after taken [] r₁.rest := by
    rw [hafter]
    rfl
  dsimp only at hrun
  rw [hmid] at hrun
  obtain ⟨taken', written', hclosed', -, hrest', hafter', hagain⟩ :=
    hnext a r₁.rest hg (r.after taken [] r₁.rest) b r' rfl (hclosed.balanced (hrest ▸ hb)) hrun hstray
  refine ⟨taken ++ taken', written', hclosed.append hclosed', hstray₀, ?_, ?_, hagain⟩
  · rw [hrest, hrest', List.append_assoc]
  · exact hafter'.trans (Reader.after_after ..)

end Rereads

/-- How an implementation looks from behind its parameters. -/
def MarkedFront (s p : List Lexeme) : Prop :=
  Spelt ['?'] (Worded "const" ImplementedFront) s p ∨ Worded "const" ImplementedFront s p ∨
    seesWord "const" s = false ∧ ImplementedFront s p

/-- Whether the mark of a constant implementation comes next. -/
def Rule.seesConstMark (ls : List Lexeme) : Bool :=
  seesWord "const" ls || (sees "?" ls && seesWord "const" (second ls))

theorem MarkedFront.mark (h : MarkedFront s p) : seesConstMark p = seesConstMark s := by
  rcases h with ⟨_, _, _, _, rfl, rfl, -, _, _, rfl, rfl, -⟩ | ⟨_, _, rfl, rfl, -⟩ | ⟨hs, h⟩
  · rw [seesConstMark, seesConstMark, second_punct (by decide), second_punct (by decide)]
    rfl
  · rfl
  · rw [seesConstMark, seesConstMark, h.word, hs, h.operator "?" rfl, h.question]
    rfl

theorem MarkedFront.parameters (h : MarkedFront s p) : seesParameters p = seesParameters s := by
  rcases h with ⟨_, _, _, _, rfl, rfl, -, -⟩ | ⟨_, _, rfl, rfl, -⟩ | ⟨-, h⟩
  · rfl
  · rfl
  · exact h.parameters

namespace Rereads

/-- An implementation is read again from behind its parameters. -/
theorem markedImplementation (hg : Rereadable g) (visible : Bool) :
    Rereads g m s (Rule.markedImplementation visible) (Rule.markedImplementation visible) ItemBody.placeless
      (MarkedFront s) fun a _ _ => m = .written → a.placeless ≠ .kept := by
  have hconst : Rereads g m s Rule.constImplementation Rule.constImplementation id (MarkedFront s)
      fun _ => ImplementedFront := by
    unfold Rule.constImplementation
    refine ahead (.sight (fun _ p hp => MarkedFront.mark hp) (fun _ => ?_) fun hs => ?_)
    · have hword : ∀ s,
          Rereads g m s (do Rule.keyword "const"; return true) (do Rule.keyword "const"; return true) id
          (Worded "const" ImplementedFront s) fun _ => ImplementedFront := fun s =>
        keyword_then "const" ImplementedFront (fun s' => pure _ _ rfl fun _ hk => hk) fun p hp => hp
      refine operator? (fun p hp => ?_) (fun _ => ?_) fun _ => ?_
      · rcases hp with ⟨_, _, _, _, rfl, rfl, -⟩ | ⟨_, _, rfl, rfl, -⟩ | ⟨-, hp⟩
        · rfl
        · rfl
        · exact hp.operator "?" rfl
      · exact operator_then "?" (Worded "const" ImplementedFront) hword fun p hp => .inl hp
      · exact (hword s).front_mono fun p hp => .inr (.inl hp)
    · exact pure _ _ rfl fun k hk => .inr (.inr ⟨((Bool.or_eq_false_iff).mp hs).1, hk⟩)
  exact hconst.bind_id (fun const s' => implementationFrom hg visible const) fun p hp => hp

end Rereads

/-! ### Parameters that are not written -/

namespace Rule

theorem run_constImplementation_of_not_sees {r : Reader} (h : seesConstMark r.rest = false) :
    constImplementation.run g r = .ok (false, r) := by
  have hmark : (seesWord "const" r.rest || (sees "?" r.rest && seesWord "const" (second r.rest))) = false :=
    h
  rw [constImplementation, run_bind_of_ok (run_ahead r), hmark]
  rfl

theorem run_implementedType (hg : Blind g) (r : Reader) :
    (implementedType false).run g r = (signedType false).run g r :=
  run_hold_write hg _ r

/-- An implementation ends with conditions and braces. -/
theorem of_run_endOfImplementation {body b : ItemBody} {r r' : Reader}
    (h : (endOfImplementation body).run g r = .ok (b, r')) :
    b = body ∧ (seesWord "where" r.rest = true ∨ seesGroup .brace r.rest = true) := by
  obtain ⟨conditional, r₁, hwhere, h⟩ := run_bind_eq_ok.mp h
  obtain ⟨_, r₂, hwithin, h⟩ := run_bind_eq_ok.mp h
  rw [run_pure] at h
  cases h
  refine ⟨rfl, ?_⟩
  cases hs : seesWord "where" r.rest with
  | true => exact .inl rfl
  | false =>
      rw [run_whereClause_of_not_sees hs] at hwhere
      cases hwhere
      exact .inr (run_within_eq_ok.mp hwithin).1

/-- An implementation of no trait may be read with the beginning of its type as parameters. -/
theorem run_restOfImplementation_of_parameters (hg : Rereadable g) {visible : Bool}
    {q q' : Reader} {b : ItemBody}
    (hq : seesParameters q.rest = true) (hrun : (markedImplementation visible).run g q = .ok (b, q'))
    (hb : b.placeless ≠ .kept) :
    ∃ b', b'.placeless = b.placeless ∧ (restOfImplementation visible).run g q = .ok (b', q') := by
  have hunmarked : ∀ r : Reader, sees "<" r.rest = true ∨ sees "::" r.rest = true →
      seesConstMark r.rest = false ∧ seesNegative r.rest = false := by
    rintro r (hr | hr)
    · obtain ⟨_, _, hr⟩ := exists_of_sees (c := '<') hr
      rw [hr]
      exact ⟨rfl, rfl⟩
    · obtain ⟨_, _, hr⟩ := exists_of_seesColons hr
      rw [hr]
      exact ⟨rfl, rfl⟩
  obtain ⟨hmark, hnegative⟩ := hunmarked q (.inl ((Bool.and_eq_true _ _).mp hq).1)
  rw [markedImplementation, run_bind_of_ok (run_constImplementation_of_not_sees hmark)] at hrun
  have hof := (mapped_implementationFrom hg.blind visible false).of_ok hrun
  rw [implementationOf, run_bind_of_ok (run_ahead q), hnegative] at hof
  obtain ⟨⟨shape, forType⟩, r₁, htype, hof⟩ := run_bind_eq_ok.mp hof
  rw [run_implementedType hg.blind] at htype
  obtain ⟨shape', r₂, hshape, htype⟩ := run_bind_eq_ok.mp htype
  cases htype
  obtain ⟨hqualified, hagain⟩ := hg.parameters q shape r₁ hq hshape
  -- A trait is named by no path of that kind.
  have hfor : seesWord "for" r₁.rest = false := by
    refine Bool.eq_false_iff.mpr fun hfor => ?_
    have hnames : namesTrait shape = false := by
      cases shape with
      | path shape => simp [namesTrait, hqualified shape rfl]
      | _ => rfl
    dsimp only at hof
    rw [implementedFor, if_pos hfor, hnames] at hof
    obtain ⟨_, r₂, -, hof⟩ := run_bind_eq_ok.mp hof
    obtain ⟨_, r₃, -, hof⟩ := run_bind_eq_ok.mp hof
    exact hb ((of_run_endOfImplementation hof).1.trans (by simp))
  have hof₂ : (implementedFor visible false shape false).run g r₁ = .ok (b.placeless, q') := by
    rw [hfor] at hof
    exact hof
  obtain ⟨hbang, hplus⟩ : seesBang r₁.rest = false ∧ sees "+" r₁.rest = false := by
    rcases (of_run_endOfImplementation hof₂).2 with hs | hs
    · obtain ⟨_, hs⟩ := Rereads.exists_of_seesWord hs
      rw [hs]
      exact ⟨rfl, rfl⟩
    · obtain ⟨_, hs⟩ := Rereads.exists_of_seesGroup hs
      rw [hs]
      exact ⟨rfl, rfl⟩
  obtain ⟨bracketed, shape', q₁, hparameters, hcolons, hshape'⟩ := hagain hbang hplus
  obtain ⟨hmark₁, hnegative₁⟩ := hunmarked q₁ (.inr hcolons)
  have htype₁ : (implementedType false).run g q₁ = .ok ((shape', seesWord "for" r₁.rest), r₁) := by
    rw [run_implementedType hg.blind, signedType,
      run_bind_of_ok (show (signedShape false).run g q₁ = _ from hshape'),
      run_bind_of_ok (run_ahead r₁)]
    rfl
  have hof₁ : (implementationOf visible false).run g q₁ = .ok (b.placeless, q') := by
    rw [implementationOf, run_bind_of_ok (run_ahead q₁), hnegative₁, run_bind_of_ok htype₁, hfor]
    exact hof₂
  obtain ⟨b', hfrom, hb'⟩ := (mapped_implementationFrom hg.blind visible false).exists_ok hof₁
  refine ⟨b', hb', ?_⟩
  rw [restOfImplementation, run_bind_of_ok (run_ahead q), if_pos hq, run_bind_of_ok hparameters,
    markedImplementation,
    run_bind_of_ok (run_constImplementation_of_not_sees hmark₁), hfrom]

end Rule

theorem Rule.run_outerAttributes_of_not_sees {r : Reader} (h : sees "#" r.rest = false) :
    outerAttributes.run g r = .ok ([], r) :=
  run_while_of_not h

/-- What is a lifetime parameter begins with one, or with an attribute. -/
theorem Rule.of_run_itemParameter {r r' : Reader} (h : itemParameter.run g r = .ok (true, r')) :
    sees "#" r.rest = true ∨ seesLifetime r.rest = true := by
  refine or_iff_not_imp_left.mpr fun hhash => ?_
  rw [itemParameter, genericParameter,
    run_bind_of_ok (run_outerAttributes_of_not_sees (Bool.eq_false_iff.mpr hhash)),
    run_bind_of_ok (run_ahead r)] at h
  by_contra hlifetime
  dsimp only at h
  rw [if_neg hlifetime] at h
  split at h
  · obtain ⟨_, _, -, h⟩ := run_bind_eq_ok.mp h
    cases h
  split at h
  · obtain ⟨_, _, -, h⟩ := run_bind_eq_ok.mp h
    cases h
  split at h
  · obtain ⟨_, _, -, h⟩ := run_bind_eq_ok.mp h
    cases h
  · obtain ⟨_, _, -, h⟩ := run_bind_eq_ok.mp h
    cases h

/-- An angle bracket before the parameters of an item begins parameters in the second text, too. -/
theorem AngleFront.parameters (h : AngleFront g itemParameter ParameterFront s p)
    (hs : seesParameters s = true) :
    seesParameters p = true := by
  obtain ⟨joint, joint', s', p', rfl, rfl, -, h⟩ := h
  rcases h with ⟨-, h⟩ | h | ⟨r, r', hrun, h⟩
  · rw [seesParameters_punct, h]
    rfl
  · exact h.parameters joint joint' hs
  · rw [seesParameters_punct]
    rcases of_run_itemParameter hrun with hr | hr
    · simp [h.operator "#" rfl, hr]
    · simp [h.lifetime, hr, h.behindLifetime hr]

/-- Reads parameters in angle brackets that are not empty. -/
def Rule.someParameters : Rule Unit := do
  if (← angleBrackets (operator ",") itemParameter).isEmpty then expected []

/-- Reads empty angle brackets, and does not write them. -/
def Rule.noParameters (next : Rule α) : Rule α :=
  unwrittenThen (angleBrackets (operator ",") itemParameter) fun items =>
    if items.isEmpty then next else expected []

theorem Rule.run_angleBrackets_of_hold (hg : Blind g) {r r₁ : Reader} {items : List AngleItem}
    {text : List Lexeme}
    (h : (hold (angleBrackets (operator ",") itemParameter)).run g r = .ok ((items, text), r₁)) :
    (angleBrackets (operator ",") itemParameter).run g r = .ok (items, r₁.take 0 text) := by
  rw [← run_hold_write hg, run_bind_of_ok h]
  rfl

/-- Parameters are read that are there, or empty angle brackets. -/
theorem Rule.of_run_genericParameters (hg : Blind g) {next : Rule α} {r : Reader} {x : α × Reader}
    (hs : sees "<" r.rest = true) (hrun : (genericParameters >>= fun _ => next).run g r = .ok x) :
    (someParameters >>= fun _ => next).run g r = .ok x ∨ (noParameters next).run g r = .ok x := by
  obtain ⟨bracketed, r', hrun, hnext⟩ := run_bind_eq_ok.mp hrun
  rw [genericParameters, run_bind_of_ok (run_ahead r), if_pos hs] at hrun
  obtain ⟨⟨items, text⟩, r₁, hhold, hrun⟩ := run_bind_eq_ok.mp hrun
  dsimp only at hrun
  cases hempty : items.isEmpty with
  | true =>
      rw [hempty] at hrun
      cases hrun
      refine .inr ?_
      rw [noParameters, unwrittenThen, run_bind_of_ok hhold]
      dsimp only
      rw [hempty, if_pos rfl, hnext]
  | false =>
      rw [hempty] at hrun
      cases hrun
      refine .inl ?_
      have hsome : someParameters.run g r = .ok ((), r₁.take 0 text) := by
        rw [someParameters, run_bind_of_ok (run_angleBrackets_of_hold hg hhold), hempty]
        rfl
      rw [run_bind_of_ok hsome, hnext]

theorem Rule.run_genericParameters_of_someParameters (hg : Blind g) {r r' : Reader}
    (hs : sees "<" r.rest = true)
    (hrun : someParameters.run g r = .ok ((), r')) : genericParameters.run g r = .ok (true, r') := by
  obtain ⟨items, r₁, hitems, hrun⟩ := run_bind_eq_ok.mp hrun
  cases hhold : (hold (angleBrackets (operator ",") itemParameter)).run g r with
  | error fault =>
      rw [← run_hold_write hg, run_bind, hhold] at hitems
      cases hitems
  | ok x =>
      have hitems' := run_angleBrackets_of_hold hg hhold
      rw [hitems] at hitems'
      cases hitems'
      cases hempty : x.1.1.isEmpty with
      | true =>
          obtain ⟨fault, hfault⟩ := run_expected (g := g) (α := Unit) [] (x.2.take 0 x.1.2)
          rw [hempty, if_pos rfl, hfault] at hrun
          cases hrun
      | false =>
          rw [hempty] at hrun
          cases hrun
          rw [genericParameters, run_bind_of_ok (run_ahead r), if_pos hs, run_bind_of_ok hhold]
          dsimp only
          rw [hempty]
          rfl

namespace Rereads

/-- The parameters of an item are read again. -/
theorem someParameters (hg : Rereadable g) {follow : Unit → List Lexeme → List Lexeme → Prop} :
    Rereads g m s Rule.someParameters Rule.someParameters id
      (AngleFront g itemParameter ParameterFront s) follow := by
  refine (angleBrackets (angleElement_itemParameter hg) angleSeparator_comma :
    Rereads g m s _ _ _ _ fun _ => follow ()).bind fun items items' s' h => ?_
  rw [h]
  exact .ite (fun _ _ _ => .rfl) (fun _ => .expected _) fun _ => pure _ _ rfl fun _ hk => hk

/-- The source spelling of parameters is read again. -/
theorem sourceParameters (hg : Rereadable g) (hs : sees "<" s = true) :
    Rereads g .source s Rule.genericParameters Rule.genericParameters (fun _ => ())
      (AngleFront g itemParameter ParameterFront s) fun _ _ _ => True := by
  have hoptional : ∀ m, Rereads g m s Rule.optionalParameters Rule.optionalParameters id
      (AngleFront g itemParameter ParameterFront s) fun _ _ _ => True := by
    intro m
    refine ahead (.sight (fun _ p hp => hp.look.2.2.trans hp.look.2.1.symm) (fun _ => ?_) fun h => ?_)
    · refine (angleBrackets (angleElement_itemParameter hg) angleSeparator_comma :
        Rereads g m s _ _ _ _ fun _ _ _ => True).bind fun found found' s' h => ?_
      exact pure _ _ (congrArg some h) fun _ _ => trivial
    · exact Bool.noConfusion (h.symm.trans hs)
  have hunwritten : Rereads g .source s (Rule.unwrittenIf (· == some true) Rule.optionalParameters)
      (Rule.unwrittenIf (· == some true) Rule.optionalParameters) (fun _ => ())
      (AngleFront g itemParameter ParameterFront s) fun _ _ _ => True := by
    refine unwrittenIf (· == some true) none (fun found found' h => ?_) (fun _ hp => hp)
      (fun m' => (hoptional m').follow_mono fun _ _ _ _ => trivial) fun hm => by cases hm
    obtain rfl : found' = found := h
    exact ⟨rfl, rfl⟩
  have hthen : Rereads g .source s
      (Rule.unwrittenIf (· == some true) Rule.optionalParameters >>= fun found => Pure.pure found.isSome)
      (Rule.unwrittenIf (· == some true) Rule.optionalParameters >>= fun found => Pure.pure found.isSome)
      (fun _ => ()) (AngleFront g itemParameter ParameterFront s) fun _ _ _ => True :=
    hunwritten.bind fun _ _ _ _ => pure _ _ rfl fun _ hk => hk
  exact hthen.congr (fun r _ => Rule.run_genericParameters_eq r) fun q _ => Rule.run_genericParameters_eq q

/-- An implementation is read again from behind its word. -/
theorem restOfImplementation (hg : Rereadable g) (visible : Bool) :
    Rereads g m s (Rule.restOfImplementation visible) (Rule.restOfImplementation visible) ItemBody.placeless
      (fun _ => True) fun a _ _ => m = .written → a.placeless ≠ .kept := by
  let front := AngleFront g itemParameter ParameterFront s
  have hmarked : ∀ s, Rereads g m s (Rule.markedImplementation visible) (Rule.markedImplementation visible)
      ItemBody.placeless (fun _ => True) fun a _ _ => m = .written → a.placeless ≠ .kept := fun s =>
    (markedImplementation hg visible).front_mono fun _ _ => trivial
  cases hs : seesParameters s with
  | false =>
      refine (?_ : Rereads g m s _ _ _ (MarkedFront s) _).front_mono fun _ _ => trivial
      refine ahead (.sight (fun _ p hp => MarkedFront.parameters hp) (fun h => ?_) fun _ =>
        markedImplementation hg visible)
      exact Bool.noConfusion (h.symm.trans hs)
  | true =>
      have hless : sees "<" s = true := ((Bool.and_eq_true _ _).mp hs).1
      have hrule : ∀ r : Reader, seesParameters r.rest = true → (Rule.restOfImplementation visible).run g r =
          (Rule.genericParameters >>= fun _ => Rule.markedImplementation visible).run g r := fun r hr => by
        rw [Rule.restOfImplementation, Rule.run_bind_of_ok (Rule.run_ahead r), if_pos hr]
      cases m with
      | source =>
          refine RereadsBy.front_mono
            (RereadsBy.congr ((sourceParameters hg hless).bind fun _ _ s' _ => hmarked s')
            (fun r hr => hrule r (hr ▸ hs)) fun q hq => hrule q (hq.parameters hs)) fun _ _ => trivial
      | written =>
          refine RereadsBy.or
            (?_ : RereadsBy _ _ _ (Rule.someParameters >>= fun _ =>
              Rule.markedImplementation visible) _ _ _ _)
            (?_ : RereadsBy _ _ _ (Rule.noParameters (Rule.markedImplementation visible)) _ _ _ _)
            fun r x hr hrun => ?_
          · refine RereadsBy.front_mono
              (RereadsBy.congr_ok (bind (someParameters hg) fun _ _ s' _ => hmarked s')
              (fun _ _ _ h => h) fun q x hq hrun => ?_) fun _ _ => trivial
            obtain ⟨_, r', hsome, hrun⟩ := Rule.run_bind_eq_ok.mp hrun
            have hq' := hq.parameters hs
            rw [hrule q hq', Rule.run_bind_of_ok (Rule.run_genericParameters_of_someParameters hg.blind
              ((Bool.and_eq_true _ _).mp hq').1 hsome), hrun]
          · refine unwritten_then (angleBrackets (angleElement_itemParameter hg) angleSeparator_comma)
              fun items s' => ?_
            cases items.isEmpty with
            | false => exact .of_error fun r _ => Rule.run_expected [] r
            | true =>
                refine RereadsBy.again_of_run (hmarked s') fun q a a' q' s' k _ ha ha' hrun => ?_
                cases hq : seesParameters q.rest with
                | false =>
                    refine ⟨a', ha', ?_⟩
                    rw [Rule.restOfImplementation, Rule.run_bind_of_ok (Rule.run_ahead q),
                      if_neg (Bool.eq_false_iff.mp hq), hrun]
                | true =>
                    obtain ⟨b, hb, hrun'⟩ :=
                      Rule.run_restOfImplementation_of_parameters hg hq hrun (ha'.symm ▸ ha rfl)
                    exact ⟨b, hb.trans ha', hrun'⟩
          · exact Rule.of_run_genericParameters hg.blind (hr ▸ hless) ((hrule r (hr ▸ hs)).symm.trans hrun)

end Rereads

/-- How an implementation looks behind `default`. -/
def UnsafeImplementation (s p : List Lexeme) : Prop :=
  Worded "unsafe" (Worded "impl" fun _ _ => True) s p ∨ Worded "impl" (fun _ _ => True) s p

/-- How an implementation looks at its beginning. -/
def ImplementationFront (s p : List Lexeme) : Prop :=
  Worded "default" UnsafeImplementation s p ∨ UnsafeImplementation s p

theorem UnsafeImplementation.look (h : UnsafeImplementation s p) : Look s p :=
  h.elim Worded.look Worded.look

theorem ImplementationFront.look (h : ImplementationFront s p) : Look s p :=
  h.elim Worded.look UnsafeImplementation.look

/-! ### What holds other items -/

/-- Reads what stands between the braces of a module. -/
def Rule.moduleContent : Rule (List Attribute × List OuterItem) := do
  let attributes ← innerAttributes
  let items ← while_ (fun ls => !ends ls) (call .item)
  return (attributes, items)

/-- Reads a module from its word on. -/
def Rule.moduleFromWord (unsafeAt : Option Nat) : Rule ItemBody := do
  keyword "mod"
  let name ← identifierOr ["try"]
  let ls ← ahead
  if sees ";" ls then
    operator ";"
    return .module unsafeAt name [] none
  else if seesGroup .brace ls then
    let (attributes, items) ← within .brace moduleContent
    return .module unsafeAt name attributes
      (some (items.map fun found => (found.item.body, found.item.text)))
  else expected [.operator ";", .group .brace]

theorem Rule.moduleItem_eq :
    moduleItem = (do
      let start ← here
      let marked ← keyword? "unsafe"
      moduleFromWord (if marked then some start else none)) := rfl

/-- How a module looks at its beginning. -/
def ModuleFront (s p : List Lexeme) : Prop :=
  Worded "unsafe" (Worded "mod" fun _ _ => True) s p ∨ Worded "mod" (fun _ _ => True) s p

/-- The name of a calling convention. -/
def TextSpelt (rest : List Lexeme → List Lexeme → Prop) (s p : List Lexeme) : Prop :=
  ∃ text s' p', s = literal text :: s' ∧ p = literal text :: p' ∧ rest s' p'

/-- A calling convention, and the braces behind it. -/
def ForeignFront : List Lexeme → List Lexeme → Prop :=
  Worded "extern" fun s p => TextSpelt (Bracketed .brace) s p ∨ Bracketed .brace s p

/-- How a foreign module looks at its beginning. -/
def ForeignItemFront (s p : List Lexeme) : Prop :=
  Worded "unsafe" ForeignFront s p ∨ ForeignFront s p

theorem TextSpelt.look {rest : List Lexeme → List Lexeme → Prop} (h : TextSpelt rest s p) : Look s p := by
  obtain ⟨text, _, _, rfl, rfl, -⟩ := h
  exact look_literal text _ _

/-- How the declaration of a crate looks at its beginning. -/
def CrateFront : List Lexeme → List Lexeme → Prop :=
  Worded "extern" (Worded "crate" fun _ _ => True)

namespace Rereads

/-- An implementation is read again. -/
theorem implementationItem (hg : Rereadable g) (visible : Bool) :
    Rereads g m s (Rule.implementationItem visible) (Rule.implementationItem visible) ItemBody.placeless
      (ImplementationFront s) fun a _ _ => m = .written → a.placeless ≠ .kept := by
  rw [Rule.implementationItem_eq]
  have hmarked : ∀ s, Rereads g m s
      (do
        let _ ← Rule.keyword? "unsafe"
        Rule.keyword "impl"
        Rule.restOfImplementation visible)
      (do
        let _ ← Rule.keyword? "unsafe"
        Rule.keyword "impl"
        Rule.restOfImplementation visible) ItemBody.placeless (UnsafeImplementation s)
      fun a _ _ => m = .written → a.placeless ≠ .kept := by
    intro s
    refine keyword? (fun p hp => hp.look.word _) (fun _ => ?_) fun _ => ?_
    · refine keyword_then "unsafe" (Worded "impl" fun _ _ => True) (fun s₁ => ?_) fun p hp => .inl hp
      exact keyword_then "impl" (fun _ _ => True) (fun s₂ => restOfImplementation hg visible) fun p hp => hp
    · exact keyword_then "impl" (fun _ _ => True) (fun s₂ => restOfImplementation hg visible)
        fun p hp => .inr hp
  refine keyword? (fun p hp => hp.look.word _) (fun _ => ?_) fun _ =>
    (hmarked s).front_mono fun p hp => .inr hp
  exact keyword_then "default" UnsafeImplementation hmarked fun p hp => .inl hp

/-- What stands between the braces of a module is read again. -/
theorem moduleContent (hg : Rereadable g) :
    Rereads g m s Rule.moduleContent Rule.moduleContent (Prod.map id (List.map OuterItem.placeless))
      (fun _ => True)
      fun _ => Ended := by
  refine (innerAttributes hg).bind_id (fun attributes s₁ => ?_) fun _ _ => trivial
  refine ((elements fun s => (hg.item m s).front_mono fun p hp => ⟨hp.1, hp.2⟩ :
    Rereads g m s₁ _ _ _ _ fun _ => Ended).bind
    fun items items' s₂ h => ?_).front_mono fun p hp => hp.outward
  exact pure _ _ (Prod.ext rfl h) fun _ hk => hk

/-- A module is read again from its word on. -/
theorem moduleFromWord (hg : Rereadable g) {unsafeAt unsafeAt' : Option Nat}
    (h : unsafeAt'.map (fun _ => 0) = unsafeAt.map fun _ => 0) :
    Rereads g m s (Rule.moduleFromWord unsafeAt) (Rule.moduleFromWord unsafeAt') ItemBody.placeless
      (Worded "mod" (fun _ _ => True) s) fun _ _ _ => True := by
  refine keyword_then "mod" (fun _ _ => True) (fun s₁ => ?_) fun p hp => hp
  refine identifierOr_then ["try"] (fun _ => BodyEnd) (fun w n n' s₂ => ?_) fun _ _ _ _ => trivial
  refine ahead (.sight (fun _ p hp => hp.look.operator ";" rfl) (fun _ => ?_) fun _ => ?_)
  · exact (semicolon_then (by simp [ItemBody.placeless, h])).front_mono fun p hp => .inr hp
  refine .sight (fun _ p hp => hp.look.group _) (fun _ => ?_) fun _ => .expected _
  refine within_then (Prod.map id (List.map OuterItem.placeless)) (fun _ _ => True)
    (fun s₃ => moduleContent hg)
    (fun found found' s₃ hfound => pure _ _ ?_ fun _ hk => trivial) fun p hp => .inl hp
  obtain ⟨hattributes, hitems⟩ := Prod.mk.inj hfound
  have htexts := congrArg (List.map fun item : OuterItem => (ItemBody.kept, item.item.text)) hitems
  rw [List.map_map, List.map_map] at htexts
  have hmembers : ∀ items : List OuterItem,
      (items.map fun item => (item.item.body, item.item.text)).map (fun x => (ItemBody.kept, x.2)) =
        items.map ((fun item => (ItemBody.kept, item.item.text)) ∘ OuterItem.placeless) := by
    intro items
    rw [List.map_map]
    rfl
  rw [ItemBody.placeless, ItemBody.placeless, h, show found'.1 = found.1 from hattributes, Option.map_some,
    Option.map_some, hmembers, hmembers, htexts]

/-- A module is read again. -/
theorem moduleItem (hg : Rereadable g) :
    Rereads g m s Rule.moduleItem Rule.moduleItem ItemBody.placeless (ModuleFront s) fun _ _ _ => True := by
  rw [Rule.moduleItem_eq]
  refine here fun n => RereadsBy.of_forall fun n' _ => ?_
  refine keyword? (fun p hp => hp.elim (fun hp => (Worded.look hp).word _) fun hp => (Worded.look hp).word _)
    (fun _ => ?_) fun _ => (moduleFromWord hg rfl).front_mono fun p hp => .inr hp
  exact keyword_then "unsafe" (Worded "mod" fun _ _ => True) (fun s₁ => moduleFromWord hg rfl)
    fun p hp => .inl hp

/-- A calling convention is read again before braces. -/
theorem foreignConvention :
    Rereads g m s Rule.convention Rule.convention id (ForeignFront s) fun _ => Bracketed .brace := by
  unfold Rule.convention
  refine keyword_then "extern" _ (fun s' => ?_) fun p hp => hp
  refine ahead (.sight (fun _ p hp => hp.elim (fun hp => hp.look.text) fun hp => hp.look.text)
    (fun htext => ?_)
    fun _ => ?_)
  · refine literal.front_mono fun p hp => ?_
    cases hp with
    | plain text h => exact .inl ⟨text, _, _, rfl, rfl, h⟩
    | truth w hw h => cases htext
    | negative text joint joint' hnumber h => cases htext
  · exact pure _ _ rfl fun k hk => .inr hk

/-- A foreign module is read again. -/
theorem foreignModuleItem (hg : Rereadable g) :
    Rereads g m s Rule.foreignModuleItem Rule.foreignModuleItem ItemBody.placeless (ForeignItemFront s)
      fun _ _ _ => True := by
  have hcontent : ∀ s, Rereads g m s
      (do
        Rule.convention
        Rule.within .brace do
          let _ ← Rule.innerAttributes
          let _ ← Rule.while_ (fun ls => !ends ls) Rule.foreignMember
        return ItemBody.foreignModule)
      (do
        Rule.convention
        Rule.within .brace do
          let _ ← Rule.innerAttributes
          let _ ← Rule.while_ (fun ls => !ends ls) Rule.foreignMember
        return ItemBody.foreignModule) ItemBody.placeless (ForeignFront s) fun _ _ _ => True := fun s =>
    foreignConvention.bind_id (fun _ s' => (bracedElements hg fun _ => foreignMember hg).bind_id
      (fun _ _ => pure _ _ rfl fun _ hk => hk) fun p hp => hp) fun p hp => hp
  unfold Rule.foreignModuleItem
  refine keyword? (fun p hp => hp.elim (fun hp => (Worded.look hp).word _) fun hp => (Worded.look hp).word _)
    (fun _ => ?_) fun _ => (hcontent s).front_mono fun p hp => .inr hp
  exact keyword_then "unsafe" ForeignFront hcontent fun p hp => .inl hp

/-- What is made of what is remembered is compared alike. -/
theorem map {rule rule' : Rule α} {keep : α → γ} {keep' : β → δ} {front : List Lexeme → Prop}
    {follow : β → List Lexeme → List Lexeme → Prop} (f : α → β)
    (hf : ∀ a a', keep a' = keep a → keep' (f a') = keep' (f a))
    (h : Rereads g m s rule rule' keep front fun a => follow (f a)) :
    Rereads g m s (f <$> rule) (f <$> rule') keep' front follow :=
  h.bind fun a a' _ ha => pure (f a) (f a') (hf a a' ha) fun _ hk => hk

/-- The declaration of a crate is read again. -/
theorem externCrateItem :
    Rereads g m s Rule.externCrateItem Rule.externCrateItem ItemBody.placeless (CrateFront s)
      fun _ _ _ => True := by
  unfold Rule.externCrateItem
  refine keyword_then "extern" (Worded "crate" fun _ _ => True) (fun s₁ => ?_) fun p hp => hp
  refine keyword_then "crate" (fun _ _ => True) (fun s₂ => ?_) fun p hp => hp
  refine identifierOr_then ["self"] (fun _ => Look) (fun w n n' s₃ => ?_) fun _ _ _ _ => trivial
  have hend : ∀ rename rename' : Option Name, rename'.map Name.text = rename.map Name.text → ∀ s,
      Rereads g m s
      (do Rule.operator ";"; return ItemBody.externCrate ⟨w, n⟩ rename)
      (do Rule.operator ";"; return ItemBody.externCrate ⟨w, n'⟩ rename') ItemBody.placeless (Semicolon s)
      fun _ _ _ => True := by
    intro rename rename' h s
    refine semicolon_then ?_
    have hplaceless : ∀ rename : Option Name, (rename.map fun n => (⟨n.text, 0⟩ : Name)) =
        (rename.map Name.text).map fun w => ⟨w, 0⟩ := fun rename => by rw [Option.map_map]; rfl
    rw [ItemBody.placeless, ItemBody.placeless, hplaceless, hplaceless, h]
  refine keyword? (fun p hp => hp.word _) (fun _ => ?_) fun _ => ?_
  · refine keyword_then "as" (fun _ _ => True) (fun s₄ => ?_) fun p hp => hp.look
    have hname : Rereads g m s₄ (Rule.identifierOr ["_"]) (Rule.identifierOr ["_"]) Name.text _
        fun _ => Semicolon :=
      identifierOr ["_"]
    exact ((map some (fun _ _ h => congrArg some h) hname :
      Rereads g m s₄ _ _ (Option.map Name.text) _ fun _ => Semicolon).bind
      fun rename rename' s₅ h => hend rename rename' h s₅).front_mono fun _ _ => trivial
  · have hnone : Rereads g m s₃ (Pure.pure none) (Pure.pure none) (Option.map Name.text) (Semicolon s₃)
        fun _ => Semicolon := pure _ _ rfl fun _ hk => hk
    exact (hnone.bind fun rename rename' s₄ h => hend rename rename' h s₄).front_mono fun p hp =>
      BodyEnd.look (.inr hp)

end Rereads

/-! ### Items by their beginnings -/

/-- How an item looks that begins with `extern` and is no function. -/
def ExternFront (s p : List Lexeme) : Prop :=
  CrateFront s p ∨ ForeignFront s p

/-- How an item looks that begins with `unsafe` and is no function. -/
def UnsafeFront : List Lexeme → List Lexeme → Prop :=
  Worded "unsafe" fun s p =>
    AutoFront s p ∨ Worded "impl" (fun _ _ => True) s p ∨ ForeignFront s p ∨
      Worded "mod" (fun _ _ => True) s p

theorem ForeignItemFront.foreignModule (h : ForeignItemFront s p)
    (hs : seesWord "extern" s = true) : ForeignFront s p := by
  refine h.resolve_left ?_
  rintro ⟨_, _, rfl, rfl, -⟩
  cases hs

theorem ForeignItemFront.marked (h : ForeignItemFront s p) (hs : seesWord "unsafe" s = true) :
    Worded "unsafe" ForeignFront s p := by
  refine h.resolve_right ?_
  rintro ⟨_, _, rfl, rfl, -⟩
  cases hs

/-- Whether a calling convention and braces come next behind a word. -/
def Rule.seesForeign (ls : List Lexeme) : Bool :=
  seesGroup .brace (second ls) || (seesText (second ls) && seesGroup .brace (third ls))

/-- Whether a trait comes next behind a word. -/
def Rule.seesMarkedTrait (ls : List Lexeme) : Bool :=
  seesWord "trait" (second ls) || (seesWord "auto" (second ls) && seesWord "trait" (third ls))

theorem ExternFront.sees (h : ExternFront s p) :
    seesWord "crate" (second p) = seesWord "crate" (second s) ∧ seesForeign p = seesForeign s := by
  rcases h with ⟨_, _, rfl, rfl, _, _, rfl, rfl, -⟩ | ⟨_, _, rfl, rfl, h⟩
  · exact ⟨rfl, rfl⟩
  · rcases h with ⟨_, _, _, rfl, rfl, _, _, rfl, rfl, -⟩ | ⟨_, _, rfl, rfl, -⟩
    · exact ⟨rfl, rfl⟩
    · exact ⟨rfl, rfl⟩

theorem UnsafeFront.sees (h : UnsafeFront s p) :
    seesMarkedTrait p = seesMarkedTrait s ∧ ∀ w, seesWord w (second p) = seesWord w (second s) := by
  obtain ⟨_, _, rfl, rfl, h⟩ := h
  rcases h with (⟨_, _, rfl, rfl, _, _, rfl, rfl, -⟩ | ⟨_, _, rfl, rfl, -⟩) | ⟨_, _, rfl, rfl, -⟩ |
    ⟨_, _, rfl, rfl, -⟩ | ⟨_, _, rfl, rfl, -⟩
  · exact ⟨rfl, fun _ => rfl⟩
  · exact ⟨rfl, fun _ => rfl⟩
  · exact ⟨rfl, fun _ => rfl⟩
  · exact ⟨rfl, fun _ => rfl⟩
  · exact ⟨rfl, fun _ => rfl⟩

/-- A rule fails where its beginning does. -/
theorem Rule.run_bind_of_error {rule : Rule α} {next : α → Rule β} {r : Reader}
    (h : ∃ fault, rule.run g r = .error fault) : ∃ fault, (rule >>= next).run g r = .error fault := by
  obtain ⟨fault, h⟩ := h
  exact ⟨fault, by rw [run_bind, h]⟩

/-- A rule fails whatever comes before what always does. -/
theorem Rule.run_bind_error {rule : Rule α} {next : α → Rule β}
    (h : ∀ a r, ∃ fault, (next a).run g r = .error fault) {r : Reader} :
    ∃ fault, (rule >>= next).run g r = .error fault := by
  rw [run_bind]
  cases rule.run g r with
  | error fault => exact ⟨fault, rfl⟩
  | ok x => exact h x.1 x.2

namespace Rereads

/-- A foreign module is read again where one is admitted. -/
theorem admittedForeign (hg : Rereadable g) {fault fault' : Fault} (visible : Bool) :
    Rereads g m s
      (do
        if visible then Rule.fail fault
        Rule.foreignModuleItem)
      (do
        if visible then Rule.fail fault'
        Rule.foreignModuleItem) ItemBody.placeless (ForeignItemFront s) fun _ _ _ => True := by
  refine .ite (fun _ _ _ => .rfl) (fun _ => ?_) fun _ => foreignModuleItem hg
  exact .of_error fun r _ => ⟨fault, rfl⟩

/-- An item is read again that begins with `extern` and is no function. -/
theorem externItem (hg : Rereadable g) (start start' : View) (visible : Bool)
    (hs : seesWord "extern" s = true) :
    Rereads g m s (Rule.externItem start visible) (Rule.externItem start' visible)
      ItemBody.placeless (ExternFront s)
      fun _ _ _ => True := by
  unfold Rule.externItem
  refine ahead (.sight (fun _ p hp => hp.sees.1) (fun _ => ?_) fun _ => ?_)
  · exact externCrateItem.front_mono fun p hp => .inl hp
  refine .sight (fun _ p hp => hp.sees.2) (fun _ => ?_) fun _ => .of_error fun r hr => ?_
  · exact (admittedForeign hg visible).front_mono fun p hp => .inr (hp.foreignModule hs)
  · refine Rule.run_bind_error fun _ r => ?_
    split
    · exact Rule.run_bind_error fun _ r => Rule.run_expected _ r
    · exact Rule.run_expected _ r

/-- An item is read again that begins with `unsafe` and is no function. -/
theorem unsafeItem (hg : Rereadable g) (start start' : View) (visible : Bool)
    (hs : seesWord "unsafe" s = true) :
    Rereads g m s (Rule.unsafeItem start visible) (Rule.unsafeItem start' visible)
      ItemBody.placeless (UnsafeFront s)
      fun a _ _ => m = .written → a.placeless ≠ .kept := by
  have hword : ∀ {w : String} {rest : List Lexeme → List Lexeme → Prop} {p},
      w ≠ "unsafe" → ¬ Worded w rest s p := by
    rintro w rest p hw ⟨_, _, rfl, -⟩
    exact hw (eq_of_beq hs)
  unfold Rule.unsafeItem
  refine ahead (.sight (fun _ p hp => hp.sees.1) (fun _ => ?_) fun _ => ?_)
  · refine (traitItem hg).mono (fun p hp => ?_) fun _ _ _ _ => trivial
    rcases hp with hp | hp | hp
    · exact hp.mono fun _ _ h => .inl h
    · exact (hword (by decide) hp).elim
    · exact (hword (by decide) hp).elim
  refine .sight (fun _ p hp => hp.sees.2 _) (fun _ => ?_) fun _ => ?_
  · refine (implementationItem hg visible).front_mono fun p hp => ?_
    rcases hp with hp | hp | hp
    · exact (hword (by decide) hp).elim
    · exact hp.mono fun _ _ h => .inr (.inl h)
    · exact (hword (by decide) hp).elim
  refine .sight (fun _ p hp => hp.sees.2 _) (fun _ => ?_) fun _ => ?_
  · exact (admittedForeign hg visible).mono (fun p hp =>
      (hp.marked hs).mono fun _ _ h => .inr (.inr (.inl h)))
      fun _ _ _ _ => trivial
  refine .sight (fun _ p hp => hp.sees.2 _) (fun _ => ?_) fun _ => .of_error fun r _ =>
    Rule.run_bind_error fun _ r => Rule.run_expected _ r
  refine (moduleItem hg).mono (fun p hp => ?_) fun _ _ _ _ => trivial
  rcases hp with hp | hp
  · exact hp.mono fun _ _ h => .inr (.inr (.inr h))
  · exact (hword (by decide) hp).elim

end Rereads

/-! ### Macros -/

/-- Behind braces that are the arguments of a macro: nothing that makes an expression of its use. -/
structure BehindBraces (s k : List Lexeme) : Prop where
  dot : (sees "." k && !sees ".." k) = (sees "." s && !sees ".." s)
  question : sees "?" k = sees "?" s

theorem Enclosed.mono {d : Delimiter} {rest rest' : List Lexeme → List Lexeme → Prop}
    (h : Enclosed d rest s p)
    (hrest : ∀ s p, rest s p → rest' s p) : Enclosed d rest' s p := by
  obtain ⟨content, s', p', hs, hp, hcontent, h⟩ := h
  exact ⟨content, s', p', hs, hp, hcontent, hrest _ _ h⟩

/-- The arguments of a macro that is an item; a name may stand before them. -/
def NamedArguments (told : Prop) (s p : List Lexeme) : Prop :=
  (∃ w, (isIdentifier w = true ∨ w = "try") ∧
    Worded w (fun s p => ∃ d, Enclosed d (fun _ _ => True) s p) s p) ∨
    ∃ d, Enclosed d (fun s k => told → d = .brace → BehindBraces s k) s p

/-- The use of a macro that is an item. -/
def InvocationItemFront (told : Prop) : List Lexeme → List Lexeme → Prop :=
  PathSpelt (Spelt ['!'] (NamedArguments told))

/-- Whether a name may come next that stands before the arguments of a macro. -/
def Rule.seesMacroName (ls : List Lexeme) : Bool :=
  seesIdentifier ls || seesWord "try" ls

theorem NamedArguments.name (h : NamedArguments told s p) : seesMacroName p = seesMacroName s := by
  rcases h with ⟨_, -, _, _, rfl, rfl, -⟩ | ⟨_, _, _, _, rfl, rfl, -⟩
  · rfl
  · rfl

theorem Spelt.not_colons {rest : List Lexeme → List Lexeme → Prop} (h : Spelt ['!'] rest s p) :
    sees "::" p = false := by
  obtain ⟨_, _, _, _, rfl, rfl, -⟩ := h
  rfl

/-- Reads the use of a macro from behind its path, which was written as `path`. -/
def Rule.restOfInvocation (path : List Lexeme) : Rule ItemBody := do
  operator "!"
  let ls ← ahead
  let name ← if seesMacroName ls then some <$> anyWord else pure none
  macroEnd (← anyGroup)
  return .invocation path name

namespace Rereads

/-- The definition of a macro is read again. -/
theorem macroDefinition :
    Rereads g m s Rule.macroDefinition Rule.macroDefinition ItemBody.placeless
      (Worded "macro" (fun _ _ => True) s)
      fun _ _ _ => True := by
  have hcontent : ∀ things things' s, Rereads g m s
      (do
        if seesGroup .brace (← Rule.ahead) then Rule.group .brace
        else Rule.expected things
        return ItemBody.kept)
      (do
        if seesGroup .brace (← Rule.ahead) then Rule.group .brace
        else Rule.expected things'
        return ItemBody.kept) ItemBody.placeless (Look s) fun _ _ _ => True := by
    intro things things' s
    refine ahead (.sight (fun _ p hp => hp.group _) (fun _ => ?_) fun _ =>
      .of_error fun r _ => Rule.run_bind_of_error (Rule.run_expected things r))
    refine (group .brace : Rereads g m s _ _ _ _ fun _ _ _ => True).bind_id
      (fun _ _ => pure _ _ rfl fun _ hk => hk) ?_
    exact fun p ⟨d, hp⟩ => hp.look
  unfold Rule.macroDefinition
  refine keyword_then "macro" (fun _ _ => True) (fun s₁ => ?_) fun p hp => hp
  refine identifier_then (fun _ => Look) (fun w n n' s₂ => ?_) fun _ _ _ _ => trivial
  refine ahead (.sight (fun _ p hp => hp.group _) (fun _ => ?_) fun _ => ?_)
  · refine .of_forall fun _ p => ?_
    exact (group .parenthesis : Rereads g m s₂ _ _ _ _ fun _ => Look).bind_id (fun _ s₃ => hcontent _ _ s₃)
      fun p ⟨d, hp⟩ => hp.look
  · exact .of_forall fun _ p => hcontent _ _ s₂

/-- The semicolon behind the arguments of a macro is read again; behind braces there is none. -/
theorem invocationEnd (d : Delimiter) :
    Rereads g m s (Rule.macroEnd d) (Rule.macroEnd d) id (fun k => told → d = .brace → BehindBraces s k)
      fun _ s' k => told → BehindBraces s' k := by
  unfold Rule.macroEnd
  cases d with
  | brace => exact pure _ _ rfl fun k hk htold _ => hk htold
  | parenthesis | bracket => exact (operator ";").front_mono fun _ _ _ h => nomatch h

/-- The use of a macro is read again from behind its path. -/
theorem restOfInvocation (path : List Lexeme) :
    Rereads g m s (Rule.restOfInvocation path) (Rule.restOfInvocation path) ItemBody.placeless
      (Spelt ['!'] (NamedArguments told) s) fun _ s' k => told → BehindBraces s' k := by
  have hend : ∀ name name' : Option Name, name'.map Name.text = name.map Name.text → ∀ s, Rereads g m s
      (do
        Rule.macroEnd (← Rule.anyGroup)
        return ItemBody.invocation path name)
      (do
        Rule.macroEnd (← Rule.anyGroup)
        return ItemBody.invocation path name') ItemBody.placeless
      (fun p => ∃ d, Enclosed d (fun s k => told → d = .brace → BehindBraces s k) s p)
      fun _ s' k => told → BehindBraces s' k := by
    intro name name' h s
    refine anyGroup_then (fun d s k => told → d = .brace → BehindBraces s k) (fun d s₁ => ?_)
      fun d p hp => ⟨d, hp⟩
    refine (invocationEnd d).bind_id (fun _ s₂ => pure _ _ ?_ fun _ hk => hk) fun p hp => hp
    have hplaceless : ∀ name : Option Name, (name.map fun n => (⟨n.text, 0⟩ : Name)) =
        (name.map Name.text).map fun w => ⟨w, 0⟩ := fun name => by rw [Option.map_map]; rfl
    rw [ItemBody.placeless, ItemBody.placeless, hplaceless, hplaceless, h]
  refine operator_then "!" (NamedArguments told) (fun s₁ => ?_) fun p hp => hp
  refine ahead (.sight (fun _ p hp => NamedArguments.name hp) (fun hs => ?_) fun hs => ?_)
  · have hname : Rereads g m s₁ Rule.anyWord Rule.anyWord Name.text _ fun _ s p =>
        ∃ d, Enclosed d (fun s k => told → d = .brace → BehindBraces s k) s p := anyWord
    refine ((map some (fun _ _ h => congrArg some h) hname :
      Rereads g m s₁ _ _ (Option.map Name.text) _ _).bind
      fun name name' s₂ h => hend name name' h s₂).front_mono ?_
    rintro p ⟨w, n, hp⟩
    refine .inl ⟨w, ?_, hp.mono fun _ _ h => h.imp fun d h => Enclosed.mono h fun _ _ _ => trivial⟩
    obtain ⟨_, _, rfl, -⟩ := hp
    exact ((Bool.or_eq_true _ _).mp hs).imp_right eq_of_beq
  · have hnone : Rereads g m s₁ (Pure.pure none) (Pure.pure none) (Option.map Name.text)
      (fun p => ∃ d, Enclosed d (fun s k => told → d = .brace → BehindBraces s k) s₁ p)
        fun _ s p => ∃ d, Enclosed d (fun s k => told → d = .brace → BehindBraces s k) s p :=
          pure _ _ rfl fun _ hk => hk
    exact (hnone.bind fun name name' s₂ h => hend name name' h s₂).front_mono fun p hp => .inr hp

/-- The use of a macro that is an item is read again. -/
theorem invocationItem :
    Rereads g m s Rule.invocationItem Rule.invocationItem ItemBody.placeless (InvocationItemFront told s)
      fun _ s' k => told → BehindBraces s' k := by
  have hbody : ∀ (x : Unit × List Lexeme) (r : Reader),
      (do write x.2; Rule.restOfInvocation x.2 : Rule ItemBody).run g r =
        (Rule.restOfInvocation x.2).run g (r.take 0 x.2) :=
    fun x r => Rule.run_bind_of_ok (Rule.run_write ..) _
  exact hold (fun _ => ()) (fun _ => Spelt ['!'] (NamedArguments told))
    ((plainPath _).mono (fun _ hp => hp) fun _ _ _ hk => ⟨hk, Spelt.not_colons hk⟩)
    (fun _ => Rule.restOfInvocation) (fun _ => Rule.restOfInvocation) hbody hbody fun _ _ text s' _ =>
      restOfInvocation text

end Rereads

/-! ### How items look -/

/-- A word that an item begins with, and no expression. -/
theorem seesItem_of_word {w : String} (ls : List Lexeme)
    (hw : w ∈ ["pub", "extern", "use", "fn", "mod", "type", "struct", "enum", "trait", "impl", "macro"]) :
    seesItem (word w :: ls) = true := by
  have hitem : ["pub", "extern", "use", "fn", "mod", "type", "struct", "enum", "trait", "impl", "macro"].any
      (fun v => seesWord v (word w :: ls)) = true :=
    List.any_eq_true.mpr ⟨w, hw, by simp [seesWord]⟩
  simp only [seesItem, hitem, Bool.true_or]

/-- An identifier is none of the words that decide. -/
theorem beq_eq_false_of_isIdentifier {w v : String} (hw : isIdentifier w = true)
    (hv : isIdentifier v = false) :
    (w == v) = false :=
  beq_false_of_ne fun h => Bool.noConfusion (hv.symm.trans (h ▸ hw))

theorem ConstantFront.itemFront (h : ConstantFront s p) : ItemFront told s p := by
  have hmember := h.member
  obtain ⟨_, _, rfl, rfl, w, hw, _, _, rfl, rfl, -⟩ := h
  refine ⟨hmember.toLook, rfl, hmember.signature, nofun, nofun, nofun, fun _ => ?_,
    fun _ _ => not_seesMacroStatement (by decide) (by decide) _⟩
  have hne : ∀ v ∈ ["static", "move", "async"], (w == v) = false := by
    rintro v hv
    rcases (Bool.or_eq_true _ _).mp hw with hw | hw
    · refine beq_eq_false_of_isIdentifier hw ?_
      simp only [List.mem_cons, List.not_mem_nil, or_false] at hv
      rcases hv with rfl | rfl | rfl <;> decide
    · obtain rfl : w = "_" := eq_of_beq hw
      simp only [List.mem_cons, List.not_mem_nil, or_false] at hv
      rcases hv with rfl | rfl | rfl <;> rfl
  have hsecond : ∀ ls, second (word "const" :: word w :: ls) = word w :: ls := fun _ => rfl
  simp [seesItem, hsecond, seesGroup, seesWord, hne, sees, startsWith]

theorem StaticItemFront.itemFront (h : StaticItemFront s p) : ItemFront told s p := by
  have hlook := Worded.look h
  obtain ⟨_, p', rfl, rfl, h⟩ := h
  refine ⟨hlook, rfl, ?_, nofun, nofun, nofun, fun _ => ?_,
    fun _ _ => not_seesMacroStatement (by decide) (by decide) _⟩
  · rw [not_seesSignature (by decide), not_seesSignature (by decide)]
  · have hname : (seesWord "mut" p' || seesIdentifier p') = true := by
      rcases h with ⟨_, _, rfl, rfl, -⟩ | ⟨w, hw, _, _, rfl, rfl, -⟩
      · rfl
      · exact (Bool.or_eq_true _ _).mpr (.inr hw)
    have hsecond : second (word "static" :: p') = p' := rfl
    have hstatic : seesWord "static" (word "static" :: p') = true := rfl
    simp only [seesItem, hsecond, hstatic, hname, Bool.and_true, Bool.or_true, Bool.true_or]

/-- What begins with a calling convention and is no function. -/
theorem ForeignFront.not_signature (h : ForeignFront s p) :
    seesWord "fn" (dropConvention s) = false ∧ seesWord "fn" (dropConvention p) = false := by
  have hnot : ∀ {ls}, (∃ text ls', ls = literal text :: opening .brace :: ls') ∨
      (∃ ls', ls = opening .brace :: ls') →
      seesWord "fn" (dropConvention (word "extern" :: ls)) = false := by
    rintro _ (⟨text, ls', rfl⟩ | ⟨ls', rfl⟩)
    · have hforeign : seesWord "extern" (word "extern" :: literal text :: opening .brace :: ls') = true :=
        rfl
      rw [dropConvention, if_pos hforeign]
      dsimp only
      split
      · rfl
      · rfl
    · rfl
  obtain ⟨_, _, rfl, rfl, h⟩ := h
  rcases h with ⟨_, _, _, rfl, rfl, _, _, rfl, rfl, -⟩ | ⟨_, _, rfl, rfl, -⟩
  · exact ⟨hnot (.inl ⟨_, _, rfl⟩), hnot (.inl ⟨_, _, rfl⟩)⟩
  · exact ⟨hnot (.inr ⟨_, rfl⟩), hnot (.inr ⟨_, rfl⟩)⟩

theorem ExternFront.itemFront (h : ExternFront s p) : ItemFront told s p := by
  have hlook : Look s p := h.elim Worded.look Worded.look
  have hsignature : seesSignature false p = seesSignature false s := by
    rcases h with ⟨_, _, rfl, rfl, _, _, rfl, rfl, -⟩ | h
    · rfl
    · obtain ⟨hs, hp⟩ := h.not_signature
      obtain ⟨_, _, rfl, rfl, -⟩ := h
      exact hp.trans hs.symm
  obtain ⟨_, _, rfl, rfl⟩ : ∃ s' p', s = word "extern" :: s' ∧ p = word "extern" :: p' := by
    rcases h with ⟨s', p', hs, hp, -⟩ | ⟨s', p', hs, hp, -⟩
    · exact ⟨s', p', hs, hp⟩
    · exact ⟨s', p', hs, hp⟩
  exact ⟨hlook, rfl, hsignature, nofun, nofun, nofun, fun _ => seesItem_of_word _ (by decide),
    fun _ _ => not_seesMacroStatement (by decide) (by decide) _⟩

theorem UnsafeFront.itemFront (h : UnsafeFront s p) : ItemFront told s p := by
  have hlook := Worded.look h
  obtain ⟨s', p', rfl, rfl, h⟩ := h
  obtain ⟨hsignature, hbrace⟩ : seesSignature false (word "unsafe" :: p') =
      seesSignature false (word "unsafe" :: s') ∧
      seesGroup .brace p' = false := by
    rcases h with (⟨_, _, rfl, rfl, -⟩ | ⟨_, _, rfl, rfl, -⟩) | ⟨_, _, rfl, rfl, -⟩ | h | ⟨_, _, rfl, rfl, -⟩
    · exact ⟨rfl, rfl⟩
    · exact ⟨rfl, rfl⟩
    · exact ⟨rfl, rfl⟩
    · obtain ⟨hs, hp⟩ := h.not_signature
      obtain ⟨_, _, rfl, rfl, -⟩ := h
      exact ⟨hp.trans hs.symm, rfl⟩
    · exact ⟨rfl, rfl⟩
  refine ⟨hlook, rfl, hsignature, nofun, nofun, nofun, fun _ => ?_,
    fun _ _ => not_seesMacroStatement (by decide) (by decide) _⟩
  have hsecond : second (word "unsafe" :: p') = p' := rfl
  have hunsafe : seesWord "unsafe" (word "unsafe" :: p') = true := rfl
  simp only [seesItem, hsecond, hunsafe, hbrace, Bool.not_false, Bool.and_true, Bool.or_true, Bool.true_or]

/-- Behind a name that stands before another word no macro is used. -/
theorem not_seesMacroStatement_words {w v : String} (hw : seesPathWord [word w] = true) (ls : List Lexeme) :
    seesMacroStatement (word w :: word v :: ls) = false := by
  have hafter : afterPlainPath (word w :: word v :: ls) = some (word v :: ls) := by
    simp [afterPlainPath, afterPathWords, hw, sees, startsWith]
  rw [seesMacroStatement, hafter]
  rfl

theorem Worded.autoTrait (h : Worded "auto" (Worded "trait" fun _ _ => True) s p) : ItemFront told s p := by
  have hlook := h.look
  obtain ⟨_, _, rfl, rfl, _, _, rfl, rfl, -⟩ := h
  exact ⟨hlook, rfl, by rw [not_seesSignature (by decide), not_seesSignature (by decide)], nofun,
    fun _ => rfl, nofun,
    fun _ => rfl, fun _ _ => not_seesMacroStatement_words rfl _⟩

theorem Worded.unionItem (h : Worded "union" (Identified fun _ _ => True) s p) : ItemFront told s p := by
  have hlook := h.look
  obtain ⟨_, _, rfl, rfl, w, hw, _, p', rfl, rfl, -⟩ := h
  refine ⟨hlook, rfl, by rw [not_seesSignature (by decide), not_seesSignature (by decide)],
    fun _ => rfl, nofun, nofun,
    fun _ => ?_, fun _ _ => not_seesMacroStatement_words rfl _⟩
  have hname : seesIdentifier (second (word "union" :: word w :: p')) = true := hw
  have hunion : seesWord "union" (word "union" :: word w :: p') = true := rfl
  simp only [seesItem, hname, hunion, Bool.and_true, Bool.or_true, Bool.true_or]

theorem Worded.defaultImplementation (h : Worded "default" UnsafeImplementation s p) :
    ItemFront told s p := by
  have hlook := h.look
  obtain ⟨_, _, rfl, rfl, h⟩ := h
  have hsignature : ∀ ls, seesSignature false (word "default" :: ls) = false :=
    not_seesSignature (by decide) false
  rcases h with ⟨_, _, rfl, rfl, -⟩ | ⟨_, _, rfl, rfl, -⟩
  · exact ⟨hlook, rfl, by rw [hsignature, hsignature], nofun, nofun, fun _ => rfl, fun _ => rfl,
      fun _ _ => not_seesMacroStatement_words rfl _⟩
  · exact ⟨hlook, rfl, by rw [hsignature, hsignature], nofun, nofun, fun _ => rfl, fun _ => rfl,
      fun _ _ => not_seesMacroStatement_words rfl _⟩

/-- What is seen behind the path of a macro that is an item. -/
theorem InvocationItemFront.behindPath (h : InvocationItemFront told s p) :
    seesDeclaringMacro p = seesDeclaringMacro s ∧ (told → seesMacroStatement p = seesMacroStatement s) := by
  obtain ⟨s', p', hs, hp, joint, joint', s₂, p₂, rfl, rfl, -, h⟩ := h.afterPlainPath
  rw [seesDeclaringMacro, seesDeclaringMacro, seesMacroStatement, seesMacroStatement, hs, hp]
  have hsecond : ∀ joint ls, second (punct '!' joint :: ls) = ls := second_punct (by decide)
  have hthird : ∀ joint ls, third (punct '!' joint :: ls) = second ls :=
    fun joint ls => congrArg afterElement (hsecond joint ls)
  simp only [Option.any_some, hsecond, hthird]
  refine ⟨congrArg _ h.name, fun htold => ?_⟩
  rcases h with ⟨_, -, _, _, rfl, rfl, -⟩ | ⟨d, content, s₃, p₃, rfl, rfl, hcontent, h⟩
  · rfl
  · rw [hcontent, hcontent]
    cases d with
    | brace => rw [(h htold rfl).dot, (h htold rfl).question]; rfl
    | parenthesis | bracket => rfl

theorem InvocationItemFront.itemFront (h : InvocationItemFront told s p) : ItemFront told s p := by
  have hlook := PathSpelt.look h
  obtain ⟨hdeclaring, hstatement⟩ := h.behindPath
  rcases PathSpelt.cases h fun _ _ h => h.mono fun _ _ _ => trivial with
    h | ⟨w, c, joint, joint', s', p', hw, hc, hcolons, rfl, rfl⟩
  · obtain ⟨_, _, rfl, rfl, _, _, _, _, rfl, rfl, -⟩ := h
    refine ⟨hlook, rfl, rfl, nofun, nofun, nofun, fun hs => ?_, fun htold hs => (hstatement htold).trans hs⟩
    rw [seesItem_of_not_word rfl] at hs ⊢
    exact hdeclaring.trans hs
  · have hsignature : ∀ joint ls, seesSignature false (word w :: punct c joint :: ls) = false :=
      fun joint ls => (not_seesSignature_punct hw false c joint ls).1
    have hbar : ∀ joint ls, sees "|" (punct c joint :: ls) = false := fun joint ls => by
      simp only [List.mem_cons, List.not_mem_nil, or_false] at hc
      rcases hc with rfl | rfl <;> rfl
    have hword : ∀ v ls ls', seesWord v (word w :: ls) = seesWord v (word w :: ls') := fun _ _ _ => rfl
    have hnext : ∀ joint ls, seesIdentifier (punct c joint :: ls) = false ∧
        (∀ v, seesWord v (punct c joint :: ls) = false) ∧
        ∀ d, seesGroup d (punct c joint :: ls) = false := fun _ _ => ⟨rfl, fun _ => rfl, fun _ => rfl⟩
    have hsecond : ∀ joint ls, second (word w :: punct c joint :: ls) = punct c joint :: ls := fun _ _ => rfl
    refine ⟨hlook, rfl, (hsignature _ _).trans (hsignature _ _).symm, fun _ => rfl,
      fun _ => rfl, fun _ => ?_,
      fun hs => ?_,
      fun htold hs => (hstatement htold).trans hs⟩
    · simp only [List.mem_cons, List.not_mem_nil, or_false] at hc
      rcases hc with rfl | rfl <;> rfl
    · simp only [seesItem, hsecond, hnext, hbar, hcolons, hdeclaring, hword _ _ (punct c joint :: s'),
        Bool.false_and] at hs ⊢
      exact hs

/-- Two conditions of which the second matters where the first holds. -/
theorem and_congr_of_true {b b' c c' : Bool} (hb : b' = b) (hc : b = true → c' = c) :
    (b' && c') = (b && c) := by
  subst hb
  cases b' with
  | true => exact congrArg _ (hc rfl)
  | false => rfl

namespace Rereads

/-- An item is read again from behind its visibility. -/
theorem itemBody (hg : Rereadable g) (start start' : View) (visible : Bool) :
    Rereads g m s (Rule.itemBody start visible) (Rule.itemBody start' visible)
      ItemBody.placeless (ItemFront told s)
      fun a s' k => (m = .written → a.placeless ≠ .kept) ∧ (told → BehindBraces s' k) := by
  unfold Rule.itemBody
  refine ahead (.sight (fun _ p hp => hp.signature) (fun hs => ?_) fun hsignature => ?_)
  · exact (functionItem hg).mono (fun p hp => hp.itemFront hs) fun _ _ _ _ => trivial
  refine .sight (fun _ p hp => hp.word _) (fun hs => ?_) fun _ => ?_
  · exact (externItem hg start start' visible hs).mono (fun p hp => hp.itemFront) fun _ _ _ _ => trivial
  refine .sight (fun _ p hp => hp.word _) (fun _ => ?_) fun _ => ?_
  · exact (import? hg).mono (fun p hp => hp.itemFront (by decide)) fun _ _ _ _ => trivial
  refine .sight (fun _ p hp => hp.word _) (fun _ => ?_) fun _ => ?_
  · exact (staticItem hg).mono (fun p hp => hp.itemFront) fun _ _ _ _ => trivial
  refine .sight (fun _ p hp => hp.word _) (fun _ => ?_) fun _ => ?_
  · exact (constantItem hg).mono (fun p hp => hp.itemFront) fun a _ _ hk hm ha => hk.1 hm (by rw [ha]; rfl)
  refine .sight (fun _ p hp => hp.word _) (fun hs => ?_) fun _ => ?_
  · exact (unsafeItem hg start start' visible hs).mono (fun p hp => hp.itemFront) fun _ _ _ hk => hk.1
  refine .sight (fun _ p hp => hp.word _) (fun hs => ?_) fun _ => ?_
  · refine (moduleItem hg).mono (fun p hp => ?_) fun _ _ _ _ => trivial
    rcases hp with ⟨_, _, rfl, -⟩ | hp
    · cases hs
    · exact hp.itemFront (by decide)
  refine .sight (fun _ p hp => hp.word _) (fun _ => ?_) fun _ => ?_
  · exact (typeItem hg).mono (fun p hp => Worded.itemFront hp (by decide)) fun a _ _ hk hm ha =>
      hk.1 hm (by rw [ha]; rfl)
  refine .sight (fun _ p hp => hp.word _) (fun _ => ?_) fun _ => ?_
  · exact (structureItem hg).mono (fun p hp => hp.itemFront (by decide)) fun _ _ _ _ => trivial
  refine .sight (fun _ p hp => hp.word _) (fun _ => ?_) fun _ => ?_
  · exact (enumerationItem hg).mono (fun p hp => hp.itemFront (by decide)) fun _ _ _ _ => trivial
  refine .sight (fun _ p hp => and_congr_of_true (hp.word _) hp.union) (fun _ => ?_) fun _ => ?_
  · exact (unionItem hg).mono (fun p hp => hp.unionItem) fun _ _ _ _ => trivial
  refine .sight (fun _ p hp => hp.word _) (fun _ => ?_) fun _ => ?_
  · exact (traitOrAlias hg).mono (fun p hp => hp.itemFront (by decide)) fun _ _ _ _ => trivial
  refine .sight (fun _ p hp => and_congr_of_true (hp.word _) hp.auto) (fun hs => ?_) fun _ => ?_
  · refine (traitItem hg).mono (fun p hp => ?_) fun _ _ _ _ => trivial
    have hword := ((Bool.and_eq_true _ _).mp hs).1
    rcases hp with ⟨_, _, rfl, -⟩ | hp | ⟨_, _, rfl, -⟩
    · cases hword
    · exact hp.autoTrait
    · cases hword
  refine .sight (fun _ p hp => ?_) (fun hs => ?_) fun _ => ?_
  · rw [hp.word, and_congr_of_true (hp.word "default") fun h => by rw [hp.bang h]]
  · refine (implementationItem hg visible).mono (fun p hp => ?_) fun _ _ _ hk => hk.1
    rcases hp with hp | ⟨_, _, rfl, -⟩ | hp
    · exact hp.defaultImplementation
    · cases hs
    · exact hp.itemFront (by decide)
  refine .sight (fun _ p hp => hp.word _) (fun _ => ?_) fun _ => ?_
  · exact macroDefinition.mono (fun p hp => hp.itemFront (by decide)) fun _ _ _ _ => trivial
  refine .sight (fun _ p hp => congrArg _ hp.macroPath) (fun _ => ?_) fun _ => .expected _
  exact invocationItem.mono (fun p hp => hp.itemFront) fun _ _ _ hk => hk.2

end Rereads

/-! ### Items with what stands before them -/

/-- Reads an item from behind its attributes. -/
def Rule.itemContent : Rule (List Lexeme × ItemBody) := do
  let v ← look
  let seen ← visibility
  let body ← itemBody v !seen.isEmpty
  return (seen, body)

/-- How the attributes before an item are written. -/
def itemPreface : List Lexeme × ItemBody → Preface
  | (_, .kept) => .source
  | _ => .written

/-- Reads an item, and tells what was written for it. -/
def Rule.prefacedItem : Rule ((List Attribute × List Lexeme × ItemBody) × List Lexeme) :=
  texted (prefaced itemPreface outerAttributes itemContent)

/-- The text of an item of which only that is remembered is its source spelling. -/
def Rule.itemText (start : View) (text : List Lexeme) (body : ItemBody) (own : List Lexeme)
    (stop : Nat) : List Lexeme :=
  match body with
  | .kept => start.rest.take (stop - start.position)
  | _ => text ++ own

theorem Rule.restOfItem_eq (start : View) (attributes : List Attribute) (text : List Lexeme) :
    restOfItem start attributes text = (do
      let ((seen, body), own) ← hold itemContent
      let stop ← here
      write (itemText start text body own stop)
      return ⟨attributes, seen, ⟨body, itemText start text body own stop⟩,
        ⟨start.position, stop - 1⟩⟩) := rfl

/-- An item is written with what stands before it. -/
theorem Rule.run_item_eq (r : Reader) :
    item.run g r =
      (do
        let start ← here
        let ((attributes, seen, body), text) ← prefacedItem
        let stop ← here
        return ⟨attributes, seen, ⟨body, text⟩, ⟨start, stop - 1⟩⟩ : Rule OuterItem).run g r := by
  rw [item, run_bind_of_ok (run_look r), run_bind_of_ok (run_here r), prefacedItem, texted]
  cases hbefore : outerAttributes.run g r.unwritten with
  | error fault =>
      have hprefaced : (prefaced itemPreface outerAttributes itemContent).run g r.unwritten =
          .error fault := by
        rw [prefaced, run_bind_of_ok (run_look _), run_bind, run_hold_of_error (r := r.unwritten) hbefore]
      rw [run_bind, run_hold_of_error hbefore, run_bind, run_bind, run_hold_of_error hprefaced]
  | ok x =>
      obtain ⟨attributes, r₁⟩ := x
      have hhold := run_hold_of_ok hbefore
      have hhold' := run_hold_of_ok (r := r.unwritten) hbefore
      rw [run_bind_of_ok hhold]
      dsimp only
      rw [restOfItem_eq]
      cases hcontent : itemContent.run g r₁.unwritten with
      | error fault =>
          have hnone : ∀ written, (hold itemContent).run g { r₁ with written := written } = .error fault :=
            fun _ => run_hold_of_error hcontent
          have hprefaced : (prefaced itemPreface outerAttributes itemContent).run g r.unwritten =
              .error fault := by
            rw [prefaced, run_bind_of_ok (run_look _), run_bind_of_ok hhold']
            dsimp only
            rw [run_bind, hnone]
          rw [run_bind, hnone, run_bind, run_bind, run_hold_of_error hprefaced]
      | ok y =>
          obtain ⟨⟨seen, body⟩, r₂⟩ := y
          have hsome : ∀ written, (hold itemContent).run g { r₁ with written := written } =
              .ok (((seen, body), r₂.written.reverse), { r₂ with written := written }) :=
                fun _ => run_hold_of_ok hcontent
          have hprefaced : (prefaced itemPreface outerAttributes itemContent).run g r.unwritten =
              .ok ((attributes, seen, body), { r₂ with
                written := (itemText r.toView r₁.written.reverse body r₂.written.reverse
                  r₂.position).reverse }) := by
            rw [prefaced, run_bind_of_ok (run_look _), run_bind_of_ok hhold']
            dsimp only
            rw [run_bind_of_ok (hsome _)]
            have hwrite := run_write (g := g)
              (itemText r.toView r₁.written.reverse body r₂.written.reverse r₂.position)
              { r₂ with written := [] }
            refine Eq.trans (b := (do
                write (itemText r.toView r₁.written.reverse body r₂.written.reverse r₂.position)
                return (attributes, seen, body) : Rule _).run g { r₂ with written := [] }) ?_ ?_
            · cases body <;> rfl
            · rw [run_bind_of_ok hwrite, run_pure]
              simp [Reader.take]
          have htexted := run_hold_of_ok hprefaced
          rw [run_bind_of_ok (hsome _)]
          dsimp only
          rw [run_bind_of_ok (run_here _), run_bind_of_ok (run_write ..), run_bind, run_bind_of_ok htexted,
            run_bind_of_ok (run_write ..), run_pure]
          dsimp only
          rw [List.reverse_reverse]
          rfl

theorem itemPreface_eq {x x' : List Lexeme × ItemBody}
    (h : Prod.map id ItemBody.placeless x' = Prod.map id ItemBody.placeless x) :
    itemPreface x' = itemPreface x := by
  obtain ⟨seen, body⟩ := x
  obtain ⟨seen', body'⟩ := x'
  have hbody : body'.placeless = body.placeless := (Prod.mk.inj h).2
  cases body <;> cases body' <;> first | rfl | cases hbody

theorem itemPreface_ne_source {x : List Lexeme × ItemBody} (h : itemPreface x ≠ .source) :
    x.2.placeless ≠ .kept := by
  obtain ⟨seen, body⟩ := x
  cases body <;> first | exact (h rfl).elim | nofun

theorem ItemFront.visibility (h : ItemFront told s p) : VisibilityFollow s p :=
  .of_look h.toLook h.parenthesis

namespace Rereads

/-- An item is read again from behind its attributes. -/
theorem itemContent (hg : Rereadable g) :
    Rereads g m s Rule.itemContent Rule.itemContent (Prod.map id ItemBody.placeless)
      (Visible (ItemFront told) s)
      fun x s' k => (m = .written → itemPreface x ≠ .source) ∧ (told → BehindBraces s' k) := by
  refine look fun n => .of_forall fun n' p => ?_
  refine (visibility (ItemFront told)).bind_id (fun seen s₁ => ?_) fun p hp => hp
  refine ((itemBody hg _ _ _).bind fun body body' s₂ h => ?_).front_mono fun p hp => ⟨hp, hp.visibility⟩
  exact pure _ _ (congrArg (Prod.mk seen) h) fun k hk => ⟨fun hm => itemPreface_ne_source (hk.1 hm), hk.2⟩

/-- An item with its attributes is read again. -/
theorem item (hg : Rereadable g) :
    Rereads g m s Rule.item Rule.item OuterItem.placeless (ElementFront s) fun _ _ _ => True := by
  have hprefaced : Rereads g m s (Rule.prefaced itemPreface Rule.outerAttributes Rule.itemContent)
      (Rule.prefaced itemPreface Rule.outerAttributes Rule.itemContent)
      (Prod.map id (Prod.map id ItemBody.placeless)) (ElementFront s) fun _ _ _ => True := by
    let follow (_ : List Lexeme × ItemBody) (_ _ : List Lexeme) : Prop := True
    refine (prefaced itemPreface (fun _ _ => itemPreface_eq) (fun m =>
      outerAttributes hg (Visible (ItemFront False)))
      (fun m s' => (itemContent hg).mono (fun p hp hs =>
        ⟨hp, ((hp.look fun _ _ h => h.toLook).operator "#" rfl).trans hs⟩)
        fun _ _ _ hk => ⟨hk.1, False.elim⟩) (fun p hp => hp.element fun _ _ h =>
          h.look fun _ _ h => h.toLook) ?_ :
        Rereads g m s _ _ (Prod.map id (Prod.map id ItemBody.placeless)) _ fun x => follow x.2)
    rintro - r a r₁ ⟨seen, body⟩ r₂ - - - hdropped
    cases body <;> cases hdropped
  have hitem : Rereads g m s
      (do
        let start ← Rule.here
        let ((attributes, seen, body), text) ← Rule.prefacedItem
        let stop ← Rule.here
        return (⟨attributes, seen, ⟨body, text⟩, ⟨start, stop - 1⟩⟩ : OuterItem))
      (do
        let start ← Rule.here
        let ((attributes, seen, body), text) ← Rule.prefacedItem
        let stop ← Rule.here
        return (⟨attributes, seen, ⟨body, text⟩, ⟨start, stop - 1⟩⟩ : OuterItem))
          OuterItem.placeless (ElementFront s)
      fun _ _ _ => True := by
    refine here fun n => .of_forall fun n' _ => hprefaced.texted.bind fun x x' s₁ h => ?_
    refine here fun n₁ => .of_forall fun n₁' _ => pure _ _ ?_ fun _ _ => trivial
    obtain ⟨hcontent, htext⟩ := Prod.mk.inj h
    obtain ⟨hattributes, hcontent⟩ := Prod.mk.inj hcontent
    obtain ⟨hseen, hbody⟩ := Prod.mk.inj hcontent
    rw [OuterItem.placeless, OuterItem.placeless, show x'.1.1 = x.1.1 from hattributes,
      show x'.1.2.1 = x.1.2.1 from hseen, hbody, htext]
  exact hitem.congr (fun r _ => Rule.run_item_eq r) fun q _ => Rule.run_item_eq q

end Rereads

end TypedId.Grammar
