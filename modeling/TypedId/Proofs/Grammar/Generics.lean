import TypedId.Proofs.Grammar.Paths

/-!
Generic parameters and the conditions on them are read again.

A colon without bounds, brackets without parameters and a `where` without conditions are not
written. So a text may be read again without them, and then `false` is remembered where it was
`true` before; the results are compared accordingly.
-/

namespace TypedId.Grammar

open Lexeme

variable {g : PhraseReader} {m : Rendition} {s p : List Lexeme} {α β γ : Type}

/-! ### Bounds that may be left out -/

/-- Reads bounds behind a colon, or nothing; tells whether there were bounds behind a colon. -/
def Rule.optionalBounds (bounds : Rule (List α)) : Rule (Option Bool) := do
  if ← operator? ":" then return some (← bounds).isEmpty else return none

/-- Bounds behind a colon are read with the colon and written unless there are none. -/
theorem Rule.run_bounds?_eq (bounds : Rule (List α)) (r : Reader) :
    (bounds? bounds).run g r =
      (unwrittenIf (· == some true) (optionalBounds bounds) >>= fun found => pure found.isSome).run g r := by
  rw [bounds?, unwrittenIf, run_bind, run_bind, run_bind, optionalBounds]
  split
  · next x r' hrun =>
    dsimp only
    split
    · rw [run_pure, run_pure]
      rfl
    · rw [run_bind_of_ok (run_write ..), run_bind_of_ok (run_write ..)]
      rfl
  · rfl

/-- What stands where bounds may be left out: a colon and bounds, or what follows them. -/
def BoundsFront (start ending : List Lexeme → List Lexeme → Prop) (s p : List Lexeme) : Prop :=
  Spelt [':'] start s p ∨ ending s p ∨ (sees ":" s = true ∧ ∃ s', ending s' p)

namespace Rereads

/-- Lists that agree up to positions are empty together. -/
theorem isEmpty_of_map_eq {f : α → β} {xs ys : List α} (h : ys.map f = xs.map f) :
    ys.isEmpty = xs.isEmpty := by
  rw [← List.isEmpty_map (f := f), h, List.isEmpty_map]

/-- Bounds are read again that may be left out. -/
theorem bounds? {bounds : Rule (List α)} {start ending : List Lexeme → List Lexeme → Prop}
    (keep : Bool → γ)
    (hbounds : ∀ m s, Rereads g m s bounds bounds List.isEmpty (start s) fun _ => ending)
    (hending : ∀ s k, ending s k → sees ":" s = false ∧ sees ":" k = false) :
    Rereads g m s (Rule.bounds? bounds) (Rule.bounds? bounds) keep (BoundsFront start ending s)
      fun a s' k => (m = .written → keep a = keep false) ∧ ending s' k := by
  have hoptional : ∀ m, Rereads g m s (Rule.optionalBounds bounds) (Rule.optionalBounds bounds) id
      (fun p => Spelt [':'] start s p ∨ (sees ":" s = false ∧ ending s p)) fun _ => ending := by
    intro m
    unfold Rule.optionalBounds
    refine operator? (fun p hp => ?_) (fun _ => ?_) fun hs => ?_
    · rcases hp with hp | ⟨hs, hp⟩
      · exact hp.startsWith.2.trans hp.startsWith.1.symm
      · rw [hs, (hending _ _ hp).2]
    · refine operator_then ":" start (fun s' => ?_) fun p hp => .inl hp
      simp only [if_true]
      refine (hbounds m s').bind fun found found' s₂ hfound => pure _ _ ?_ fun k hk => hk
      rw [id, id, hfound]
    · exact pure _ _ rfl fun k hk => .inr ⟨hs, hk⟩
  let keep₂ (found : Option Bool) : γ := keep found.isSome
  have hunwritten : Rereads g m s (Rule.unwrittenIf (· == some true) (Rule.optionalBounds bounds))
      (Rule.unwrittenIf (· == some true) (Rule.optionalBounds bounds)) keep₂
      (BoundsFront start ending s)
      fun found s' k => (m = .written → keep₂ found = keep false) ∧ ending s' k := by
    refine unwrittenIf (· == some true) none (fun found found' h => ?_) (fun p hp => ?_)
      (fun m' => (hoptional m').follow_mono fun _ _ _ hk => hk.2.2) fun hm r found r' k hr hrun hd hk => ?_
    · obtain rfl : found' = found := h
      exact ⟨rfl, rfl⟩
    · exact hp.imp_right fun h => .inl h.2
    · obtain rfl : found = some true := by simpa using hd
      refine ⟨.inr (.inr ⟨?_, _, hk.2⟩), (hk.1 hm).symm, fun q hq => ?_⟩
      · rw [← hr]
        cases hsees : sees ":" r.rest with
        | true => rfl
        | false =>
            rw [Rule.optionalBounds, Rule.run_bind_of_ok (Rule.run_operator?_of_not_sees hsees)] at hrun
            cases hrun
      · rw [Rule.optionalBounds,
          Rule.run_bind_of_ok (Rule.run_operator?_of_not_sees (hq ▸ (hending _ _ hk.2).2))]
        rfl
  have hthen : Rereads g m s
      (Rule.unwrittenIf (· == some true) (Rule.optionalBounds bounds) >>=
        fun found => Pure.pure found.isSome)
      (Rule.unwrittenIf (· == some true) (Rule.optionalBounds bounds) >>=
        fun found => Pure.pure found.isSome)
      keep (BoundsFront start ending s)
      fun a s' k => (m = .written → keep a = keep false) ∧ ending s' k :=
    hunwritten.bind fun _ _ _ h => pure _ _ h fun _ hk => hk
  exact hthen.congr (fun r _ => Rule.run_bounds?_eq bounds r) fun q _ => Rule.run_bounds?_eq bounds q

end Rereads

/-! ### Parameters -/

/-- Both texts go on behind a parameter in angle brackets. -/
def AngleStops (s k : List Lexeme) : Prop := AngleStop s ∧ AngleStop k

/-- How a parameter looks at its beginning. -/
structure ParameterFront (s p : List Lexeme) : Prop extends Look s p where
  behindLifetime : seesLifetime s = true → Rule.behindParameter (second p) = true
  behindWord : seesIdentifier s = true → Rule.behindParameter (second s) = true →
    Rule.behindParameter (second p) = true

/-- What stands behind the bounds of a parameter. -/
def Defaulted (s k : List Lexeme) : Prop :=
  Spelt ['='] (fun _ _ => True) s k ∨ AngleStops s k

/-- A colon may stand behind the name of a parameter. -/
theorem Rule.behindParameter_colon {ls : List Lexeme} (h : seesColon ls = true) :
    behindParameter ls = true := by
  simp [behindParameter, h]

/-- So may what ends a thing in angle brackets. -/
theorem AngleStop.behindParameter {ls : List Lexeme} (h : AngleStop ls) :
    Rule.behindParameter ls = true := by
  obtain ⟨c, joint, ls', rfl, rfl | rfl⟩ := exists_of_angleStop h <;> rfl

theorem AngleStops.colon {k : List Lexeme} (h : AngleStops s k) :
    sees ":" s = false ∧ sees ":" k = false :=
  ⟨h.1.not_sees (by decide) [], h.2.not_sees (by decide) []⟩

/-- Where a default may stand, no colon comes. -/
theorem Defaulted.colon {k : List Lexeme} (h : Defaulted s k) :
    sees ":" s = false ∧ sees ":" k = false := by
  rcases h with ⟨_, _, _, _, rfl, rfl, -⟩ | h
  · exact ⟨rfl, rfl⟩
  · exact h.colon

/-- Whether a default follows is seen alike. -/
theorem Defaulted.equality {k : List Lexeme} (h : Defaulted s k) : sees "=" k = sees "=" s := by
  rcases h with ⟨_, _, _, _, rfl, rfl, -⟩ | ⟨hs, hk⟩
  · rfl
  · exact (hk.not_sees (by decide) []).trans (hs.not_sees (by decide) []).symm

/-- A default or the end of a parameter may follow a type. -/
theorem Defaulted.type {k : List Lexeme} (h : Defaulted s k) : TypeFollow s k := by
  rcases h with ⟨_, _, _, _, rfl, rfl, -⟩ | ⟨-, hk⟩
  · exact .of_equals _ _ _ _
  · exact hk.type

/-- Where a colon is no longer seen, nothing is seen that is doubled. -/
theorem Uncoloned.of_not_sees {k : List Lexeme} (hs : sees ":" s = false) (hk : sees ":" k = false) :
    Uncoloned s k := by
  have hdouble : ∀ {ls : List Lexeme}, sees ":" ls = false → sees "::" ls = false := by
    intro ls hls
    cases hcolons : sees "::" ls with
    | false => rfl
    | true =>
        obtain ⟨joint, ls', rfl⟩ := exists_of_seesColons hcolons
        cases hls
  refine ⟨hk.trans hs.symm, (hdouble hk).trans (hdouble hs).symm, ?_⟩
  rw [Rule.seesColon, hs]
  rfl

/-- A parameter that begins with a keyword. -/
theorem Worded.keyword {w : String} {rest : List Lexeme → List Lexeme → Prop} (h : Worded w rest s p)
    (hw : isIdentifier w = false) : ParameterFront s p := by
  obtain ⟨s', p', rfl, rfl, -⟩ := h
  exact ⟨look_word w s' p', fun h => Bool.noConfusion h,
    fun h => Bool.noConfusion (hw.symm.trans h)⟩

namespace Rereads

/-- A parameter for a lifetime is read again. -/
theorem lifetimeParameter :
    Rereads g m s Rule.lifetimeParameter Rule.lifetimeParameter id (ParameterFront s)
      fun _ => AngleStops := by
  let stop (ls : List Lexeme) : Bool := sees "," ls || sees ">" ls
  let start (s p : List Lexeme) : Prop := stop p = stop s ∧ sees ":" p = false
  have hlifetimes : ∀ m s, Rereads g m s (Rule.joined "+" stop Rule.lifetime)
      (Rule.joined "+" stop Rule.lifetime) List.isEmpty (start s) fun _ => AngleStops := by
    intro m s
    refine ((joined (fun _ => ()) start (fun s p => sees "+" p = sees "+" s)
      (fun _ _ h => h.1) (fun _ _ => id) (fun s p h => h.startsWith.2.trans h.startsWith.1.symm)
      (by decide) fun s hs => ?_).follow_mono fun _ s' k hk => ?_).keep_mono fun _ _ => isEmpty_of_map_eq
    · refine lifetime.front_mono fun p ⟨_, w, s', p', hs', hp, _⟩ => ?_
      subst hs' hp
      exact ⟨rfl, rfl⟩
    · have hplus := fun ls (h : AngleStop ls) => h.not_sees (c := '+') (by decide) []
      refine ⟨fun hs => ⟨?_, hk.colon.2⟩, fun _ => (hplus _ hk.2).trans (hplus _ hk.1).symm⟩
      exact ((Bool.or_eq_true _ _).mpr hk.2).trans hs.symm
  unfold Rule.lifetimeParameter
  refine lifetime_then (BoundsFront start AngleStops) (fun _ _ s' => ?_) fun p hp => ?_
  · refine (bounds? (fun _ => ()) hlifetimes fun _ _ => AngleStops.colon).bind fun _ _ _ _ =>
      pure _ _ rfl fun k hk => ⟨fun _ => rfl, hk⟩
  · refine ⟨hp.look, fun _ => ?_, fun h => ?_⟩ <;> obtain ⟨w, s', p', rfl, rfl, hp⟩ := hp
    · show Rule.behindParameter p' = true
      rcases hp with ⟨joint, joint', s₂, p₂, rfl, rfl, -, -, hp₂⟩ | hp | ⟨-, _, hp⟩
      · exact Rule.behindParameter_colon (by rw [Rule.seesColon_punct, hp₂, Bool.and_false]; rfl)
      · exact hp.2.behindParameter
      · exact hp.2.behindParameter
    · cases h

/-- A parameter for a type is read again. -/
theorem typeParameter (hg : Rereadable g) :
    Rereads g m s Rule.typeParameter Rule.typeParameter id (ParameterFront s) fun _ => AngleStops := by
  let stop (ls : List Lexeme) : Bool := sees "," ls || sees ">" ls || sees "=" ls
  let start (s p : List Lexeme) : Prop := Uncoloned s p ∧ stop p = stop s
  have hbounds : ∀ m s, Rereads g m s (Rule.joined "+" stop (Rule.call (.bound false true)))
      (Rule.joined "+" stop (Rule.call (.bound false true))) List.isEmpty (start s)
      fun _ => Defaulted := by
    intro m s
    refine ((joinedBounds hg fun s p h => ?_).follow_mono fun _ s' k hk => ?_).keep_mono
      fun _ _ => isEmpty_of_map_eq
    · simp only [stop, h.operator "," rfl, h.operator ">" rfl, h.operator "=" rfl]
    · refine ⟨fun _ => ⟨.of_not_sees hk.colon.1 hk.colon.2, ?_⟩, fun _ => hk.type⟩
      rcases hk with ⟨_, _, _, _, rfl, rfl, -⟩ | ⟨-, hk⟩
      · rfl
      · simp only [stop, (Bool.or_eq_true _ _).mpr hk, Bool.true_or]
  unfold Rule.typeParameter
  refine identifier_then (fun _ => BoundsFront start Defaulted) (fun _ _ _ s' => ?_) fun w p _ hp => ?_
  · refine (bounds? (fun _ => ()) hbounds fun _ _ => Defaulted.colon).bind fun _ _ s₂ _ => ?_
    refine (?_ : Rereads g m s₂ _ _ _ (Defaulted s₂) _).front_mono fun k hk => ⟨fun _ => rfl, hk⟩
    refine operator? (fun p hp => hp.equality) (fun _ => ?_) fun _ => pure _ _ rfl fun k hk => .inr hk
    refine operator_then "=" (fun _ _ => True) (fun s₃ => ?_) fun p hp => .inl hp
    refine ((hg.plainType m s₃ true).bind fun _ _ s₄ _ => ?_).front_mono fun _ _ => trivial
    exact pure _ _ rfl fun k hk => hk.2.type
  · obtain ⟨s', p', rfl, rfl, hp⟩ := hp
    refine ⟨look_word w s' p', fun h => Bool.noConfusion h, fun _ hs => ?_⟩
    replace hs : Rule.behindParameter s' = true := hs
    show Rule.behindParameter p' = true
    have hending : ∀ {ls}, Defaulted ls p' → Rule.behindParameter p' = true := by
      rintro _ (⟨_, _, _, _, rfl, rfl, -⟩ | ⟨-, hp⟩)
      · simp [Rule.behindParameter, sees, startsWith]
      · exact hp.behindParameter
    rcases hp with ⟨joint, joint', s₂, p₂, rfl, rfl, hjoint, hcolon, -⟩ | hp | ⟨-, _, hp⟩
    · have hs₂ : Rule.seesColon (punct ':' joint :: s₂) = true := by
        simpa [Rule.behindParameter, sees, startsWith] using hs
      refine Rule.behindParameter_colon ?_
      rw [Rule.seesColon_punct] at hs₂ ⊢
      rw [hcolon.single]
      cases joint' with
      | false => rfl
      | true => rwa [hjoint rfl] at hs₂
    · exact hending hp
    · exact hending hp

/-- A parameter for a value is read again. -/
theorem constParameter (hg : Rereadable g) :
    Rereads g m s Rule.constParameter Rule.constParameter id (Worded "const" (fun _ _ => True) s)
      fun _ => AngleStops := by
  unfold Rule.constParameter
  refine keyword_then "const" (fun _ _ => True) (fun s' => ?_) fun p hp => hp
  refine identifier_then (fun _ _ _ => True) (fun _ _ _ s₂ => ?_) fun _ _ _ _ => trivial
  refine operator_then ":" (fun _ _ => True) (fun s₃ => ?_) fun _ _ => trivial
  refine ((hg.plainType m s₃ true).bind fun _ _ s₄ _ => ?_).front_mono fun _ _ => trivial
  refine (?_ : Rereads g m s₄ _ _ _ (Defaulted s₄) _).front_mono fun k hk => hk.type
  refine operator? (fun p hp => hp.equality) (fun _ => ?_) fun _ => pure _ _ rfl fun k hk => .inr hk
  exact operator_then "=" Look (fun s₅ => constArgument hg) fun p hp =>
    .inl (Spelt.mono hp fun _ _ _ => trivial)

/-- A parameter is read again, of whichever kind it is. -/
theorem genericParameter (hg : Rereadable g) (kinds : List Expectation) (wildcard : Bool) :
    Rereads g m s (Rule.genericParameter kinds wildcard) (Rule.genericParameter kinds wildcard) id
      (ParameterFront s) fun _ => AngleStops := by
  unfold Rule.genericParameter
  dsimp only
  refine ((outerAttributes hg ParameterFront).bind fun _ _ s' _ => ?_).front_mono fun p hp => ?_
  · refine (?_ : Rereads g m s' _ _ _ (ParameterFront s') _).front_mono
      fun p hp hs => ⟨hp, (hp.operator "#" rfl).trans hs⟩
    refine ahead (.sight (fun _ p hp => hp.lifetime) (fun _ => ?_) fun _ => ?_)
    · exact lifetimeParameter.bind fun _ _ _ _ => pure _ _ rfl fun k hk => hk
    refine .sight (fun _ p hp => hp.identifier) (fun _ => ?_) fun _ => ?_
    · exact (typeParameter hg).bind fun _ _ _ _ => pure _ _ rfl fun k hk => hk
    refine .sight (fun _ p hp => hp.word _) (fun _ => ?_) fun _ => ?_
    · refine ((constParameter hg).bind fun _ _ _ _ => pure _ _ rfl fun k hk => hk).front_mono
        fun p hp => hp.keyword (by decide)
    refine .sight (fun _ p hp => by rw [hp.word]) (fun hs => ?_) fun _ => ?_
    · obtain ⟨-, hs⟩ := (Bool.and_eq_true _ _).mp hs
      obtain ⟨s₂, rfl⟩ := exists_of_seesWord hs
      refine anyWord_then (fun _ _ _ => True) (fun _ _ _ _ => pure _ _ rfl fun _ _ => trivial)
        fun w p hp => ?_
      obtain ⟨s', p', h, rfl, -⟩ := hp
      cases h
      exact Worded.keyword (⟨s₂, p', rfl, rfl, trivial⟩ : Worded _ (fun _ _ => True) _ _) (by decide)
    · exact .expected_then _ _
  · rcases hp with hp | ⟨-, -, hp⟩
    · obtain ⟨joint, joint', s', p', rfl, rfl, hjoint, hp⟩ := hp
      exact ⟨look_punct (by decide) fun h => absurd h (by decide), fun h => Bool.noConfusion h,
        fun h => Bool.noConfusion h⟩
    · exact hp

end Rereads

/-- An angle bracket before a parameter begins parameters in the second text, too. -/
theorem ParameterFront.parameters (h : ParameterFront s p) (joint joint' : Bool)
    (hs : Rule.seesParameters (punct '<' joint :: s) = true) :
    Rule.seesParameters (punct '<' joint' :: p) = true := by
  rw [Rule.seesParameters_punct] at hs ⊢
  rw [h.operator ">" rfl, h.operator "#" rfl, h.word, h.lifetime, h.identifier]
  simp only [Bool.or_eq_true, Bool.and_eq_true] at hs ⊢
  refine hs.imp_right fun ⟨hkind, hbehind⟩ => ⟨hkind, ?_⟩
  exact hkind.elim h.behindLifetime fun h' => h.behindWord h' hbehind

/-- What begins with the parameters that a type is general in, or with what is told by `rest`. -/
def BinderFront (rest : List Lexeme → List Lexeme → Prop) (s p : List Lexeme) : Prop :=
  Worded "for" (Spelt ['<'] ParameterFront) s p ∨
    (seesWord "for" s = false ∧ seesWord "for" p = false ∧ rest s p)

namespace Rereads

/-- The parameters that a type is general in are read again, which may be left out. -/
theorem binder? (hg : Rereadable g) (rest : List Lexeme → List Lexeme → Prop) :
    Rereads g m s Rule.binder? Rule.binder? id (BinderFront rest s) fun found s' k =>
      found = false → seesWord "for" s' = false → seesWord "for" k = false ∧ rest s' k := by
  unfold Rule.binder?
  refine keyword? (fun p hp => ?_) (fun hs => ?_) fun hs => ?_
  · rcases hp with ⟨s', p', rfl, rfl, -⟩ | ⟨hs, hp, -⟩
    · rfl
    · rw [hs, hp]
  · refine keyword_then "for" (Spelt ['<'] ParameterFront) (fun s' => ?_) fun p hp => .inl hp
    refine operator_then "<" ParameterFront (fun s₂ => ?_) fun p hp => hp
    let behind (s p : List Lexeme) : Prop := AngleStops s p ∧ sees ">" p = sees ">" s
    have hparameters : ∀ s, Rereads g m s _ _ _ (ParameterFront s) _ := fun s =>
      separated id ParameterFront behind (fun s p h => h.operator ">" rfl) (fun s p h => h.2)
        (fun s _ => (genericParameter hg [.identifier, .lifetime, .keyword "const"] false).follow_mono
          fun _ _ _ hk => hk.1)
        (fun s _ => (operator ",").front_mono fun p hp => ?_) fun s => operator_solid "," (by decide)
    · refine (hparameters s₂).bind fun _ _ s₃ _ => ?_
      refine operator_then ">" (fun _ _ => True) (fun s₄ => ?_) fun p hp _ => ?_
      · exact pure _ _ rfl fun k hk => trivial
      · obtain ⟨joint, joint', s₄, p', rfl, rfl, -⟩ : Spelt ['>'] _ _ _ := hp
        refine ⟨⟨look_punct (by decide) fun h => absurd h (by decide), fun h => Bool.noConfusion h,
          fun h => Bool.noConfusion h⟩, ⟨.inr rfl, .inr rfl⟩, rfl⟩
    · obtain ⟨joint, joint', s₄, p', rfl, rfl, -⟩ : Spelt [','] _ _ _ := hp
      exact ⟨⟨.inl rfl, .inl rfl⟩, rfl⟩
  · exact pure _ _ rfl fun k hk => .inr ⟨hs, (hk rfl hs).1, (hk rfl hs).2⟩

end Rereads

/-! ### Parameters that may be left out -/

/-- Reads a parameter of an item. -/
@[reducible] def Rule.itemParameter : Rule Bool :=
  genericParameter [.lifetime, .identifier, .keyword "const"] true

/-- Reads the parameters of an item, or nothing; tells whether there were brackets and none. -/
def Rule.optionalParameters : Rule (Option Bool) := do
  if sees "<" (← ahead) then
    return some (← angleBrackets (operator ",") itemParameter).isEmpty
  else return none

/-- Parameters are read with their brackets and written unless there are none. -/
theorem Rule.run_genericParameters_eq (r : Reader) :
    genericParameters.run g r =
      (unwrittenIf (· == some true) optionalParameters >>= fun found => pure found.isSome).run g r := by
  have hoptional : optionalParameters.run g r.unwritten =
      (if sees "<" r.rest = true then do
        let items ← angleBrackets (operator ",") itemParameter
        return some items.isEmpty
      else return none : Rule (Option Bool)).run g r.unwritten := run_bind_of_ok (run_ahead _) _
  rw [genericParameters, unwrittenIf, run_bind_of_ok (run_ahead r), run_bind, run_bind]
  cases hs : sees "<" r.rest with
  | false =>
      rw [hs] at hoptional
      rw [run_hold_of_ok hoptional]
      rfl
  | true =>
      rw [hs, if_pos rfl, run_bind] at hoptional
      dsimp only
      rw [if_pos rfl, run_bind]
      cases hrun : (angleBrackets (operator ",") itemParameter).run g r.unwritten with
      | error fault =>
          rw [hrun] at hoptional
          rw [run_hold_of_error hrun, run_hold_of_error hoptional]
      | ok x =>
          rw [hrun] at hoptional
          rw [run_hold_of_ok hrun, run_hold_of_ok hoptional]
          dsimp only
          cases x.1.isEmpty with
          | true => rfl
          | false =>
              simp only [Bool.false_eq_true, if_false]
              rw [run_bind_of_ok (run_write ..)]
              have hkept : (some false == some true) = false := rfl
              rw [hkept, if_neg Bool.false_ne_true, run_bind_of_ok (run_write ..)]
              rfl

/-- Parameters of items may stand in angle brackets in any order. -/
theorem angleElement_itemParameter (hg : Rereadable g) :
    AngleElement g Rule.itemParameter ParameterFront :=
  ⟨fun _ _ _ => Rereads.genericParameter hg _ true, fun _ _ h => h.toLook⟩

namespace Rereads

/-- The parameters of an item are read again, which may be left out. -/
theorem genericParameters (hg : Rereadable g) (keep : Bool → γ) :
    Rereads g m s Rule.genericParameters Rule.genericParameters keep (fun _ => True)
      fun a _ k => (m = .written → keep a = keep false) ∧ sees "<" k = false := by
  have hoptional : ∀ m, Rereads g m s Rule.optionalParameters Rule.optionalParameters id
      (fun p => sees "<" p = sees "<" s) fun _ _ k => sees "<" k = false := by
    intro m
    refine ahead (.sight (fun _ p hp => hp) (fun hs => ?_) fun hs => ?_)
    · refine ((angleBrackets (angleElement_itemParameter hg) angleSeparator_comma :
        Rereads g m s _ _ _ _ fun _ _ _ => True).bind fun found found' s' h => ?_).front_mono fun p hp => ?_
      · exact pure _ _ (congrArg some h) fun _ _ => trivial
      · exact hp.look.2.2.trans hp.look.2.1.symm
    · exact pure _ _ rfl fun k hk => hk.trans hs.symm
  let keep₂ (found : Option Bool) : γ := keep found.isSome
  have hunwritten : Rereads g m s (Rule.unwrittenIf (· == some true) Rule.optionalParameters)
      (Rule.unwrittenIf (· == some true) Rule.optionalParameters) keep₂ (fun _ => True)
      fun found _ k => (m = .written → keep₂ found = keep false) ∧ sees "<" k = false := by
    refine unwrittenIf (· == some true) none (fun found found' h => ?_) (fun _ _ => trivial)
      (fun m' => (hoptional m').follow_mono fun _ _ _ hk => hk.2.2) fun hm r found r' k _ _ _ hk => ?_
    · obtain rfl : found' = found := h
      exact ⟨rfl, rfl⟩
    · refine ⟨trivial, (hk.1 hm).symm, fun q hq => ?_⟩
      rw [Rule.optionalParameters, Rule.run_bind_of_ok (Rule.run_ahead q), hq, hk.2]
      rfl
  have hthen : Rereads g m s
      (Rule.unwrittenIf (· == some true) Rule.optionalParameters >>= fun found => Pure.pure found.isSome)
      (Rule.unwrittenIf (· == some true) Rule.optionalParameters >>= fun found => Pure.pure found.isSome)
      keep (fun _ => True) fun a _ k => (m = .written → keep a = keep false) ∧ sees "<" k = false :=
    hunwritten.bind fun _ _ _ h => pure _ _ h fun _ hk => hk
  exact hthen.congr (fun r _ => Rule.run_genericParameters_eq r) fun q _ =>
    Rule.run_genericParameters_eq q

end Rereads

/-! ### Conditions -/

/-- What stands behind the conditions of an item. -/
inductive ClauseEnd (s k : List Lexeme) : Prop where
  | brace (h : Bracketed .brace s k)
  | semicolon (h : Spelt [';'] (fun _ _ => True) s k)
  | equals (h : Spelt ['='] (fun _ _ => True) s k)

/-- What stands behind a condition. -/
def ConditionEnd (s k : List Lexeme) : Prop :=
  Spelt [','] (fun _ _ => True) s k ∨ ClauseEnd s k

/-- How a condition looks at its beginning. -/
structure ConditionFront (s p : List Lexeme) : Prop extends Look s p where
  parameters : Rule.seesParameters p = Rule.seesParameters s
  colon : seesLifetime s = true → sees ":" (second p) = sees ":" (second s)

/-- Where conditions may be left out stand `where` and conditions, or what follows them. What was
written may lack `where` without conditions. -/
def WhereFront (m : Rendition) (ending rest : List Lexeme → List Lexeme → Prop) (s p : List Lexeme) :
    Prop :=
  Worded "where" (fun _ _ => True) s p ∨
    (m = .written ∧ seesWord "where" s = true ∧ ∃ s', ending s' p) ∨
    (seesWord "where" s = false ∧ rest s p)

/-- Behind a condition stands one lexeme, or two that differ in their joints. -/
theorem ConditionEnd.cases {k : List Lexeme} (h : ConditionEnd s k) :
    (∃ s' k', s = opening .brace :: s' ∧ k = opening .brace :: k') ∨
      ∃ c joint joint' s' k', s = punct c joint :: s' ∧ k = punct c joint' :: k' ∧
        c ∈ [',', ';', '='] := by
  rcases h with ⟨joint, joint', s', k', rfl, rfl, -⟩ | ⟨s', k', rfl, rfl, -⟩ |
    ⟨joint, joint', s', k', rfl, rfl, -⟩ | ⟨joint, joint', s', k', rfl, rfl, -⟩
  · exact .inr ⟨_, joint, joint', s', k', rfl, rfl, by decide⟩
  · exact .inl ⟨s', k', rfl, rfl⟩
  · exact .inr ⟨_, joint, joint', s', k', rfl, rfl, by decide⟩
  · exact .inr ⟨_, joint, joint', s', k', rfl, rfl, by decide⟩

/-- Behind a condition comes what may follow a type. -/
theorem ConditionEnd.type {k : List Lexeme} (h : ConditionEnd s k) : TypeFollow s k := by
  rcases h.cases with ⟨s', k', rfl, rfl⟩ | ⟨c, joint, joint', s', k', rfl, rfl, hc⟩
  · exact .of_brace _ k'
  · simp only [List.mem_cons, List.not_mem_nil, or_false] at hc
    rcases hc with rfl | rfl | rfl
    · exact .of_punct (by decide) _ _ _
    · exact .of_punct (by decide) _ _ _
    · exact .of_equals _ _ _ _

/-- No colon stands behind a condition. -/
theorem ConditionEnd.colon {k : List Lexeme} (h : ConditionEnd s k) :
    sees ":" s = false ∧ sees ":" k = false := by
  rcases h.cases with ⟨s', k', rfl, rfl⟩ | ⟨c, joint, joint', s', k', rfl, rfl, hc⟩
  · exact ⟨rfl, rfl⟩
  · simp only [List.mem_cons, List.not_mem_nil, or_false] at hc
    rcases hc with rfl | rfl | rfl <;> exact ⟨rfl, rfl⟩

/-- No plus does. -/
theorem ConditionEnd.plus {k : List Lexeme} (h : ConditionEnd s k) :
    sees "+" s = false ∧ sees "+" k = false := by
  rcases h.cases with ⟨s', k', rfl, rfl⟩ | ⟨c, joint, joint', s', k', rfl, rfl, hc⟩
  · exact ⟨rfl, rfl⟩
  · simp only [List.mem_cons, List.not_mem_nil, or_false] at hc
    rcases hc with rfl | rfl | rfl <;> exact ⟨rfl, rfl⟩

/-- A condition ends where the next one or what it belongs to begins. -/
theorem ConditionEnd.ends {k : List Lexeme} (h : ConditionEnd s k) :
    Rule.endsConditions s = true ∧ Rule.endsConditions k = true := by
  rcases h.cases with ⟨s', k', rfl, rfl⟩ | ⟨c, joint, joint', s', k', rfl, rfl, hc⟩
  · exact ⟨rfl, rfl⟩
  · simp only [List.mem_cons, List.not_mem_nil, or_false] at hc
    rcases hc with rfl | rfl | rfl <;> exact ⟨rfl, rfl⟩

theorem Look.endsConditions (h : Look s p) : Rule.endsConditions p = Rule.endsConditions s := by
  simp only [Rule.endsConditions, h.ends, h.group, List.any_cons, List.any_nil, h.operator "," rfl,
    h.operator ";" rfl, h.operator "=" rfl]

theorem Look.seesColon (h : Look s p) : Rule.seesColon p = Rule.seesColon s :=
  seesColon_eq (h.char ':') h.colons

namespace Rereads

/-- A condition on a lifetime is read again. -/
theorem lifetimeCondition :
    Rereads g m s
      (do
        let _ ← Rule.lifetime
        Rule.operator ":"
        let _ ← Rule.joined "+" (fun ls => Rule.endsConditions ls || sees ":" ls) Rule.lifetime)
      (do
        let _ ← Rule.lifetime
        Rule.operator ":"
        let _ ← Rule.joined "+" (fun ls => Rule.endsConditions ls || sees ":" ls) Rule.lifetime)
      id (Lifelong (Spelt [':'] fun _ _ => True) s) fun _ => ConditionEnd := by
  let stop (ls : List Lexeme) : Bool := Rule.endsConditions ls || sees ":" ls
  have hlifetimes : ∀ s, Rereads g m s (Rule.joined "+" stop Rule.lifetime)
      (Rule.joined "+" stop Rule.lifetime) (List.map fun _ => ()) (fun p => stop p = stop s)
      fun _ => ConditionEnd := by
    intro s
    refine (joined _ (fun s p => stop p = stop s) (fun s p => sees "+" p = sees "+" s)
      (fun _ _ => id) (fun _ _ => id) (fun s p h => h.startsWith.2.trans h.startsWith.1.symm)
      (by decide) fun s hs => ?_).follow_mono fun _ s' k hk => ?_
    · refine lifetime.front_mono fun p ⟨_, w, s', p', hs', hp, _⟩ => ?_
      subst hs' hp
      rfl
    · refine ⟨fun hs => ?_, fun _ => hk.plus.2.trans hk.plus.1.symm⟩
      simp only [stop, hk.ends, hk.colon]
  refine lifetime_then (Spelt [':'] fun _ _ => True) (fun _ _ s' => ?_) fun p hp => hp
  refine operator_then ":" (fun _ _ => True) (fun s₂ => ?_) fun p hp => hp
  exact ((hlifetimes s₂).bind fun _ _ _ _ => pure _ _ rfl fun k hk => hk).front_mono fun _ _ => trivial

/-- A condition on a type is read again. -/
theorem typeCondition (hg : Rereadable g) :
    Rereads g m s
      (do
        let _ ← Rule.binder?
        let _ ← Rule.call (.type true)
        Rule.operator ":"
        let _ ← Rule.joined "+" (fun ls => Rule.endsConditions ls || Rule.seesColon ls)
          (Rule.call (.bound false true)))
      (do
        let _ ← Rule.binder?
        let _ ← Rule.call (.type true)
        Rule.operator ":"
        let _ ← Rule.joined "+" (fun ls => Rule.endsConditions ls || Rule.seesColon ls)
          (Rule.call (.bound false true)))
      id (BinderFront (TypeFront False) s) fun _ => ConditionEnd := by
  refine (binder? hg (TypeFront False)).bind fun _ _ s' _ => ?_
  refine (?_ : Rereads g m s' _ _ _ (TypeFront False s') _).front_mono
    fun p hp _ hfor => ⟨(hp.word _).trans hfor, hp⟩
  refine (hg.plainType m s' true).bind fun _ _ s₂ _ => ?_
  refine operator_then ":" Uncoloned (fun s₃ => ?_) fun p hp => .of_coloned hp
  refine ((joinedBounds hg fun s p h => ?_).bind fun _ _ s₄ _ => ?_).front_mono fun p hp => hp.1
  · rw [h.endsConditions, h.seesColon]
  · refine pure _ _ rfl fun k hk => ⟨fun _ => ⟨.of_not_sees hk.colon.1 hk.colon.2, ?_⟩, fun _ => hk.type⟩
    rw [hk.ends.2]
    rfl

/-- A condition is read again. -/
theorem condition (hg : Rereadable g) :
    Rereads g m s Rule.condition Rule.condition id (ConditionFront s) fun _ => ConditionEnd := by
  refine ahead (.sight (fun _ p hp => ?_) (fun hs => ?_) fun hs => ?_)
  · rw [hp.lifetime]
    cases hlifetime : seesLifetime s with
    | true => rw [hp.colon hlifetime]
    | false => rfl
  · refine lifetimeCondition.front_mono fun p hp => ⟨hp.look, ?_, fun _ => ?_⟩ <;>
      obtain ⟨w, s', p', rfl, rfl, hp⟩ := hp
    · rfl
    · exact hp.startsWith.2.trans hp.startsWith.1.symm
  · refine (typeCondition hg).front_mono fun p hp => ?_
    rcases hp with ⟨s', p', rfl, rfl, -⟩ | ⟨-, -, hp⟩
    · exact ⟨look_word "for" s' p', rfl, fun h => Bool.noConfusion h⟩
    · refine ⟨hp.toLook, hp.parameters, fun hlifetime => ?_⟩
      have hplus : ∀ ls, sees "+" ls = true → sees ":" ls = false := by
        intro ls hls
        obtain ⟨joint, ls', rfl⟩ := exists_of_sees (c := '+') hls
        rfl
      exact (hplus _ (hp.object hlifetime).2).trans (hplus _ (hp.object hlifetime).1).symm

end Rereads

/-- Reads the conditions of an item, or nothing; tells how many conditions there were. -/
def Rule.optionalConditions : Rule (Option Nat) := do
  if ← keyword? "where" then
    if seesParameters (← ahead) then complain .genericWhere
    let conditions ← joined "," (fun ls => endsConditions ls || seesColon ls) condition
    return some conditions.length
  else return none

/-- Conditions are read with `where` and written unless there are none. -/
theorem Rule.run_whereClause_eq (r : Reader) :
    whereClause.run g r =
      (unwrittenIf (Option.all (· == 0)) optionalConditions >>= fun found => pure found.isSome).run g r := by
  rw [whereClause, unwrittenIf, run_bind, run_bind, run_bind]
  split
  · next x r' hrun =>
    rw [show (hold optionalConditions).run g r = _ from hrun]
    dsimp only
    split
    · rfl
    · rw [run_bind_of_ok (run_write ..), run_bind_of_ok (run_write ..)]
      rfl
  · next hrun =>
    rw [show (hold optionalConditions).run g r = _ from hrun]

/-- Conditions are not followed by further ones. -/
theorem ClauseEnd.not_where {k : List Lexeme} (h : ClauseEnd s k) : seesWord "where" k = false := by
  rcases ConditionEnd.cases (.inr h) with ⟨_, _, -, rfl⟩ | ⟨_, _, _, _, _, -, rfl, -⟩ <;> rfl

/-- No list of parameters stands behind conditions. -/
theorem ClauseEnd.parameters {k : List Lexeme} (h : ClauseEnd s k) :
    Rule.seesParameters s = false ∧ Rule.seesParameters k = false := by
  rcases h with ⟨_, _, rfl, rfl, -⟩ | ⟨_, _, _, _, rfl, rfl, -⟩ | ⟨_, _, _, _, rfl, rfl, -⟩ <;>
    exact ⟨rfl, rfl⟩

theorem ClauseEnd.comma {k : List Lexeme} (h : ClauseEnd s k) :
    sees "," s = false ∧ sees "," k = false := by
  rcases h with ⟨_, _, rfl, rfl, -⟩ | ⟨_, _, _, _, rfl, rfl, -⟩ | ⟨_, _, _, _, rfl, rfl, -⟩ <;>
    exact ⟨rfl, rfl⟩

/-- Where `where` is seen, conditions are found, perhaps none. -/
theorem Rule.isSome_of_run_optionalConditions {r r' : Reader} {found : Option Nat}
    (h : seesWord "where" r.rest = true) (hrun : optionalConditions.run g r = .ok (found, r')) :
    found.isSome = true := by
  rw [optionalConditions, run_bind_of_ok (run_keyword?_of_sees h)] at hrun
  simp only [if_true] at hrun
  rw [run_bind_of_ok (run_ahead _)] at hrun
  split at hrun
  · rw [run_bind, run_complain] at hrun
    cases hrun
  · obtain ⟨conditions, r₂, -, hrun⟩ := run_bind_eq_ok.mp hrun
    rw [run_pure] at hrun
    cases hrun
    rfl

theorem Rule.optionalConditions_of_not_sees {r : Reader} (h : seesWord "where" r.rest = false) :
    optionalConditions.run g r = .ok (none, r) := by
  rw [optionalConditions, run_bind_of_ok (run_keyword?_of_not_sees h)]
  rfl

namespace Rereads

/-- How a list of conditions begins. -/
def ConditionListFront (s p : List Lexeme) : Prop :=
  (Rule.endsConditions p || Rule.seesColon p) = (Rule.endsConditions s || Rule.seesColon s) ∧
    Rule.seesParameters p = Rule.seesParameters s

/-- Conditions are read again one by one, up to what ends them. -/
theorem conditionList (hg : Rereadable g) :
    Rereads g m s (Rule.joined "," (fun ls => Rule.endsConditions ls || Rule.seesColon ls) Rule.condition)
      (Rule.joined "," (fun ls => Rule.endsConditions ls || Rule.seesColon ls) Rule.condition) (List.map id)
      (ConditionListFront s) fun _ => ClauseEnd := by
  refine (joined _ ConditionListFront (fun s p => ConditionEnd s p ∧ sees "," p = sees "," s)
    (fun _ _ h => h.1) (fun _ _ h => h.2) (fun s p h => ?_) (by decide) fun s hs => ?_).follow_mono
    fun _ s' k hk => ?_
  · exact ⟨.inl h, h.startsWith.2.trans h.startsWith.1.symm⟩
  · refine (condition hg).mono (fun p hp => ⟨?_, hp.parameters⟩) fun _ _ _ hk => hk.1
    simp only [hp.endsConditions, hp.toLook.seesColon]
  · have hend : ConditionEnd s' k := .inr hk
    refine ⟨fun hs => ⟨?_, hk.parameters.2.trans hk.parameters.1.symm⟩, fun _ =>
      ⟨hend, hk.comma.2.trans hk.comma.1.symm⟩⟩
    simp only [hend.ends, Bool.true_or]

/-- Conditions that may be left out are read again, and what comes behind them is known by whether
they were there. -/
theorem optionalConditions (hg : Rereadable g) {ending : List Lexeme → List Lexeme → Prop}
    (hending : ∀ s k, ending s k → ClauseEnd s k) (rest : List Lexeme → List Lexeme → Prop) :
    Rereads g m s Rule.optionalConditions Rule.optionalConditions id
      (fun p => Worded "where" (fun _ _ => True) s p ∨
        (seesWord "where" s = false ∧ seesWord "where" p = false ∧ rest s p))
      fun found s' k => (found.isSome = true → ending s' k) ∧
        (found.isSome = false → rest s' k ∧ seesWord "where" k = false) := by
  unfold Rule.optionalConditions
  dsimp only
  refine keyword? (fun p hp => ?_) (fun _ => ?_) fun hs => ?_
  · rcases hp with ⟨s', p', rfl, rfl, -⟩ | ⟨hs, hp, -⟩
    · rfl
    · rw [hs, hp]
  · refine keyword_then "where" ConditionListFront (fun s' => ?_) fun p hp =>
      .inl (hp.mono fun _ _ _ => trivial)
    refine ahead (.sight (fun _ p hp => hp.2) (fun _ => .complain_then _ _) fun _ => ?_)
    · refine (conditionList hg).bind fun found found' s₂ h => pure _ _ ?_ fun k hk => hending _ _ (hk.1 rfl)
      rw [List.map_id, List.map_id] at h
      rw [h]
  · exact pure _ _ rfl fun k hk => .inr ⟨hs, (hk.2 rfl).2, (hk.2 rfl).1⟩

/-- Where there is a `where` without conditions, nothing is read in its place. -/
theorem unwrittenConditions (hg : Rereadable g) (keep : Bool → γ) {ending : List Lexeme → List Lexeme → Prop}
    (hending : ∀ s k, ending s k → ClauseEnd s k) (rest : List Lexeme → List Lexeme → Prop) :
    Rereads g m s (Rule.unwrittenIf (Option.all (· == 0)) Rule.optionalConditions)
      (Rule.unwrittenIf (Option.all (· == 0)) Rule.optionalConditions) (fun found => keep found.isSome)
      (WhereFront m ending rest s)
      fun found s' k => (m = .written → keep found.isSome = keep false) ∧
        (found.isSome = true → ending s' k) ∧
        (found.isSome = false → rest s' k ∧ seesWord "where" k = false) := by
  refine unwrittenIf (Option.all (· == 0)) none (fun found found' h => ?_) (fun p hp => ?_)
    (fun m' => (optionalConditions hg hending rest).follow_mono fun _ _ _ hk => hk.2.2)
    fun hm r found r' k hr hrun hd hk => ?_
  · obtain rfl : found' = found := h
    exact ⟨rfl, rfl⟩
  · exact hp.imp_right fun h => .inr ⟨h.1, h.2.2⟩
  · cases hs : seesWord "where" s with
    | false =>
        rw [Rule.optionalConditions_of_not_sees (hr ▸ hs)] at hrun
        cases hrun
        obtain ⟨hrest, hk⟩ := hk.2.2 rfl
        exact ⟨.inr (.inr ⟨hs, hr ▸ hrest⟩), rfl, fun q hq =>
          Rule.optionalConditions_of_not_sees (hq ▸ hk)⟩
    | true =>
        have hend := hk.2.1 (Rule.isSome_of_run_optionalConditions (hr ▸ hs) hrun)
        exact ⟨.inr (.inl ⟨hm, hs, _, hend⟩), (hk.1 hm).symm, fun q hq =>
          Rule.optionalConditions_of_not_sees (hq ▸ (hending _ _ hend).not_where)⟩

/-- The conditions of an item are read again, which may be left out. -/
theorem whereClause (hg : Rereadable g) (keep : Bool → γ) {ending : List Lexeme → List Lexeme → Prop}
    (hending : ∀ s k, ending s k → ClauseEnd s k) (rest : List Lexeme → List Lexeme → Prop) :
    Rereads g m s Rule.whereClause Rule.whereClause keep (WhereFront m ending rest s) fun a s' k =>
      (m = .written → keep a = keep false) ∧ (a = true → ending s' k) ∧
        (a = false → rest s' k ∧ seesWord "where" k = false) := by
  have hthen : Rereads g m s
      (Rule.unwrittenIf (Option.all (· == 0)) Rule.optionalConditions >>= fun found =>
        Pure.pure found.isSome)
      (Rule.unwrittenIf (Option.all (· == 0)) Rule.optionalConditions >>= fun found =>
        Pure.pure found.isSome) keep (WhereFront m ending rest s)
      fun a s' k => (m = .written → keep a = keep false) ∧ (a = true → ending s' k) ∧
        (a = false → rest s' k ∧ seesWord "where" k = false) :=
    (unwrittenConditions hg keep hending rest).bind fun _ _ _ h => pure _ _ h fun _ hk => hk
  exact hthen.congr (fun r _ => Rule.run_whereClause_eq r) fun q _ => Rule.run_whereClause_eq q

end Rereads

end TypedId.Grammar
