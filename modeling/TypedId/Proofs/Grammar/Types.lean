import TypedId.Proofs.Grammar.Bounds

/-!
Types are read again.

Bounds that hold no trait are refused, so a type that begins with a lifetime goes on with a plus.
Where a type is read whose first word might begin something else, it is told how that looks which
follows the type, and then the texts look alike behind that word, too.
-/

namespace TypedId.Grammar

open Lexeme

variable {g : PhraseReader} {m : Rendition} {s p : List Lexeme} {α β γ : Type}

/-! ### Several bounds -/

/-- Texts that look alike agree on whether a bound may come next. -/
theorem Look.bound (h : Look s p) (constant : Bool) :
    Rule.seesBound constant p = Rule.seesBound constant s := by
  simp only [Rule.seesBound, h.anyWord, h.colons, h.operator "?" rfl, h.lifetime, h.group, h.word]

/-- What stands behind a bound: a plus in both texts, or what may follow a type. -/
structure PlusFollow (s k : List Lexeme) : Prop extends TypeFollow s k where
  plusses : sees "+" k = sees "+" s

/-- Where no plus comes, no bounds are added. -/
theorem TypeFollow.unadded {k : List Lexeme} (h : TypeFollow s k) (hs : sees "+" s = false) :
    PlusFollow s k :=
  ⟨h, (h.plus hs).trans hs.symm⟩

theorem Spelt.added {rest : List Lexeme → List Lexeme → Prop} (h : Spelt ['+'] rest s p) :
    PlusFollow s p := by
  obtain ⟨joint, joint', s', p', rfl, rfl, -⟩ := h
  exact ⟨.of_plus _ _ _ _, rfl⟩

/-- Whether a bound is a lifetime. -/
def BoundShape.isLifetime : BoundShape → Bool
  | lifetime _ => true
  | _ => false

/-- How bounds look at their beginning of which one has to be a trait: a plus stands behind a
lifetime. -/
structure TraitedFront (s p : List Lexeme) : Prop extends Colonless s p where
  object : seesLifetime s = true → sees "+" (second s) = true ∧ sees "+" (second p) = true

/-- Whether bounds lack a trait is no matter of positions. -/
theorem Rule.isSome_traitlessEnd {found found' : List BoundShape}
    (h : found'.map BoundShape.placeless = found.map BoundShape.placeless) :
    (traitlessEnd found').isSome = (traitlessEnd found).isSome := by
  have hany : ∀ bs : List BoundShape, (bs.any fun b => b == .traitBound || b == .kept) =
      (bs.map BoundShape.placeless).any fun b => b == .traitBound || b == .kept := by
    intro bs
    rw [List.any_map]
    exact congrArg (bs.any ·) (funext fun b => by cases b <;> rfl)
  have hlast {place : BoundShape → Option Nat} (hplace : ∀ b, (place b).isSome =
        (b.placeless != .traitBound && b.placeless != .kept)) (bs : List BoundShape) :
      (bs.getLast?.bind place).isSome =
        ((bs.map BoundShape.placeless).getLast?.any fun b => b != .traitBound && b != .kept) := by
    rw [List.getLast?_map]
    cases bs.getLast? with
    | none => rfl
    | some b => exact hplace b
  rw [traitlessEnd, traitlessEnd, hany found, hany found', h]
  split
  · rfl
  · rw [hlast (fun b => by cases b <;> rfl), hlast (fun b => by cases b <;> rfl), h]

/-- Tells the bounds that were read, if one of them is a trait. -/
def Rule.traited (start : Nat) (complaint : Complaint) (found : List BoundShape) :
    Rule (List BoundShape) :=
  match traitlessEnd found with
  | some stop => fail ⟨⟨start, stop⟩, complaint, false⟩
  | none => return found

/-- Bounds that need a trait are read as bounds, and then it is looked for among them. -/
theorem Rule.run_boundsWithTrait_eq (start : Nat) (complaint : Complaint)
    (plus captures constant : Bool) (r : Reader) :
    (boundsWithTrait start complaint plus captures constant).run g r =
      (do
        let first ← call (.bound captures constant)
        let more ← if plus then furtherBounds captures constant else pure []
        traited start complaint (first :: more)).run g r := by
  rw [boundsWithTrait, bounds, run_bind, run_bind, run_bind]
  cases (call (.bound captures constant)).run g r with
  | error fault => rfl
  | ok x =>
      cases plus with
      | false => rfl
      | true =>
          dsimp only
          rw [if_pos rfl, if_pos rfl, run_bind, run_bind]
          cases (furtherBounds captures constant).run g x.2 <;> rfl

/-- Without a plus there are no further bounds. -/
theorem Rule.run_furtherBounds_of_not_sees (captures constant : Bool) {r : Reader}
    (h : sees "+" r.rest = false) : (furtherBounds captures constant).run g r = .ok ([], r) := by
  rw [furtherBounds, run_repeating, iterate, run_bind_of_ok (run_operator?_of_not_sees h)]
  rfl

namespace Rereads

/-- Bounds that follow a first one are read again. -/
theorem addedBounds (hg : Rereadable g) :
    Rereads g m s Rule.addedBounds Rule.addedBounds id (PlusFollow s) fun _ => TypeFollow := by
  unfold Rule.addedBounds
  have hbounds : Rereads g m s
      (Rule.while_ (sees "+") do Rule.operator "+"; Rule.call (.bound false false))
      (Rule.while_ (sees "+") do Rule.operator "+"; Rule.call (.bound false false))
      (List.map BoundShape.placeless) (PlusFollow s)
      fun _ s' k => sees "+" s' = false → PlusFollow s' k := by
    refine while_ PlusFollow (fun s p hp => hp.plusses) (fun s _ => ?_) fun s hs => ?_
    · exact .bind_left (operator_solid "+" (by decide))
    · refine operator_then "+" (fun _ _ => True) (fun s' => ?_) fun p hp => hp.added
      exact (hg.plainBound m s' false false).mono (fun _ _ => trivial) fun _ _ _ hk => hk.toTypeFollow
  exact then_pure (hbounds.follow_mono fun _ s' k hk hs => hk.unadded hs)

/-- Further bounds are read again; only the places that they tell may differ. -/
theorem furtherBounds (hg : Rereadable g) (captures constant : Bool) :
    Rereads g m s (Rule.furtherBounds captures constant) (Rule.furtherBounds captures constant)
      (List.map BoundShape.placeless) (PlusFollow s) fun _ => TypeFollow := by
  unfold Rule.furtherBounds
  refine repeating (List.map BoundShape.placeless) (fun _ => PlusFollow) (fun _ => PlusFollow)
    (fun x x' s hx => ?_) (fun _ _ _ => id) (fun x s => ?_) rfl
  · have hreverse : x'.reverse.map BoundShape.placeless = x.reverse.map BoundShape.placeless := by
      rw [List.map_reverse, hx, List.map_reverse]
    refine operator? (fun p hp => hp.plusses) (fun _ => ?_) fun hs => ?_
    · refine operator_then "+" (fun s p => Rule.seesBound constant p = Rule.seesBound constant s)
        (fun s' => ?_) fun p hp => hp.added
      refine ahead (.sight (fun _ p hp => hp) (fun _ => ?_) fun hs' => ?_)
      · refine ((hg.plainBound m s' captures constant).bind fun b b' s₂ hb => ?_).mono
          (fun p hp => hp.toLook.bound constant) fun _ _ _ hk => hk
        exact pure _ _ (by simp [hb, hx]) fun k hk => hk.toTypeFollow
      · exact pure _ _ (congrArg Sum.inr hreverse) fun k hk => (hk.bound constant hs').trans hs'.symm
    · exact pure _ _ (congrArg Sum.inr hreverse) fun k hk => hk.unadded hs
  · exact operator?_solid "+" (by decide) (by simp)

/-- Bounds of which one is a trait are told again. -/
theorem traited {found found' : List BoundShape} (start start' : Nat) (complaint : Complaint)
    {front : List Lexeme → Prop} {follow : List BoundShape → List Lexeme → List Lexeme → Prop}
    (hfound : found'.map BoundShape.placeless = found.map BoundShape.placeless)
    (hfront : ∀ k, Rule.traitlessEnd found = none → follow found s k → front k) :
    Rereads g m s (Rule.traited start complaint found) (Rule.traited start' complaint found')
      (List.map BoundShape.placeless) front follow := by
  have hsome := Rule.isSome_traitlessEnd hfound
  unfold Rule.traited
  cases h : Rule.traitlessEnd found with
  | some stop => exact .fail _
  | none =>
      rw [h, Option.isSome_none, Option.isSome_eq_false_iff, Option.isNone_iff_eq_none] at hsome
      rw [hsome]
      exact pure _ _ hfound fun k hk => hfront k h hk

/-- Bounds of which one is a trait are read again. -/
theorem boundsWithTrait (hg : Rereadable g) (start start' : Nat) (complaint : Complaint)
    (plus captures constant : Bool) :
    Rereads g m s (Rule.boundsWithTrait start complaint plus captures constant)
      (Rule.boundsWithTrait start' complaint plus captures constant) (List.map BoundShape.placeless)
      (TraitedFront s) fun _ => TypeFollow := by
  -- Behind a lifetime more has to follow, for on its own it is refused.
  let behind (a : BoundShape) (s p : List Lexeme) : Prop :=
    TypeFollow s p ∧ (plus = true → PlusFollow s p) ∧
      (a.isLifetime = true → plus = true ∧ sees "+" s = true)
  refine (?_ : Rereads g m s _ _ _ _ _).congr (fun r _ => Rule.run_boundsWithTrait_eq ..)
    fun q _ => Rule.run_boundsWithTrait_eq ..
  have hfirst : Rereads g m s (Rule.call (.bound captures constant))
      (Rule.call (.bound captures constant)) BoundShape.placeless (BoundFront behind s) behind :=
    (hg.bound m s captures constant behind).follow_mono fun _ _ _ hk => ⟨hk.1, hk⟩
  refine (hfirst.bind fun a a' s' ha => ?_).front_mono fun p hp => ?_
  · have hcons : ∀ {more more' : List BoundShape},
        more'.map BoundShape.placeless = more.map BoundShape.placeless →
          (a' :: more').map BoundShape.placeless = (a :: more).map BoundShape.placeless :=
      fun hmore => by rw [List.map_cons, List.map_cons, ha, hmore]
    have halone : a.isLifetime = true → ∃ stop, Rule.traitlessEnd [a] = some stop := by
      cases a <;> simp [Rule.traitlessEnd, BoundShape.isLifetime]
    cases plus with
    | false =>
        refine traited _ _ _ (hcons rfl) fun k h hk =>
          ⟨hk, fun h => Bool.noConfusion h, fun hlifetime => ?_⟩
        obtain ⟨stop, hstop⟩ := halone hlifetime
        cases hstop.symm.trans h
    | true =>
        by_cases hstop : a.isLifetime = true ∧ sees "+" s' = false
        · obtain ⟨hlifetime, hs⟩ := hstop
          obtain ⟨stop, hstop⟩ := halone hlifetime
          refine .of_error fun r hr => ⟨⟨⟨start, stop⟩, complaint, false⟩, ?_⟩
          rw [if_pos rfl, Rule.run_bind_of_ok (Rule.run_furtherBounds_of_not_sees captures constant
            (hr ▸ hs))]
          simp only [Rule.traited, hstop, Rule.run_fail]
        · refine ((furtherBounds hg captures constant).bind fun more more' s₂ hmore =>
            traited _ _ _ (hcons hmore) fun k _ hk => hk).front_mono fun p hp =>
              ⟨hp.toTypeFollow, fun _ => hp, fun hlifetime => ⟨rfl, ?_⟩⟩
          exact Bool.of_not_eq_false fun hs => hstop ⟨hlifetime, hs⟩
  · refine ⟨⟨hp.toLook, hp.colon⟩, fun hlifetime => ?_⟩
    obtain ⟨n, -, hadded, hs⟩ := hp.behindLifetime hlifetime
    obtain ⟨hplus, hs⟩ := hs rfl
    exact ⟨hs, (hadded hplus).plusses.trans hs⟩

/-- The bounds of a trait object are read again. -/
theorem objectBounds (hg : Rereadable g) (start start' : Nat) (plus : Bool) :
    Rereads g m s (Rule.objectBounds start plus) (Rule.objectBounds start' plus) id (TraitedFront s)
      fun _ => TypeFollow := by
  unfold Rule.objectBounds
  refine (boundsWithTrait hg start start' .noTraitInObject plus false false).bind
    fun found found' s' h => pure _ _ ?_ fun k hk => hk
  have hlength := congrArg List.length h
  rw [List.length_map, List.length_map] at hlength
  rw [hlength]

end Rereads

/-! ### Beginnings of types -/

/-- Both texts look alike, and behind a first word as well. -/
structure LookBehind (s p : List Lexeme) : Prop extends Look s p where
  behind : seesAnyWord s = true → Look (second s) (second p)

/-- What is looked for behind a first word is seen in both texts, or in none. -/
theorem LookBehind.second (h : LookBehind s p) {b : Bool} (hb : b = true → seesAnyWord s = true)
    {f : List Lexeme → Bool} (hf : ∀ s p, Look s p → f p = f s) :
    (b && f (second p)) = (b && f (second s)) := by
  cases b with
  | false => rfl
  | true => exact congrArg (true && ·) (hf _ _ (h.behind (hb rfl)))

theorem seesAnyWord_of_word {w : String} (h : seesWord w s = true) : seesAnyWord s = true := by
  obtain ⟨s', rfl⟩ := Rereads.exists_of_seesWord h
  rfl

theorem seesAnyWord_of_identifier (h : seesIdentifier s = true) : seesAnyWord s = true := by
  cases s with
  | nil => cases h
  | cons l s => cases l <;> first | rfl | cases h

/-- A lifetime is no word. -/
theorem seesWord_of_lifetime (h : seesLifetime s = true) : seesAnyWord s = false := by
  obtain ⟨w, s', rfl⟩ := Rereads.exists_of_seesLifetime h
  rfl

/-- Where no word comes first, nothing has to be told of what stands behind one. -/
theorem Look.lookBehind (h : Look s p) (hs : seesAnyWord s = false) : LookBehind s p :=
  ⟨h, fun hword => Bool.noConfusion (hs.symm.trans hword)⟩

theorem Ended.lookBehind (h : Ended s p) : LookBehind s p :=
  h.look.lookBehind (by obtain ⟨_, _, _, rfl, -⟩ := h; rfl)

/-- Before a type, a restriction is not seen where none was. -/
theorem TypeFront.lookBehind (h : TypeFront True s p) : LookBehind s p :=
  ⟨h.toLook, fun hword => (h.second trivial hword).1⟩

/-- Both texts begin with the same word, or with none. -/
theorem Look.cases_word (h : Look s p) :
    (seesAnyWord s = false ∧ seesAnyWord p = false) ∨
      ∃ w s' p', s = Lexeme.word w :: s' ∧ p = Lexeme.word w :: p' := by
  cases hs : seesAnyWord s with
  | false => exact .inl ⟨rfl, h.anyWord.trans hs⟩
  | true =>
      have hp := h.anyWord.trans hs
      cases s with
      | nil => cases hs
      | cons l s =>
          cases p with
          | nil => cases hp
          | cons l' p =>
              cases l <;> cases hs
              cases l' <;> cases hp
              next w w' =>
                have hw : (w' == w) = (w == w) := h.word w
                rw [beq_self_eq_true, beq_iff_eq] at hw
                exact .inr ⟨w, s, p, rfl, by rw [hw]⟩

/-- Parentheses restrict a visibility in both texts, or in none. -/
theorem LookBehind.restriction (h : LookBehind s p) :
    Rule.seesRestriction (opening .parenthesis :: p) =
        Rule.seesRestriction (opening .parenthesis :: s) ∧
      Rule.seesRestrictingPath (opening .parenthesis :: p) =
        Rule.seesRestrictingPath (opening .parenthesis :: s) := by
  have hnone : ∀ {ls : List Lexeme}, seesAnyWord ls = false →
      Rule.seesRestriction (opening .parenthesis :: ls) = false ∧
        Rule.seesRestrictingPath (opening .parenthesis :: ls) = false := by
    intro ls hls
    cases ls with
    | nil => exact ⟨rfl, rfl⟩
    | cons l ls => cases l <;> first | exact ⟨rfl, rfl⟩ | cases hls
  rcases h.toLook.cases_word with ⟨hs, hp⟩ | ⟨w, s', p', rfl, rfl⟩
  · rw [(hnone hs).1, (hnone hp).1, (hnone hs).2, (hnone hp).2]
    exact ⟨rfl, rfl⟩
  · have hlook : Look s' p' := h.behind rfl
    have hclosing : ∀ ls : List Lexeme, Rule.seesRestriction (opening .parenthesis :: word w :: ls) =
        (!ls.isEmpty && ends ls && ["crate", "self", "super"].contains w) := by
      intro ls
      cases ls with
      | nil => rfl
      | cons l ls => cases l <;> rfl
    refine ⟨?_, (Rereads.seesRestrictingPath_word w p').trans (Rereads.seesRestrictingPath_word w s').symm⟩
    rw [hclosing, hclosing, hlook.ends, hlook.empty]

section Fronts

variable {told : Prop}

/-- A type may begin with a word, if no colon follows where this matters. -/
theorem Worded.type {w : String} {rest : List Lexeme → List Lexeme → Prop} (h : Worded w rest s p)
    (hrest : told → ∀ s p, rest s p → Colonless s p) : TypeFront told s p := by
  obtain ⟨s', p', rfl, rfl, h⟩ := h
  exact ⟨look_word w s' p', rfl, fun h => Bool.noConfusion h,
    fun ht _ => ⟨(hrest ht s' p' h).toLook, (hrest ht s' p' h).colon⟩, rfl, rfl, rfl⟩

/-- A type that begins with a character and no path. -/
theorem Spelt.type {c : Char} {rest : List Lexeme → List Lexeme → Prop} (h : Spelt [c] rest s p)
    (hlook : Look s p) (hc : c ≠ ':' ∧ c ≠ '\'' ∧ c ≠ '<') : TypeFront told s p := by
  obtain ⟨joint, joint', s', p', rfl, rfl, -⟩ := h
  have hless : ∀ joint ls, Rule.seesParameters (punct c joint :: ls) = false := fun joint ls => by
    rw [Rule.seesParameters, show sees "<" (punct c joint :: ls) = false from
      startsWith_punct_of_ne (Ne.symm hc.2.2) ..]
    rfl
  refine ⟨hlook, ?_, fun h => ?_, fun _ h => Bool.noConfusion h, rfl, rfl,
    (hless _ _).trans (hless _ _).symm⟩
  · rw [Rule.seesColon, show sees ":" (punct c joint :: s') = false from
      startsWith_punct_of_ne (Ne.symm hc.1) ..]
    rfl
  · rw [seesLifetime_punct hc.2.1] at h
    cases h

/-- A type may begin with a bracket. -/
theorem Bracketed.type (h : Bracketed .bracket s p) : TypeFront told s p := by
  obtain ⟨s', p', rfl, rfl, -⟩ := h
  exact ⟨look_opening _ s' p', rfl, fun h => Bool.noConfusion h, fun _ h => Bool.noConfusion h, rfl,
    rfl, rfl⟩

/-- A type may begin with a parenthesis. -/
theorem Opened.type (h : Opened .parenthesis LookBehind s p) : TypeFront told s p := by
  obtain ⟨s', p', rfl, rfl, h⟩ := h
  exact ⟨look_opening _ s' p', rfl, fun h => Bool.noConfusion h, fun _ h => Bool.noConfusion h,
    h.restriction.1, h.restriction.2, rfl⟩

/-- A type may begin with a lifetime, which is then a bound. -/
theorem TraitedFront.type (h : TraitedFront s p) (hs : seesLifetime s = true) :
    TypeFront told s p := by
  have hp := h.lifetime.trans hs
  refine ⟨h.toLook, h.colon, h.object, fun _ hword => ?_, ?_, ?_, ?_⟩
  · exact Bool.noConfusion ((seesWord_of_lifetime hs).symm.trans hword)
  all_goals
    obtain ⟨w, s', rfl⟩ := Rereads.exists_of_seesLifetime hs
    obtain ⟨w', p', rfl⟩ := Rereads.exists_of_seesLifetime hp
    rfl

/-- A type that is general in some parameters. -/
theorem BinderFront.type (h : BinderFront (TypeFront told) s p) : TypeFront told s p := by
  rcases h with h | ⟨-, -, h⟩
  · refine h.type fun _ s' p' h => ⟨h.look (by decide) fun _ _ _ h => h.toLook, ?_⟩
    obtain ⟨joint, joint', s', p', rfl, rfl, -⟩ := h
    rfl
  · exact h

end Fronts

theorem Valued.colonless {rest : List Lexeme → List Lexeme → Prop} (h : Valued rest s p) :
    Colonless s p := by
  refine ⟨h.look, ?_⟩
  cases h <;> rfl

/-- Both texts begin with the same word, and no single colon stands behind it. -/
def Headed (s p : List Lexeme) : Prop := ∃ w, Worded w Colonless s p

theorem Headed.colonless (h : Headed s p) : Colonless s p :=
  let ⟨_, h⟩ := h
  h.colonless

/-- How a parameter looks at its beginning that may have a name: the texts look alike behind the
name, and behind a colon that follows it. -/
structure NamedFront (s p : List Lexeme) : Prop extends LookBehind s p where
  colon : Rule.seesColon s = false
  further : seesAnyWord s = true → Rule.seesColon (second s) = true → Look (third s) (third p)

/-- One colon, and what follows it. -/
theorem look_colon {joint joint' : Bool} (hjoint : joint' = true → joint = true)
    (hs : Rule.seesColon (punct ':' joint :: s) = true) (h : sees ":" p = sees ":" s) :
    Look (punct ':' joint :: s) (punct ':' joint' :: p) := by
  have hcolons : ∀ joint ls, sees "::" (punct ':' joint :: ls) = (joint && sees ":" ls) :=
    fun joint ls => startsWith_cons_punct ..
  rw [Rule.seesColon_punct, Bool.not_eq_true'] at hs
  refine ⟨rfl, fun _ => rfl, rfl, rfl, fun _ => rfl, rfl, rfl, rfl, rfl, fun _ => rfl,
    by simp [guards, sees, startsWith], ?_, ?_, ?_, ?_, rfl⟩
  · rw [hcolons, hcolons, hs, h]
    cases joint' with
    | false => rfl
    | true => rwa [hjoint rfl] at hs
  all_goals exact (startsWith_punct_of_ne (by decide) ..).trans (startsWith_punct_of_ne (by decide) ..).symm

/-- Three dots look alike, whatever joins them to what follows. -/
theorem look_threeDots (joint joint' : Bool) (s p : List Lexeme) :
    Look (punct '.' true :: punct '.' true :: punct '.' joint :: s)
      (punct '.' true :: punct '.' true :: punct '.' joint' :: p) :=
  ⟨rfl, fun _ => rfl, rfl, rfl, fun _ => rfl, rfl, rfl, rfl, rfl, fun _ => rfl,
    by simp [guards, sees, startsWith], rfl, rfl, rfl, rfl, rfl⟩

theorem Spelt.lookDots {rest : List Lexeme → List Lexeme → Prop} (h : Spelt ['.', '.', '.'] rest s p) :
    Look s p := by
  obtain ⟨s', p', rfl, rfl, s', p', rfl, rfl, joint, joint', s', p', rfl, rfl, -⟩ := h
  exact look_threeDots joint joint' s' p'

/-- The dots of further parameters stand before both texts. -/
theorem Spelt.named {rest : List Lexeme → List Lexeme → Prop} (h : Spelt ['.', '.', '.'] rest s p) :
    NamedFront s p := by
  have hlook := h.lookDots
  obtain ⟨s', p', rfl, rfl, -⟩ := h
  exact ⟨hlook.lookBehind rfl, rfl, fun h => Bool.noConfusion h⟩

/-- A type may stand where a name and a colon might. -/
theorem TypeFront.named (h : TypeFront True s p) : NamedFront s p :=
  ⟨h.lookBehind, h.colon, fun hword hcolon =>
    Bool.noConfusion ((h.second trivial hword).2.symm.trans hcolon)⟩

/-- A colon that is no part of `::` looks alike. -/
theorem Spelt.lookColon {rest : List Lexeme → List Lexeme → Prop} (h : Spelt [':'] rest s p)
    (hs : Rule.seesColon s = true) (hrest : ∀ s p, rest s p → Look s p) : Look s p := by
  obtain ⟨joint, joint', s', p', rfl, rfl, hjoint, h⟩ := h
  exact look_colon hjoint hs ((hrest _ _ h).char ':')

/-- A name and a colon stand before both texts. -/
theorem Worded.named {w : String} {rest : List Lexeme → List Lexeme → Prop}
    (h : Worded w (Spelt [':'] rest) s p) (hs : Rule.seesColon (second s) = true)
    (hrest : ∀ s p, rest s p → Look s p) : NamedFront s p := by
  obtain ⟨s', p', rfl, rfl, h⟩ := h
  refine ⟨⟨look_word w _ _, fun _ => h.lookColon hs hrest⟩, rfl, fun _ _ => ?_⟩
  obtain ⟨joint, joint', s', p', rfl, rfl, hjoint, h⟩ := h
  have hthird : ∀ joint ls, third (word w :: punct ':' joint :: ls) = ls := fun joint ls =>
    second_punct (by decide) joint ls
  rw [hthird, hthird]
  exact hrest _ _ h

/-- Behind two colons no three dots come: the third lexeme is part of the colons. -/
theorem third_of_colons (h : sees "::" (second s) = true) : sees "..." (third s) = false := by
  obtain ⟨joint, s', hs'⟩ := exists_of_seesColons h
  rw [show third s = second (second s) from rfl, hs', second_punct (by decide)]
  rfl

/-- Dots of further parameters that do not come first stand behind a colon. -/
theorem Rule.seesColon_of_variadic (h : seesVariadic s = true) (hdots : sees "..." s = false) :
    seesColon (second s) = true := by
  rw [seesVariadic, hdots, Bool.false_or, Bool.and_eq_true, Bool.and_eq_true] at h
  obtain ⟨⟨-, hcolon⟩, hdots⟩ := h
  cases hcolons : sees "::" (second s) with
  | true => exact Bool.noConfusion ((third_of_colons hcolons).symm.trans hdots)
  | false => rw [seesColon, hcolon, hcolons]; rfl

/-- The dots of further parameters stand in both texts or in none. -/
theorem NamedFront.variadic (h : NamedFront s p) : Rule.seesVariadic p = Rule.seesVariadic s := by
  rw [Rule.seesVariadic, Rule.seesVariadic, h.threeDots, h.identifier, h.word]
  cases hword : seesAnyWord s with
  | false =>
      have hnone : (seesIdentifier s || seesWord "_" s) = false := by
        cases s with
        | nil => rfl
        | cons l s => cases l <;> first | rfl | cases hword
      simp only [hnone, Bool.false_and]
  | true =>
      have hlook := h.behind hword
      rw [show sees ":" (second p) = sees ":" (second s) from hlook.char ':']
      cases hcolons : sees "::" (second s) with
      | true =>
          rw [third_of_colons hcolons, third_of_colons (hlook.colons.trans hcolons), Bool.and_false]
      | false =>
          cases hcolon : sees ":" (second s) with
          | false => simp only [Bool.and_false, Bool.false_and]
          | true =>
              rw [(h.further hword (by rw [Rule.seesColon, hcolon, hcolons]; rfl)).threeDots]

/-- At the end of a list or group a type may end. -/
theorem TypeFollow.of_ended {k : List Lexeme} (h : Ended s k) : TypeFollow s k := by
  obtain ⟨d, s', k', rfl, rfl⟩ := h
  exact .of_closing _ d k'

/-- How what stands behind parentheses has to look, by what was in them. -/
def Rule.ParenthesizedType.Behind (plus : Bool) (s p : List Lexeme) : Rule.ParenthesizedType → Prop
  | .done => True
  | .optionalBound => PlusFollow s p
  | .single shape => (plus && sees "+" p && Rule.TypeShape.takesBounds shape) =
      (plus && sees "+" s && Rule.TypeShape.takesBounds shape)

namespace Rereads

/-- In a list no colon comes behind a thing. -/
theorem Listed.colonless {k : List Lexeme} (h : Listed s k) : Look s k ∧ Rule.seesColon s = false := by
  refine ⟨h.look, ?_⟩
  rcases h with ⟨joint, joint', s', k', rfl, rfl, -, -⟩ | ⟨d, s', k', rfl, rfl⟩ <;> rfl

/-! ### Kinds of types -/

/-- Types with commas between them are read again up to the end of their group. -/
theorem typeList (hg : Rereadable g) :
    Rereads g m s (Rule.commaList (Rule.call (.type true))) (Rule.commaList (Rule.call (.type true)))
      (List.map fun x => (id x.1, x.2)) (fun p => ends p = ends s) fun _ => Ended :=
  commaList id (fun _ _ => id) (fun _ _ => Ended.ends) fun s _ =>
    (hg.plainType m s true).mono (fun _ hp => hp.ends) fun _ _ _ hk => hk.type

/-- The content of the parentheses of a type is read again. -/
theorem parenthesizedContent (hg : Rereadable g) :
    Rereads g m s Rule.parenthesizedContent Rule.parenthesizedContent id (LookBehind s) fun _ => Ended := by
  unfold Rule.parenthesizedContent
  refine ahead (.sight (fun _ p hp => hp.ends) (fun _ => ?_) fun _ => ?_)
  · exact pure _ _ rfl fun k hk => hk.lookBehind
  refine .sight (fun _ p hp => hp.lifetime) (fun hs => ?_) fun _ => ?_
  · refine here fun n => .of_forall fun n' _ => ?_
    refine ((objectBounds hg n n' true).bind fun _ _ s' _ => ?_).front_mono fun p hp =>
      hp.toLook.lookBehind (seesWord_of_lifetime hs)
    exact pure _ _ rfl fun k hk => TypeFollow.of_ended hk
  refine .sight (fun _ p hp => hp.operator "?" rfl) (fun hs => ?_) fun _ => ?_
  · refine ((traitBound hg false).bind fun _ _ s' _ => ?_).front_mono fun p hp =>
      hp.toLook.lookBehind ?_
    · exact pure _ _ rfl fun k hk => TypeFollow.of_ended hk
    · obtain ⟨joint, s', rfl⟩ := exists_of_sees (c := '?') hs
      rfl
  · refine ((hg.type m s true True).bind_id (fun shape s' => ?_) fun p hp => hp.lookBehind)
    refine (?_ : Rereads g m s' _ _ _ (Listed s') _).front_mono
      fun p hp => ⟨hp.type, fun _ => hp.colonless⟩
    refine ahead (.sight (fun _ p hp => hp.look.operator "," rfl) (fun _ => ?_) fun _ => ?_)
    · refine operator_then "," (fun _ _ => True) (fun s₂ => ?_) fun p hp => .inl hp
      refine ((typeList hg).bind fun _ _ s₃ _ => ?_).front_mono fun _ _ => trivial
      exact pure _ _ rfl fun k hk => hk
    · exact pure _ _ rfl fun k hk => .inr hk

/-- A type in parentheses is read again. -/
theorem parenthesizedType (hg : Rereadable g) (plus : Bool) :
    Rereads g m s (Rule.parenthesizedType plus) (Rule.parenthesizedType plus) id
      (Opened .parenthesis LookBehind s) fun _ => TypeFollow := by
  have hcontent : Rereads g m s (Rule.within .parenthesis Rule.parenthesizedContent)
      (Rule.within .parenthesis Rule.parenthesizedContent) id _
      fun content s p => Rule.ParenthesizedType.Behind plus s p content :=
    within LookBehind fun s' _ => parenthesizedContent hg
  unfold Rule.parenthesizedType
  refine .defer (hcontent.bind_id (fun content s' => ?_) fun p hp => hp)
  cases content with
  | done => exact pure _ _ rfl fun _ _ => trivial
  | optionalBound =>
      have hadded : ∀ several, Rereads g m s'
          (do Rule.addedBounds; Pure.pure (TypeShape.bounds false several))
          (do Rule.addedBounds; Pure.pure (TypeShape.bounds false several)) id (PlusFollow s')
          fun _ => TypeFollow :=
        fun several => (addedBounds hg).bind fun _ _ _ _ => pure _ _ rfl fun k hk => hk
      refine ahead ((hadded _).congr (fun _ _ => rfl) fun q hq => ?_)
      rw [hq.plusses]
  | single shape =>
      refine ahead (.sight (fun _ p hp => hp) (fun _ => ?_) fun hs => ?_)
      · exact ((addedBounds hg).bind fun _ _ _ _ => pure _ _ rfl fun k hk => hk).front_mono
          fun p hp => by dsimp only [Rule.ParenthesizedType.Behind]; rw [hp.plusses]
      · refine pure _ _ rfl fun k hk => ?_
        dsimp only [Rule.ParenthesizedType.Behind]
        cases hplus : sees "+" s' with
        | false => rw [hk.plus hplus]
        | true =>
            rw [hplus, Bool.and_true] at hs
            rw [Bool.and_right_comm, Bool.and_true, hs, Bool.false_and]

/-! ### Types of functions -/

/-- The name of a calling convention is read again, behind a keyword. -/
theorem convention :
    Rereads g m s Rule.convention Rule.convention id (Worded "extern" Colonless s)
      fun _ => Colonless := by
  unfold Rule.convention
  refine keyword_then "extern" Colonless (fun s' => ?_) fun p hp => hp
  refine ahead (.sight (fun _ p hp => hp.text) (fun _ => ?_) fun hs => ?_)
  · exact literal.front_mono fun p hp => hp.colonless
  · exact pure _ _ rfl fun k hk => hk

/-- A calling convention is read again, which may be left out. -/
theorem convention? :
    Rereads g m s Rule.convention? Rule.convention? id (Headed s) fun _ => Headed := by
  unfold Rule.convention?
  refine ahead (.sight (fun _ p hp => hp.colonless.word _) (fun _ => ?_) fun hs => ?_)
  · exact convention.mono (fun p hp => ⟨"extern", hp⟩) fun _ _ _ hk => hk.colonless
  · exact pure _ _ rfl fun k hk => hk

/-- The name of a parameter is read again, and the colon behind it. -/
theorem nameAndColon (rest : List Lexeme → List Lexeme → Prop) :
    Rereads g m s Rule.nameAndColon Rule.nameAndColon id
      (fun p => ∃ w, Worded w (Spelt [':'] rest) s p) fun _ => rest := by
  unfold Rule.nameAndColon
  refine anyWord_then (fun _ => Spelt [':'] rest) (fun _ _ _ s' => ?_) fun w p hp => ⟨w, hp⟩
  exact operator ":"

/-- A word that is taken as it is is read again. -/
theorem copyWord (rest : List Lexeme → List Lexeme → Prop) (hs : seesAnyWord s = true) :
    Rereads g m s (Rule.copy 1) (Rule.copy 1) id (fun p => ∃ w, Worded w rest s p) fun _ => rest := by
  obtain ⟨w, s', rfl⟩ : ∃ w s', s = word w :: s' := by
    cases s with
    | nil => cases hs
    | cons l s' => cases l <;> first | exact ⟨_, _, rfl⟩ | cases hs
  have hcopy : ∀ (r : Reader) rest, r.rest = word w :: rest →
      (Rule.copy 1).run g r = (Rule.keyword w).run g r := by
    intro r rest hr
    rw [Rule.run_copy, Rule.run_keyword_of_sees (hr ▸ by simp [seesWord])]
  refine ((keyword w).congr (fun r hr => hcopy r _ hr) fun q hq => ?_).front_mono fun p hp => ⟨w, hp⟩
  obtain ⟨_, p', -, hq, -⟩ := hq
  exact hcopy q _ hq

/-- A word and the word `self` are read again, which are taken as they are. -/
theorem copyWords {w : String} {follow : Unit → List Lexeme → List Lexeme → Prop}
    (hs : seesWord w s = true) (hself : seesWord "self" (second s) = true) :
    Rereads g m s (Rule.copy 2) (Rule.copy 2) id (Worded w (Worded "self" (follow ())) s) follow := by
  have hcopy : ∀ (r : Reader) rest, r.rest = word w :: word "self" :: rest →
      (Rule.copy 2).run g r = (Rule.keyword w >>= fun _ => Rule.keyword "self").run g r := by
    intro r rest hr
    rw [Rule.run_copy, Rule.run_bind_of_ok (Rule.run_keyword_of_sees (hr ▸ by simp [seesWord])),
      Rule.run_keyword_of_sees (by simp [Reader.take, hr, seesWord])]
    simp [Reader.take, hr]
  obtain ⟨s', rfl⟩ := exists_of_seesWord hs
  obtain ⟨s', rfl⟩ := exists_of_seesWord (s := s') hself
  refine RereadsBy.congr ((keyword w).bind fun _ _ s₂ _ => keyword "self") (fun r hr => hcopy r _ hr)
    fun q hq => ?_
  obtain ⟨_, p', -, hq, _, p'', -, rfl, -⟩ := hq
  exact hcopy q _ hq

/-- A mutable receiver in the type of a function is read again. -/
theorem mutableReceiver (hg : Rereadable g) :
    Rereads g m s
      (do
        Rule.keyword "mut"
        if Rule.seesColon (second (← Rule.ahead)) then
          Rule.nameAndColon
          let _ ← Rule.call (.type true)
        else Rule.keyword "self"
        return true : Rule Bool)
      (do
        Rule.keyword "mut"
        if Rule.seesColon (second (← Rule.ahead)) then
          Rule.nameAndColon
          let _ ← Rule.call (.type true)
        else Rule.keyword "self"
        return true : Rule Bool) id (NamedFront s) fun _ => Listed := by
  let start (s p : List Lexeme) : Prop :=
    ∃ w, Worded w (fun s p => Rule.seesColon p = Rule.seesColon s) s p
  refine keyword_then "mut" start (fun s' => ?_) fun p hp => ?_
  · refine ahead (.sight (fun _ p hp => ?_) (fun hs => ?_) fun hs => ?_)
    · obtain ⟨w, s₂, p₂, rfl, rfl, hp⟩ := hp
      exact hp
    · refine ((nameAndColon (TypeFront True)).bind fun _ _ s₂ _ => ?_).front_mono fun p ⟨w, hp⟩ => ?_
      · exact (hg.type m s₂ true True).bind (fun _ _ s₃ _ => pure _ _ rfl fun k hk =>
          ⟨hk.type, fun _ => hk.colonless⟩)
      · obtain ⟨s₂, p₂, rfl, rfl, hp⟩ := hp
        exact ⟨w, s₂, p₂, rfl, rfl, (hp.lookColon hs fun _ _ h => h.toLook).seesColon⟩
    · refine keyword_then "self" Listed (fun s₂ => pure _ _ rfl fun k hk => hk) fun p hp => ?_
      exact ⟨"self", hp.mono fun _ _ h => h.look.seesColon⟩
  · obtain ⟨s', p', rfl, rfl, w, hp⟩ := hp
    refine ⟨⟨look_word "mut" s' p', fun _ => hp.look⟩, rfl, fun _ hcolon => ?_⟩
    obtain ⟨s₂, p₂, rfl, rfl, -⟩ := hp
    cases hcolon

/-- A parameter in the type of a function is read again that has a name. -/
theorem namedParameter (hg : Rereadable g) (receiver : Bool) (hs : Rule.seesColon (second s) = true) :
    Rereads g m s
      (do
        Rule.nameAndColon
        let ls ← Rule.ahead
        if receiver && seesWord "mut" ls && seesWord "self" (second ls) then
          Rule.copy 2
          return true
        else
          let _ ← Rule.call (.type true)
          return false : Rule Bool)
      (do
        Rule.nameAndColon
        let ls ← Rule.ahead
        if receiver && seesWord "mut" ls && seesWord "self" (second ls) then
          Rule.copy 2
          return true
        else
          let _ ← Rule.call (.type true)
          return false : Rule Bool) id (NamedFront s) fun _ => Listed := by
  refine ((nameAndColon LookBehind).bind fun _ _ s' _ => ?_).front_mono fun p ⟨w, hp⟩ =>
    hp.named hs fun _ _ h => h.toLook
  refine ahead (.sight (fun _ p hp => ?_) (fun hmut => ?_) fun hs => ?_)
  · rw [hp.word]
    refine hp.second (fun h => ?_) fun _ _ h => h.word _
    exact seesAnyWord_of_word ((Bool.and_eq_true _ _).mp h).2
  · obtain ⟨hmut, hself⟩ := (Bool.and_eq_true _ _).mp hmut
    refine ((copyWords ((Bool.and_eq_true _ _).mp hmut).2 hself).bind fun _ _ _ _ =>
      pure _ _ rfl fun k hk => hk).front_mono fun p hp => ?_
    obtain ⟨s₂, p₂, rfl, rfl, hp⟩ := hp
    exact ⟨look_word _ s₂ p₂, fun _ => hp.look⟩
  · exact ((hg.type m s' true True).bind fun _ _ s₃ _ => pure _ _ rfl fun k hk =>
      ⟨hk.type, fun _ => hk.colonless⟩).front_mono fun p hp => hp.lookBehind

/-- A parameter in the type of a function is read again. -/
theorem functionTypeParameter (hg : Rereadable g) (first : Bool) :
    Rereads g m s (Rule.functionTypeParameter first) (Rule.functionTypeParameter first) id
      (NamedFront s) fun _ => Listed := by
  unfold Rule.functionTypeParameter
  refine then_pure (keptIf_id id fun m => ?_)
  refine ahead (.sight (fun _ p hp => ?_) (fun _ => mutableReceiver hg) fun _ => ?_)
  · rw [hp.word]
    refine hp.second (fun h => ?_) fun _ _ h => h.word _
    exact seesAnyWord_of_word ((Bool.and_eq_true _ _).mp h).2
  refine .sight (fun _ p hp => ?_) (fun hs => ?_) fun _ => ?_
  · rw [hp.identifier, hp.word, hp.word]
    refine hp.second (fun h => ?_) fun _ _ h => h.seesColon
    simp only [Bool.or_eq_true, Bool.and_eq_true] at h
    exact h.elim (fun h => h.elim seesAnyWord_of_identifier seesAnyWord_of_word) fun h =>
      seesAnyWord_of_word h.2
  · exact (namedParameter hg (first && !seesWord "self" s) ((Bool.and_eq_true _ _).mp hs).2).congr
      (fun _ _ => rfl) fun q hq => by rw [hq.word]
  · exact then_pure ((hg.type m s true True).mono (fun _ => TypeFront.named) fun _ _ _ hk =>
      ⟨hk.type, fun _ => hk.colonless⟩)

/-- The dots of further parameters are read again, and the comma behind them. -/
theorem variadicDots :
    Rereads g m s
      (do Rule.operator "..."; let _ ← Rule.operator? ","; return .inr () : Rule (Bool ⊕ Unit))
      (do Rule.operator "..."; let _ ← Rule.operator? ","; return .inr () : Rule (Bool ⊕ Unit))
      (Sum.map id id) (Spelt ['.', '.', '.'] (fun _ _ => True) s)
      (stepFollow (fun _ s p => ends p = ends s) fun _ => Ended) := by
  refine operator_then "..." Listed (fun s' => ?_) fun p hp => hp.mono fun _ _ _ => trivial
  refine operator? (fun p hp => (Listed.look hp).operator "," rfl) (fun _ => ?_) fun _ => ?_
  · exact operator_then "," (fun _ _ => True) (fun s₂ => pure _ _ rfl fun k hk => trivial)
      fun p hp => .inl hp
  · exact pure _ _ rfl fun k hk => .inr hk

/-- The parameters in the type of a function are read again. -/
theorem functionTypeParameters (hg : Rereadable g) :
    Rereads g m s Rule.functionTypeParameters Rule.functionTypeParameters id
      (fun p => ends p = ends s) fun _ => Ended := by
  unfold Rule.functionTypeParameters
  refine repeating id (fun _ s p => ends p = ends s) (fun _ s p => ends p = ends s)
    (fun x x' s hx => ?_) (fun _ _ _ => id) (fun x s => ?_) rfl
  · obtain rfl : x' = x := hx
    refine ahead (.sight (fun _ p hp => hp) (fun _ => ?_) fun hs => ?_)
    · exact pure _ _ rfl fun k hk => Ended.ends hk
    refine (outerAttributes hg NamedFront).bind_id (fun _ s' => ?_) fun p hp =>
      (hp.look fun _ _ h => h.toLook).ends
    refine (?_ : Rereads g m s' _ _ _ (NamedFront s') _).front_mono
      fun p hp hs => ⟨hp, (hp.operator "#" rfl).trans hs⟩
    refine ahead (.sight (fun _ p hp => hp.variadic) (fun hvariadic => ?_) fun _ => ?_)
    · refine .sight (fun _ p hp => hp.threeDots) (fun hs => ?_) fun hdots => ?_
      · exact variadicDots.front_mono fun p hp => hp.named
      · refine ((nameAndColon (Spelt ['.', '.', '.'] fun _ _ => True)).bind_id (fun _ s₂ => variadicDots)
          fun p ⟨w, hp⟩ => hp.named (Rule.seesColon_of_variadic hvariadic hdots) fun _ _ h => h.lookDots)
    · refine (functionTypeParameter hg x').bind_id (fun _ s₂ => ?_) fun p hp => hp
      refine ahead (.sight (fun _ p hp => Listed.ends hp) (fun _ => ?_) fun _ => ?_)
      · exact pure _ _ rfl fun k hk => .inr hk
      · exact operator_then "," (fun _ _ => True) (fun s₃ => pure _ _ rfl fun k hk => trivial)
          fun p hp => .inl hp
  · refine .ahead (.ite (fun _ => .pure (by simp)) fun _ => .bind_right fun _ s' => ?_)
    refine .ahead (.ite (fun _ => ?_) fun _ => ?_)
    · exact .ite (fun _ => .bind_left (operator_solid "..." (by decide))) fun _ =>
        .bind_right fun _ _ => .bind_left (operator_solid "..." (by decide))
    · exact .bind_right fun _ _ => .ahead (.ite (fun _ => .pure (by simp)) fun _ =>
        .bind_left (operator_solid "," (by decide)))

/-- The type of a function is read again. -/
theorem functionType (hg : Rereadable g) :
    Rereads g m s Rule.functionType Rule.functionType id (Headed s) fun _ => TypeFollow := by
  have hrest : ∀ s, Rereads g m s
      (do Rule.convention?; Rule.keyword "fn"
          Rule.defer (Rule.within .parenthesis Rule.functionTypeParameters) fun _ => Rule.returnType false)
      (do Rule.convention?; Rule.keyword "fn"
          Rule.defer (Rule.within .parenthesis Rule.functionTypeParameters) fun _ => Rule.returnType false)
      id (Headed s) fun _ => TypeFollow := by
    intro s
    refine convention?.bind_id (fun _ s' => ?_) fun p hp => hp
    refine keyword_then "fn" Colonless (fun s₂ => ?_) fun p hp => ⟨"fn", hp⟩
    refine .defer ((within (fun s p => ends p = ends s) fun s' _ => functionTypeParameters hg).bind_id
      (fun _ s₃ => returnType hg false) fun p hp => hp.colonless)
  unfold Rule.functionType
  refine keyword? (fun p hp => hp.colonless.word _) (fun _ => ?_) fun _ => hrest s
  exact keyword_then "unsafe" Colonless (fun s' => (hrest s').front_mono fun p hp => hp.colonless)
    fun p hp => ⟨"unsafe", hp⟩

end Rereads

/-! ### Other kinds of types -/

/-- What stands behind a path that is a type. -/
structure PathTypeFollow (told : Prop) (plain plus : Bool) (s k : List Lexeme) : Prop
    extends PathFollow false s k where
  told : told → Colonless s k
  bang : (Rule.seesBang k && plain) = (Rule.seesBang s && plain)
  plus : (plus && sees "+" k) = (plus && sees "+" s)

/-- An exclamation mark before a group belongs to a macro. -/
theorem Rule.seesBang_opening (joint : Bool) (d : Delimiter) (ls : List Lexeme) :
    seesBang (punct '!' joint :: opening d :: ls) = true := by
  cases joint <;> rfl

/-- The use of a macro, behind its path. -/
theorem PathTypeFollow.of_invocation {told : Prop} {plain plus : Bool} {d : Delimiter}
    {rest : List Lexeme → List Lexeme → Prop} (h : Spelt ['!'] (Enclosed d rest) s p) :
    PathTypeFollow told plain plus s p := by
  have hlook := h.look (by decide) fun _ _ _ h => h.look
  obtain ⟨joint, joint', s', p', rfl, rfl, -, content, s₂, p₂, rfl, rfl, -⟩ := h
  refine ⟨.of_punct (by decide) _ _ _ _, fun _ => ⟨hlook, rfl⟩, ?_, rfl⟩
  rw [Rule.seesBang_opening, Rule.seesBang_opening]

/-- A plus, behind a path. -/
theorem PathTypeFollow.of_plus {told : Prop} {plain plus : Bool} (h : PlusFollow s p)
    (hs : sees "+" s = true) : PathTypeFollow told plain plus s p := by
  obtain ⟨joint, s', rfl⟩ := exists_of_sees (c := '+') hs
  obtain ⟨joint', p', rfl⟩ := exists_of_sees (c := '+') (h.plusses.trans hs)
  exact ⟨h.toPathFollow, fun _ => ⟨look_punct (by decide) fun h => absurd h (by decide), rfl⟩, rfl, rfl⟩

/-- Where neither follows, nothing that a type goes on with comes new. -/
theorem PathTypeFollow.of_type {told : Prop} {plain plus : Bool} {k : List Lexeme}
    (h : TypeFollow s k) (htold : told → Colonless s k)
    (hbang : (Rule.seesBang s && plain) = false) (hplus : (plus && sees "+" s) = false) :
    PathTypeFollow told plain plus s k := by
  refine ⟨h.toPathFollow, htold, ?_, ?_⟩
  · cases plain with
    | false => rw [Bool.and_false, Bool.and_false]
    | true =>
        rw [Bool.and_true] at hbang ⊢
        rw [h.bang hbang, hbang, Bool.and_true]
  · cases plus with
    | false => rfl
    | true =>
        rw [Bool.true_and] at hplus ⊢
        rw [h.plus hplus, hplus, Bool.true_and]

namespace Rereads

/-- A type that begins with a path is read again. -/
theorem pathType (hg : Rereadable g) (bound plus : Bool) (told : Prop) :
    Rereads g m s (Rule.pathType bound plus) (Rule.pathType bound plus) id (TypeFront told s)
      fun _ s' k => TypeFollow s' k ∧ (told → Colonless s' k) := by
  let behind (s p : List Lexeme) : Prop := told → Colonless s p
  unfold Rule.pathType
  refine (qualifiedPath hg false behind).bind_id (fun shape s' => ?_) fun p hp =>
    hp.type fun ht s p h => ⟨(h ht).toLook, (h ht).colon⟩
  refine .sight (fun _ _ _ => rfl) (fun _ => ?_) fun _ => ?_
  · exact pure _ _ rfl fun k hk _ => ⟨hk.2, hk.1.toPathFollow⟩
  refine (?_ : Rereads g m s' _ _ _ (PathTypeFollow told shape.plain plus s') _).front_mono
    fun p hp _ => ⟨hp.told, hp.toPathFollow⟩
  refine ahead (.sight (fun _ p hp => hp.bang) (fun _ => ?_) fun hbang => ?_)
  · refine then_pure ((macroArguments fun _ _ _ => True).mono (fun p ⟨d, hp⟩ => .of_invocation hp) ?_)
    exact fun _ _ _ _ => trivial
  refine .sight (fun _ p hp => hp.plus) (fun hplus => ?_) fun hplus => ?_
  · refine then_pure ((furtherBounds hg false false).mono (fun p hp => ?_) fun _ _ _ hk => hk.1)
    exact .of_plus hp ((Bool.and_eq_true _ _).mp hplus).2
  · exact .sight (fun _ _ _ => rfl)
      (fun _ => pure _ _ rfl fun k hk => .of_type hk.1 hk.2 hbang hplus)
      fun _ => pure _ _ rfl fun k hk => .of_type hk.1 hk.2 hbang hplus

/-- A type in brackets is read again. -/
theorem bracketedType (hg : Rereadable g) {follow : Unit → List Lexeme → List Lexeme → Prop} :
    Rereads g m s Rule.bracketedType Rule.bracketedType id (Bracketed .bracket s) follow := by
  unfold Rule.bracketedType
  refine (within (fun _ _ => True) fun s' _ => ?_).front_mono fun p hp => hp.bracketed
  let behind (s p : List Lexeme) : Prop := Spelt [';'] ExprFront s p ∨ Ended s p
  have htype : Rereads g m s' (Rule.call (.type true)) (Rule.call (.type true)) id (fun _ => True)
      fun _ => behind := by
    refine (hg.plainType m s' true).mono (fun _ _ => trivial) fun _ s₂ k hk => ?_
    rcases hk with ⟨joint, joint', s₃, k', rfl, rfl, -⟩ | hk
    · exact .of_punct (by decide) _ _ _
    · exact .of_ended hk
  refine htype.bind_id (fun _ s₂ => ?_) fun p hp => hp
  refine operator? (fun p hp => ?_) (fun _ => ?_) fun _ => pure _ _ rfl fun k hk => .inr hk
  · rcases hp with ⟨joint, joint', s₃, k', rfl, rfl, -⟩ | ⟨d, s₃, k', rfl, rfl⟩ <;> rfl
  · refine operator_then ";" ExprFront (fun s₃ => ?_) fun p hp => .inl hp
    refine (hg.expression m s₃ true).bind fun _ _ _ _ => pure _ _ rfl fun k hk => ?_
    obtain ⟨d, s₄, k', rfl, rfl⟩ := hk
    exact (ExprFollow.of_closing s₄ d k').shape _

/-- The type of a raw pointer is read again. -/
theorem pointerType (hg : Rereadable g) :
    Rereads g m s Rule.pointerType Rule.pointerType id (Spelt ['*'] Look s) fun _ => TypeFollow := by
  unfold Rule.pointerType
  refine operator_then "*" Look (fun s' => ?_) fun p hp => hp
  refine ahead (.sight (fun _ p hp => by rw [hp.word, hp.word]) (fun hs => ?_) fun _ => ?_)
  · refine (copyWord (fun _ _ => True) ?_).bind_id (fun _ s₂ => ?_) fun p ⟨w, hp⟩ => hp.look
    · exact ((Bool.or_eq_true _ _).mp hs).elim seesAnyWord_of_word seesAnyWord_of_word
    · exact then_pure ((hg.plainType m s₂ false).front_mono fun _ _ => trivial)
  · exact .expected_then _ _

/-- The type of a reference is read again. -/
theorem referenceType (hg : Rereadable g) :
    Rereads g m s Rule.referenceType Rule.referenceType id (Spelt ['&'] Look s)
      fun _ => TypeFollow := by
  have htype : ∀ s, Rereads g m s (do let _ ← Rule.call (.type false)) (do let _ ← Rule.call (.type false))
      id (Look s) fun _ => TypeFollow := fun s =>
    then_pure ((hg.plainType m s false).front_mono fun p hp => hp.toLook)
  unfold Rule.referenceType
  refine operator_then "&" Look (fun s' => ?_) fun p hp => hp
  have hrest : ∀ s, Rereads g m s (do let _ ← Rule.keyword? "mut"; let _ ← Rule.call (.type false))
      (do let _ ← Rule.keyword? "mut"; let _ ← Rule.call (.type false)) id (Look s)
      fun _ => TypeFollow := by
    intro s
    refine keyword? (fun p hp => hp.word _) (fun _ => ?_) fun _ => htype s
    exact keyword_then "mut" Look (fun s₂ => htype s₂) fun p hp => hp.look
  refine lifetime? (fun p hp => hp.lifetime) (fun _ => ?_) fun _ => hrest s'
  exact lifetime_then Look (fun _ _ s₂ => hrest s₂) fun p hp => hp.look

/-- A type that is marked as a trait object is read again. -/
theorem objectType (hg : Rereadable g) (plus : Bool) :
    Rereads g m s (Rule.objectType plus) (Rule.objectType plus) id (Worded "dyn" Colonless s)
      fun _ => TypeFollow := by
  unfold Rule.objectType
  refine then_pure (keptIf_id id fun m => here fun start => .of_forall fun start' _ => ?_)
  refine keyword_then "dyn" Colonless (fun s' => ?_) fun p hp => hp
  refine operator? (fun p hp => hp.operator "*" rfl) (fun _ => ?_) fun _ => ?_
  · refine operator_then "*" TraitedFront (fun s₂ => then_pure (objectBounds hg start start' plus))
      fun p hp => ?_
    refine ⟨hp.look (by decide) fun _ _ _ h => h.toLook, ?_⟩
    obtain ⟨_, _, _, _, rfl, rfl, -⟩ := hp
    rfl
  · exact then_pure ((objectBounds hg start start' plus).front_mono fun p hp => hp.toColonless)

/-- A type of which only the bounds are known is read again. -/
theorem implType (hg : Rereadable g) (plus : Bool) :
    Rereads g m s (Rule.implType plus) (Rule.implType plus) id (Worded "impl" Colonless s)
      fun _ => TypeFollow := by
  unfold Rule.implType
  refine here fun start => .of_forall fun start' _ => ?_
  refine keyword_then "impl" TraitedFront (fun s' => ?_) fun p hp => hp.mono fun _ _ h => h.toColonless
  exact then_pure (boundsWithTrait hg start start' .noTrait plus true true)

end Rereads

/-- An exclamation mark, if no equals sign comes new behind it. -/
theorem look_bang {joint joint' : Bool} (hjoint : joint' = true → joint = true)
    (h : sees "=" s = false → sees "=" p = false) :
    Look (punct '!' joint :: s) (punct '!' joint' :: p) := by
  refine ⟨rfl, fun _ => rfl, rfl, rfl, fun _ => rfl, rfl, rfl, rfl, rfl, fun _ => rfl, ?_, rfl, rfl, rfl,
    rfl, rfl⟩
  intro operator hmem
  simp only [guards, List.mem_cons, List.not_mem_nil, or_false] at hmem
  rcases hmem with rfl | rfl | rfl | rfl | rfl | rfl | rfl | rfl | rfl | rfl | rfl
  case inr.inr.inr.inl =>
    exact sees_punct_mono rfl (fun _ => hjoint) fun _ _ hp =>
      Bool.of_not_eq_false fun hs => Bool.noConfusion ((h hs).symm.trans hp)
  all_goals exact sees_punct_mono rfl (fun h => absurd h (by decide)) fun h => absurd h (by decide)

/-- An exclamation mark is a type. -/
theorem TypeFront.of_bang {told : Prop} {rest : List Lexeme → List Lexeme → Prop}
    (h : Spelt ['!'] rest s p) (hrest : ∀ s p, rest s p → TypeFollow s p) : TypeFront told s p := by
  have hspelt := h
  obtain ⟨joint, joint', s', p', rfl, rfl, hjoint, h⟩ := h
  exact hspelt.type (look_bang hjoint (hrest s' p' h).equals) (by decide)

namespace Rereads

/-! ### All kinds of types -/

/-- A type is read again. -/
theorem type (hg : Rereadable g) (plus : Bool) (told : Prop) :
    Rereads g m s (Rule.type plus) (Rule.type plus) id (TypeFront told s) fun _ s' k =>
      TypeFollow s' k ∧ (told → Colonless s' k) := by
  unfold Rule.type
  dsimp only
  refine (binder? hg (TypeFront told)).bind_id (fun bound s' => ?_) fun p hp => hp.type
  refine (?_ : Rereads g m s' _ _ _ (TypeFront told s') _).front_mono
    fun p hp _ hfor => ⟨(hp.word _).trans hfor, hp⟩
  refine ahead (.sight (fun _ p hp => ?_) (fun _ => .expected _) fun _ => ?_)
  · simp only [Rule.seesPathWord, hp.word, hp.identifier]
  refine .sight (fun _ p hp => hp.group _) (fun _ => ?_) fun _ => ?_
  · exact (parenthesizedType hg plus).mono (fun p hp => hp.type) fun _ _ _ hk => hk.1
  refine .sight (fun _ p hp => by simp only [hp.word]) (fun _ => ?_) fun _ => ?_
  · refine then_pure ((functionType hg).mono (fun p hp => ?_) fun _ _ _ hk => hk.1)
    obtain ⟨w, hp⟩ := hp
    exact hp.type fun _ _ _ h => h
  refine .sight (fun _ p hp => ?_) (fun _ => ?_) fun _ => ?_
  · simp only [Rule.seesPath, Rule.seesPathWord, hp.word, hp.identifier, hp.colons, hp.operator "<" rfl]
  · exact pathType hg bound plus told
  refine .sight (fun _ p hp => hp.word _) (fun _ => ?_) fun _ => ?_
  · exact then_pure ((objectType hg plus).mono (fun p hp => hp.type fun _ _ _ h => h)
      fun _ _ _ hk => hk.1)
  refine .sight (fun _ p hp => hp.group _) (fun _ => ?_) fun _ => ?_
  · exact then_pure ((bracketedType hg).front_mono fun p hp => hp.type)
  refine .sight (fun _ p hp => hp.operator "*" rfl) (fun _ => ?_) fun _ => ?_
  · refine then_pure ((pointerType hg).mono (fun p hp => ?_) fun _ _ _ hk => hk.1)
    exact hp.type (hp.look (by decide) fun _ _ _ h => h) (by decide)
  refine .sight (fun _ p hp => hp.operator "&" rfl) (fun _ => ?_) fun _ => ?_
  · refine then_pure ((referenceType hg).mono (fun p hp => ?_) fun _ _ _ hk => hk.1)
    exact hp.type (hp.look (by decide) fun _ _ _ h => h) (by decide)
  refine .sight (fun _ p hp => ?_) (fun _ => ?_) fun _ => ?_
  · rw [hp.operator "!" rfl, hp.operator "=" rfl]
  · refine operator_then "!" TypeFollow (fun s₂ => pure _ _ rfl fun k hk => hk.1)
      fun p hp => .of_bang hp fun _ _ h => h
  refine .sight (fun _ p hp => hp.word _) (fun _ => ?_) fun _ => ?_
  · exact then_pure ((implType hg plus).mono (fun p hp => hp.type fun _ _ _ h => h)
      fun _ _ _ hk => hk.1)
  refine .sight (fun _ p hp => hp.word _) (fun _ => ?_) fun _ => ?_
  · exact keyword_then "_" (fun s k => told → Colonless s k) (fun s₂ => pure _ _ rfl fun k hk => hk.2)
      fun p hp => hp.type fun ht _ _ h => h ht
  refine .sight (fun _ p hp => hp.lifetime) (fun hs => ?_) fun _ => .expected _
  refine here fun start => .of_forall fun start' _ => ?_
  exact (objectBounds hg start start' true).mono (fun p hp => hp.type hs) fun _ _ _ hk => hk.1

end Rereads

/-- What no type begins with is one character that is no part of `::`, or a keyword. -/
theorem Rule.cases_of_beginsNoType {ls : List Lexeme} (h : beginsNoType ls = true) :
    seesWord "const" ls = true ∨
      ∃ c joint ls', ls = punct c joint :: ls' ∧ c ∈ ['?', '>', '#', '.', ':'] ∧ sees "::" ls = false := by
  have hpunct : ∀ text c, text.toList = [c] → c ∈ ['?', '>', '#'] → sees text ls = true →
      ∃ c joint ls', ls = punct c joint :: ls' ∧ c ∈ ['?', '>', '#', '.', ':'] ∧ sees "::" ls = false := by
    intro text c htext hc hsees
    rw [sees, htext] at hsees
    obtain ⟨joint, ls', rfl⟩ := exists_of_sees hsees
    simp only [List.mem_cons, List.not_mem_nil, or_false] at hc
    rcases hc with rfl | rfl | rfl <;> exact ⟨_, joint, ls', rfl, by simp, rfl⟩
  simp only [beginsNoType, List.any_cons, List.any_nil, Bool.or_false, Bool.or_eq_true] at h
  rcases h with ((h | h | h | h) | h) | h
  · exact .inr (hpunct "?" '?' rfl (by simp) h)
  · exact .inr (hpunct ">" '>' rfl (by simp) h)
  · exact .inr (hpunct "#" '#' rfl (by simp) h)
  · refine .inr ?_
    cases ls with
    | nil => cases h
    | cons l ls =>
        cases l with
        | punct c joint =>
            replace h : startsWith ['.', '.', '.'] (punct c joint :: ls) = true := h
            simp only [startsWith, Bool.and_eq_true, beq_iff_eq] at h
            obtain ⟨⟨rfl, -⟩, -⟩ := h
            exact ⟨_, joint, ls, rfl, by simp, rfl⟩
        | _ => cases h
  · exact .inl h
  · obtain ⟨hcolon, hcolons⟩ := (Bool.and_eq_true _ _).mp h
    obtain ⟨joint, ls', rfl⟩ := exists_of_sees (c := ':') hcolon
    exact .inr ⟨_, joint, ls', rfl, by simp, by simpa using hcolons⟩

/-- Where no type begins, none is read. -/
theorem Rule.run_type_of_beginsNoType (plus : Bool) {r : Reader} (h : beginsNoType r.rest = true) :
    ∃ missing, (type plus).run g r = .error (r.fault (.oneOf missing)) := by
  have hexpected := run_expected_eq (g := g) (α := TypeShape) typeBeginnings r
  rcases cases_of_beginsNoType h with hconst | ⟨c, joint, ls, hr, hc, hcolons⟩
  · obtain ⟨ls, hr⟩ := Rereads.exists_of_seesWord hconst
    have hbinder : (binder?).run g r = .ok (false, r) := by
      rw [binder?, run_bind_of_ok (run_keyword?_of_not_sees (by rw [hr]; rfl))]
      rfl
    rw [type, run_bind_of_ok hbinder, run_bind_of_ok (run_ahead r), hr]
    simpa [seesPath, seesPathWord, seesIdentifier, isIdentifier, keywords, seesWord, seesGroup,
      seesLifetime, sees,
      startsWith] using hexpected
  · have hbinder : (binder?).run g r = .ok (false, r) := by
      rw [binder?, run_bind_of_ok (run_keyword?_of_not_sees (by rw [hr]; rfl))]
      rfl
    simp only [List.mem_cons, List.not_mem_nil, or_false] at hc
    have hpath : seesPath r.rest = false := by
      rw [seesPath, hcolons, hr]
      rcases hc with rfl | rfl | rfl | rfl | rfl <;> rfl
    rw [type, run_bind_of_ok hbinder, run_bind_of_ok (run_ahead r), hpath, hr]
    rcases hc with rfl | rfl | rfl | rfl | rfl <;>
      simpa [seesWord, seesGroup, seesLifetime, sees, startsWith] using hexpected

/-- Before braces an exclamation mark is a type on its own. -/
theorem Rule.run_type_never (plus : Bool) {r : Reader} {joint : Bool} {rest : List Lexeme}
    (hr : r.rest = punct '!' joint :: opening .brace :: rest) :
    (type plus).run g r = .ok (.other, r.take 1 [punct '!' false]) := by
  have hbinder : (binder?).run g r = .ok (false, r) := by
    rw [binder?, run_bind_of_ok (run_keyword?_of_not_sees (by rw [hr]; rfl))]
    rfl
  have hbang : sees "!" r.rest = true := by rw [hr]; rfl
  rw [type, run_bind_of_ok hbinder, run_bind_of_ok (run_ahead r), hr]
  simp [seesPath, seesPathWord, seesIdentifier, seesWord, seesGroup, sees, startsWith]
  rw [run_bind_of_ok (run_operator_of_sees hbang)]
  rfl

end TypedId.Grammar
