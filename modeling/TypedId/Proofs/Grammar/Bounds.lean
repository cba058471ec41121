import TypedId.Grammar.Type
import TypedId.Proofs.Grammar.Generics

/-!
Bounds are read again.

A bound of an unusual kind is kept in its source spelling, so both of its texts are read again. The
`::` before arguments in parentheses is not written.
-/

namespace TypedId.Grammar

open Lexeme

variable {g : PhraseReader} {m : Rendition} {s p : List Lexeme} {α β γ : Type}

/-! ### Beginnings without a colon -/

/-- Both texts look alike, and no single colon comes first. -/
structure Colonless (s p : List Lexeme) : Prop extends Look s p where
  colon : Rule.seesColon s = false

theorem PathFront.colonless {last : List Lexeme → List Lexeme → Prop} (h : PathFront last s p) :
    Colonless s p := by
  refine ⟨h.look, ?_⟩
  rcases h with h | ⟨s', p', rfl, rfl, joint, joint', s', p', rfl, rfl, -⟩
  · obtain ⟨w, s', p', -, rfl, rfl⟩ := h.word
    rfl
  · rfl

theorem Opened.colonless {d : Delimiter} {rest : List Lexeme → List Lexeme → Prop}
    (h : Opened d rest s p) : Colonless s p := by
  refine ⟨h.look, ?_⟩
  obtain ⟨s', p', rfl, rfl, -⟩ := h
  rfl

theorem Worded.colonless {w : String} {rest : List Lexeme → List Lexeme → Prop}
    (h : Worded w rest s p) : Colonless s p := by
  refine ⟨h.look, ?_⟩
  obtain ⟨s', p', rfl, rfl, -⟩ := h
  rfl

theorem Spelt.colonless {c : Char} {rest : List Lexeme → List Lexeme → Prop} (h : Spelt [c] rest s p)
    (hc : c ∉ ['\'', '-', ':', '.', '=', '!', '<', '*', '&', '|']) : Colonless s p := by
  refine ⟨h.look (fun hmem => hc ?_) fun hmem => absurd ?_ hc, ?_⟩
  · exact List.mem_append_left ['=', '!', '<', '*', '&', '|'] hmem
  · exact List.mem_append_right ['\'', '-', ':', '.'] hmem
  · obtain ⟨joint, joint', s', p', rfl, rfl, -⟩ := h
    rw [Rule.seesColon, show sees ":" (punct c joint :: s') = false from startsWith_punct_of_ne ?_ ..]
    · rfl
    · rintro rfl
      exact hc (by decide)

theorem Colonless.of_binder (h : BinderFront Colonless s p) : Colonless s p := by
  rcases h with h | ⟨-, -, h⟩
  · exact h.colonless
  · exact h

/-! ### Arguments in parentheses -/

/-- Whether arguments in parentheses stand behind `::`. -/
def Rule.seesColonsAndParenthesis (ls : List Lexeme) : Bool :=
  sees "::" ls && seesGroup .parenthesis (third ls)

/-- Behind a path: nothing that one goes on with comes new. If the path may have arguments in
parentheses, they stand behind both or behind none. -/
structure ArgumentsFollow (bare : Bool) (s k : List Lexeme) : Prop extends PathFollow false s k where
  parenthesis : bare = true → (seesGroup .parenthesis k || Rule.seesColonsAndParenthesis k) =
    (seesGroup .parenthesis s || Rule.seesColonsAndParenthesis s)

theorem TypeFollow.arguments_follow {bare : Bool} (h : TypeFollow s p)
    (hs : bare = true → (seesGroup .parenthesis s || Rule.seesColonsAndParenthesis s) = false) :
    ArgumentsFollow bare s p := by
  refine ⟨h.toPathFollow, fun hbare => ?_⟩
  obtain ⟨hparenthesis, hcolons⟩ := Bool.or_eq_false_iff.mp (hs hbare)
  rw [hs hbare, h.parenthesis hparenthesis]
  exact h.arguments hcolons

theorem Bracketed.arguments_follow (bare : Bool) (h : Bracketed .parenthesis s p) :
    ArgumentsFollow bare s p := by
  obtain ⟨s', p', rfl, rfl, -⟩ := h
  exact ⟨⟨fun _ _ => rfl, fun _ => rfl, fun _ => rfl, fun _ => rfl⟩, fun _ => rfl⟩

/-- Behind a path, arguments in parentheses stand behind `::` in both texts. -/
theorem ArgumentsFollow.of_colons (bare joint joint' : Bool) (s p : List Lexeme) :
    ArgumentsFollow bare (punct ':' true :: punct ':' joint :: opening .parenthesis :: s)
      (punct ':' true :: punct ':' joint' :: opening .parenthesis :: p) := by
  refine ⟨⟨fun _ _ => rfl, fun hs => Bool.noConfusion hs, fun _ => ?_, fun _ => ?_⟩, fun _ => rfl⟩ <;>
    rw [third_colons] <;> rfl

/-- Behind a path, arguments in parentheses stand behind `::` in the first text alone. -/
theorem ArgumentsFollow.of_colons_unwritten (bare joint : Bool) (s p : List Lexeme) :
    ArgumentsFollow bare (punct ':' true :: punct ':' joint :: opening .parenthesis :: s)
      (opening .parenthesis :: p) :=
  ⟨⟨fun _ _ => rfl, fun _ => rfl, fun _ => rfl, fun _ => rfl⟩, fun _ => rfl⟩

namespace Rereads

/-- The `::` before arguments in parentheses is not written, so it may be missing when they are read
again. -/
theorem parenthesisBehindColons (hg : Rereadable g) (bare : Bool)
    (hs : Rule.seesColonsAndParenthesis s = true) :
    RereadsBy g m s (do Rule.take 2 []; Rule.parenthesizedArguments)
      (fun _ p =>
        if Rule.seesColonsAndParenthesis p then do Rule.take 2 []; Rule.parenthesizedArguments
        else Rule.parenthesizedArguments)
      id (ArgumentsFollow bare s) fun _ => TypeFollow := by
  obtain ⟨hcolons, hparenthesis⟩ := (Bool.and_eq_true _ _).mp hs
  obtain ⟨joint, s', rfl⟩ := exists_of_seesColons hcolons
  rw [third_colons] at hparenthesis
  intro hg' r a r' hr hb hrun hstray
  have hr' : r.stray = none := Rule.run_stray hg' _ r a r' hrun hstray
  rw [Rule.run_bind_of_ok (Rule.run_take ..),
    show r.take 2 [] = r.after [punct ':' true, punct ':' joint] [] s' from
      Reader.take_eq_after [punct ':' true, punct ':' joint] [] hr hr'] at hrun
  have hclosed₂ : Closed [punct ':' true, punct ':' joint] := (Closed.punct _ _).append (.punct _ _)
  have hb' : Balanced s' := hb.of_suffix ⟨[punct ':' true, punct ':' joint], rfl⟩
  obtain ⟨taken, written, hclosed, -, hrest, hafter, hagain⟩ :=
    parenthesizedArguments hg (m := m) hg' _ a r' rfl hb' hrun hstray
  refine ⟨[punct ':' true, punct ':' joint] ++ taken, written, hclosed₂.append hclosed, hr', ?_,
    hafter.trans (Reader.after_after ..), fun q k hq hq' hk => ?_⟩
  · exact congrArg ([punct ':' true, punct ':' joint] ++ ·) hrest
  cases m with
  | source =>
      have htake : q.take 2 [] = q.after [punct ':' true, punct ':' joint] [] (taken ++ k) :=
        Reader.take_eq_after [punct ':' true, punct ':' joint] [] (hq.trans (List.append_assoc ..)) hq'
      obtain ⟨hp, a', ha', hagain'⟩ :=
        hagain (q.after [punct ':' true, punct ':' joint] [] (taken ++ k)) k rfl rfl hk
      have hq₂ : q.rest = punct ':' true :: punct ':' joint :: (taken ++ k) := hq
      obtain ⟨s₂, p₂, rfl, hp, -⟩ : Bracketed .parenthesis s' (taken ++ k) := hp
      rw [hq₂, hp]
      refine ⟨.of_colons bare joint joint s₂ p₂, a', ha', ?_⟩
      show (do Rule.take 2 []; Rule.parenthesizedArguments).run g q = _
      rw [Rule.run_bind_of_ok (Rule.run_take ..), htake, hagain', Reader.after_after]
      rfl
  | written =>
      obtain ⟨hp, a', ha', hagain'⟩ := hagain q k hq hq' hk
      obtain ⟨s₂, p₂, rfl, hp, -⟩ := hp
      rw [hp]
      exact ⟨.of_colons_unwritten bare joint s₂ p₂, a', ha', hagain'⟩

/-- Arguments in parentheses are read again, which may be left out. -/
theorem traitArguments (hg : Rereadable g) (shape : PathShape) :
    Rereads g m s (Rule.traitArguments shape) (Rule.traitArguments shape) id
      (ArgumentsFollow shape.bareEnd s) fun _ => TypeFollow := by
  unfold Rule.traitArguments
  dsimp only
  refine ahead (.sight (fun _ p hp => ?_) (fun hs => ?_) fun hs => ?_)
  · cases hbare : shape.bareEnd with
    | true => exact hp.parenthesis hbare
    | false => rfl
  · obtain ⟨hbare, hparenthesis⟩ := (Bool.and_eq_true _ _).mp hs
    cases hcolons : Rule.seesColonsAndParenthesis s with
    | true =>
        refine (parenthesisBehindColons hg shape.bareEnd hcolons).congr (fun r _ => ?_) fun _ _ => rfl
        exact congrArg (Rule.run g · r) (if_pos hcolons)
    | false =>
        refine ((parenthesizedArguments hg).congr (fun r _ => ?_) fun q hq => ?_).front_mono
          fun p hp => hp.arguments_follow _
        · exact congrArg (Rule.run g · r) (if_neg (Bool.eq_false_iff.mp hcolons))
        · obtain ⟨s', p', rfl, hq, -⟩ := hq
          exact congrArg (Rule.run g · q) (if_neg (by rw [hq]; exact Bool.noConfusion))
  · refine pure _ _ rfl fun k hk => hk.arguments_follow fun hbare => ?_
    simpa [hbare, Rule.seesColonsAndParenthesis] using hs

/-! ### Bounds by a trait -/

/-- The `const` before a bound is read again, which may be left out. -/
theorem constMark (constant : Bool) :
    Rereads g m s (Rule.constMark constant) (Rule.constMark constant) id (Colonless s)
      fun _ => Colonless := by
  unfold Rule.constMark
  dsimp only
  refine here fun n => .of_forall fun n' _ => ?_
  refine ahead (.sight (fun _ p hp => hp.group _) (fun hs => ?_) fun hs => ?_)
  · refine within_then id (fun _ _ => True) (fun s' => ?_) (fun _ _ s' _ => ?_) fun p hp => hp.colonless
    · exact (keyword "const").front_mono fun _ _ => trivial
    · refine .sight (fun _ _ _ => rfl) (fun _ => pure _ _ rfl fun _ _ => trivial) fun _ => ?_
      exact here fun _ => .fail_then _ _
  · refine .sight (fun _ p hp => hp.word _) (fun hs => ?_) fun hs => ?_
    · refine keyword_then "const" Colonless (fun s' => ?_) fun p hp => hp.colonless
      exact .sight (fun _ _ _ => rfl) (fun _ => pure _ _ rfl fun k hk => hk) fun _ => .fail_then _ _
    · exact pure _ _ rfl fun k hk => hk

/-- A bound by a trait is read again. -/
theorem traitBound (hg : Rereadable g) (constant : Bool) :
    Rereads g m s (Rule.traitBound constant) (Rule.traitBound constant) id (Colonless s)
      fun _ => TypeFollow := by
  -- What is read behind all that may stand before the path.
  let rest (mark : Nat) (marked bound optional : Bool) : Rule BoundShape := do
    Rule.traitArguments (← Rule.path false)
    if bound && optional then Rule.fail ⟨.single mark, .binderOnOptionalBound, false⟩
    return if marked then .kept else .traitBound
  have hrest : ∀ mark mark' marked bound optional s, Rereads g m s (rest mark marked bound optional)
      (rest mark' marked bound optional) id (Colonless s) fun _ => TypeFollow := by
    intro mark mark' marked bound optional s
    refine (path hg false fun _ _ => True).bind_id (fun shape s' => ?_) fun p hp =>
      PathFront.colonless hp
    refine (traitArguments hg shape).bind_id (fun _ s₂ => ?_) fun p hp _ =>
      ⟨trivial, hp.toPathFollow⟩
    exact .sight (fun _ _ _ => rfl) (fun _ => .fail_then _ _) fun _ => pure _ _ rfl fun k hk => hk
  unfold Rule.traitBound
  dsimp only
  refine (binder? hg Colonless).bind_id (fun found s' => ?_) fun p hp => Colonless.of_binder hp
  refine (constMark constant).bind_id (fun marked s₂ => ?_) fun p hp _ hfor =>
    ⟨(hp.word _).trans hfor, hp⟩
  refine here fun n => .of_forall fun n' _ => ?_
  refine operator? (fun p hp => hp.operator "?" rfl) (fun _ => ?_) fun _ => ?_
  · refine operator_then "?" Colonless (fun s₃ => ?_) fun p hp => hp.colonless (by decide)
    refine .sight (fun _ _ _ => rfl) (fun _ => ?_) fun _ => hrest n n' marked found true s₃
    refine (binder? hg Colonless).bind_id (fun bound s₄ => ?_) fun p hp => Colonless.of_binder hp
    exact (hrest n n' marked bound true s₄).front_mono fun p hp _ hfor => ⟨(hp.word _).trans hfor, hp⟩
  · exact .sight (fun _ _ _ => rfl) (fun h => Bool.noConfusion h) fun _ => hrest n n' marked found false s₂

/-! ### Bounds -/

/-- A bound is read again; only the place that it tells may differ. -/
theorem bound (hg : Rereadable g) (captures constant : Bool)
    (behind : BoundShape → List Lexeme → List Lexeme → Prop) :
    Rereads g m s (Rule.bound captures constant) (Rule.bound captures constant) BoundShape.placeless
      (BoundFront behind s) fun a s' k => TypeFollow s' k ∧ behind a s' k := by
  unfold Rule.bound
  dsimp only
  refine ahead (.sight (fun _ p hp => hp.lifetime) (fun _ => ?_) fun hs => ?_)
  · let mid (n : Nat) (s' k : List Lexeme) : Prop := TypeFollow s' k ∧ behind (.lifetime n) s' k
    have hlifetime : Rereads g m s Rule.lifetime Rule.lifetime (fun _ => ())
        (fun p => ∃ n, Lifelong (mid n) s p) mid := lifetime
    refine (hlifetime.bind fun n n' s' _ => ?_).front_mono fun p hp => ?_
    · exact pure (BoundShape.lifetime n) (.lifetime n') rfl fun k hk => hk
    · obtain ⟨n, h⟩ := hp
      refine ⟨h.look, ?_, fun _ => ⟨n, ?_⟩⟩ <;>
        obtain ⟨w, s', p', rfl, rfl, h⟩ := h
      · rfl
      · exact h.2
  have hfront : ∀ p, Colonless s p → BoundFront behind s p := fun p hp =>
    ⟨hp.toLook, hp.colon, fun h => Bool.noConfusion (hs.symm.trans h)⟩
  refine .sight (fun _ p hp => hp.word _) (fun _ => ?_) fun _ => ?_
  · refine here fun n => .of_forall fun n' _ => ?_
    refine ((captureList : Rereads g m s _ _ _ _ fun _ _ _ => True).bind
      fun stop stop' s' _ => ?_).front_mono
      fun p hp => hfront p hp.colonless
    refine .sight (fun _ _ _ => rfl) (fun _ => ?_) fun _ => ?_
    · exact pure (BoundShape.captures stop) (.captures stop') rfl fun _ _ => trivial
    · exact .fail_then _ _
  · have hkept : ∀ rule : Rule BoundShape,
        (∀ m, Rereads g m s rule rule id (Colonless s) fun _ => TypeFollow) →
          Rereads g m s (Rule.keptIf (· == .kept) rule) (Rule.keptIf (· == .kept) rule)
            BoundShape.placeless (BoundFront behind s) fun a s' k => TypeFollow s' k ∧ behind a s' k := by
      intro rule hrule
      exact ((keptIf_id _ hrule).mono hfront fun _ _ _ hk => hk.1).keep_mono fun _ _ h => congrArg _ h
    have hcontent : ∀ m, Rereads g m s (Rule.within .parenthesis (Rule.traitBound constant))
        (Rule.within .parenthesis (Rule.traitBound constant)) id (Colonless s) fun _ => TypeFollow := by
      intro m
      refine (within Colonless fun s' _ => ?_).front_mono fun p hp => hp.colonless
      refine (traitBound hg constant).follow_mono fun _ s' k hk => ?_
      obtain ⟨d, s₂, k', rfl, rfl⟩ := hk
      exact .of_closing _ d k'
    refine (hkept (if seesGroup .parenthesis s then Rule.within .parenthesis (Rule.traitBound constant)
      else Rule.traitBound constant) fun m => ?_).congr (fun r _ => rfl) fun q hq => ?_
    · split
      · exact hcontent m
      · exact traitBound hg constant
    · rw [hq.group]

end Rereads

end TypedId.Grammar
