import TypedId.Proofs.Grammar.Members

/-!
Patterns are read again.

Three dots in a range are written as two dots and an equals sign, so the texts may differ there.
Whether a pattern begins with a path is told by what stands behind its first word.
-/

namespace TypedId.Grammar

open Lexeme

variable {g : PhraseReader} {m : Rendition} {s p : List Lexeme} {α β γ : Type}

/-! ### Dots -/

/-- Two dots that are seen are two lexemes, the first joined to the second. -/
theorem sees_twoDots {ls : List Lexeme} (h : sees ".." ls = true) :
    ∃ joint ls', ls = punct '.' true :: punct '.' joint :: ls' := by
  cases ls with
  | nil => cases h
  | cons l ls =>
      cases l with
      | punct c joint =>
          replace h : ('.' == c && joint && startsWith ['.'] ls) = true := h
          simp only [Bool.and_eq_true, beq_iff_eq] at h
          obtain ⟨⟨rfl, rfl⟩, h⟩ := h
          obtain ⟨joint, ls', rfl⟩ := exists_of_sees h
          exact ⟨joint, ls', rfl⟩
      | _ => cases h

/-- Whether a third character makes another operator of two dots depends on the second joint. -/
theorem sees_dots_then (c : Char) (joint : Bool) (ls : List Lexeme) :
    startsWith ['.', '.', c] (punct '.' true :: punct '.' joint :: ls) =
      (joint && startsWith [c] ls) := by
  simp [startsWith]

/-- Both texts begin with the dots of a range, and go on alike behind them. -/
def DotsFront (rest : Bool → List Lexeme → List Lexeme → Prop) (s p : List Lexeme) : Prop :=
  Spelt ['.', '.', '='] (rest true) s p ∨
    (sees "..=" s = false ∧ sees "..=" p = false ∧ sees "..." s = false ∧ sees "..." p = false ∧
      Spelt ['.', '.'] (rest false) s p)

/-- Beginning with two dots, texts look alike. -/
theorem DotsFront.look {rest : Bool → List Lexeme → List Lexeme → Prop} (h : DotsFront rest s p) :
    Look s p := by
  rcases h with ⟨_, _, rfl, rfl, _, _, rfl, rfl, joint, joint', s', p', rfl, rfl, -⟩ |
    ⟨hs, hp, hs', hp', _, _, rfl, rfl, joint, joint', s', p', rfl, rfl, -⟩
  · exact ⟨rfl, fun _ => rfl, rfl, rfl, fun _ => rfl, rfl, rfl, rfl, rfl, fun _ => rfl,
      by simp [guards, sees, startsWith], rfl, rfl, rfl, rfl, rfl⟩
  · exact ⟨rfl, fun _ => rfl, rfl, rfl, fun _ => rfl, rfl, rfl, rfl, rfl, fun _ => rfl,
      by simp [guards, sees, startsWith], rfl, rfl, hp'.trans hs'.symm, hp.trans hs.symm, rfl⟩

theorem DotsFront.dots {rest : Bool → List Lexeme → List Lexeme → Prop} (h : DotsFront rest s p) :
    sees ".." s = true ∧ sees ".." p = true := by
  rcases h with ⟨_, _, rfl, rfl, _, _, rfl, rfl, -⟩ |
    ⟨-, -, -, -, _, _, rfl, rfl, _, _, _, _, rfl, rfl, -⟩ <;> exact ⟨rfl, rfl⟩

/-- Two dots at the end of a group. -/
theorem Spelt.lookTwoDots (h : Spelt ['.', '.'] Ended s p) : Look s p := by
  refine (show DotsFront (fun _ => Ended) s p from .inr ?_).look
  have hsees := h
  obtain ⟨_, _, rfl, rfl, joint, joint', _, _, rfl, rfl, hjoint, d, _, _, rfl, rfl⟩ := h
  have hnone : ∀ joint c ls, Lexeme.startsWith ['.', '.', c]
      (punct '.' true :: punct '.' joint :: closing d :: ls) = false :=
    fun joint c ls => (sees_dots_then c joint (closing d :: ls)).trans (Bool.and_false joint)
  exact ⟨hnone _ _ _, hnone _ _ _, hnone _ _ _, hnone _ _ _, hsees⟩

namespace Rereads

/-- The dots of a range are read again; only their place may differ. -/
theorem dots (rest : Bool → List Lexeme → List Lexeme → Prop) :
    Rereads g m s Rule.dots Rule.dots Rule.Dots.closed (DotsFront rest s) fun between s' k =>
      rest between.closed s' k ∧
        (between.closed = false → sees "=" k = sees "=" s' ∧ sees "." k = sees "." s') := by
  unfold Rule.dots
  refine look fun n =>
    .sight (fun _ p hp => hp.look.closedDots) (fun _ => .of_forall fun n' _ => ?_) fun hclosed => ?_
  · refine operator_then "..=" (rest true) (fun s' => ?_) fun p hp => .inl hp
    exact pure (⟨⟨n, n + 2⟩, true⟩ : Rule.Dots) ⟨⟨n', n' + 2⟩, true⟩ rfl fun k hk => hk.1
  refine .sight (fun _ p hp => hp.look.threeDots) (fun _ => .expected _) fun hthree => ?_
  refine .sight (fun _ p hp => hp.look.dots) (fun _ => .of_forall fun n' _ => ?_) fun _ => .expected _
  refine operator_then ".." (fun s' k => rest false s' k ∧ sees "=" k = sees "=" s' ∧
    sees "." k = sees "." s') (fun s' => ?_) fun p hp => .inr ?_
  · exact pure (⟨⟨n, n + 1⟩, false⟩ : Rule.Dots) ⟨⟨n', n' + 1⟩, false⟩ rfl fun k hk => ⟨hk.1, hk.2 rfl⟩
  · refine ⟨hclosed, ?_, hthree, ?_, hp.mono fun _ _ h => h.1⟩ <;>
      obtain ⟨_, _, rfl, rfl, joint, joint', s', p', rfl, rfl, hjoint, -, hequals, hpoint⟩ := hp
    · refine (sees_dots_then '=' joint' p').trans ?_
      have hs := (sees_dots_then '=' joint s').symm.trans hclosed
      rw [show startsWith ['='] p' = startsWith ['='] s' from hequals]
      cases joint' with
      | false => rfl
      | true => rwa [hjoint rfl] at hs
    · refine (sees_dots_then '.' joint' p').trans ?_
      have hs := (sees_dots_then '.' joint s').symm.trans hthree
      rw [show startsWith ['.'] p' = startsWith ['.'] s' from hpoint]
      cases joint' with
      | false => rfl
      | true => rwa [hjoint rfl] at hs

/-- The dots of a range in a pattern are read again. -/
theorem patternDots (rest : Bool → List Lexeme → List Lexeme → Prop) :
    Rereads g m s Rule.patternDots Rule.patternDots Rule.Dots.closed
      (fun p => sees ".." s = true ∧ sees ".." p = true) fun between s' k =>
        rest between.closed s' k ∧
          (between.closed = false → sees "=" k = sees "=" s' ∧ sees "." k = sees "." s') := by
  have hdots : ∀ (r : Reader), (sees "..." r.rest && !sees "..=" r.rest) = false →
      Rule.patternDots.run g r = Rule.dots.run g r := by
    intro r hr
    rw [Rule.patternDots, Rule.run_bind_of_ok (Rule.run_look r), if_neg (by simp [hr])]
  cases hthree : (sees "..." s && !sees "..=" s) with
  | false =>
      refine ((dots rest).congr (fun r hr => hdots r (hr ▸ hthree)) fun q hq => hdots q ?_).front_mono
        fun p hp => ?_
      · rw [hq.look.threeDots, hq.look.closedDots, hthree]
      · rcases hp with h | ⟨-, -, -, -, h⟩
        · obtain ⟨_, _, rfl, rfl, _, _, rfl, rfl, -⟩ := h
          exact ⟨rfl, rfl⟩
        · exact h.startsWith
  | true =>
      obtain ⟨joint, s', rfl⟩ : ∃ joint s',
          s = punct '.' true :: punct '.' true :: punct '.' joint :: s' := by
        have hs := ((Bool.and_eq_true _ _).mp hthree).1
        obtain ⟨taken, s', rfl, -, -, -, -, hspelt⟩ := spelt_of_startsWith hs
        obtain ⟨_, _, h, -, _, _, rfl, -, joint, _, s₂, _, rfl, -⟩ :=
          hspelt .source (fun _ _ => True) [] trivial
        exact ⟨joint, s₂, h⟩
      have hthreeDots : ∀ (r : Reader) joint rest,
          r.rest = [punct '.' true, punct '.' true, punct '.' joint] ++ rest → r.stray = none →
          Rule.patternDots.run g r = .ok (⟨⟨r.position, r.position + 2⟩, true⟩,
            r.after [punct '.' true, punct '.' true, punct '.' joint]
              (Lexeme.operator "..=".toList) rest) := by
        intro r joint rest hr hstray
        rw [← Reader.take_eq_after _ _ hr hstray, Rule.patternDots,
          Rule.run_bind_of_ok (Rule.run_look r), hr]
        rfl
      refine .of_after [punct '.' true, punct '.' true, punct '.' joint]
        (Lexeme.operator "..=".toList) rfl
        (((Closed.punct _ _).append (.punct _ _)).append (.punct _ _))
        (fun n => ⟨⟨n, n + 2⟩, true⟩) (fun n => ⟨⟨n, n + 2⟩, true⟩) (fun _ _ => rfl)
        (fun r hr hstray => hthreeDots r joint s' hr hstray) (fun q k hq hq' => ?_) fun _ k _ => ?_
      · cases m with
        | source => exact hthreeDots q joint k hq hq'
        | written =>
            rw [hdots q (by rw [hq]; rfl), Rule.dots, Rule.run_bind_of_ok (Rule.run_look q),
              if_pos (by rw [hq]; rfl), Rule.run_bind_of_ok (Rule.run_operator_of_sees (by rw [hq]; rfl)),
              Rule.run_pure]
            exact congrArg (fun r => Except.ok (_, r)) (Reader.take_eq_after _ _ hq hq')
      · cases m <;> exact ⟨rfl, rfl⟩

end Rereads

/-! ### Ends of ranges -/

/-- Texts that look alike end a pattern alike. -/
theorem Look.endsPattern (h : Look s p) : Grammar.endsPattern p = Grammar.endsPattern s := by
  simp only [Grammar.endsPattern, h.ends, h.seesColon, h.word, List.any_cons, List.any_nil,
    h.operator "|" rfl, h.operator "=" rfl, h.operator "," rfl, h.operator ";" rfl]

/-- How that looks at its beginning which may be the end of a range in a pattern. -/
structure EndFront (s p : List Lexeme) : Prop where
  stop : endsPattern p = endsPattern s
  look : endsPattern s = false → Look s p
  equals : sees "=" p = sees "=" s
  point : sees "." p = sees "." s

theorem Look.end_ (h : Look s p) : EndFront s p :=
  ⟨h.endsPattern, fun _ => h, h.operator "=" rfl, h.operator "." rfl⟩

/-- What may follow a pattern and ends a range there looks like an end. -/
theorem PatternFollow.end_ {k : List Lexeme} (h : PatternFollow s k) (hs : endsPattern s = true) :
    EndFront s k :=
  ⟨(h.stop hs).trans hs.symm, fun hopen => Bool.noConfusion (hs.symm.trans hopen), h.equals,
    h.point.2.trans h.point.1.symm⟩

/-- Dots come next in both texts. -/
theorem PathFollow.of_dots {b : Bool} (hp : sees ".." p = true) : PathFollow b s p := by
  obtain ⟨joint, p', rfl⟩ := sees_twoDots hp
  exact .of_punct (by decide) _ _ _ _

namespace Rereads

/-- The end of a range in a pattern is read again, which may be left out. -/
theorem patternEnd? (hg : Rereadable g) :
    Rereads g m s Rule.patternEnd? Rule.patternEnd? id (EndFront s) fun found s' k =>
      if found = true then PathFollow true s' k else endsPattern s' = true → EndFront s' k := by
  unfold Rule.patternEnd?
  dsimp only
  refine ahead (.sight (fun _ p hp => hp.stop) (fun hs => ?_) fun hs => ?_)
  · exact pure _ _ rfl fun k hk => hk hs
  refine (?_ : RereadsBy g m s _ _ _ (Look s) _).front_mono fun p hp => hp.end_
  refine .sight (fun _ p hp => hp.literal) (fun _ => ?_) fun _ => ?_
  · exact literal_then (fun _ _ => True) (fun _ => pure _ _ rfl fun _ _ => trivial) fun p hp => hp.look
  refine .sight (fun _ p hp => ?_) (fun _ => ?_) fun _ => ?_
  · simp only [Rule.seesPath, Rule.seesPathWord, hp.word, hp.identifier, hp.colons, hp.operator "<" rfl]
  · refine (qualifiedPath hg true fun _ _ => True).bind_id (fun _ s' => pure _ _ rfl fun k hk _ => ?_)
      fun p hp => hp.look
    exact ⟨trivial, hk⟩
  refine .sight (fun _ p hp => hp.word _) (fun _ => ?_) fun _ => .expected_then _ _
  refine keyword_then "const" (Bracketed .brace) (fun s' => ?_) fun p hp => hp.look
  exact (attributedBlock hg : Rereads g m s' _ _ _ _ fun _ _ _ => True).bind_id
    (fun _ _ => pure _ _ rfl fun _ _ => trivial) fun p hp => hp

/-- What stands behind the dots of a range is read again. -/
theorem endBehind (hg : Rereadable g) (between between' : Rule.Dots)
    (h : between'.closed = between.closed) :
    Rereads g m s (Rule.endBehind between) (Rule.endBehind between') id (EndFront s)
      fun _ => PatternFollow := by
  unfold Rule.endBehind
  rw [h]
  refine (patternEnd? hg).bind_id (fun found s' => ?_) fun p hp => hp
  refine .sight (fun _ _ _ => rfl) (fun _ => .complain_then _ _) fun _ => pure _ _ rfl fun k hk => ?_
  cases found with
  | true => exact hk.toPathFollow
  | false => exact hk.end_

/-- A range in a pattern is read again, behind its start. -/
theorem rangePattern (hg : Rereadable g) :
    Rereads g m s Rule.rangePattern Rule.rangePattern PatternShape.placeless
      (fun p => sees ".." s = true ∧ sees ".." p = true) fun _ => PatternFollow := by
  unfold Rule.rangePattern
  refine (patternDots fun _ => EndFront).bind fun between between' s' h => ?_
  refine ((endBehind hg between between' h).bind_id (fun found s₂ => ?_) fun p hp => hp).front_mono
    fun p hp => ⟨hp, fun _ => ⟨hp.equals, hp.point⟩⟩
  cases found with
  | true => exact pure PatternShape.other .other rfl fun k hk => hk
  | false =>
      exact pure (PatternShape.openRange between.stretch) (.openRange between'.stretch) rfl fun k hk => hk

/-- A range in a pattern is read again that has no start. -/
theorem startlessPattern (hg : Rereadable g) :
    Rereads g m s Rule.startlessPattern Rule.startlessPattern PatternShape.placeless
      (DotsFront (fun _ => EndFront) s) fun _ => PatternFollow := by
  unfold Rule.startlessPattern
  refine (dots fun _ => EndFront).bind fun between between' s' h => ?_
  refine ((endBehind hg between between' h).bind_id (fun found s₂ => ?_) fun p hp => hp).front_mono
    fun p hp => ⟨hp, fun _ => ⟨hp.equals, hp.point⟩⟩
  cases found with
  | true =>
      exact pure (PatternShape.openRange between.stretch) (.openRange between'.stretch) rfl fun k hk => hk
  | false => exact pure PatternShape.rest .rest rfl fun k hk => hk

end Rereads

/-! ### Alternatives -/

/-- Behind the alternatives of a pattern. -/
structure AlternativesFollow (s k : List Lexeme) : Prop extends PatternFollow s k where
  alternative : Rule.seesAlternative k = Rule.seesAlternative s

/-- Texts that look alike agree about alternatives. -/
theorem Look.alternative (h : Look s p) (hs : Rule.seesAlternative s = true) :
    Rule.seesAlternative p = true := by
  simp only [Rule.seesAlternative, Bool.and_eq_true, Bool.not_eq_true'] at hs ⊢
  obtain ⟨⟨hbar, hor⟩, hassign⟩ := hs
  exact ⟨⟨(h.operator "|" rfl).trans hbar, h.not_guard (by decide) hor⟩, h.not_guard (by decide) hassign⟩

/-- A bar that is no alternative ends all of them. -/
theorem AlternativesFollow.of_bar {rest : List Lexeme → List Lexeme → Prop} (h : Spelt ['|'] rest s p)
    (hs : Rule.seesAlternative s = true) (hrest : ∀ s p, rest s p → Look s p) :
    AlternativesFollow s p := by
  have hlook := h.look (by decide) fun _ => hrest
  obtain ⟨joint, joint', s', p', rfl, rfl, -⟩ := h
  exact ⟨.of_punct (by decide) _ _ _ _, (hlook.alternative hs).trans hs.symm⟩

/-- How a pattern with alternatives looks at its beginning. -/
structure AlternativesFront (s p : List Lexeme) : Prop extends Look s p where
  parameters : Rule.seesParameters p = Rule.seesParameters s

/-- A bar may stand before the first alternative. -/
theorem AlternativesFront.of_bar (h : Spelt ['|'] PatternFront s p) : AlternativesFront s p := by
  refine ⟨h.look (by decide) fun _ _ _ h => h.toLook, ?_⟩
  obtain ⟨joint, joint', s', p', rfl, rfl, -⟩ := h
  rfl

namespace Rereads

/-- In a list, alternatives end at the comma. -/
theorem Listed.alternatives (h : Listed s p) : AlternativesFollow s p := by
  rcases h with ⟨joint, joint', s', k', rfl, rfl, -, -⟩ | ⟨d, s', k', rfl, rfl⟩
  · exact ⟨.of_punct (by decide) _ _ _ _, rfl⟩
  · exact ⟨.of_closing _ _ _ _, rfl⟩

/-- A pattern with alternatives is read again. -/
theorem alternatives (hg : Rereadable g) :
    Rereads g m s Rule.alternatives Rule.alternatives PatternShape.placeless (AlternativesFront s)
      fun _ => AlternativesFollow := by
  have hmore : ∀ s, Rereads g m s
      (Rule.while_ Rule.seesAlternative do Rule.operator "|"; Rule.call .pattern)
      (Rule.while_ Rule.seesAlternative do Rule.operator "|"; Rule.call .pattern)
      (List.map PatternShape.placeless) (AlternativesFollow s)
      fun _ s' k => Rule.seesAlternative s' = false → AlternativesFollow s' k := by
    intro s
    refine while_ AlternativesFollow (fun s p hp => hp.alternative)
      (fun s _ => .bind_left (operator_solid "|" (by decide))) fun s hs => ?_
    refine operator_then "|" PatternFront (fun s' => ?_) fun p hp => .of_bar hp hs fun _ _ h => h.toLook
    exact (hg.pattern m s').follow_mono fun _ _ _ hk => hk.toPatternFollow
  have hall : ∀ s leading, Rereads g m s
      (do
        let first ← Rule.call .pattern
        let more ← Rule.while_ Rule.seesAlternative do Rule.operator "|"; Rule.call .pattern
        return if leading || !more.isEmpty then .other else first)
      (do
        let first ← Rule.call .pattern
        let more ← Rule.while_ Rule.seesAlternative do Rule.operator "|"; Rule.call .pattern
        return if leading || !more.isEmpty then .other else first) PatternShape.placeless
      (PatternFront s) fun _ => AlternativesFollow := by
    intro s leading
    refine (hg.pattern m s).bind fun first first' s' hfirst => ?_
    refine ((hmore s').bind fun more more' s₂ h => pure _ _ ?_ fun k hk _ => hk).front_mono
      fun p hp => hp.toPatternFollow
    rw [isEmpty_of_map_eq h]
    split
    · rfl
    · exact hfirst
  unfold Rule.alternatives
  refine operator? (fun p hp => hp.operator "|" rfl) (fun _ => ?_) fun _ => ?_
  · exact operator_then "|" PatternFront (fun s' => hall s' true) fun p hp => .of_bar hp
  · exact (hall s false).front_mono fun p hp => ⟨hp.toLook, hp.parameters⟩

/-! ### Fields -/

/-- What stands behind the name of a field in a pattern is read again. -/
theorem fieldContent (hg : Rereadable g) (named : Bool) :
    Rereads g m s
      (do
        if sees ":" (← Rule.ahead) || !named then
          Rule.operator ":"
          let _ ← Rule.alternatives
        return false)
      (do
        if sees ":" (← Rule.ahead) || !named then
          Rule.operator ":"
          let _ ← Rule.alternatives
        return false) id (fun p => Spelt [':'] (fun _ _ => True) s p ∨ Listed s p)
      fun _ => Listed := by
  refine ahead (.sight (fun _ p hp => ?_) (fun _ => ?_) fun hs => ?_)
  · rcases hp with hp | hp
    · have hsees : sees ":" s = true ∧ sees ":" p = true := hp.startsWith
      rw [hsees.1, hsees.2]
    · rw [(Listed.look hp).operator ":" rfl]
  · refine operator_then ":" (fun _ _ => True) (fun s' => ?_) fun p hp => .inl hp
    exact then_pure ((alternatives hg).mono (fun _ _ => trivial) fun _ _ _ hk => hk.alternatives)
  · exact pure _ _ rfl fun k hk => .inr hk

/-- The pattern of a field is read again. -/
theorem fieldPattern (hg : Rereadable g) :
    Rereads g m s Rule.fieldPattern Rule.fieldPattern id (Look s) fun _ => Listed := by
  unfold Rule.fieldPattern
  refine then_pure (keptIf_id id fun m => ?_)
  refine keyword?_look "box" fun boxed s₁ => keyword?_look "ref" fun byReference s₂ =>
    keyword?_look "mut" fun mutable s₃ => .sight (fun _ _ _ => rfl) (fun _ => ?_) fun _ => ?_
  · exact identifier_then (fun _ => Listed) (fun _ _ _ s' => pure _ _ rfl fun k hk => hk)
      fun w p _ hp => hp.look
  · refine (member fun _ s p => Spelt [':'] (fun _ _ => True) s p ∨ Listed s p).bind_id
      (fun named s' => fieldContent hg named) fun p ⟨_, hp⟩ => hp.look

/-- The patterns of fields in braces are read again. -/
theorem fieldPatterns (hg : Rereadable g) {follow : Unit → List Lexeme → List Lexeme → Prop} :
    Rereads g m s Rule.fieldPatterns Rule.fieldPatterns id (Bracketed .brace s) follow := by
  unfold Rule.fieldPatterns
  refine (within (fun s p => ends p = ends s) fun s' _ => ?_).front_mono fun p hp => hp.bracketed
  refine repeating id (fun _ s p => ends p = ends s) (fun _ s p => ends p = ends s)
    (fun x x' s hx => ?_) (fun _ _ _ => id) (fun x s => ?_) rfl
  · refine ahead (.sight (fun _ p hp => hp) (fun _ => ?_) fun hs => ?_)
    · exact pure _ _ rfl fun k hk => Ended.ends hk
    refine (outerAttributes hg Look).bind_id (fun _ s' => ?_) fun p hp =>
      (hp.look fun _ _ h => h).ends
    refine (?_ : Rereads g m s' _ _ _ (Look s') _).front_mono
      fun p hp hs => ⟨hp, (hp.operator "#" rfl).trans hs⟩
    refine ahead (.sight (fun _ p hp => hp.dots) (fun hvariadic => ?_) fun _ => ?_)
    · refine operator_then ".." Ended (fun _ => pure _ _ rfl fun k hk => hk) fun p hp => hp.lookTwoDots
    · refine (fieldPattern hg).bind_id (fun _ s₂ => ?_) fun p hp => hp
      refine ahead (.sight (fun _ p hp => Listed.ends hp) (fun _ => ?_) fun _ => ?_)
      · exact pure _ _ rfl fun k hk => .inr hk
      · exact operator_then "," (fun _ _ => True) (fun s₃ => pure _ _ rfl fun k hk => trivial)
          fun p hp => .inl hp
  · refine .ahead (.ite (fun _ => .pure (by simp)) fun _ => .bind_right fun _ s' => ?_)
    refine .ahead (.ite (fun _ => ?_) fun _ => ?_)
    · exact .bind_left (operator_solid ".." (by decide))
    · exact .bind_right fun _ _ => .ahead (.ite (fun _ => .pure (by simp)) fun _ =>
        .bind_left (operator_solid "," (by decide)))

end Rereads

/-! ### Beginnings of patterns -/

/-- Both texts look alike to one who tells whether a pattern begins with the path of a word before. -/
structure NextAlike (s p : List Lexeme) : Prop where
  colons : sees "::" p = sees "::" s
  exclamation : sees "!" p = sees "!" s
  dots : sees ".." p = sees ".." s
  brace : seesGroup .brace p = seesGroup .brace s
  parenthesis : seesGroup .parenthesis p = seesGroup .parenthesis s
  less : sees "<" p = sees "<" s

theorem Look.next (h : Look s p) : NextAlike s p :=
  ⟨h.colons, h.operator "!" rfl, h.dots, h.group _, h.group _, h.operator "<" rfl⟩

theorem sees_twoDots_of_point {ls : List Lexeme} (h : sees "." ls = false) : sees ".." ls = false := by
  cases hdots : sees ".." ls with
  | false => rfl
  | true =>
      obtain ⟨joint, ls', rfl⟩ := sees_twoDots hdots
      cases h

/-- A receiver begins with its word or with `mut`, if not with a reference. -/
theorem seesReceiver_word (w : String) (ls : List Lexeme) :
    seesReceiver (word w :: ls) =
      if w = "mut" then seesWord "self" ls && !Rule.seesUntyped (ls.drop 1)
      else w == "self" && !Rule.seesUntyped ls := by
  have hand : sees "&" (word w :: ls) = false := rfl
  have hmut : seesWord "mut" (word w :: ls) = (w == "mut") := rfl
  rw [seesReceiver, receiverWord, if_neg (by simp [hand]), hand, Bool.false_or, Rule.dropWord, hmut]
  by_cases hw : w = "mut"
  · rw [if_pos (beq_iff_eq.mpr hw), if_pos hw]
    rfl
  · rw [if_neg (fun h => hw (beq_iff_eq.mp h)), if_neg hw]
    rfl

/-- Behind a pattern nothing comes that would make a path of its last word. -/
theorem PatternFollow.next {k : List Lexeme} (h : PatternFollow s k) (hs : sees "::" s = false) :
    NextAlike s k :=
  ⟨(h.colons hs).trans hs.symm, h.exclamation.2.trans h.exclamation.1.symm,
    (sees_twoDots_of_point h.point.2).trans (sees_twoDots_of_point h.point.1).symm,
    h.brace.2.trans h.brace.1.symm, h.parenthesis.2.trans h.parenthesis.1.symm,
    h.less.2.trans h.less.1.symm⟩

/-- How a pattern looks at its beginning to one who reads it. -/
structure PatternStart (s p : List Lexeme) : Prop extends PatternFront s p where
  path : Rule.seesPathPattern p = Rule.seesPathPattern s

/-- A word of which it does not matter what stands behind it. -/
theorem PatternStart.of_keyword {w : String} {rest : List Lexeme → List Lexeme → Prop}
    (h : Worded w rest s p) (hw : isIdentifier w = false ∧ w ∉ ["self", "mut"]) : PatternStart s p := by
  obtain ⟨s', p', rfl, rfl, -⟩ := h
  obtain ⟨hself, hmut⟩ : w ≠ "self" ∧ w ≠ "mut" := by simpa using hw.2
  have hreceiver : seesReceiver (word w :: p') = false := by
    rw [seesReceiver_word, if_neg hmut, beq_false_of_ne hself]
    rfl
  have hpath : ∀ ls, Rule.seesPathPattern (word w :: ls) =
      ["Self", "super", "crate"].any fun v => w == v := by
    intro ls
    simp [Rule.seesPathPattern, seesIdentifier, hw.1, seesWord, hself, sees, startsWith]
  exact ⟨⟨look_word w s' p', rfl, rfl, rfl, rfl, fun h => Bool.noConfusion (hw.1.symm.trans h),
    fun _ => hreceiver, rfl⟩, (hpath _).trans (hpath _).symm⟩

/-- A word, and what stands behind it looks alike. -/
theorem PatternStart.of_word {w : String} (hnext : NextAlike s p)
    (hmut : w = "mut" → seesReceiver (word w :: s) = false → seesReceiver (word w :: p) = false)
    (hself : w = "self" → Rule.seesUntyped s = true → Rule.seesUntyped p = true) :
    PatternStart (word w :: s) (word w :: p) := by
  refine ⟨⟨look_word w s p, rfl, rfl, rfl, rfl, fun _ => hnext.less, fun hs => ?_, rfl⟩, ?_⟩
  · by_cases hw : w = "mut"
    · exact hmut hw hs
    · rw [seesReceiver_word, if_neg hw] at hs ⊢
      cases hword : w == "self" with
      | false => rfl
      | true =>
          rw [hword, Bool.true_and, Bool.not_eq_false'] at hs
          rw [hself (eq_of_beq hword) hs]
          rfl
  · show (_ || _ || _ || _ || _) = (_ || _ || _ || _ || _)
    simp only [show second (word w :: p) = p from rfl, show second (word w :: s) = s from rfl,
      hnext.colons, hnext.exclamation, hnext.dots, hnext.brace, hnext.parenthesis]
    rfl

/-- Anything but a word. -/
theorem PatternStart.of_look (h : Look s p) (hword : seesAnyWord s = false)
    (hlifetime : seesLifetime s = false) (hs : ∀ c ∈ ['#', '<', '&', '|', '='], startsWith [c] s = false) :
    PatternStart s p := by
  have hno : ∀ c ∈ ['#', '<', '&', '|', '='], startsWith [c] p = false :=
    fun c hc => (h.char c).trans (hs c hc)
  have hwords : ∀ ls, seesAnyWord ls = false → (∀ w, seesWord w ls = false) ∧ seesIdentifier ls = false := by
    intro ls hls
    refine ⟨fun w => ?_, ?_⟩
    · exact Bool.eq_false_iff.mpr fun h => Bool.noConfusion (hls.symm.trans (seesAnyWord_of_word h))
    · exact Bool.eq_false_iff.mpr fun h => Bool.noConfusion (hls.symm.trans (seesAnyWord_of_identifier h))
  have hreceiver : ∀ ls, seesAnyWord ls = false → startsWith ['&'] ls = false → receiverWord ls = ls := by
    intro ls hls hand
    have hand' : sees "&" ls = false := hand
    simp [receiverWord, hand', Rule.dropWord, (hwords ls hls).1]
  have hparameters : ∀ ls, startsWith ['<'] ls = false → Rule.seesParameters ls = false := by
    intro ls hls
    have hls' : sees "<" ls = false := hls
    rw [Rule.seesParameters, hls', Bool.false_and]
  have hpath : ∀ ls, seesAnyWord ls = false → startsWith ['<'] ls = false →
      Rule.seesPathPattern ls = sees "::" ls := by
    intro ls hls hless
    have hless' : sees "<" ls = false := hless
    simp [Rule.seesPathPattern, hwords ls hls, hless']
  have hword' : seesAnyWord p = false := h.anyWord.trans hword
  refine ⟨⟨h, hs '#' (by decide), hs '|' (by decide), hs '=' (by decide), hlifetime,
    fun hid => Bool.noConfusion ((hwords s hword).2.symm.trans hid), ?_, ?_⟩, ?_⟩
  · intro _
    rw [seesReceiver, hreceiver p hword' (hno '&' (by decide)), (hwords p hword').1]
    rfl
  · rw [hparameters s (hs '<' (by decide)), hparameters p (hno '<' (by decide))]
  · rw [hpath s hword (hs '<' (by decide)), hpath p hword' (hno '<' (by decide)), h.colons]

/-- What stands behind the `&` of a pattern. -/
structure ReferenceFront (s p : List Lexeme) : Prop extends Look s p where
  unlifelong : seesLifetime s = false
  mutable : seesWord "mut" s = true → Look (second s) (second p)

/-- A pattern may begin with `&`, whatever it refers to. -/
theorem PatternStart.of_reference (h : Spelt ['&'] ReferenceFront s p) : PatternStart s p := by
  have hlook := h.look (by decide) fun _ _ _ h => h.toLook
  obtain ⟨joint, joint', s', p', rfl, rfl, -, h⟩ := h
  have hreceiver : ∀ joint ls, seesLifetime ls = false →
      receiverWord (punct '&' joint :: ls) = Rule.dropWord "mut" ls := by
    intro joint ls hls
    have hand : sees "&" (punct '&' joint :: ls) = true := rfl
    simp [receiverWord, hand, hls]
  have hand : ∀ joint ls, seesLifetime ls = false → seesReceiver (punct '&' joint :: ls) =
      seesWord "self" (Rule.dropWord "mut" ls) := by
    intro joint ls hls
    rw [seesReceiver, hreceiver joint ls hls, show sees "&" (punct '&' joint :: ls) = true from rfl,
      Bool.true_or, Bool.and_true]
  refine ⟨⟨hlook, rfl, rfl, rfl, rfl, fun h => Bool.noConfusion h, fun hs => ?_, rfl⟩, rfl⟩
  rw [hand _ _ h.unlifelong] at hs
  rw [hand _ _ (h.lifetime.trans h.unlifelong), ← hs, Rule.dropWord, Rule.dropWord, h.word "mut"]
  cases hmut : seesWord "mut" s' with
  | false => exact h.word "self"
  | true =>
      have hbehind := h.mutable hmut
      obtain ⟨s₂, rfl⟩ := Rereads.exists_of_seesWord hmut
      obtain ⟨p₂, rfl⟩ := Rereads.exists_of_seesWord ((h.word "mut").trans hmut)
      exact hbehind.word "self"

/-- A pattern may begin with a type in angle brackets. -/
theorem PatternStart.of_angle (h : Spelt ['<'] (TypeFront True) s p) : PatternStart s p := by
  have hlook := h.look (by decide) fun _ _ _ h => h.toLook
  obtain ⟨joint, joint', s', p', rfl, rfl, -, h⟩ := h
  have hpath : ∀ joint ls, Rule.seesPathPattern (punct '<' joint :: ls) = true := by
    intro joint ls
    have hless : sees "<" (punct '<' joint :: ls) = true := rfl
    simp [Rule.seesPathPattern, hless]
  exact ⟨⟨hlook, rfl, rfl, rfl, rfl, fun h => Bool.noConfusion h, fun _ => rfl,
    h.parameters_angle joint joint'⟩, (hpath _ _).trans (hpath _ _).symm⟩

/-- The keyword `mut` is no word of a path. -/
theorem IsSegment.not_mut : ¬ IsSegment "mut" := by
  rintro (h | h)
  · exact absurd h (by decide)
  · exact absurd h (by decide)

/-- What stands behind a word of a path that begins a pattern. -/
structure PathNext (s p : List Lexeme) : Prop extends NextAlike s p where
  untyped : Rule.seesUntyped s = true → Rule.seesUntyped p = true

/-- Behind a path texts look alike that do not go on with a colon. -/
theorem Look.pathNext (h : Look s p) (hs : sees ":" s = false) : PathNext s p :=
  ⟨h.next, fun huntyped => by rw [Rule.seesUntyped, hs] at huntyped; cases huntyped⟩

theorem PathNext.of_colons {joint joint' : Bool} (hp : sees ":" p = false) :
    PathNext (punct ':' true :: punct ':' joint :: s) (punct ':' true :: punct ':' joint' :: p) :=
  ⟨(look_twoColons _ _ _ _).next, fun _ => Rule.seesUntyped_colons _ _ hp⟩

theorem sees_of_less {ls : List Lexeme} (h : sees "<" ls = true) : sees ":" ls = false := by
  obtain ⟨joint, ls', rfl⟩ := exists_of_sees (c := '<') h
  rfl

/-- The words of a path begin with one that both texts share. -/
theorem SegmentsFront.next (h : SegmentsFront PathNext s p) :
    ∃ w s' p', IsSegment w ∧ s = Lexeme.word w :: s' ∧ p = Lexeme.word w :: p' ∧ PathNext s' p' := by
  cases h with
  | single h =>
      cases h with
      | bare w hw h => exact ⟨w, _, _, hw, rfl, rfl, h⟩
      | arguments w hw hs _ h => exact ⟨w, _, _, hw, rfl, rfl, h.pathNext (sees_of_less hs)⟩
      | turbofish w hw _ _ _ hp => exact ⟨w, _, _, hw, rfl, rfl, .of_colons (sees_of_less hp)⟩
  | further w hw _ _ h =>
      obtain ⟨v, s', p', -, rfl, rfl⟩ := h.word
      exact ⟨w, _, _, hw, rfl, rfl, .of_colons rfl⟩

/-- A pattern may begin with a path, also with one that begins with a type. -/
theorem QualifiedFront.pattern (h : QualifiedFront PathNext s p) : PatternStart s p := by
  rcases h with (h | h) | h
  · obtain ⟨w, s', p', hw, rfl, rfl, hnext⟩ := h.next
    exact .of_word hnext.toNextAlike (fun hmut => (IsSegment.not_mut (hmut ▸ hw)).elim)
      fun _ => hnext.untyped
  · have hlook := look_colons h
    obtain ⟨_, _, rfl, rfl, -⟩ := h
    exact .of_look hlook rfl rfl (by simp [startsWith])
  · exact .of_angle h

/-! ### Behind the path of a pattern -/

/-- What stands behind a path that begins a pattern. -/
structure PathPatternFollow (s k : List Lexeme) : Prop where
  bang : Rule.seesBang k = Rule.seesBang s
  brace : seesGroup .brace k = seesGroup .brace s
  parenthesis : seesGroup .parenthesis k = seesGroup .parenthesis s
  dots : sees ".." k = sees ".." s
  further : (sees "::" s && !seesGroup .parenthesis (third s)) = false →
    PathNext s k ∧ PathFollow true s k

/-- Behind the path of a pattern it matters whether the path goes on and whether a macro is used. -/
theorem PathPatternFollow.of_look {k : List Lexeme} (h : Look s k) (hs : sees ":" s = false)
    (hbang : Rule.seesBang k = Rule.seesBang s) (hpath : PathFollow true s k) : PathPatternFollow s k :=
  ⟨hbang, h.group _, h.group _, h.dots, fun _ => ⟨h.pathNext hs, hpath⟩⟩

theorem PathFollow.of_opening (b : Bool) (s : List Lexeme) (d : Delimiter) (k : List Lexeme) :
    PathFollow b s (opening d :: k) :=
  ⟨fun _ _ => rfl, fun _ => rfl, fun _ => rfl, fun _ => rfl⟩

/-- An exclamation mark and a group make a macro of the path. -/
theorem PathPatternFollow.of_invocation {d : Delimiter} {rest : List Lexeme → List Lexeme → Prop}
    (h : Spelt ['!'] (Enclosed d rest) s p) : PathPatternFollow s p := by
  have hlook := h.look (by decide) fun _ _ _ h => h.look
  obtain ⟨joint, joint', s', p', rfl, rfl, -, content, s₂, p₂, rfl, rfl, -⟩ := h
  refine .of_look hlook rfl ?_ (.of_punct (by decide) _ _ _ _)
  rw [Rule.seesBang_opening, Rule.seesBang_opening]

/-- A group makes a structure or a tuple of it. -/
theorem PathPatternFollow.of_group {d : Delimiter} (h : Bracketed d s p) : PathPatternFollow s p := by
  have hlook := h.look
  obtain ⟨s', p', rfl, rfl, -⟩ := h
  exact .of_look hlook rfl rfl (.of_opening _ _ _ _)

/-- Two dots make it the start of a range. -/
theorem PathPatternFollow.of_dots (hs : sees ".." s = true) (hp : sees ".." p = true) :
    PathPatternFollow s p := by
  have hpath : PathFollow true s p := .of_dots hp
  obtain ⟨joint, s', rfl⟩ := sees_twoDots hs
  obtain ⟨joint', p', rfl⟩ := sees_twoDots hp
  exact ⟨rfl, rfl, rfl, rfl, fun _ =>
    ⟨⟨⟨rfl, rfl, rfl, rfl, rfl, rfl⟩, fun h => Bool.noConfusion h⟩, hpath⟩⟩

/-- A path that ends here is not followed by two colons. -/
theorem PatternFollow.not_colons {k : List Lexeme} (h : PatternFollow s k)
    (hs : (sees "::" s && !seesGroup .parenthesis (third s)) = false) : sees "::" s = false := by
  have hseparate := h.separate
  cases hcolons : sees "::" s with
  | false => rfl
  | true =>
      rw [hcolons, Bool.true_and] at hs hseparate
      rw [hseparate] at hs
      cases hs

/-- What may follow a pattern may follow its path. -/
theorem PathPatternFollow.of_pattern {k : List Lexeme} (h : PatternFollow s k) :
    PathPatternFollow s k := by
  refine ⟨?_, h.brace.2.trans h.brace.1.symm, h.parenthesis.2.trans h.parenthesis.1.symm,
    (sees_twoDots_of_point h.point.2).trans (sees_twoDots_of_point h.point.1).symm,
    fun hs => ⟨⟨h.next (h.not_colons hs), h.untyped⟩, h.toPathFollow⟩⟩
  rw [Rule.seesBang, Rule.seesBang, h.exclamation.1, h.exclamation.2]
  rfl

namespace Rereads

/-- The patterns in parentheses are read again. -/
theorem patternsInParentheses (hg : Rereadable g) {follow : Unit → List Lexeme → List Lexeme → Prop} :
    Rereads g m s (Rule.within .parenthesis do let _ ← Rule.commaList Rule.alternatives)
      (Rule.within .parenthesis do let _ ← Rule.commaList Rule.alternatives) id
      (Bracketed .parenthesis s) follow :=
  groupedList PatternShape.placeless fun _ _ =>
    (alternatives hg).mono (fun _ hp => hp.ends) fun _ _ _ hk => hk.alternatives

/-- A pattern that begins with a path is read again. -/
theorem pathPattern (hg : Rereadable g) :
    Rereads g m s Rule.pathPattern Rule.pathPattern PatternShape.placeless (PatternStart s)
      fun _ => PatternFollow := by
  unfold Rule.pathPattern
  refine (qualifiedPath hg true PathNext).bind_id (fun shape s' => ?_) fun p hp => hp.pattern
  refine (?_ : Rereads g m s' _ _ _ (PathPatternFollow s') _).front_mono fun p hp => hp.further
  refine ahead (.sight (fun _ p hp => by rw [hp.bang]) (fun _ => ?_) fun _ => ?_)
  · exact (macroArguments fun _ _ _ => True).bind_id (fun _ _ => pure _ _ rfl fun _ _ => trivial)
      fun p ⟨d, hp⟩ => .of_invocation hp
  refine .sight (fun _ p hp => hp.brace) (fun _ => ?_) fun _ => ?_
  · exact (fieldPatterns hg : Rereads g m s' _ _ _ _ fun _ _ _ => True).bind_id
      (fun _ _ => pure _ _ rfl fun _ _ => trivial) fun p hp => .of_group hp
  refine .sight (fun _ p hp => hp.parenthesis) (fun _ => ?_) fun _ => ?_
  · exact (patternsInParentheses hg : Rereads g m s' _ _ _ _ fun _ _ _ => True).bind_id
      (fun _ _ => pure _ _ rfl fun _ _ => trivial) fun p hp => .of_group hp
  refine .sight (fun _ p hp => hp.dots) (fun _ => ?_) fun _ => ?_
  · exact (rangePattern hg).front_mono fun p hp => .of_dots hp.1 hp.2
  · exact pure _ _ rfl fun k hk => .of_pattern hk

/-! ### Other kinds of patterns -/

/-- A pattern that is a value or begins with one is read again. -/
theorem valuePattern (hg : Rereadable g) :
    Rereads g m s Rule.valuePattern Rule.valuePattern PatternShape.placeless (EndFront s)
      fun _ => PatternFollow := by
  have hends : ∀ {s : List Lexeme}, sees ".." s = true → endsPattern s = false := by
    intro s hs
    obtain ⟨joint, s', rfl⟩ := sees_twoDots hs
    simp [endsPattern, ends, Rule.seesColon, seesWord, sees, startsWith]
  unfold Rule.valuePattern
  refine (patternEnd? hg).bind_id (fun found s' => ?_) fun p hp => hp
  refine (?_ : Rereads g m s' _ _ _ (fun p => sees ".." p = sees ".." s' ∧ PathFollow true s' p ∧
    (endsPattern s' = true → EndFront s' p)) _).front_mono fun p hp => ?_
  · refine ahead (.sight (fun _ p hp => hp.1) (fun hs => ?_) fun _ => ?_)
    · refine (rangePattern hg).front_mono fun p hp => ⟨hp.2.trans hp.1.symm, .of_dots hp.2, fun h => ?_⟩
      exact Bool.noConfusion ((hends hs).symm.trans h)
    · refine pure _ _ rfl fun k hk => ⟨?_, hk.toPathFollow, hk.end_⟩
      rw [sees_twoDots_of_point hk.point.1, sees_twoDots_of_point hk.point.2]
  · cases found with
    | true => exact hp.2.1
    | false => exact hp.2.2

/-- Behind a name that a pattern gives. -/
def NameFollow (s p : List Lexeme) : Prop :=
  Spelt ['@'] PatternFront s p ∨ PatternFollow s p

/-- Whether a name is a receiver without a type is seen alike in both texts. -/
theorem NameFollow.untyped (h : NameFollow s p) (hs : Rule.seesUntyped s = true) :
    Rule.seesUntyped p = true := by
  rcases h with ⟨_, _, _, _, rfl, -⟩ | h
  · cases hs
  · exact h.untyped hs

/-- Both texts begin with a name that a pattern gives. -/
def NameFront (s p : List Lexeme) : Prop :=
  ∃ w, (isIdentifier w || ["self"].contains w) = true ∧ Worded w NameFollow s p

theorem NameFront.look (h : NameFront s p) : Look s p := by
  obtain ⟨w, -, h⟩ := h
  exact h.look

/-- No receiver comes new where a name is given behind `mut`. -/
theorem NameFront.receiver (h : NameFront s p) (hs : seesReceiver (word "mut" :: s) = false) :
    seesReceiver (word "mut" :: p) = false := by
  obtain ⟨w, hw, s', p', rfl, rfl, h⟩ := h
  have hseen : ∀ ls, seesReceiver (word "mut" :: word w :: ls) = (w == "self" && !Rule.seesUntyped ls) :=
    fun ls => seesReceiver_word "mut" (word w :: ls)
  rw [hseen] at hs ⊢
  cases hself : w == "self" with
  | false => rfl
  | true =>
      rw [hself, Bool.true_and, Bool.not_eq_false'] at hs
      rw [h.untyped hs]
      rfl

/-- A name begins a pattern, and no path does. -/
theorem NameFront.pattern (h : NameFront s p) (hs : Rule.seesPathPattern s = false) :
    PatternStart s p := by
  obtain ⟨w, hw, s', p', rfl, rfl, h⟩ := h
  have hcolons : sees "::" s' = false := by
    simp only [Rule.seesPathPattern, Bool.or_eq_false_iff, Bool.and_eq_false_iff] at hs
    obtain ⟨⟨⟨⟨hidentifier, hself⟩, -⟩, -⟩, -⟩ := hs
    rw [Bool.or_eq_true] at hw
    rcases hw with hw | hw
    · rcases hidentifier with h | h
      · exact Bool.noConfusion (h.symm.trans hw)
      · exact h.1.1.1.1
    · obtain rfl : w = "self" := by simpa using hw
      rcases hself with h | h
      · cases h
      · exact h
  have hmut : w ≠ "mut" := by
    rintro rfl
    exact absurd hw (by decide)
  refine .of_word ?_ (fun h => (hmut h).elim) fun _ => h.untyped
  rcases h with h | h
  · exact (h.look (by decide) fun hc => absurd hc (by decide)).next
  · exact h.next hcolons

/-- A pattern that gives a name is read again. -/
theorem namePattern (hg : Rereadable g) (hs : Rule.seesPathPattern s = false) :
    Rereads g m s Rule.namePattern Rule.namePattern id (PatternStart s) fun _ => PatternFollow := by
  have hname : ∀ s, Rereads g m s
      (do
        let _ ← Rule.identifierOr ["self"]
        if ← Rule.operator? "@" then let _ ← Rule.call .pattern)
      (do
        let _ ← Rule.identifierOr ["self"]
        if ← Rule.operator? "@" then let _ ← Rule.call .pattern) id (NameFront s)
      fun _ => PatternFollow := by
    intro s
    refine identifierOr_then ["self"] (fun _ => NameFollow) (fun _ _ _ s' => ?_)
      fun w p hw hp => ⟨w, hw, hp⟩
    refine operator? (fun p hp => ?_) (fun _ => ?_) fun _ => pure _ _ rfl fun k hk => .inr hk
    · rcases hp with hp | hp
      · exact hp.startsWith.2.trans hp.startsWith.1.symm
      · exact hp.binding.2.trans hp.binding.1.symm
    · exact operator_then "@" PatternFront (fun s₂ => then_pure (hg.pattern m s₂)) fun p hp => .inl hp
  unfold Rule.namePattern
  refine keyword? (fun p hp => hp.word _) (fun _ => ?_) fun _ => ?_
  · refine keyword_then "ref" Look (fun s' => ?_) fun p hp => .of_keyword hp (by decide)
    exact keyword?_look "mut" fun _ s₂ => (hname s₂).front_mono fun _ hp => hp.look
  · refine keyword? (fun p hp => hp.word _) (fun _ => ?_) fun _ => ?_
    · refine keyword_then "mut" NameFront hname ?_
      rintro p ⟨s', p', rfl, rfl, hp⟩
      exact .of_word hp.look.next (fun _ => hp.receiver) fun h => absurd h (by decide)
    · exact (hname s).front_mono fun p hp => hp.pattern hs

/-- A pattern for the elements of a sequence is read again. -/
theorem slicePattern (hg : Rereadable g) {follow : Unit → List Lexeme → List Lexeme → Prop} :
    Rereads g m s Rule.slicePattern Rule.slicePattern id (Bracketed .bracket s) follow := by
  unfold Rule.slicePattern
  refine groupedList (fun _ : Unit => ()) fun s' _ => ?_
  refine ((alternatives hg).bind fun shape shape' s₂ hshape => ?_).front_mono fun p hp => hp.ends
  cases shape with
  | openRange stretch => exact .fail _
  | other | rest | kept =>
      cases shape' with
      | openRange stretch => cases hshape
      | other | rest | kept => exact pure () () rfl fun k hk => Listed.alternatives hk

/-- A reference to what has a pattern is read again. -/
theorem referencePattern (hg : Rereadable g) :
    Rereads g m s
      (do
        Rule.operator "&"
        let _ ← Rule.keyword? "mut"
        let _ ← Rule.call .pattern
        return PatternShape.other)
      (do
        Rule.operator "&"
        let _ ← Rule.keyword? "mut"
        let _ ← Rule.call .pattern
        return PatternShape.other) PatternShape.placeless (PatternStart s) fun _ => PatternFollow := by
  refine operator_then "&" ReferenceFront (fun s' => ?_) fun p hp => .of_reference hp
  refine keyword? (fun p hp => hp.word _) (fun _ => ?_) fun hmut => ?_
  · refine keyword_then "mut" PatternFront (fun s₂ => then_pure (hg.pattern m s₂)) ?_
    rintro p ⟨s₂, p₂, rfl, rfl, hp⟩
    exact ⟨look_word _ _ _, rfl, fun _ => hp.toLook⟩
  · refine then_pure ((hg.pattern m s').front_mono fun p hp => ⟨hp.toLook, hp.unlifelong, fun h => ?_⟩)
    exact Bool.noConfusion (hmut.symm.trans h)

end Rereads

/-! ### All kinds of patterns -/

/-- A pattern may begin with a group. -/
theorem Bracketed.pattern {d : Delimiter} (h : Bracketed d s p) : PatternStart s p := by
  have hlook := h.look
  obtain ⟨_, _, rfl, rfl, -⟩ := h
  exact .of_look hlook rfl rfl (by simp [startsWith])

/-- A pattern may begin with two dots. -/
theorem DotsFront.pattern {rest : Bool → List Lexeme → List Lexeme → Prop} (h : DotsFront rest s p) :
    PatternStart s p := by
  have hlook := h.look
  obtain ⟨_, _, rfl⟩ := sees_twoDots h.dots.1
  exact .of_look hlook rfl rfl (by simp [startsWith])

/-- A value begins with a minus, a literal that is no word, or one of a few words. -/
theorem exists_of_seesValue (hs : (sees "-" s || seesLiteral s || seesWord "const" s) = true) :
    (∃ joint s', s = punct '-' joint :: s') ∨ (∃ text s', s = literal text :: s') ∨
      ∃ w ∈ ["true", "false", "const"], ∃ s', s = word w :: s' := by
  simp only [Bool.or_eq_true] at hs
  rcases hs with (hs | hs) | hs
  · obtain ⟨joint, s', rfl⟩ := exists_of_sees (c := '-') hs
    exact .inl ⟨joint, s', rfl⟩
  · unfold seesLiteral at hs
    split at hs
    · exact .inr (.inl ⟨_, _, rfl⟩)
    · next v s' =>
      refine .inr (.inr ⟨v, ?_, s', rfl⟩)
      simp only [Bool.or_eq_true, beq_iff_eq] at hs
      rcases hs with rfl | rfl <;> decide
    · exact .inl ⟨_, _, rfl⟩
    · cases hs
  · obtain ⟨s', rfl⟩ := Rereads.exists_of_seesWord hs
    exact .inr (.inr ⟨"const", by decide, s', rfl⟩)

/-- The beginning of a value. -/
theorem EndFront.pattern (h : EndFront s p)
    (hs : (sees "-" s || seesLiteral s || seesWord "const" s) = true) : PatternStart s p := by
  rcases exists_of_seesValue hs with ⟨joint, s', rfl⟩ | ⟨text, s', rfl⟩ | ⟨w, hw, s', rfl⟩
  · exact .of_look (h.look rfl) rfl (seesLifetime_punct (by decide) _ _) (by simp [startsWith])
  · exact .of_look (h.look rfl) rfl rfl (by simp [startsWith])
  · have hif : w ≠ "if" := by
      rintro rfl
      exact absurd hw (by decide)
    have hlook := h.look (by simp [endsPattern, ends, Rule.seesColon, seesWord, sees, startsWith, hif])
    obtain ⟨p', rfl⟩ := Rereads.exists_of_seesWord ((hlook.word w).trans (by simp [seesWord]))
    have hworded : Worded w (fun _ _ => True) (word w :: s') (word w :: p') := ⟨s', p', rfl, rfl, trivial⟩
    refine .of_keyword hworded ?_
    simp only [List.mem_cons, List.not_mem_nil, or_false] at hw
    rcases hw with rfl | rfl | rfl <;> decide

namespace Rereads

/-- A pattern without alternatives is read again. -/
theorem pattern (hg : Rereadable g) :
    Rereads g m s Rule.pattern Rule.pattern PatternShape.placeless (PatternFront s)
      fun _ => PatternFollow := by
  unfold Rule.pattern
  refine (?_ : Rereads g m s _ _ _ (PatternStart s) _).front_mono fun p hp => hp.toPatternFront
  refine ahead (.sight (fun _ p hp => hp.path) (fun _ => pathPattern hg) fun hpath => ?_)
  refine .sight (fun _ p hp => hp.word _) (fun _ => ?_) fun _ => ?_
  · exact then_pure ((keyword "_").front_mono fun p hp => .of_keyword hp (by decide))
  refine .sight (fun _ p hp => hp.word _) (fun _ => ?_) fun _ => ?_
  · refine then_pure (kept (?_ : Rereads g .source s _ _ id _ _))
    exact keyword_then "box" PatternFront (fun s' => then_pure (hg.pattern .source s'))
      fun p hp => .of_keyword hp (by decide)
  refine .sight (fun _ p hp => ?_) (fun hs => ?_) fun _ => ?_
  · rw [hp.operator "-" rfl, hp.literal, hp.word]
  · exact (valuePattern hg).front_mono fun p hp => hp.pattern hs
  refine .sight (fun _ p hp => ?_) (fun _ => then_pure (namePattern hg hpath)) fun _ => ?_
  · simp only [hp.identifier, hp.word]
  refine .sight (fun _ p hp => hp.operator "&" rfl) (fun _ => referencePattern hg) fun _ => ?_
  refine .sight (fun _ p hp => hp.group _) (fun _ => ?_) fun _ => ?_
  · exact then_pure ((patternsInParentheses hg).front_mono fun p hp => hp.pattern)
  refine .sight (fun _ p hp => hp.group _) (fun _ => ?_) fun _ => ?_
  · exact then_pure ((slicePattern hg).front_mono fun p hp => hp.pattern)
  refine .sight (fun _ p hp => ?_) (fun _ => ?_) fun _ => .expected _
  · rw [hp.dots, hp.threeDots]
  · exact (startlessPattern hg).front_mono fun p hp => hp.pattern

end Rereads

end TypedId.Grammar
