import TypedId.Proofs.Invocation.Stages
import TypedId.Proofs.Source.Places

/-!
What layout has to do with the outcome: nothing.

Two texts of the same lexemes may differ in blanks, in comments and in line ends. They are accepted
alike and give the same code, or they are refused for the same cause; then the spans that are
reported are joined from those of the same lexemes of either text (`entity_and_construction_correspond`).
-/

namespace TypedId

/-- Two texts that consist of the same lexemes. -/
def SameLexemes (text text' : String) : Prop :=
  ∃ s s', Source.read? text = some s ∧ Source.read? text' = some s' ∧ s.lexemes = s'.lexemes

/-- Spans in two texts that are joined from those of the same lexemes, or that both tell of the end
of the text. -/
inductive SameStretch (s s' : Source) : Span → Span → Prop where
  | lexemes {i j : Nat} {first last first' last' : Span}
      (hfirst : s.tokenSpan? i = some first) (hlast : s.tokenSpan? j = some last)
      (hfirst' : s'.tokenSpan? i = some first') (hlast' : s'.tokenSpan? j = some last') :
      SameStretch s s' (first.join last) (first'.join last')
  | finish : SameStretch s s' ⟨Place.origin, Place.origin⟩ ⟨Place.origin, Place.origin⟩

/-- Outcomes for two groups of texts that differ at most in where they point. -/
inductive Corresponding (texts texts' : Part → String) :
    Except Refusal α → Except Refusal α → Prop where
  | accepted (a : α) : Corresponding texts texts' (.ok a) (.ok a)
  | rejected (part : Part) (diagnostic : Diagnostic) {s s' : Source} {span span' : Span}
      (hread : Source.read? (texts part) = some s) (hread' : Source.read? (texts' part) = some s')
      (hspan : SameStretch s s' span span') :
      Corresponding texts texts' (.error (.rejected part diagnostic span))
        (.error (.rejected part diagnostic span'))

namespace Corresponding

variable {texts texts' : Part → String} {α β : Type}

/-- What goes on alike from the same result keeps outcomes corresponding. -/
theorem bind {x x' : Except Refusal α} {f f' : α → Except Refusal β}
    (h : Corresponding texts texts' x x') (hf : ∀ a, Corresponding texts texts' (f a) (f' a)) :
    Corresponding texts texts' (x >>= f) (x' >>= f') := by
  cases h with
  | accepted a => exact hf a
  | rejected part diagnostic hread hread' hspan => exact .rejected part diagnostic hread hread' hspan

end Corresponding

namespace Source

variable {s s' : Source}

/-- Texts of the same lexemes have spans for the same positions. -/
theorem tokenSpan?_isSome (h : s.lexemes = s'.lexemes) (position : Nat) :
    (s.tokenSpan? position).isSome = (s'.tokenSpan? position).isSome := by
  have hlength : s.located.length = s'.located.length := by
    simpa [lexemes] using congrArg List.length h
  have hget : s.located[position]?.isSome = s'.located[position]?.isSome := by grind
  simpa [tokenSpan?, extents] using hget

/-- A stretch stands at the same lexemes in texts of the same lexemes. -/
theorem sameStretch_span (h : s.lexemes = s'.lexemes) (stretch : Stretch) :
    SameStretch s s' (s.span stretch) (s'.span stretch) := by
  have hfirst := tokenSpan?_isSome h stretch.first
  have hlast := tokenSpan?_isSome h stretch.last
  rw [span_eq_join, span_eq_join]
  cases hf : s.tokenSpan? stretch.first <;> cases hf' : s'.tokenSpan? stretch.first <;>
    simp only [hf, hf', Option.isSome_some, Option.isSome_none, reduceCtorEq] at hfirst
  · exact .finish
  · cases hl : s.tokenSpan? stretch.last <;> cases hl' : s'.tokenSpan? stretch.last <;>
      simp only [hl, hl', Option.isSome_some, Option.isSome_none, reduceCtorEq] at hlast
    · exact .finish
    · exact .lexemes hf hl hf' hl'

end Source

namespace Invocation

variable {α : Type} {s s' : Source}

/-- Diagnostics of the same reading correspond, wherever the text is placed. -/
theorem located_corresponds (texts texts' : Part → String) (part : Part)
    (hread : Source.read? (texts part) = some s)
    (hread' : Source.read? (texts' part) = some s') (h : s.lexemes = s'.lexemes)
    (x : Except Diagnostic α) :
    Corresponding texts texts' (located part s x) (located part s' x) := by
  cases x with
  | ok a => exact .accepted a
  | error diagnostic => exact .rejected part diagnostic hread hread' (Source.sameStretch_span h _)

theorem options_corresponds {arguments arguments' : String} (item item' : String)
    (h : SameLexemes arguments arguments') :
    Corresponding (annotationTexts arguments item) (annotationTexts arguments' item')
      (options arguments) (options arguments') := by
  obtain ⟨s, s', hread, hread', hsame⟩ := h
  have hlocated := located_corresponds (annotationTexts arguments item)
    (annotationTexts arguments' item') .arguments hread hread' hsame
    ((Options.read s.lexemes).mapError Diagnostic.ofFailure)
  rw [options_of_read? hread, options_of_read? hread', ← hsame]
  exact hlocated

theorem module_corresponds {item item' : String} (arguments arguments' : String)
    (h : SameLexemes item item') :
    Corresponding (annotationTexts arguments item) (annotationTexts arguments' item')
      (module item) (module item') := by
  obtain ⟨s, s', hread, hread', hsame⟩ := h
  have hlocated := located_corresponds (annotationTexts arguments item)
    (annotationTexts arguments' item') .item hread hread' hsame
    (EntityModule.read s.lexemes)
  rw [module_of_read? hread, module_of_read? hread', ← hsame]
  exact hlocated

theorem entity_corresponds {arguments arguments' item item' : String}
    (harguments : SameLexemes arguments arguments') (hitem : SameLexemes item item') :
    Corresponding (annotationTexts arguments item) (annotationTexts arguments' item')
      (entity arguments item) (entity arguments' item') := by
  have hoptions := options_corresponds item item' harguments
  have hmodule := module_corresponds arguments arguments' hitem
  obtain ⟨a, a', ha, ha', -⟩ := harguments
  obtain ⟨s, s', hs, hs', -⟩ := hitem
  rw [entity_of_read? ha hs, entity_of_read? ha' hs']
  exact hoptions.bind fun o => hmodule.bind fun m => .accepted (m.expand o)

theorem construction_corresponds {input input' : String} (h : SameLexemes input input') :
    Corresponding (fun _ => input) (fun _ => input') (construction input) (construction input') := by
  obtain ⟨s, s', hread, hread', hsame⟩ := h
  have hlocated := fun (part : Part) (α : Type) =>
    located_corresponds (α := α) (fun _ => input) (fun _ => input') part hread hread' hsame
  rw [construction_of_read? hread, construction_of_read? hread', ← hsame]
  exact (hlocated .input _ _).bind fun l =>
    (hlocated .literal _ _).bind fun u => .accepted (IdLiteral.construct l.type u)

/-- Layout never shows in the outcome, be it of an annotation or of a written identifier: texts of
the same lexemes give the same code, or are refused for the same cause and at the same lexemes. -/
theorem entity_and_construction_correspond {arguments arguments' item item' input input' : String}
    (harguments : SameLexemes arguments arguments') (hitem : SameLexemes item item')
    (hinput : SameLexemes input input') :
    Corresponding (annotationTexts arguments item) (annotationTexts arguments' item')
        (entity arguments item) (entity arguments' item') ∧
      Corresponding (fun _ => input) (fun _ => input') (construction input)
        (construction input') :=
  ⟨entity_corresponds harguments hitem, construction_corresponds hinput⟩

/-- Blanks and comments are layout. -/
theorem blanks_and_comments_correspond :
    (SameLexemes "" "/**/" ∧ SameLexemes "mod a{}" "mod /* b */ a\n{}" ∧
        SameLexemes "A,1" "A // c\n, 1") ∧
      Corresponding (annotationTexts "" "mod a{}") (annotationTexts "/**/" "mod /* b */ a\n{}")
          (entity "" "mod a{}") (entity "/**/" "mod /* b */ a\n{}") ∧
        Corresponding (fun _ => "A,1") (fun _ => "A // c\n, 1") (construction "A,1")
          (construction "A // c\n, 1") := by
  have harguments : SameLexemes "" "/**/" := ⟨_, _, rfl, rfl, rfl⟩
  have hitem : SameLexemes "mod a{}" "mod /* b */ a\n{}" := ⟨_, _, rfl, rfl, rfl⟩
  have hinput : SameLexemes "A,1" "A // c\n, 1" := ⟨_, _, rfl, rfl, rfl⟩
  exact ⟨⟨harguments, hitem, hinput⟩,
    entity_and_construction_correspond harguments hitem hinput⟩

end Invocation

end TypedId
