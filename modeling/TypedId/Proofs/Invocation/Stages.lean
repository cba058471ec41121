import TypedId.Invocation

/-!
The stages of an invocation.

Once the texts are known to consist of lexemes, what comes of an invocation depends on its readings
alone; the lemmas here say so for each stage.
-/

namespace TypedId

/-- Delimiters match in every text that consists of lexemes. -/
theorem Source.balanced_lexemes {text : String} {s : Source} (h : Source.read? text = some s) :
    Lexeme.balanced [] s.lexemes = true := by
  obtain ⟨located, hlex, rfl⟩ := Option.map_eq_some_iff.mp h
  obtain ⟨found, -, hfound⟩ := Option.bind_eq_some_iff.mp hlex
  split at hfound
  · next hbalanced =>
    cases hfound
    exact hbalanced
  · cases hfound

namespace Invocation

/-- The texts of an annotation. -/
def annotationTexts (arguments item : String) : Part → String
  | .arguments => arguments
  | _ => item

variable {part : Part} {text arguments item : String} {a s : Source}

theorem source_of_read? (h : Source.read? text = some s) : source part text = .ok s := by
  rw [source, h]

theorem source_of_read?_eq_none (h : Source.read? text = none) :
    source part text = .error (.unreadable part) := by
  rw [source, h]

theorem options_of_read? (h : Source.read? text = some s) :
    options text =
      located .arguments s ((Options.read s.lexemes).mapError Diagnostic.ofFailure) := by
  rw [options, source_of_read? h]
  rfl

theorem module_of_read? (h : Source.read? text = some s) :
    module text = located .item s (EntityModule.read s.lexemes) := by
  rw [module, source_of_read? h]
  rfl

/-- The arguments are read before the module, and nothing of the module is looked at before. -/
theorem entity_of_read? (ha : Source.read? arguments = some a) (hs : Source.read? item = some s) :
    entity arguments item =
      (options arguments >>= fun o => module item >>= fun m => .ok (m.expand o)) := by
  rw [entity, annotation, source_of_read? ha, source_of_read? hs]
  show (options arguments >>= fun o => module item >>= fun m => Except.ok (o, m)) >>= _ = _
  cases options arguments with
  | error r => rfl
  | ok o =>
      cases module item with
      | error r => rfl
      | ok m => rfl

theorem identifier_of_read? (h : Source.read? text = some s) :
    identifier text =
      (located .input s (IdLiteral.read s.lexemes) >>= fun l =>
        located .literal s l.value >>= fun u => .ok (l, u)) := by
  rw [identifier, source_of_read? h]
  rfl

theorem construction_of_read? (h : Source.read? text = some s) :
    construction text =
      (located .input s (IdLiteral.read s.lexemes) >>= fun l =>
        located .literal s l.value >>= fun u => .ok (IdLiteral.construct l.type u)) := by
  rw [construction, identifier_of_read? h]
  cases located .input s (IdLiteral.read s.lexemes) with
  | error r => rfl
  | ok l =>
      show (located .literal s l.value >>= fun u => Except.ok (l, u)) >>= _ =
          located .literal s l.value >>= _
      cases located .literal s l.value with
      | error r => rfl
      | ok u => rfl

/-- A module is accepted if its text consists of lexemes and these are accepted. -/
theorem module_eq_ok {m : EntityModule} (h : module text = .ok m) :
    ∃ s, Source.read? text = some s ∧ EntityModule.read s.lexemes = .ok m := by
  cases hs : Source.read? text with
  | none =>
      rw [module, source_of_read?_eq_none hs] at h
      cases h
  | some s =>
      rw [module_of_read? hs] at h
      cases hread : EntityModule.read s.lexemes with
      | error diagnostic =>
          rw [hread] at h
          cases h
      | ok m' =>
          rw [hread] at h
          cases h
          exact ⟨s, rfl, hread⟩

end Invocation

end TypedId
