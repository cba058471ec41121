import TypedId.Proofs.Grammar.CarriedMembers

/-!
Items and statements carry over what they take, and so do all phrases.

Each rule carries if the phrases do that it refers to (`Carrying`). Those are read one phrase less deep, so
all of them carry at every depth, by induction (`carrying_readWithin`).
-/

namespace TypedId.Grammar

open Lexeme Rule

variable {altered : Prop} {g : PhraseReader} {before : List Lexeme} {r r' : Reader} {α β : Type}

/-- A rule carries if one does that takes and writes the same. -/
theorem Rule.Carries.of_mapped {rule : Rule α} {rule₀ : Rule β} {f : α → β}
    (h : rule₀.Carries altered g before)
    (hrule : Mapped g f rule rule₀) : rule.Carries altered g before :=
  fun hg r r' _ hb hrun hstray => h hg r r' _ hb (hrule.of_ok hrun) hstray

/-- Telling what a rule wrote does not change what it writes. -/
theorem Rule.Carries.texted {rule : Rule α} (h : rule.Carries altered g before) :
    (Rule.texted rule).Carries altered g before :=
  .hold_write h fun _ _ => .pure _

namespace Rule

section

variable (hg : Carrying g)
include hg

/-! ### Imports -/

omit hg in
/-- The new name of an import is carried over, be it a name or an underscore. -/
theorem carries_newName : newName.Carries True g before :=
  .ahead fun _ => .ite .anyWord (.complain _)

/-- The trees of an import in braces are carried over with the commas between them. -/
theorem carries_importGroup (rootAdmitted : Bool) : (importGroup rootAdmitted).Carries True g before := by
  have htree : ∀ rooted soFar before, (groupedTree rootAdmitted rooted soFar).Carries True g before :=
    fun _ _ _ =>
    .bind (hg.call _ _) fun _ _ => .ahead fun _ => .ite (.pure _) (.bind (.operator _) fun _ _ => .pure _)
  rw [importGroup_eq]
  exact .within <| .repeating fun _ _ => .ahead fun _ => .ite (.pure _) <|
    .ite (.bind (.operator? _) fun _ => htree _ _) (.bind (.pure _) fun _ => htree _ _)

/-- A tree of an import is carried over, be it a path, a name with or without a new one, a star or a
group. -/
theorem carries_importTree (rootAdmitted : Bool) : (importTree rootAdmitted).Carries True g before := by
  refine .ahead fun _ => .ite (.bind .anyWord fun _ _ => .ahead fun _ => .ite ?_ (.ite ?_ (.pure _))) ?_
  · exact .bind (.operator _) fun _ _ => .bind (hg.call _ _) fun _ _ => .pure _
  · exact .bind (.keyword _) fun _ _ => .bind carries_newName fun _ _ => .pure _
  · exact .ite (.bind (.operator _) fun _ _ => .pure _) (.ite (carries_importGroup hg _) (.expected _))

/-- An import is carried over, also where a path from the root makes that its source spelling is kept.
-/
theorem carries_import? : import?.Carries True g before :=
  .bind (.keyword _) fun _ _ => .bind (.operator? _) fun _ _ => .bind (hg.call _ _) fun _ _ =>
    .bind (.operator _) fun _ _ => .pure _

/-! ### Functions, values and types -/

/-- A function is carried over with its signature and its block; one without a block is kept in its
source spelling. -/
theorem carries_functionItem : functionItem.Carries True g before :=
  .bind (carries_signature hg _) fun _ _ => .bind (.operator? _) fun _ _ =>
    .ite (.pure _) (.bind (carries_attributedBlock hg) fun _ _ => .pure _)

/-- A constant is carried over, also one without a value or with parameters, which is kept in its
source spelling. -/
theorem carries_constantItem : constantItem.Carries True g before :=
  .bind (carries_constant hg) fun _ _ => .pure _

/-- A static is carried over, also one without a type or a value, which is kept in its source
spelling. -/
theorem carries_staticItem : staticItem.Carries True g before := by
  have hvalue : ∀ body before, (do
      let _ ← call (.expression true)
      operator ";"
      return body : Rule ItemBody).Carries True g before := fun _ _ =>
    .bind (hg.call _ _) fun _ _ => .bind (.operator _) fun _ _ => .pure _
  refine .bind (.keyword _) fun _ _ => .bind (.keyword? _) fun _ _ => .bind .identifier fun _ _ =>
    .bind (.operator? _) fun _ _ => .ite (hvalue _ _) ?_
  exact .bind (.operator _) fun _ _ => .bind (hg.call _ _) fun _ _ => .bind (.operator? _) fun _ _ =>
    .ite (.pure _) (.bind (.operator _) fun _ => hvalue _)

/-- A type alias is carried over, with its conditions before or behind the type. -/
theorem carries_typeItem : typeItem.Carries True g before :=
  .bind (carries_typeDefinition hg _) fun _ _ => .pure _

/-- A structure is carried over in each of its three forms: with named fields, with positional ones
and without. -/
theorem carries_structureItem : structureItem.Carries True g before := by
  have hend : ∀ name before, (pure (.structure_ name) : Rule ItemBody).Carries True g before :=
    fun _ _ => .pure _
  rw [structureItem_eq]
  refine .bind (.keyword _) fun _ _ => .bind .identifier fun _ _ =>
    .bind (carries_genericParameters hg) fun _ _ =>
    .bind (carries_whereClause hg) fun _ _ => .ahead fun _ => .ite ?_ ?_
  · exact .bind (carries_positionalFields hg) fun _ _ =>
      .bind (carries_whereClause hg) fun _ _ => .ahead fun _ =>
      .ite (.bind (.operator _) fun _ => hend _) (.bind (.expected _) fun _ => hend _)
  · exact .ite (.bind (hg.call _ _) fun _ => hend _) <| .ite (.bind (.operator _) fun _ => hend _) <|
      .bind (.expected _) fun _ => hend _

/-- An enumeration is carried over up to the visibilities of its variants. What stands before the
braces is followed exactly, since a visibility is left out only where it stands before a variant. -/
theorem carries_enumerationItem : enumerationItem.Carries True g before := by
  refine .keyword_then _ <| .identifier_then fun _ _ =>
    .bind_closed (carries_genericParameters hg) fun _ _ hgenerics =>
    .bind_closed (carries_whereClause hg) fun _ conditions hconditions =>
      .bind (.within (.bind ?_ fun _ _ => .pure _))
      fun _ _ => .pure _
  rw [List.append_assoc _ _ conditions]
  exact carries_variants hg (hgenerics.append hconditions)

/-- A union is carried over. -/
theorem carries_unionItem : unionItem.Carries True g before :=
  .bind (.keyword _) fun _ _ => .bind .identifier fun _ _ => .bind (carries_genericParameters hg) fun _ _ =>
    .bind (carries_whereClause hg) fun _ _ => .bind (hg.call _ _) fun _ _ => .pure _

/-! ### Traits and implementations -/

/-- A trait is carried over from its bounds on; a colon without bounds is left out. -/
theorem carries_restOfTrait : restOfTrait.Carries True g before := by
  refine .bind (carries_separatedBounds hg fun ls h => ?_) fun _ _ =>
    .bind (carries_whereClause hg) fun _ _ =>
    .within <| .bind (carries_innerAttributes hg) fun _ _ => .bind (.while_ fun _ => carries_traitMember hg)
      fun _ _ => .pure _
  rw [Bool.or_eq_true] at h
  rcases h with h | h <;> simp [behindBounds, h]

/-- A trait is carried over with the words that may stand before it. -/
theorem carries_traitItem : traitItem.Carries True g before :=
  .bind (.keyword? _) fun _ _ => .bind (.keyword? _) fun _ _ => .bind (.keyword _) fun _ _ =>
    .bind .identifier fun _ _ =>
    .bind (carries_genericParameters hg) fun _ _ => .bind (carries_restOfTrait hg) fun _ _ => .pure _

/-- So is a trait alias, with its bounds and conditions. -/
theorem carries_traitOrAlias : traitOrAlias.Carries True g before := by
  refine .bind (.keyword _) fun _ _ => .bind .identifier fun _ _ =>
    .bind (carries_genericParameters hg) fun _ _ =>
    .ahead fun _ => .ite (.bind (carries_restOfTrait hg) fun _ _ => .pure _) (.ite ?_ (.expected _))
  exact .bind (.operator _) fun _ _ =>
    .bind (.separated (fun _ => .operator _) fun _ => hg.call _ _) fun _ _ =>
    .bind (carries_whereClause hg) fun _ _ => .bind (.operator _) fun _ _ => .pure _

/-- The conditions and the members of an implementation are carried over. -/
theorem carries_endOfImplementation (body : ItemBody) :
    (endOfImplementation body).Carries True g before := by
  refine .bind (carries_whereClause hg) fun _ _ => .bind (.within ?_) fun _ _ => .pure _
  exact .bind (carries_innerAttributes hg) fun _ _ =>
    .bind (.while_ fun _ => carries_implementationMember hg) fun _ _ => .pure _

/-- A type is carried over behind the mark of a negative implementation, or kept in its source spelling. -/
theorem carries_implementedType (negative : Bool) : (implementedType negative).Carries True g before := by
  have hshape : ∀ before, (signedShape negative).Carries True g before := fun _ =>
    .ite (.bind (.operator _) fun _ => hg.call _) (hg.call _ _)
  exact .keptIf _ (.bind (hshape _) fun _ _ => .ahead fun _ => .pure _)

/-- An implementation is carried over from behind its parameters, be it of a trait or not. -/
theorem carries_implementationFrom (visible const : Bool) :
    (implementationFrom visible const).Carries True g before := by
  have hfor : ∀ shape forType before, (implementedFor visible const shape forType).Carries True g before :=
    fun _ _ _ =>
    .ite (.bind (.keyword _) fun _ _ => .bind (hg.call _ _) fun _ _ => carries_endOfImplementation hg _)
      (carries_endOfImplementation hg _)
  have himplementation : (implementationOf visible const).Carries True g before := .ahead fun _ =>
    .bind (carries_implementedType hg _) fun _ => hfor _ _
  exact himplementation.of_mapped (mapped_implementationFrom hg.rereadable.blind visible const)

/-- An implementation is carried over with its parameters, also one with a visibility, which is kept
in its source spelling. -/
theorem carries_implementationItem (visible : Bool) :
    (implementationItem visible).Carries True g before := by
  have hmarked : ∀ before, (markedImplementation visible).Carries True g before := by
    refine fun _ => .bind (.ahead fun _ => .ite ?_ (.pure _)) fun _ _ => carries_implementationFrom hg _ _
    exact .bind (.operator? _) fun _ _ => .bind (.keyword _) fun _ _ => .pure _
  rw [implementationItem_eq]
  exact .bind (.keyword? _) fun _ _ => .bind (.keyword? _) fun _ _ =>
    .bind (.keyword _) fun _ _ => .ahead fun _ =>
    .ite (.bind (carries_genericParameters hg) fun _ => hmarked) (hmarked _)

/-! ### Modules, crates and macros -/

/-- What stands between the braces of a module is carried over. -/
theorem carries_moduleContent : moduleContent.Carries True g before :=
  .bind (carries_innerAttributes hg) fun _ _ => .bind (.while_ fun _ => hg.call _ _) fun _ _ => .pure _

/-- A module is carried over, with a body or a semicolon. -/
theorem carries_moduleItem : moduleItem.Carries True g before := by
  rw [moduleItem_eq]
  refine .here fun _ => .bind (.keyword? _) fun _ _ => .bind (.keyword _) fun _ _ =>
    .bind (.identifierOr _) fun _ _ =>
    .ahead fun _ => .ite (.bind (.operator _) fun _ _ => .pure _) (.ite ?_ (.expected _))
  exact .bind (.within (carries_moduleContent hg)) fun _ _ => .pure _

/-- A foreign module is carried over with its members. -/
theorem carries_foreignModuleItem : foreignModuleItem.Carries True g before := by
  refine .bind (.keyword? _) fun _ _ => .bind carries_convention fun _ _ =>
    .bind (.within ?_) fun _ _ => .pure _
  exact .bind (carries_innerAttributes hg) fun _ _ => .bind (.while_ fun _ => carries_foreignMember hg)
    fun _ _ => .pure _

omit hg in
/-- The declaration of a crate is carried over with its new name. -/
theorem carries_externCrateItem : externCrateItem.Carries True g before := by
  have hend : ∀ name rename before, (do
      operator ";"
      return .externCrate name rename : Rule ItemBody).Carries True g before := fun _ _ _ =>
    .bind (.operator _) fun _ _ => .pure _
  refine .bind (.keyword _) fun _ _ => .bind (.keyword _) fun _ _ => .bind (.identifierOr _) fun _ _ =>
    .bind (.keyword? _) fun _ _ => .ite ?_ (.bind (.pure _) fun _ => hend _ _)
  exact .bind (.bind (.identifierOr _) fun _ _ => .pure _) fun _ => hend _ _

/-- Where a visibility stands before it, a foreign module is refused. -/
theorem carries_admittedForeign (start : View) (visible : Bool) : (do
    if visible then fail (start.fault (.keyword "extern"))
    foreignModuleItem : Rule ItemBody).Carries True g before :=
  .ite (.bind (.fail _) fun _ _ => carries_foreignModuleItem hg) (carries_foreignModuleItem hg)

theorem carries_externItem (start : View) (visible : Bool) :
    (externItem start visible).Carries True g before := by
  refine .ahead fun _ => .ite carries_externCrateItem (.ite (carries_admittedForeign hg start visible) ?_)
  exact .bind (.keyword _) fun _ _ => .ite (.bind .literal fun _ _ => .expected _) (.expected _)

theorem carries_unsafeItem (start : View) (visible : Bool) :
    (unsafeItem start visible).Carries True g before :=
  .ahead fun _ => .ite (carries_traitItem hg) <| .ite (carries_implementationItem hg _) <|
    .ite (carries_admittedForeign hg start visible) <| .ite (carries_moduleItem hg) <|
      .bind (.keyword _) fun _ _ => .expected _

omit hg in
/-- The definition of a macro is taken without a look at its groups and kept in its source spelling.
-/
theorem carries_macroDefinition : macroDefinition.Carries True g before := by
  have hend : ∀ things before, (do
      if seesGroup .brace (← ahead) then group .brace
      else expected things
      return .kept : Rule ItemBody).Carries True g before := fun _ _ => .ahead fun _ =>
    .ite (.bind (.group _) fun _ _ => .pure _) (.bind (.expected _) fun _ _ => .pure _)
  exact .bind (.keyword _) fun _ _ => .bind .identifier fun _ _ => .ahead fun _ =>
    .ite (.bind (.group _) fun _ => hend _) (hend _ _)

omit hg in
/-- The use of a macro is carried over with the name before its arguments and the semicolon behind
them. -/
theorem carries_invocationItem : invocationItem.Carries True g before := by
  have hend : ∀ path name before, (do
      macroEnd (← anyGroup)
      return .invocation path name : Rule ItemBody).Carries True g before := fun _ _ _ =>
    .bind .anyGroup fun _ _ => .bind (.ite (.pure _) (.operator _)) fun _ _ => .pure _
  refine .hold_write carries_plainPath fun _ _ => .bind (.operator _) fun _ _ => .ahead fun _ => .ite ?_ ?_
  · exact .bind (.bind .anyWord fun _ _ => .pure _) fun _ => hend _ _
  · exact .bind (.pure _) fun _ => hend _ _

/-! ### Items -/

/-- An item is carried over from behind its visibility, whatever it begins with; the cases are those
of `Rule.itemBody`. -/
theorem carries_itemBody (start : View) (visible : Bool) :
    (itemBody start visible).Carries True g before := by
  refine .ahead fun _ => .ite (carries_functionItem hg)
    (.ite (carries_externItem hg _ _) (.ite (carries_import? hg) ?_))
  refine .ite (carries_staticItem hg) (.ite (carries_constantItem hg) (.ite (carries_unsafeItem hg _ _) ?_))
  refine .ite (carries_moduleItem hg) (.ite (carries_typeItem hg) (.ite (carries_structureItem hg) ?_))
  refine .ite (carries_enumerationItem hg) (.ite (carries_unionItem hg) (.ite (carries_traitOrAlias hg) ?_))
  refine .ite (carries_traitItem hg)
    (.ite (carries_implementationItem hg _) (.ite carries_macroDefinition ?_))
  exact .ite carries_invocationItem (.expected _)

theorem carries_itemContent : itemContent.Carries True g before :=
  .look fun _ => .bind carries_visibility fun _ _ => .bind (carries_itemBody hg _ _) fun _ _ => .pure _

/-- An item is carried over with its attributes and its visibility. -/
theorem carries_item : item.Carries True g before := by
  refine .congr (.here fun _ => .bind (.texted (.prefaced _ (fun _ => carries_outerAttributes hg)
    (fun _ => carries_itemContent hg) ?_)) fun _ _ => .here fun _ => .pure _) run_item_eq
  rintro - - - - ⟨seen, body⟩ - - - - - - hdropped
  cases body <;> cases hdropped

/-! ### Statements -/

/-- The declaration of a variable is carried over with its value and its `else`. -/
theorem carries_localStatement : localStatement.Carries True g before := by
  have hend : ∀ text before, (endOfLocal text).Carries True g before := fun _ _ => .ite (.operator _) <|
    .bind (.keyword? _) fun _ _ => .ite (.bind (carries_block hg) fun _ _ => .operator _) (.operator _)
  have hvalue : ∀ before, localValue.Carries True g before := fun _ => .bind (.operator? _) fun _ _ =>
    .ite (.hold_write (hg.call _ _) fun _ => hend _) (.operator _)
  rw [localStatement_eq]
  exact .bind (.keyword _) fun _ _ => .bind (hg.call _ _) fun _ _ => .bind (.operator? _) fun _ _ =>
    .ite (.bind (hg.call _ _) fun _ => hvalue) (hvalue _)

/-- A statement is carried over from behind its attributes, be it an item, a declaration, the use of a
macro or an expression. -/
theorem carries_statementBody : statementBody.Carries True g before := by
  refine .ahead fun _ => .ite ?_ (.ite (.bind (carries_localStatement hg) fun _ _ => .pure _) (.ite ?_ ?_))
  · exact .bind carries_plainPath fun _ _ => .bind carries_macroArguments fun _ _ =>
      .bind (.operator? _) fun _ _ => .pure _
  · exact .bind (carries_itemContent hg) fun _ _ => .pure _
  · exact .bind (carries_statementHead hg) fun _ _ => .pure _

theorem carries_restOfStatementBody (b : StatementBody) : (restOfStatementBody b).Carries True g before := by
  cases b with
  | done | item => exact .pure _
  | expression head =>
      exact .bind (carries_statementTail hg _) fun _ _ => .bind (.operator? _) fun _ _ => .pure _

/-- The attributes before a statement are carried over, too, unless it is an expression whose source
spelling is kept. -/
theorem carries_statement : statement.Carries True g before := by
  refine .congr (.bind
    (.prefaced _ (fun _ => carries_outerAttributes hg) (fun _ => carries_statementBody hg) ?_)
    fun _ _ => carries_restOfStatementBody hg _) (run_statement_eq hg.rereadable.blind)
  intro ht r as r₁ b r₂ taken hb hattributes hbody hstray hdropped hrest
  cases b with
  | done => cases hdropped
  | item seen body => cases body <;> cases hdropped
  | expression head =>
      exact carriedOver_of_statementHead hg ht hb hattributes (of_run_statementBody hbody)
        hstray hdropped hrest

/-- The statements of a block are carried over with the semicolons between them. -/
theorem carries_statements : statements.Carries True g before := by
  refine .repeating fun _ _ => .bind (.while_ fun _ => .operator _) fun _ _ =>
    .ahead fun _ => .ite (.pure _) ?_
  refine .bind (carries_statement hg) fun _ _ => .ahead fun _ =>
    .ite (.pure _) (.ite (.complain _) (.pure _))

/-! ### All phrases -/

/-- The rule of every phrase carries over what it takes, if the phrases that it refers to do. -/
theorem carries_rule (phrase : Phrase) : phrase.rule.Carries True g before := by
  cases phrase with
  | type plus => exact carries_type hg plus
  | bound captures constant => exact carries_bound hg captures constant
  | expression braces => exact carries_expression hg braces
  | operand braces => exact carries_operand hg braces
  | atom braces => exact carries_atom hg braces
  | operators braces left least => exact carries_operators hg braces left least
  | pattern => exact carries_pattern hg
  | statements => exact carries_statements hg
  | namedFields => exact carries_namedFields hg
  | item => exact carries_item hg
  | importTree rootAdmitted => exact carries_importTree hg rootAdmitted

end

/-- Only a pattern that begins with its keyword is kept in its source spelling. -/
theorem box_of_run_pattern (hrun : pattern.run g r = .ok (.kept, r')) : seesWord "box" r.rest = true := by
  have hother : (pure .other : Rule PatternShape).Gives (· ≠ .kept) := .pure (by simp)
  have hrange : rangePattern.Gives (· ≠ .kept) :=
    .bind fun _ => .bind fun found => .pure (by cases found <;> simp)
  have hpath : pathPattern.Gives (· ≠ .kept) := .bind fun _ => .bind fun _ => .ite (.bind fun _ => hother) <|
    .ite (.bind fun _ => hother) <| .ite (.bind fun _ => hother) <| .ite hrange hother
  rw [pattern, run_bind_of_ok (run_ahead r)] at hrun
  split at hrun
  · exact (hpath _ _ _ _ hrun rfl).elim
  split at hrun
  · exact ((Gives.bind fun _ => hother) _ _ _ _ hrun rfl).elim
  split at hrun
  · next hbox => exact hbox
  refine ((?_ : Rule.Gives _ (· ≠ .kept)) _ _ _ _ hrun rfl).elim
  refine .ite (.bind fun _ => .bind fun _ => .ite hrange hother)
    (.ite (.bind fun _ => hother) (.ite ?_ (.ite ?_ (.ite ?_ (.ite ?_ ?_)))))
  · exact .bind fun _ => .bind fun _ => .bind fun _ => hother
  · exact .bind fun _ => hother
  · exact .bind fun _ => hother
  · exact .bind fun _ => .bind fun found => .pure (by cases found <;> simp)
  · exact .expected _

/-- All phrases carry over what they take, however deep they are read. -/
theorem carrying_readWithin (depth : Nat) : Carrying (Phrase.readWithin depth) := by
  induction depth with
  | zero =>
      refine ⟨rereadable_readWithin 0, fun _ _ => .of_error fun _ _ _ hrun => ?_, fun _ _ hrun => ?_⟩
      · exact not_readWithin_zero hrun
      · exact not_readWithin_zero hrun
  | succ depth ih =>
      refine ⟨rereadable_readWithin _, fun phrase before _ => ?_, fun _ _ hrun => box_of_run_pattern hrun⟩
      exact (carries_rule ih phrase : Carries True _ before _) (tidy_readWithin depth)

end Rule

end TypedId.Grammar
