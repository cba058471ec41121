import TypedId.Proofs.Grammar.Assembly

/-!
Modules among items.

Only one rule remembers a module (`FindsModule.itemBody`), and an inline module is its name and, between
braces, its content (`run_moduleFromWord_eq_ok`).
-/

namespace TypedId.Grammar

open Lexeme Rule

variable {g : PhraseReader} {r r' : Reader} {α β : Type}

/-! ### What a rule may remember -/

/-- Whatever a rule remembers has a property. -/
def Rule.Gives (rule : Rule α) (P : α → Prop) : Prop :=
  ∀ (g : PhraseReader) (r r' : Reader) (a : α), rule.run g r = .ok (a, r') → P a

namespace Rule.Gives

variable {rule rule' : Rule α} {next : α → Rule β} {P : α → Prop} {P' : β → Prop}

theorem mono {Q : α → Prop} (h : rule.Gives P) (hP : ∀ a, P a → Q a) : rule.Gives Q :=
  fun g r r' a hrun => hP a (h g r r' a hrun)

/-- What a rule gives is what its last part gives. -/
theorem bind (h : ∀ a, (next a).Gives P') : (rule >>= next).Gives P' := by
  intro g r r' b hrun
  obtain ⟨a, r₁, -, hrun⟩ := run_bind_eq_ok.mp hrun
  exact h a g r₁ r' b hrun

/-- What a rule gives is known behind it. -/
theorem learn (h : rule.Gives P) (hnext : ∀ a, P a → (next a).Gives P') : (rule >>= next).Gives P' := by
  intro g r r' b hrun
  obtain ⟨a, r₁, hrule, hrun⟩ := run_bind_eq_ok.mp hrun
  exact hnext a (h g r r₁ a hrule) g r₁ r' b hrun

protected theorem pure {a : α} (h : P a) : (pure a : Rule α).Gives P := by
  rintro g r r' _ ⟨⟩
  exact h

/-- Both branches have to give what is asked for. -/
theorem ite {c : Prop} [Decidable c] (h : rule.Gives P) (h' : rule'.Gives P) :
    (if c then rule else rule').Gives P := by
  split
  · exact h
  · exact h'

/-- What fails gives nothing. -/
theorem expected (things : List Expectation) : (Rule.expected things : Rule α).Gives P := by
  intro g r r' a hrun
  obtain ⟨fault, hfault⟩ := run_expected (g := g) (α := α) things r
  rw [hfault] at hrun
  cases hrun

/-- A loop gives what its rule gives. -/
theorem while_ (h : rule.Gives P) (wanted : List Lexeme → Bool) :
    (Rule.while_ wanted rule).Gives fun as => ∀ a ∈ as, P a := by
  intro g r r' as hrun
  have hrow := (row_of_run_while hrun).1
  clear hrun
  induction hrow with
  | nil => simp
  | cons _ hrule _ ih => exact List.forall_mem_cons.mpr ⟨h g _ _ _ hrule, ih⟩

end Rule.Gives

/-- An attribute is remembered as an inner one exactly where one was asked for. -/
theorem Rule.gives_singleAttribute (inner : Bool) :
    (singleAttribute inner).Gives (Attribute.inner · = inner) :=
  .bind fun _ => .bind fun _ => .pure rfl

/-! ### What the items of each kind are -/

/-- Whether an item is of a kind that defines something, or kept, but no module. -/
def ItemBody.IsDefinition : ItemBody → Prop
  | .import_ _ | .externCrate _ _ | .invocation _ _ | .module _ _ _ _ => False
  | _ => True

/-- Whether an item is no module. -/
def ItemBody.IsNoModule : ItemBody → Prop
  | .module .. => False
  | _ => True

/-- What defines something else is no module. -/
theorem ItemBody.IsDefinition.isNoModule {body : ItemBody} (h : body.IsDefinition) : body.IsNoModule := by
  cases body <;> trivial

namespace Rule

/-- An import is no module, also where nothing of it is remembered. -/
theorem gives_import? : import?.Gives ItemBody.IsNoModule :=
  .bind fun _ => .bind fun _ => .bind fun tree => .bind fun _ => .pure (by cases tree <;> trivial)

/-- A function is a definition or kept in its source spelling, and so are the items of the next kinds.
-/
theorem gives_functionItem : functionItem.Gives ItemBody.IsDefinition :=
  .bind fun _ => .bind fun _ => .ite (.pure trivial) (.bind fun _ => .pure trivial)

theorem gives_constantItem : constantItem.Gives ItemBody.IsDefinition :=
  .bind fun _ => .pure (by split <;> trivial)

theorem gives_staticItem : staticItem.Gives ItemBody.IsDefinition :=
  .bind fun _ => .bind fun _ => .bind fun _ => .bind fun _ =>
    .ite (.bind fun _ => .bind fun _ => .pure trivial) <| .bind fun _ => .bind fun _ => .bind fun _ =>
      .ite (.pure trivial) (.bind fun _ => .bind fun _ => .bind fun _ => .pure trivial)

theorem gives_typeItem : typeItem.Gives ItemBody.IsDefinition :=
  .bind fun _ => .pure (by split <;> trivial)

theorem gives_structureItem : structureItem.Gives ItemBody.IsDefinition := by
  have hlast : ∀ name, (pure (.structure_ name) : Rule ItemBody).Gives ItemBody.IsDefinition :=
    fun _ => .pure trivial
  refine .bind fun _ => .bind fun name => .bind fun _ => .bind fun conditional => .bind fun _ => ?_
  refine .ite (.bind fun _ => .bind fun _ => .bind fun _ => .ite ?_ ?_) (.ite ?_ (.ite ?_ ?_))
  all_goals exact .bind fun _ => hlast name

theorem gives_enumerationItem : enumerationItem.Gives ItemBody.IsDefinition :=
  .bind fun _ => .bind fun _ => .bind fun _ => .bind fun _ => .bind fun _ => .pure trivial

theorem gives_unionItem : unionItem.Gives ItemBody.IsDefinition :=
  .bind fun _ => .bind fun _ => .bind fun _ => .bind fun _ => .bind fun _ => .pure trivial

theorem gives_traitItem : traitItem.Gives ItemBody.IsDefinition :=
  .bind fun _ => .bind fun _ => .bind fun _ => .bind fun _ => .bind fun _ => .bind fun _ => .pure trivial

/-- A trait alias is a definition like a trait. -/
theorem gives_traitOrAlias : traitOrAlias.Gives ItemBody.IsDefinition :=
  .bind fun _ => .bind fun _ => .bind fun _ => .bind fun _ =>
    .ite (.bind fun _ => .pure trivial)
      (.ite (.bind fun _ => .bind fun _ => .bind fun _ => .bind fun _ => .pure trivial) (.expected _))

/-- An implementation is what was decided before its conditions and members were read. -/
theorem gives_endOfImplementation {body : ItemBody} (h : body.IsDefinition) :
    (endOfImplementation body).Gives ItemBody.IsDefinition :=
  .bind fun _ => .bind fun _ => .pure h

/-- An implementation is remembered as one or kept, in each of the cases. -/
theorem gives_implementationItem (visible : Bool) :
    (implementationItem visible).Gives ItemBody.IsDefinition := by
  rw [implementationItem_eq]
  refine .bind fun _ => .bind fun _ => .bind fun _ => ?_
  have hmarked : (markedImplementation visible).Gives ItemBody.IsDefinition := by
    refine .bind fun const => .bind fun _ => .bind fun ⟨⟨shape, first⟩, whole⟩ =>
      .bind fun _ => .bind fun _ =>
      .ite (.bind fun _ => .bind fun _ => .bind fun x => .bind fun _ => ?_) (.bind fun _ => ?_)
    all_goals exact .learn (.pure (by split <;> trivial)) fun body h => gives_endOfImplementation h
  exact .bind fun _ => .ite (.bind fun _ => hmarked) hmarked

theorem gives_foreignModuleItem : foreignModuleItem.Gives ItemBody.IsDefinition :=
  .bind fun _ => .bind fun _ => .bind fun _ => .pure trivial

/-- A foreign module where it may have a visibility. -/
theorem gives_foreignModule (start : View) (visible : Bool) :
    (do
      if visible then fail (start.fault (.keyword "extern"))
      foreignModuleItem : Rule ItemBody).Gives ItemBody.IsDefinition :=
  .ite (.bind fun _ => gives_foreignModuleItem) gives_foreignModuleItem

/-- The declaration of a crate declares a name and is no module. -/
theorem gives_externCrateItem : externCrateItem.Gives ItemBody.IsNoModule :=
  .bind fun _ => .bind fun _ => .bind fun _ => .bind fun _ =>
    .ite (.bind fun _ => .bind fun _ => .pure trivial)
    (.bind fun _ => .bind fun _ => .pure trivial)

/-- What begins with `extern` is a crate or a foreign module. -/
theorem gives_externItem (start : View) (visible : Bool) :
    (externItem start visible).Gives ItemBody.IsNoModule := by
  have hforeign := (gives_foreignModule start visible).mono fun _ h => h.isNoModule
  refine .bind fun _ => .ite gives_externCrateItem (.ite hforeign ?_)
  exact .bind fun _ => .ite (.bind fun _ => .expected _) (.expected _)

theorem gives_macroDefinition : macroDefinition.Gives ItemBody.IsDefinition := by
  refine .bind fun _ => .bind fun _ => .bind fun _ =>
    .ite (.bind fun _ => .bind fun _ => ?_) (.bind fun _ => ?_)
  all_goals exact .ite (.bind fun _ => .pure trivial) (.bind fun _ => .pure trivial)

/-- The use of a macro is no module, whatever the macro makes of it. -/
theorem gives_invocationItem : invocationItem.Gives ItemBody.IsNoModule := by
  refine .bind fun _ => .bind fun _ => .bind fun _ => .bind fun _ => .ite ?_ ?_
  all_goals exact .bind fun _ => .bind fun _ => .bind fun _ => .pure trivial

/-! ### Modules among items -/

/-- Where a rule finds an inline module that is not marked as unsafe, that is read from its word on. -/
def FindsModule (g : PhraseReader) (r : Reader) (rule : Rule ItemBody) : Prop :=
  ∀ n attributes members r', rule.run g r = .ok (.module none n attributes members, r') →
    (moduleFromWord none).run g r = .ok (.module none n attributes members, r')

namespace FindsModule

/-- A rule that gives no module finds one in no place. -/
theorem of_gives {rule : Rule ItemBody} (h : rule.Gives ItemBody.IsNoModule) : FindsModule g r rule :=
  fun _ _ _ r' hrun => (h g r r' _ hrun).elim

theorem of_definition {rule : Rule ItemBody} (h : rule.Gives ItemBody.IsDefinition) : FindsModule g r rule :=
  .of_gives (h.mono fun _ h => h.isNoModule)

theorem ite {c : Prop} [Decidable c] {rule rule' : Rule ItemBody} (h : FindsModule g r rule)
    (h' : FindsModule g r rule') : FindsModule g r (if c then rule else rule') := by
  split
  · exact h
  · exact h'

/-- Looking ahead changes nothing about what is found. -/
theorem ahead {next : List Lexeme → Rule ItemBody} (h : FindsModule g r (next r.rest)) :
    FindsModule g r (Rule.ahead >>= next) := by
  intro n attributes members r' hrun
  rw [run_bind_of_ok (run_ahead r)] at hrun
  exact h n attributes members r' hrun

/-- A module that is found here is not behind `unsafe`, so it is read from its word on. -/
theorem moduleItem : FindsModule g r moduleItem := by
  intro n attributes members r' h
  rw [moduleItem_eq, run_bind_of_ok (run_here r)] at h
  obtain ⟨marked, r₁, hmarked, h⟩ := run_bind_eq_ok.mp h
  cases hsees : seesWord "unsafe" r.rest with
  | true =>
      rw [run_keyword?_of_sees hsees] at hmarked
      cases hmarked
      have hgives : (moduleFromWord (some r.position)).Gives (· ≠ .module none n attributes members) := by
        refine .bind fun _ => .bind fun _ => .bind fun _ => .ite (.bind fun _ => .pure ?_)
          (.ite (.bind fun _ => .pure ?_) (.expected _))
        all_goals exact fun h => by cases h
      exact (hgives g _ r' _ h rfl).elim
  | false =>
      rw [run_keyword?_of_not_sees hsees] at hmarked
      cases hmarked
      exact h

/-- Of the items that may begin with `unsafe`, only modules are found. -/
theorem unsafeItem (start : View) (visible : Bool) : FindsModule g r (unsafeItem start visible) := by
  refine .ahead (.ite (.of_definition gives_traitItem) ?_)
  refine .ite (.of_definition (gives_implementationItem visible)) ?_
  refine .ite (of_definition (gives_foreignModule start visible)) (.ite .moduleItem (.of_gives ?_))
  exact .bind fun _ => .expected _

/-- An item is a module only if it begins with the word of one. -/
theorem itemBody (start : View) (visible : Bool) : FindsModule g r (itemBody start visible) := by
  refine .ahead (.ite (.of_definition gives_functionItem) ?_)
  refine .ite (.of_gives (gives_externItem start visible)) ?_
  refine .ite (.of_gives gives_import?) ?_
  refine .ite (.of_definition gives_staticItem) ?_
  refine .ite (.of_definition gives_constantItem) ?_
  refine .ite (.unsafeItem start visible) ?_
  refine .ite .moduleItem ?_
  refine .ite (.of_definition gives_typeItem) ?_
  refine .ite (.of_definition gives_structureItem) ?_
  refine .ite (.of_definition gives_enumerationItem) ?_
  refine .ite (.of_definition gives_unionItem) ?_
  refine .ite (.of_definition gives_traitOrAlias) ?_
  refine .ite (.of_definition gives_traitItem) ?_
  refine .ite (.of_definition (gives_implementationItem visible)) ?_
  refine .ite (.of_definition gives_macroDefinition) ?_
  exact .ite (.of_gives gives_invocationItem) (.of_gives (.expected _))

end FindsModule

/-- Behind the word and the name of a module its content is read between braces. -/
theorem run_moduleFromWord_of_inline {w : String} {k : List Lexeme}
    (hr : r.rest = word "mod" :: word w :: opening .brace :: k)
    (hw : (isIdentifier w || ["try"].contains w) = true) :
    (moduleFromWord none).run g r = (within .brace moduleContent >>= fun x =>
      pure (.module none ⟨w, r.position + 1⟩ x.1
        (some (x.2.map fun found => (found.item.body, found.item.text)))) :
        Rule ItemBody).run g (r.take 2 [word "mod", word w]) := by
  have hmod : (keyword "mod").run g r = .ok ((), r.take 1 [word "mod"]) := by
    rw [run_keyword_of_sees (by rw [hr]; rfl), hr]
    rfl
  have hbehind : (r.take 1 [word "mod"]).rest = word w :: opening .brace :: k := by
    rw [Reader.take, hr]
    rfl
  have htake : (r.take 1 [word "mod"]).take 1 [word w] = r.take 2 [word "mod", word w] := by
    simp [Reader.take]
  have hbraces : (r.take 2 [word "mod", word w]).rest = opening .brace :: k := by
    rw [Reader.take, hr]
    rfl
  rw [moduleFromWord, run_bind_of_ok hmod, run_bind_of_ok (run_identifierOr_of_word hbehind hw), htake,
    run_bind_of_ok (run_ahead _), hbraces, show sees ";" (opening .brace :: k) = false from rfl]
  rfl

/-- An inline module from its word on: its name and, between braces, its content. -/
theorem run_moduleFromWord_eq_ok {n : Name} {attributes : List Attribute}
    {items : List (ItemBody × List Lexeme)} :
    (moduleFromWord none).run g r = .ok (.module none n attributes (some items), r') ↔
      ∃ k founds q, r.rest = word "mod" :: word n.text :: opening .brace :: k ∧ n.position = r.position + 1 ∧
        (isIdentifier n.text || ["try"].contains n.text) = true ∧
        moduleContent.run g (r.take 3 [word "mod", word n.text, opening .brace]) =
          .ok ((attributes, founds), q) ∧
        items = founds.map (fun found => (found.item.body, found.item.text)) ∧ r' = q.leave .brace := by
  constructor
  · intro h
    have hrun := h
    rw [moduleFromWord] at hrun
    obtain ⟨_, r₁, hmod, hrun⟩ := run_bind_eq_ok.mp hrun
    obtain ⟨hsees, rfl⟩ := run_keyword_eq_ok.mp hmod
    obtain ⟨k, hr⟩ := Rereads.exists_of_seesWord hsees
    obtain ⟨n', r₂, hname, hrun⟩ := run_bind_eq_ok.mp hrun
    obtain ⟨w, k', hk, hw⟩ := word_of_run_identifierOr hname
    obtain rfl : k = word w :: k' := by rwa [Reader.take, hr] at hk
    rw [run_identifierOr_of_word hk hw] at hname
    cases hname
    rw [run_bind_of_ok (run_ahead _)] at hrun
    split at hrun
    · obtain ⟨_, _, -, hrun⟩ := run_bind_eq_ok.mp hrun
      cases hrun
    split at hrun
    · next hgroup =>
      obtain ⟨k, rfl⟩ : ∃ k, k' = opening .brace :: k := by
        refine Rereads.exists_of_seesGroup ?_
        rwa [Reader.take, Reader.take, hr] at hgroup
      rw [run_moduleFromWord_of_inline hr hw] at h
      obtain ⟨⟨attributes, founds⟩, _, hgroup, h⟩ := run_bind_eq_ok.mp h
      cases h
      obtain ⟨-, q, hcontent, rfl⟩ := run_within_eq_ok.mp hgroup
      refine ⟨k, founds, q, hr, rfl, hw, ?_, rfl, rfl⟩
      rw [← hcontent]
      simp [Reader.take]
    · exact (Rule.Gives.expected (P := fun _ => False) _ g _ _ _ hrun).elim
  · rintro ⟨k, founds, q, hr, hposition, hw, hcontent, rfl, rfl⟩
    have htake : (r.take 2 [word "mod", word n.text]).take 1 [opening .brace] =
        r.take 3 [word "mod", word n.text, opening .brace] := by
      simp [Reader.take]
    have hgroup : (within .brace moduleContent).run g (r.take 2 [word "mod", word n.text]) =
        .ok ((attributes, founds), q.leave .brace) :=
      run_within_eq_ok.mpr ⟨by rw [Reader.take, hr]; rfl, q, htake ▸ hcontent, rfl⟩
    rw [run_moduleFromWord_of_inline hr hw, run_bind_of_ok hgroup, ← hposition]
    rfl

/-- Where the word of a module comes next, the item is one. -/
theorem run_itemBody_of_mod {k : List Lexeme} (hr : r.rest = word "mod" :: k)
    (start : View) (visible : Bool) :
    (itemBody start visible).run g r = (moduleFromWord none).run g r := by
  obtain ⟨⟨position, ls⟩, written, stray⟩ := r
  obtain rfl : ls = word "mod" :: k := hr
  rfl

end Rule

end TypedId.Grammar
