import TypedId.Proofs.EntityModule.Reserved
import TypedId.Proofs.Grammar.Operators

/-!
What is remembered of a text stands where it is said to stand.

Names carry the positions of their words, a module that of a leading `unsafe`, and a text literal
its own. `Phrase.Told` says for each phrase what the positions in its result tell, and
`tells_readWithin` proves it for all phrases at once, by induction on the depth of reading.
-/

namespace TypedId.Grammar

open Lexeme

variable {g : PhraseReader} {ls : List Lexeme} {α : Type} {pre : View → Prop}

/-! ### What positions tell -/

/-- Whether all names of an import tree, if there is one, stand in the text. -/
def ImportTree.StandsIn (tree : Option ImportTree) (ls : List Lexeme) : Prop :=
  ∀ t, tree = some t → ∀ n ∈ t.names, n.StandsIn ls

/-- Whether what an item declares stands in the text. A module's name is right behind `mod`, and
its leading `unsafe` and the names of its own items stand in the text too. -/
def ItemBody.StandsIn (ls : List Lexeme) : ItemBody → Prop
  | .module unsafeAt name _ members =>
    (name.StandsIn ls ∧ ∃ p, name.position = p + 1 ∧ ls[p]? = some (word "mod")) ∧
      (∀ p, unsafeAt = some p → ls[p]? = some (word "unsafe")) ∧
        ∀ items, members = some items → ∀ m ∈ items, ∀ n ∈ m.1.names, n.StandsIn ls
  | body => ∀ n ∈ body.names, n.StandsIn ls

/-- If an item stands in the text, so do all names that it declares. -/
theorem ItemBody.StandsIn.names {body : ItemBody} (h : body.StandsIn ls) :
    ∀ n ∈ body.names, n.StandsIn ls := by
  cases body with
  | module _ name =>
      intro n hn
      cases List.mem_singleton.mp hn
      exact h.1.1
  | _ => exact h

/-- Whether a reader has come to a place by reading nothing or by leaving a group. -/
def View.Behind (v : View) (ls : List Lexeme) (start : View) : Prop :=
  v.position = start.position ∨ v.rest = [] ∨
    ∃ p d, v.position = p + 1 ∧ ls[p]? = some (closing d)

/-- Whether the position of a text literal, if that is what an expression is, holds one. Nothing but
attributes stands before it. -/
def ExprShape.TextIn (ls : List Lexeme) (start : View) (shape : ExprShape) : Prop :=
  ∀ p, shape = .text p →
    (∃ content, ls[p]? = some (literal content) ∧ (Text.literalText? content).isSome) ∧
      (p = start.position ∨ ∃ q d, p = q + 1 ∧ ls[q]? = some (closing d))

/-- What the result of a phrase tells of the text. -/
def Phrase.Told (ls : List Lexeme) : (phrase : Phrase) → View → phrase.Result → Prop
  | .item, _, found => found.item.body.StandsIn ls
  | .importTree _, _, tree => ImportTree.StandsIn tree ls
  | .expression _, start, shape | .operand _, start, shape | .atom _, start, shape =>
    shape.TextIn ls start
  | .operators _ left _, _, shape => ∀ p, shape = .text p → left = .text p
  | .type _, _, _ | .bound _ _, _, _ | .pattern, _, _ | .statements, _, _ | .namedFields, _, _ => True

/-- A way to read phrases that stays within a text and tells the truth about it. -/
def Tells (g : PhraseReader) (ls : List Lexeme) : Prop :=
  ∀ phrase r a r', r.toView.Within ls → g phrase r = .ok (a, r') →
    r'.toView.Within ls ∧ phrase.Told ls r.toView a

/-- Phrases that tell where things stand also stay in the text. -/
theorem Tells.stays (hg : Tells g ls) : Stays g ls :=
  fun phrase r a r' hr h => (hg phrase r a r' hr h).1

namespace Ensures

/-- What a phrase tells, it tells of the place where it was read. -/
theorem call_told (hg : Tells g ls) {phrase : Phrase} :
    Ensures g ls pre (.call phrase) fun a _ => ∃ v, pre v ∧ phrase.Told ls v a :=
  call fun r a r' hr hpre h => (hg phrase r a r' hr h).imp_right fun htold => ⟨_, hpre, htold⟩

end Ensures

open Ensures

/-! ### Imports -/

/-- The new name of an import stands in the text; an underscore is no exception. -/
theorem ensures_newName : Ensures g ls pre Rule.newName fun n _ => n.StandsIn ls :=
  ahead fun _ _ _ => .ite (fun _ => anyWord.weaken fun _ _ h => h.1) fun _ => complain

/-- All names of the trees of a group stand in the text. The loop keeps this of the trees found so
far. -/
theorem ensures_importGroup (hg : Tells g ls) (rootAdmitted : Bool) :
    Ensures g ls pre (Rule.importGroup rootAdmitted) fun tree _ => ImportTree.StandsIn tree ls := by
  have hgroup : ∀ {soFar : Option (List ImportTree)},
      (∀ trees, soFar = some trees → ∀ t ∈ trees, ∀ n ∈ t.names, n.StandsIn ls) →
      ImportTree.StandsIn (soFar.map fun trees => .group trees.reverse) ls := by
    rintro soFar hsoFar _ ht n hn
    obtain ⟨trees, rfl, rfl⟩ := Option.map_eq_some_iff.mp ht
    rw [ImportTree.names_group] at hn
    obtain ⟨t, ht, hn⟩ := List.mem_flatMap.mp hn
    exact hsoFar trees rfl t (List.mem_reverse.mp ht) n hn
  refine (within (Q := fun tree _ => ImportTree.StandsIn tree ls) ?_).weaken fun _ _ ⟨_, h⟩ => h
  refine repeating (I := fun soFar _ =>
    ∀ trees, soFar = some trees → ∀ t ∈ trees, ∀ n ∈ t.names, n.StandsIn ls) ?_ fun soFar => ?_
  · rintro _ _ _ ⟨⟩ t ht
    cases ht
  refine ahead fun v _ hsoFar => .ite (fun _ => ?_) fun _ => ?_
  · exact .pure fun _ _ => hgroup hsoFar
  -- Whether a tree begins with `::` or may not, it is read by the same rule.
  refine .ite (fun _ => skip hg.stays fun rooted => ?_) fun _ => skip hg.stays fun rooted => ?_
  all_goals
    refine learn (call_told hg) fun tree ⟨_, _, htree⟩ => ?_
    have hmore : ∀ trees, (if rooted = true then none else do return (← tree) :: (← soFar)) = some trees →
        ∀ t ∈ trees, ∀ n ∈ t.names, n.StandsIn ls := by
      intro trees h
      split at h
      · cases h
      · obtain ⟨t, ht, h⟩ := Option.bind_eq_some_iff.mp h
        obtain ⟨ts, hts, h⟩ := Option.bind_eq_some_iff.mp h
        cases h
        exact List.forall_mem_cons.mpr ⟨htree t ht, hsoFar ts hts⟩
    refine ahead fun _ _ _ => .ite (fun _ => ?_) fun _ => ?_
    · exact .pure fun _ _ => hgroup hmore
    · exact skip hg.stays fun _ => .pure fun _ _ => hmore

/-- All names of a tree stand in the text: its own first word and those of what follows. -/
theorem ensures_importTree (hg : Tells g ls) (rootAdmitted : Bool) :
    Ensures g ls pre (Rule.importTree rootAdmitted) fun tree _ => ImportTree.StandsIn tree ls := by
  refine ahead fun v _ _ => .ite (fun _ => ?_) fun _ => .ite (fun _ => ?_) fun _ =>
    .ite (fun _ => ensures_importGroup hg rootAdmitted) fun _ => expected
  · refine learn (anyWord.weaken fun _ _ h => h.1) fun name hname => ?_
    refine ahead fun _ _ _ => .ite (fun _ => ?_) fun _ => .ite (fun _ => ?_) fun _ => ?_
    · refine skip hg.stays fun _ => learn (call_told hg) fun tree ⟨_, _, htree⟩ => .pure fun _ _ => ?_
      rintro _ ht n hn
      obtain ⟨t, rfl, rfl⟩ := Option.map_eq_some_iff.mp ht
      exact htree t rfl n hn
    · refine skip hg.stays fun _ => learn ensures_newName fun n hn => .pure fun _ _ => ?_
      rintro _ ⟨⟩ m hm
      cases List.mem_singleton.mp hm
      exact hn
    · refine .pure fun _ _ => ?_
      rintro _ ⟨⟩ m hm
      cases List.mem_singleton.mp hm
      exact hname
  · refine skip hg.stays fun _ => .pure fun _ _ => ?_
    rintro _ ⟨⟩ n hn
    cases hn

/-- Where an import is remembered, all its names stand in the text. -/
theorem ensures_import? (hg : Tells g ls) :
    Ensures g ls pre Rule.import? fun body _ => body.StandsIn ls := by
  refine skip hg.stays fun _ => skip hg.stays fun _ => learn (call_told hg) fun tree ⟨_, _, htree⟩ =>
    skip hg.stays fun _ => .pure fun _ _ => ?_
  cases tree with
  | none => exact fun n hn => nomatch hn
  | some t => exact htree t rfl

/-! ### Functions, values and types -/

/-- A name stands where it was read. -/
theorem ensures_identifier : Ensures g ls pre Rule.identifier fun n _ => n.StandsIn ls :=
  identifier (anyWord.weaken fun _ _ h => h.1)

/-- An item that declares its one name tells the truth if that name stands in the text. -/
theorem standsIn_of_names {n : Name} (h : n.StandsIn ls) : ∀ m ∈ [n], m.StandsIn ls := by
  simpa using h

/-- The name of a function stands in its signature. -/
theorem ensures_signature (hg : Stays g ls) (safe : Bool) :
    Ensures g ls pre (Rule.signature safe) fun x _ => x.1.StandsIn ls := by
  refine skip hg fun _ => skip hg fun _ => .ite (fun _ => ?_) fun _ => ?_
  all_goals
    refine skip hg fun declaredSafe => .ite (fun _ => skip hg fun _ => ?_) fun _ =>
      skip hg fun _ => skip hg fun _ => ?_
  all_goals
    refine skip hg fun _ => learn ensures_identifier fun name hname => ?_
    exact skip hg fun _ => .defer (any hg) fun _ => skip hg fun _ => skip hg fun _ => .pure fun _ _ => hname

/-- So a function that is remembered stands in the text. -/
theorem ensures_functionItem (hg : Stays g ls) :
    Ensures g ls pre Rule.functionItem fun body _ => body.StandsIn ls := by
  refine learn (ensures_signature hg false) fun (name, _) hname => skip hg fun _ =>
    .ite (fun _ => .pure fun _ _ => ?_) fun _ => skip hg fun _ => .pure fun _ _ => ?_
  · exact fun n hn => nomatch hn
  · exact standsIn_of_names hname

/-- A constant is named by the word that was read, also by an underscore. -/
theorem ensures_constant (hg : Stays g ls) :
    Ensures g ls pre Rule.constant fun found _ => found.name.StandsIn ls := by
  refine skip hg fun _ => ahead fun _ _ _ => .ite (fun _ => ?_) fun _ => expected_then
  refine learn (anyWord.weaken fun _ _ h => h.1) fun name hname => skip hg fun _ => skip hg fun _ =>
    skip hg fun _ => skip hg fun valued => .ite (fun _ => skip hg fun _ => ?_) fun _ => ?_
  all_goals exact skip hg fun _ => skip hg fun _ => .pure fun _ _ => hname

theorem ensures_constantItem (hg : Stays g ls) :
    Ensures g ls pre Rule.constantItem fun body _ => body.StandsIn ls := by
  refine learn (ensures_constant hg) fun found hfound => .pure fun _ _ => ?_
  split
  · exact standsIn_of_names hfound
  · exact fun n hn => nomatch hn

theorem ensures_staticItem (hg : Stays g ls) :
    Ensures g ls pre Rule.staticItem fun body _ => body.StandsIn ls := by
  refine skip hg fun _ => skip hg fun _ => learn ensures_identifier fun name hname =>
    skip hg fun _ => .ite (fun _ => skip hg fun _ => skip hg fun _ => .pure fun _ _ => ?_) fun _ =>
      skip hg fun _ => skip hg fun _ => skip hg fun _ => .ite (fun _ => .pure fun _ _ => ?_) fun _ =>
        skip hg fun _ => skip hg fun _ => skip hg fun _ => .pure fun _ _ => ?_
  · exact fun n hn => nomatch hn
  · exact fun n hn => nomatch hn
  · exact standsIn_of_names hname

/-- An alias is named by the word that was read, wherever its conditions stand. -/
theorem ensures_typeDefinition (hg : Stays g ls) (place : Rule.ConditionPlace) :
    Ensures g ls pre (Rule.typeDefinition place) fun found _ => found.name.StandsIn ls := by
  refine skip hg fun _ => learn ensures_identifier fun name hname => skip hg fun _ =>
    skip hg fun bounded => .ite (fun _ => skip hg fun conditional => ?_) fun _ =>
      skip hg fun conditional => ?_
  all_goals
    refine skip hg fun defined => .ite (fun _ => skip hg fun _ => ?_) fun _ => ?_
  all_goals
    exact .ite (fun _ => skip hg fun _ => .pure fun _ _ => hname) fun _ =>
      skip hg fun _ => skip hg fun _ => .pure fun _ _ => hname

theorem ensures_typeItem (hg : Stays g ls) :
    Ensures g ls pre Rule.typeItem fun body _ => body.StandsIn ls := by
  refine learn (ensures_typeDefinition hg _) fun found hfound => .pure fun _ _ => ?_
  split
  · exact standsIn_of_names hfound
  · exact fun n hn => nomatch hn

theorem ensures_structureItem (hg : Stays g ls) :
    Ensures g ls pre Rule.structureItem fun body _ => body.StandsIn ls := by
  refine skip hg fun _ => learn ensures_identifier fun name hname => skip hg fun _ =>
    skip hg fun _ => ahead fun _ _ _ => ?_
  have hdone : ∀ pre : View → Prop, Ensures g ls pre (Pure.pure (ItemBody.structure_ name))
      fun body _ => body.StandsIn ls := fun _ => .pure fun _ _ => standsIn_of_names hname
  refine .ite (fun _ => skip hg fun _ => skip hg fun _ => ahead fun _ _ _ => ?_) fun _ =>
    .ite (fun _ => skip hg fun _ => hdone _) fun _ =>
      .ite (fun _ => skip hg fun _ => hdone _) fun _ => expected_then
  exact .ite (fun _ => skip hg fun _ => hdone _) fun _ => expected_then

theorem ensures_enumerationItem (hg : Stays g ls) :
    Ensures g ls pre Rule.enumerationItem fun body _ => body.StandsIn ls := by
  exact skip hg fun _ => learn ensures_identifier fun name hname => skip hg fun _ =>
    skip hg fun _ => skip hg fun _ => .pure fun _ _ => standsIn_of_names hname

theorem ensures_unionItem (hg : Stays g ls) :
    Ensures g ls pre Rule.unionItem fun body _ => body.StandsIn ls := by
  exact skip hg fun _ => learn ensures_identifier fun name hname => skip hg fun _ =>
    skip hg fun _ => skip hg fun _ => .pure fun _ _ => standsIn_of_names hname

/-! ### Traits and implementations -/

theorem ensures_traitItem (hg : Stays g ls) :
    Ensures g ls pre Rule.traitItem fun body _ => body.StandsIn ls := by
  exact skip hg fun _ => skip hg fun _ => skip hg fun _ => learn ensures_identifier fun name hname =>
    skip hg fun _ => skip hg fun _ => .pure fun _ _ => standsIn_of_names hname

theorem ensures_traitOrAlias (hg : Stays g ls) :
    Ensures g ls pre Rule.traitOrAlias fun body _ => body.StandsIn ls := by
  refine skip hg fun _ => learn ensures_identifier fun name hname => skip hg fun _ =>
    ahead fun _ _ _ => .ite (fun _ => skip hg fun _ => .pure fun _ _ => ?_) fun _ =>
      .ite (fun _ => skip hg fun _ => skip hg fun _ => skip hg fun _ => skip hg fun _ =>
        .pure fun _ _ => ?_) fun _ => expected
  all_goals exact standsIn_of_names hname

/-- An implementation declares no name, so nothing has to stand anywhere. -/
theorem standsIn_implementation (c : Bool) (ofTrait : Option (List Lexeme)) (type : List Lexeme) :
    ItemBody.StandsIn ls (if c = true then .kept else .implementation ofTrait type) := by
  split
  all_goals exact fun n hn => nomatch hn

theorem ensures_implementationItem (hg : Stays g ls) (visible : Bool) :
    Ensures g ls pre (Rule.implementationItem visible) fun body _ => body.StandsIn ls := by
  have hrest : ∀ (pre : View → Prop) (body : ItemBody) (rest : Rule Unit) (clause : Rule Bool),
      body.StandsIn ls → Ensures g ls pre (do let _ ← clause; rest; return body)
        fun body _ => body.StandsIn ls :=
    fun _ _ _ _ hbody => skip hg fun _ => skip hg fun _ => .pure fun _ _ => hbody
  refine skip hg fun _ => skip hg fun _ => skip hg fun _ => ahead fun _ _ _ =>
    .ite (fun _ => skip hg fun _ => ?_) fun _ => ?_
  all_goals
    refine skip hg fun const => look fun start _ _ => skip hg fun ((shape, first), whole) =>
      ahead fun _ _ _ => here fun stop _ _ => .ite (fun _ => skip hg fun _ => skip hg fun _ =>
        skip hg fun (_, type) => skip hg fun _ => ?_) fun _ => skip hg fun _ => ?_
  all_goals
    exact learn (P := fun body => body.StandsIn ls)
      (.pure fun _ _ => standsIn_implementation ..) fun body hbody => hrest _ body _ _ hbody

/-! ### Modules, crates and macros -/

/-- A module tells where its name stands, where a leading `unsafe` does and where the names of its
items do. This is where positions inside a module come from. -/
theorem ensures_moduleItem (hg : Tells g ls) :
    Ensures g ls pre Rule.moduleItem fun body _ => body.StandsIn ls := by
  refine here fun start hstart _ => ?_
  refine learn (P := fun marked => marked = true → ls[start.position]? = some (word "unsafe")) ?_
    fun marked hmarked => ?_
  · refine keyword?.weaken fun marked _ h hmarked => ?_
    obtain ⟨_, rfl, hword⟩ := h hmarked
    exact hword
  refine keyword.bind fun _ => ?_
  refine learn (P := fun name =>
    name.StandsIn ls ∧ ∃ p, name.position = p + 1 ∧ ls[p]? = some (word "mod")) ?_
    fun name hname => ?_
  · refine identifierOr (anyWord.weaken ?_)
    rintro n v ⟨hn, -, v', ⟨p, hp, hmod⟩, hposition⟩
    exact ⟨hn, p, hposition.trans hp, hmod⟩
  have hunsafe : ∀ p, (if marked = true then some start.position else none) = some p →
      ls[p]? = some (word "unsafe") := by
    intro p hp
    split at hp
    · next h =>
      cases hp
      exact hmarked h
    · cases hp
  refine ahead fun _ _ _ => .ite (fun _ => skip hg.stays fun _ => .pure fun _ _ => ?_) fun _ =>
    .ite (fun _ => ?_) fun _ => expected
  · exact ⟨hname, hunsafe, nofun⟩
  · refine learn (P := fun x : List Attribute × List OuterItem =>
      ∀ found ∈ x.2, found.item.body.StandsIn ls) ?_ fun (attributes, items) hitems => .pure fun _ _ => ?_
    · refine (within (Q := fun x _ => ∀ found ∈ x.2, found.item.body.StandsIn ls) ?_).weaken
        fun _ _ ⟨_, h⟩ => h
      refine skip hg.stays fun attributes => learn (while_ ?_) fun items hitems => .pure fun _ _ => hitems
      exact (call_told hg).weaken fun _ _ ⟨_, _, h⟩ => h
    · refine ⟨hname, hunsafe, ?_⟩
      rintro _ ⟨⟩ m hm
      obtain ⟨found, hfound, rfl⟩ := List.mem_map.mp hm
      exact (hitems found hfound).names

/-- The declaration of a crate tells where its name and its new name stand. -/
theorem ensures_externCrateItem (hg : Stays g ls) :
    Ensures g ls pre Rule.externCrateItem fun body _ => body.StandsIn ls := by
  refine skip hg fun _ => skip hg fun _ =>
    learn (identifierOr (anyWord.weaken fun _ _ h => h.1)) fun name hname => skip hg fun _ =>
      .ite (fun _ => ?_) fun _ => ?_
  · refine learn (P := fun rename => ∀ n, rename = some n → n.StandsIn ls) (.map ?_)
      fun rename hrename => skip hg fun _ => .pure fun _ _ => ?_
    · exact identifierOr (anyWord.weaken fun _ _ h _ hn => Option.some.inj hn ▸ h.1)
    · cases rename with
      | none => exact standsIn_of_names hname
      | some n => exact standsIn_of_names (hrename n rfl)
  · exact learn (P := (· = none)) (.pure fun _ _ => rfl) fun _ h => skip hg fun _ =>
      .pure fun _ _ => h ▸ standsIn_of_names hname

/-- Nothing of a foreign module is remembered that would stand anywhere. -/
theorem ensures_foreignModuleItem (hg : Stays g ls) :
    Ensures g ls pre Rule.foreignModuleItem fun body _ => body.StandsIn ls :=
  skip hg fun _ => skip hg fun _ => skip hg fun _ => .pure fun _ _ _ hn => nomatch hn

theorem ensures_externItem (hg : Stays g ls) (start : View) (visible : Bool) :
    Ensures g ls pre (Rule.externItem start visible) fun body _ => body.StandsIn ls := by
  refine ahead fun _ _ _ => .ite (fun _ => ensures_externCrateItem hg) fun _ =>
    .ite (fun _ => .ite (fun _ => fail_then) fun _ => ensures_foreignModuleItem hg) fun _ =>
      skip hg fun _ => .ite (fun _ => skip hg fun _ => expected) fun _ => expected

/-- What begins with `unsafe` tells where its names stand, and a module where its `unsafe` does. -/
theorem ensures_unsafeItem (hg : Tells g ls) (start : View) (visible : Bool) :
    Ensures g ls pre (Rule.unsafeItem start visible) fun body _ => body.StandsIn ls := by
  refine ahead fun _ _ _ => .ite (fun _ => ensures_traitItem hg.stays) fun _ =>
    .ite (fun _ => ensures_implementationItem hg.stays visible) fun _ =>
      .ite (fun _ => .ite (fun _ => fail_then) fun _ => ensures_foreignModuleItem hg.stays) fun _ =>
        .ite (fun _ => ensures_moduleItem hg) fun _ => skip hg.stays fun _ => expected

theorem ensures_macroDefinition (hg : Stays g ls) :
    Ensures g ls pre Rule.macroDefinition fun body _ => body.StandsIn ls := by
  have hkept : ∀ pre : View → Prop, Ensures g ls pre (Pure.pure ItemBody.kept)
      fun body _ => body.StandsIn ls := fun _ => .pure fun _ _ n hn => nomatch hn
  refine skip hg fun _ => skip hg fun _ => ahead fun _ _ _ => .ite (fun _ => skip hg fun _ => ?_) fun _ => ?_
  all_goals
    exact ahead fun _ _ _ => .ite (fun _ => skip hg fun _ => hkept _) fun _ => expected_then

/-- The use of a macro tells where the name before its arguments stands. -/
theorem ensures_invocationItem (hg : Stays g ls) :
    Ensures g ls pre Rule.invocationItem fun body _ => body.StandsIn ls := by
  refine skip hg fun ((), path) => skip hg fun _ => skip hg fun _ => ahead fun _ _ _ =>
    .ite (fun _ => ?_) fun _ => ?_
  · refine learn (P := fun name => ∀ n, name = some n → n.StandsIn ls) (.map ?_)
      fun name hname => skip hg fun _ => skip hg fun _ => .pure fun _ _ => ?_
    · exact anyWord.weaken fun _ _ h _ hn => Option.some.inj hn ▸ h.1
    · exact fun n hn => hname n (Option.mem_toList.mp hn)
  · exact learn (P := (· = none)) (.pure fun _ _ => rfl) fun _ h => skip hg fun _ =>
      skip hg fun _ => .pure fun _ _ => h ▸ fun _ hn => nomatch hn

/-! ### All kinds of items -/

/-- Whatever an item begins with, what is remembered of it stands in the text. -/
theorem ensures_itemBody (hg : Tells g ls) (start : View) (visible : Bool) :
    Ensures g ls pre (Rule.itemBody start visible) fun body _ => body.StandsIn ls := by
  have hs := hg.stays
  refine ahead fun _ _ _ => .ite (fun _ => ensures_functionItem hs) fun _ =>
    .ite (fun _ => ensures_externItem hs start visible) fun _ =>
    .ite (fun _ => ensures_import? hg) fun _ =>
    .ite (fun _ => ensures_staticItem hs) fun _ =>
    .ite (fun _ => ensures_constantItem hs) fun _ =>
    .ite (fun _ => ensures_unsafeItem hg start visible) fun _ =>
    .ite (fun _ => ensures_moduleItem hg) fun _ =>
    .ite (fun _ => ensures_typeItem hs) fun _ =>
    .ite (fun _ => ensures_structureItem hs) fun _ =>
    .ite (fun _ => ensures_enumerationItem hs) fun _ =>
    .ite (fun _ => ensures_unionItem hs) fun _ =>
    .ite (fun _ => ensures_traitOrAlias hs) fun _ =>
    .ite (fun _ => ensures_traitItem hs) fun _ =>
    .ite (fun _ => ensures_implementationItem hs visible) fun _ =>
    .ite (fun _ => ensures_macroDefinition hs) fun _ =>
    .ite (fun _ => ensures_invocationItem hs) fun _ => expected

/-- The same of an item with its attributes and its visibility. -/
theorem ensures_item (hg : Tells g ls) :
    Ensures g ls pre Rule.item fun found _ => found.item.body.StandsIn ls := by
  refine look fun start _ _ => skip hg.stays fun (attributes, text) => ?_
  refine learn (P := fun x : (List Lexeme × ItemBody) × List Lexeme => x.1.2.StandsIn ls)
    (hold (Q := fun (x : List Lexeme × ItemBody) _ => x.2.StandsIn ls) ?_)
    fun ((seen, body), own) hbody => ?_
  · exact look fun v _ _ => skip hg.stays fun seen => learn (ensures_itemBody hg v _) fun body hbody =>
      .pure fun _ _ => hbody
  · exact here fun _ _ _ => skip hg.stays fun _ => .pure fun _ _ => hbody

/-! ### Text literals -/

/-- Attributes end with brackets. -/
theorem ensures_outerAttributes (hg : Stays g ls) {start : View} :
    Ensures g ls (· = start) Rule.outerAttributes fun _ v => v.Behind ls start := by
  refine repeating (I := fun _ v => v.Behind ls start) (fun _ h => .inl (h ▸ rfl)) fun soFar => ?_
  refine ahead fun v _ hv => .ite (fun _ => ?_) fun _ => .pure fun _ h => h ▸ hv
  refine bind (M := fun _ v => v.Behind ls start) ?_ fun _ => .pure fun _ h => h
  have hcloses : Ensures g ls (fun _ => True) (Rule.within .bracket do
        if seesWord "unsafe" (← Rule.ahead) then Rule.keyword "unsafe" else Rule.plainPath
        Rule.attributeValue) fun _ v => v.Behind ls start :=
    (within_closes hg).weaken fun _ _ h => .inr h
  refine bind (M := fun _ v => v.Behind ls start) (hold (Q := fun _ v => v.Behind ls start) ?_)
    fun ((), text) => write.bind fun _ => .pure fun _ h => h
  exact skip hg fun _ => hcloses

/-- What is no text literal has no position to tell. -/
theorem ExprShape.textIn_of_ne {start : View} {shape : ExprShape} (h : ∀ p, shape ≠ .text p) :
    shape.TextIn ls start :=
  fun p hp => (h p hp).elim

/-- What operators join is no text literal. -/
theorem ExprShape.ne_text_of_joined {shape : ExprShape} (h : shape.joined = true) (p : Nat) :
    shape ≠ .text p := by
  rintro rfl
  cases h

/-- Anything behind an expression makes another one of it. -/
theorem ensures_trailers (hg : Stays g ls) (shape : ExprShape) :
    Ensures g ls pre (Rule.trailers shape) fun shape' _ => shape' = shape ∨ shape' = .other := by
  refine repeating (I := fun shape' _ => shape' = shape ∨ shape' = .other)
    (fun _ _ => .inl rfl) fun shape' => ?_
  refine ahead fun v _ hshape => .ite (fun _ => skip hg fun _ => .pure fun _ _ => .inr rfl) fun _ =>
    .ite (fun _ => skip hg fun _ => .pure fun _ _ => .inr rfl) fun _ =>
    .ite (fun _ => skip hg fun _ => .pure fun _ _ => .inr rfl) fun _ =>
    .ite (fun _ => skip hg fun _ => .pure fun _ _ => .inr rfl) fun _ => .pure fun _ _ => hshape

/-- An expression that begins with a path is no text literal. -/
theorem ensures_pathExpression (hg : Stays g ls) (braces : Bool) :
    Ensures g ls pre (Rule.pathExpression braces) fun shape _ => ∀ p, shape ≠ .text p := by
  refine skip hg fun shape => ahead fun _ _ _ =>
    .ite (fun _ => skip hg fun _ => .pure fun _ _ => nofun) fun _ =>
    .ite (fun _ => skip hg fun _ => .pure fun _ _ => nofun) fun _ => .pure fun _ _ => nofun

/-- The only expression that is a text literal is one. -/
theorem ensures_atom (hg : Stays g ls) (braces : Bool) {start : View} :
    Ensures g ls (· = start) (Rule.atom braces) fun shape _ => shape.TextIn ls start := by
  have hother : ∀ {shape : ExprShape} {pre : View → Prop}, (∀ p, shape ≠ .text p) →
      Ensures g ls pre (Pure.pure shape) fun shape _ => shape.TextIn ls start :=
    fun h => .pure fun _ _ => ExprShape.textIn_of_ne h
  -- Most kinds of expressions are read by one rule, which does not matter.
  have hone : ∀ {β : Type} {rule : Rule β} {shape : ExprShape} {pre : View → Prop},
      (∀ p, shape ≠ .text p) →
      Ensures g ls pre (rule >>= fun _ => Pure.pure shape) fun shape _ => shape.TextIn ls start :=
    fun h => skip hg fun _ => hother h
  refine look fun v hv hstart => .ite (fun _ => ?_) fun _ =>
    .ite (fun _ => skip hg fun _ => skip hg fun _ => hone nofun) fun _ =>
    .ite (fun _ => skip hg fun _ => hone nofun) fun _ =>
    .ite (fun _ => hone nofun) fun _ =>
    .ite (fun _ => hone nofun) fun _ =>
    .ite (fun _ => (ensures_pathExpression hg braces).weaken fun _ _ => ExprShape.textIn_of_ne) fun _ =>
    .ite (fun _ => hone nofun) fun _ =>
    .ite (fun _ => hone nofun) fun _ =>
    .ite (fun _ => skip hg fun _ => hone nofun) fun _ =>
    .ite (fun _ => skip hg fun _ => hone nofun) fun _ =>
    .ite (fun _ => hone nofun) fun _ =>
    .ite (fun _ => hone nofun) fun _ =>
    .ite (fun _ => skip hg fun _ => skip hg fun _ => skip hg fun _ => skip hg fun _ => hone nofun) fun _ =>
    .ite (fun _ => hone nofun) fun _ =>
    .ite (fun _ => hone nofun) fun _ =>
    .ite (fun _ => hone nofun) fun _ =>
    .ite (fun _ => hone nofun) fun _ =>
    .ite (fun _ => hone nofun) fun _ =>
    .ite (fun _ => skip hg fun _ => hone nofun) fun _ =>
    .ite (fun _ => hone nofun) fun _ =>
    .ite (fun _ => hone nofun) fun _ =>
    .ite (fun _ => hone nofun) fun _ =>
    .ite (fun _ => (ensures_restOfRange hg braces).weaken fun _ _ h =>
      ExprShape.textIn_of_ne (ExprShape.ne_text_of_joined h)) fun _ =>
    .ite (fun _ => hone nofun) fun _ =>
    .ite (fun _ => hone nofun) fun _ => complain
  refine skip hg fun _ => .pure fun _ _ => ?_
  rintro p hp
  split at hp
  · next hsees =>
    cases hp
    cases hrest : v.rest with
    | nil => rw [hrest] at hsees; cases hsees
    | cons l rest =>
        cases l <;> rw [hrest] at hsees <;> simp only [seesText, Bool.false_eq_true] at hsees
        exact ⟨⟨_, hv.getElem? hrest, hsees⟩, .inl (hstart ▸ rfl)⟩
  · cases hp

/-- What stands before a text literal, seen from further back. -/
theorem ExprShape.TextIn.of_behind {start v : View} {shape : ExprShape} (h : shape.TextIn ls v)
    (hv : v.Within ls) (hbehind : v.Behind ls start) : shape.TextIn ls start := by
  intro p hp
  obtain ⟨hliteral, hposition⟩ := h p hp
  refine ⟨hliteral, ?_⟩
  obtain rfl | hclosing := hposition
  · obtain hsame | hnil | hclosing := hbehind
    · exact .inl hsame
    · obtain ⟨content, hcontent, -⟩ := hliteral
      rw [← List.head?_drop, ← hv, hnil] at hcontent
      cases hcontent
    · exact .inr hclosing
  · exact .inr hclosing

/-- An operand that is a text literal stands where the operand begins, or right
behind attributes. -/
theorem ensures_operand (hg : Tells g ls) (braces : Bool) {start : View} :
    Ensures g ls (· = start) (Rule.operand braces) fun shape _ => shape.TextIn ls start := by
  have hs := hg.stays
  have hother : ∀ {shape : ExprShape} {pre : View → Prop}, (∀ p, shape ≠ .text p) →
      Ensures g ls pre (Pure.pure shape) fun shape _ => shape.TextIn ls start :=
    fun h => .pure fun _ _ => ExprShape.textIn_of_ne h
  refine look fun v _ hstart => ?_
  subst hstart
  refine bind (hold (Q := fun _ v' => v'.Behind ls v) (ensures_outerAttributes hs))
    fun (attributes, text) => ?_
  refine ahead fun v' hv' hbehind => .ite (fun _ => ?_) fun _ => .ite (fun _ => ?_) fun _ => ?_
  · refine skip hs fun _ => skip hs fun _ => ahead fun _ _ _ =>
      .ite (fun _ => skip hs fun _ => skip hs fun _ => ?_) fun _ => skip hs fun _ => ?_
    all_goals
      exact .ite (fun _ => skip hs fun _ => skip hs fun _ => hother nofun) fun _ =>
        skip hs fun _ => hother nofun
  · exact skip hs fun _ => skip hs fun _ => skip hs fun _ => hother nofun
  · refine learn (P := fun x : ExprShape × List Lexeme => x.1.TextIn ls v)
      (hold (Q := fun (shape : ExprShape) _ => shape.TextIn ls v) ?_) fun (shape, body) hshape => ?_
    · refine learn (call_told hg) fun shape ⟨w, hw, htold⟩ => ?_
      subst hw
      refine (ensures_trailers hs shape).weaken fun shape' _ h => ?_
      obtain rfl | rfl := h
      · exact ExprShape.TextIn.of_behind htold hv' hbehind
      · exact ExprShape.textIn_of_ne nofun
    · cases shape with
      | range dots => exact .ite (fun _ => skip hs fun _ => hother nofun) fun _ => fail_then
      | _ => exact skip hs fun _ => .pure fun _ _ => hshape

/-- So does an expression: what operators join is no text literal. -/
theorem ensures_expression (hg : Tells g ls) (braces : Bool) {start : View} :
    Ensures g ls (· = start) (Rule.expression braces) fun shape _ => shape.TextIn ls start := by
  refine learn (call_told hg) fun shape ⟨v, hv, hshape⟩ => (call_told hg).weaken fun shape' _ ⟨_, _, h⟩ => ?_
  subst hv
  exact fun p hp => hshape p (h p hp)

/-! ### All phrases -/

/-- The rule of every phrase tells where things stand, if the phrases that it refers to do. -/
theorem ensures_rule (hg : Tells g ls) (phrase : Phrase) {start : View} :
    Ensures g ls (· = start) phrase.rule fun a _ => phrase.Told ls start a := by
  cases phrase with
  | type | bound | pattern | statements | namedFields => exact any hg.stays
  | expression braces => exact ensures_expression hg braces
  | operand braces => exact ensures_operand hg braces
  | atom braces => exact ensures_atom hg.stays braces
  | operators braces left least =>
      refine (ensures_operators hg.stays braces left least).weaken fun shape _ h p hp => ?_
      obtain hjoined | ⟨rfl, -⟩ := h
      · exact (ExprShape.ne_text_of_joined hjoined p hp).elim
      · exact hp
  | item => exact ensures_item hg
  | importTree rootAdmitted => exact ensures_importTree hg rootAdmitted

/-- Whatever is read of a text tells the truth about it. -/
theorem tells_readWithin (ls : List Lexeme) (depth : Nat) : Tells (Phrase.readWithin depth) ls := by
  induction depth with
  | zero => exact fun _ _ _ _ _ h => nomatch h
  | succ depth ih => exact fun phrase r a r' hr h => ensures_rule ih phrase r a r' hr rfl h

end TypedId.Grammar
