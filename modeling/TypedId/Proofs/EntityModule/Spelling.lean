import TypedId.Proofs.EntityModule.Reserved
import TypedId.Invocation

/-!
What the mark of a raw word does to a name.

A word and the same word behind `r#` are one name. `ItemBody.respell` puts the mark before some of
the names that an item declares. The search for reserved names compares spellings, so that a name
with the mark is never found: of the names that are declared, it finds the first that is reserved
and has no mark (`firstReserved_respell`). Two modules that differ in marks are therefore refused for
the same name unless that name is marked in one of them (`respelling_agrees_iff`).
-/

namespace TypedId

open Lexeme Grammar

namespace Grammar

/-- Whether a name can be marked: it is not marked yet, and its word may be a raw one. -/
def Name.markable (n : Name) : Bool :=
  !Lexer.isNeverRaw n.text.toList && !"r#".toList.isPrefixOf n.text.toList

/-- A name with the mark of a raw word. -/
def Name.marked (n : Name) : Name := ⟨"r#" ++ n.text, n.position⟩

/-- Marks a name if it is one of those that are chosen and can be marked. -/
def Name.respell (chosen : Name → Bool) (n : Name) : Name :=
  if chosen n && n.markable then n.marked else n

/-- Marks chosen ones of the names that an import tree brings in. -/
def ImportTree.respell (chosen : Name → Bool) : ImportTree → ImportTree
  | path segment tree => path segment (tree.respell chosen)
  | name n => name (n.respell chosen)
  | rename n bound => rename n (bound.respell chosen)
  | glob => glob
  | group trees => group (respellAll chosen trees)
where
  /-- Marks chosen ones of the names that several import trees bring in. -/
  respellAll (chosen : Name → Bool) : List ImportTree → List ImportTree
    | [] => []
    | tree :: trees => tree.respell chosen :: respellAll chosen trees

/-- Marks chosen ones of the names that an item declares. -/
def ItemBody.respell (chosen : Name → Bool) : ItemBody → ItemBody
  | constant n => constant (n.respell chosen)
  | enumeration n => enumeration (n.respell chosen)
  | function n => function (n.respell chosen)
  | module unsafeAt n attributes members => module unsafeAt (n.respell chosen) attributes members
  | staticItem n => staticItem (n.respell chosen)
  | structure_ n => structure_ (n.respell chosen)
  | traitItem n => traitItem (n.respell chosen)
  | traitAlias n => traitAlias (n.respell chosen)
  | typeAlias n => typeAlias (n.respell chosen)
  | union n => union (n.respell chosen)
  | externCrate n none => externCrate (n.respell chosen) none
  | externCrate n (some rename) => externCrate n (some (rename.respell chosen))
  | invocation path n => invocation path (n.map (Name.respell chosen))
  | import_ tree => import_ (tree.respell chosen)
  | foreignModule => foreignModule
  | implementation ofTrait type => implementation ofTrait type
  | kept => kept

variable (chosen : Name → Bool)

/-! ### Respelling goes name by name -/

theorem ImportTree.names_respell (tree : ImportTree) :
    (tree.respell chosen).names = tree.names.map (Name.respell chosen) := by
  induction tree using ImportTree.rec
    (motive_2 := fun trees => names.namesOfAll (respell.respellAll chosen trees) =
      (names.namesOfAll trees).map (Name.respell chosen)) with
  | path segment tree ih => exact ih
  | group trees ih => exact ih
  | cons tree trees ih ihs =>
      rw [respell.respellAll, names.namesOfAll, ih, ihs, names.namesOfAll, List.map_append]
  | _ => rfl

theorem ItemBody.names_respell (body : ItemBody) :
    (body.respell chosen).names = body.names.map (Name.respell chosen) := by
  cases body with
  | import_ tree => exact tree.names_respell chosen
  | externCrate n rename => cases rename <;> rfl
  | invocation path n => cases n <;> rfl
  | _ => rfl

/-! ### Marked names are not reserved -/

theorem Name.markable_of_reserved {n : Name} (h : n.text ∈ reservedNames) : n.markable = true := by
  simp only [reservedNames, List.mem_cons, List.not_mem_nil, or_false] at h
  obtain h | h | h := h <;> rw [markable, h] <;> decide

theorem Name.isReserved_marked (n : Name) : n.marked.isReserved = false := by
  rw [Bool.eq_false_iff, Ne, isReserved_iff]
  intro h
  have hprefix : "r#".toList.isPrefixOf n.marked.text.toList = true := by
    simp [marked]
  have hmarkable := markable_of_reserved h
  rw [markable, hprefix] at hmarkable
  simp at hmarkable

/-- A name is reserved with the chosen marks exactly if it is without and is not chosen. -/
theorem Name.isReserved_respell (n : Name) :
    (n.respell chosen).isReserved = (n.isReserved && !chosen n) := by
  rw [respell]
  cases hchosen : chosen n with
  | false => simp
  | true =>
      cases hmarkable : n.markable with
      | true => simp [isReserved_marked]
      | false =>
          have hn : n.isReserved = false := by
            rw [Bool.eq_false_iff, Ne, isReserved_iff]
            intro h
            rw [markable_of_reserved h] at hmarkable
            cases hmarkable
          simp [hn]

end Grammar

namespace EntityModule

/-- Whether the items of a module are those of another one with marks at chosen names. -/
def Respelt (chosen : Name → Bool) (items items' : List (ItemBody × List Lexeme)) : Prop :=
  items'.map Prod.fst = items.map fun x => x.1.respell chosen

variable {chosen : Name → Bool} {items items' : List (ItemBody × List Lexeme)} {found found' : OuterItem}
  {name : Name} {innerAttributes innerAttributes' : List Attribute}

theorem Respelt.declared_eq (h : Respelt chosen items items') :
    declared items' = (declared items).map (Name.respell chosen) := by
  have hnames : declared items' = (items'.map Prod.fst).flatMap ItemBody.names := by
    rw [declared, List.flatMap_map]
  rw [hnames, h, List.flatMap_map, declared, List.map_flatMap]
  exact congrArg (List.flatMap · items) (funext fun x => x.1.names_respell chosen)

/-- Of the names that are declared, the search finds the first that is reserved and not marked. -/
theorem Respelt.find?_declared (h : Respelt chosen items items') :
    (declared items').find? Name.isReserved =
      (declared items).find? fun n => n.isReserved && !chosen n := by
  rw [h.declared_eq, List.find?_map]
  have hreserved : Name.isReserved ∘ Name.respell chosen = fun n => n.isReserved && !chosen n :=
    funext fun n => n.isReserved_respell chosen
  rw [hreserved]
  cases hfind : (declared items).find? fun n => n.isReserved && !chosen n with
  | none => rfl
  | some n =>
      have hn := List.find?_some hfind
      simp only [Bool.and_eq_true, Bool.not_eq_true'] at hn
      simp [Name.respell, hn.2]

/-- What is found first and has a further property is found first among what has both. -/
theorem find?_and_of_find? {α : Type} {p q : α → Bool} {l : List α} {a : α} (h : l.find? p = some a)
    (ha : q a = true) : (l.find? fun b => p b && q b) = some a := by
  obtain ⟨hpa, before, after, rfl, hbefore⟩ := List.find?_eq_some_iff_append.mp h
  refine List.find?_eq_some_iff_append.mpr ⟨by simp [hpa, ha], before, after, rfl, fun b hb => ?_⟩
  have hpb := hbefore b hb
  simp only [Bool.not_eq_true'] at hpb
  simp [hpb]

/-- A module with marks at chosen names is refused exactly if it declares a reserved name that is
not chosen. It is refused alike without them, for the same name at the same place, or accepted alike,
exactly if the name that is reported without them is not chosen: a mark at any other name makes no
difference, and one at the name that is reported hides it. -/
theorem respelling_agrees_iff (h : found.item.body = .module none name innerAttributes (some items))
    (h' : found'.item.body = .module none name innerAttributes' (some items'))
    (hrespelt : Respelt chosen items items') :
    ((∃ d, ofItem found' = .error d) ↔
        ∃ n ∈ declared items, n.text ∈ reservedNames ∧ chosen n = false) ∧
      ((∀ d, ofItem found' = .error d ↔ ofItem found = .error d) ↔
        ∀ n, (declared items).find? Name.isReserved = some n → chosen n = false) := by
  constructor
  · rw [refused_iff h', hrespelt.declared_eq]
    simp only [List.mem_map, exists_exists_and_eq_and, ← Name.isReserved_iff, Name.isReserved_respell,
      Bool.and_eq_true, Bool.not_eq_true']
  rw [ofItem_eq h, ofItem_eq h', hrespelt.find?_declared]
  constructor
  · intro hagree n hn
    rw [hn] at hagree
    have hrefused := (hagree _).mpr rfl
    cases hfind : (declared items).find? fun n => n.isReserved && !chosen n with
    | none => rw [hfind] at hrefused; cases hrefused
    | some n' =>
        rw [hfind] at hrefused
        obtain rfl : n' = n := by
          cases n
          cases n'
          simpa [Stretch.single] using hrefused
        have hn' := List.find?_some hfind
        simp only [Bool.and_eq_true, Bool.not_eq_true'] at hn'
        exact hn'.2
  · intro hchosen d
    cases hfind : (declared items).find? Name.isReserved with
    | none =>
        have hnone : ((declared items).find? fun n => n.isReserved && !chosen n) = none := by
          rw [List.find?_eq_none] at hfind ⊢
          intro n hn
          simp [hfind n hn]
        rw [hnone]
        simp
    | some n =>
        rw [find?_and_of_find? (q := fun n => !chosen n) hfind (by simp [hchosen n hfind])]

/-- A mark at a function behind the one that is reported makes no difference. -/
theorem later_mark_makes_no_difference :
    ∃ found found' : OuterItem,
      found.item.body = .module none ⟨"m", 1⟩ [] (some
        [(.structure_ ⟨"Tag", 4⟩, []), (.function ⟨"Id", 7⟩, [])]) ∧
      found'.item.body = .module none ⟨"m", 1⟩ [] (some
        [(.structure_ ⟨"Tag", 4⟩, []), (.function ⟨"r#Id", 7⟩, [])]) ∧
        ∀ d, ofItem found' = .error d ↔ ofItem found = .error d := by
  obtain ⟨found, h⟩ := exists_module _ _
  obtain ⟨found', h'⟩ := exists_module _ _
  have hrespelt : Respelt (fun n => n.text == "Id")
      [(.structure_ ⟨"Tag", 4⟩, []), (.function ⟨"Id", 7⟩, [])]
      [(.structure_ ⟨"Tag", 4⟩, []), (.function ⟨"r#Id", 7⟩, [])] := rfl
  refine ⟨found, found', h, h', (respelling_agrees_iff h h' hrespelt).2.mpr ?_⟩
  rintro _ ⟨⟩
  decide

/-- A mark at the only reserved name hides it: `r#Id` is accepted where `Id` is not. -/
theorem mark_hides_the_only_offender :
    (∃ d span, Invocation.module "mod m\x7bstruct Id;\x7d" = .error (.rejected .item d span)) ∧
      ∃ m, Invocation.module "mod m\x7bstruct r#Id;\x7d" = .ok m ∧
        m.items.map Prod.fst = [(ItemBody.structure_ ⟨"Id", 4⟩).respell fun _ => true] :=
  ⟨⟨_, _, rfl⟩, _, rfl, rfl⟩

end EntityModule

end TypedId
