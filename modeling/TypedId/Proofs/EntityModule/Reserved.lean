import Mathlib.Data.List.Perm.Basic
import TypedId.EntityModule

/-!
Which reserved name is found.

The search for reserved names goes through the items of a module, and within an import through the
branches of its tree, and stops at the first one. What it finds is the first reserved name among all
that the items declare (`firstReserved_eq_find?`). So a module is refused for that name, and whether
it is accepted depends neither on the order of its items nor on that of the branches of an import,
and on nothing that stands within the body of an item (`ofItem_reports_the_first_offender`).
-/

namespace TypedId

open Lexeme Grammar

namespace Grammar

/-! ### The search goes through all names -/

theorem Name.isReserved_iff {n : Name} : n.isReserved = true ↔ n.text ∈ reservedNames := by
  rw [isReserved, List.contains_iff_mem]

theorem Name.reserved?_eq_find? (n : Name) : n.reserved? = [n].find? isReserved := by
  rw [reserved?, List.find?_cons]
  cases n.isReserved <;> rfl

theorem ImportTree.names_group (trees : List ImportTree) :
    (group trees).names = trees.flatMap names := by
  rw [names]
  induction trees with
  | nil => rfl
  | cons tree trees ih => rw [names.namesOfAll, ih, List.flatMap_cons]

/-- The search in an import tree finds the first reserved name that the tree brings in. -/
theorem ImportTree.reserved?_eq_find? (tree : ImportTree) :
    tree.reserved? = tree.names.find? Name.isReserved := by
  induction tree using ImportTree.rec
    (motive_2 := fun trees => reserved?.reservedOfAll? trees =
      (names.namesOfAll trees).find? Name.isReserved) with
  | path segment tree ih => exact ih
  | name n => exact n.reserved?_eq_find?
  | rename n bound => exact bound.reserved?_eq_find?
  | glob => rfl
  | group trees ih => exact ih
  | nil => rfl
  | cons tree trees ih ihs =>
      rw [reserved?.reservedOfAll?, ih, ihs, names.namesOfAll, List.find?_append, Option.or_eq_orElse]
      rfl

/-- The search in an item finds the first reserved name that the item declares. -/
theorem ItemBody.reserved?_eq_find? (body : ItemBody) :
    body.reserved? = body.names.find? Name.isReserved := by
  cases body with
  | import_ tree => exact tree.reserved?_eq_find?
  | externCrate n rename => exact (rename.getD n).reserved?_eq_find?
  | invocation path n =>
      cases n with
      | none => rfl
      | some n => exact n.reserved?_eq_find?
  | module _ n => exact n.reserved?_eq_find?
  | foreignModule | implementation | kept => rfl
  | _ n => exact n.reserved?_eq_find?

end Grammar

/-- The search in several items finds the first reserved name among all that they declare. -/
theorem firstReserved_eq_find? (items : List ItemBody) :
    firstReserved items = (items.flatMap ItemBody.names).find? Name.isReserved := by
  rw [firstReserved, List.find?_flatMap]
  exact congrArg (List.findSome? · items) (funext ItemBody.reserved?_eq_find?)

namespace EntityModule

/-- The names that the items of a module declare, in the order of the text. -/
def declared (items : List (ItemBody × List Lexeme)) : List Name :=
  items.flatMap fun x => x.1.names

theorem firstReserved_map_fst (items : List (ItemBody × List Lexeme)) :
    firstReserved (items.map Prod.fst) = (declared items).find? Name.isReserved := by
  rw [firstReserved_eq_find?, List.flatMap_map, declared]

end EntityModule

/-! ### What does not matter -/

namespace Grammar

/-- Import trees that differ in the order of branches only, at any depth. -/
inductive ImportTree.Rearranged : ImportTree → ImportTree → Prop where
  | same (tree : ImportTree) : Rearranged tree tree
  | path (segment : Name) {tree tree' : ImportTree} (h : Rearranged tree tree') :
      Rearranged (.path segment tree) (.path segment tree')
  | branches {trees trees' : List ImportTree} (h : trees.Perm trees') :
      Rearranged (.group trees) (.group trees')
  | branch (before after : List ImportTree) {tree tree' : ImportTree} (h : Rearranged tree tree') :
      Rearranged (.group (before ++ tree :: after)) (.group (before ++ tree' :: after))
  | trans {tree tree' tree'' : ImportTree} (h : Rearranged tree tree')
      (h' : Rearranged tree' tree'') : Rearranged tree tree''

/-- Items that differ in the order of import branches and within their bodies only. What stands in
the body of a function or a trait is no part of what is known of it. -/
inductive ItemBody.Alike : ItemBody → ItemBody → Prop where
  | same (body : ItemBody) : Alike body body
  | module (name : Name) (unsafeAt unsafeAt' : Option Nat) (attributes attributes' : List Attribute)
      (members members' : Option (List (ItemBody × List Lexeme))) :
      Alike (.module unsafeAt name attributes members) (.module unsafeAt' name attributes' members')
  | implementation (ofTrait ofTrait' : Option (List Lexeme)) (type type' : List Lexeme) :
      Alike (.implementation ofTrait type) (.implementation ofTrait' type')
  | import_ {tree tree' : ImportTree} (h : tree.Rearranged tree') :
      Alike (.import_ tree) (.import_ tree')

theorem ImportTree.Rearranged.names_perm {tree tree' : ImportTree} (h : tree.Rearranged tree') :
    tree.names.Perm tree'.names := by
  induction h with
  | same tree => exact .refl _
  | path segment _ ih => exact ih
  | branches h =>
      rw [names_group, names_group]
      exact h.flatMap_right _
  | branch before after _ ih =>
      rw [names_group, names_group, List.flatMap_append, List.flatMap_append, List.flatMap_cons,
        List.flatMap_cons]
      exact (ih.append_right _).append_left _
  | trans _ _ ih ih' => exact ih.trans ih'

theorem ItemBody.Alike.names_perm {body body' : ItemBody} (h : body.Alike body') :
    body.names.Perm body'.names := by
  cases h with
  | import_ h => exact h.names_perm
  | _ => exact .refl _

end Grammar

namespace EntityModule

/-- Contents of modules that have items alike, in any order and with any texts. -/
def Rearranged (items items' : List (ItemBody × List Lexeme)) : Prop :=
  ∃ items'', items.Perm items'' ∧ List.Forall₂ (fun x x' => x.1.Alike x'.1) items'' items'

theorem Rearranged.declared_perm {items items' : List (ItemBody × List Lexeme)}
    (h : Rearranged items items') : (declared items).Perm (declared items') := by
  obtain ⟨items'', hperm, halike⟩ := h
  refine (hperm.flatMap_right _).trans ?_
  clear hperm
  induction halike with
  | nil => exact .refl _
  | cons h _ ih => exact h.names_perm.append ih

/-! ### Which modules are refused, and for which name -/

variable {found : OuterItem} {name : Name} {innerAttributes : List Attribute}
  {items : List (ItemBody × List Lexeme)}

/-- An inline module is refused for the reserved name that the search finds. -/
theorem ofItem_eq (h : found.item.body = .module none name innerAttributes (some items)) :
    ofItem found =
      match (declared items).find? Name.isReserved with
      | some n => .error ⟨.reserved n.text name.text, .single n.position⟩
      | none =>
        .ok ⟨found.attributes, innerAttributes, found.visibility, name.text, items⟩ := by
  cases hfind : (declared items).find? Name.isReserved with
  | none => simp only [ofItem, h, firstReserved_map_fst, hfind]
  | some n => simp only [ofItem, h, firstReserved_map_fst, hfind]

/-- An inline module is refused exactly if some name that its items declare is reserved. -/
theorem refused_iff (h : found.item.body = .module none name innerAttributes (some items)) :
    (∃ d, ofItem found = .error d) ↔ ∃ n ∈ declared items, n.text ∈ reservedNames := by
  have hfind : ((declared items).find? Name.isReserved).isSome ↔
      ∃ n ∈ declared items, n.text ∈ reservedNames := by
    simp only [List.find?_isSome, Name.isReserved_iff]
  rw [ofItem_eq h, ← hfind]
  cases (declared items).find? Name.isReserved with
  | none => simp
  | some n => simp

/-- An inline module is accepted exactly if no name that its items declare is reserved. -/
theorem accepted_iff (h : found.item.body = .module none name innerAttributes (some items)) :
    (∃ m, ofItem found = .ok m) ↔ ∀ n ∈ declared items, n.text ∉ reservedNames := by
  have hnot : (∃ m, ofItem found = .ok m) ↔ ¬ ∃ d, ofItem found = .error d := by
    cases ofItem found <;> simp
  rw [hnot, refused_iff h]
  simp only [not_exists, not_and]

/-- An inline module is refused exactly if one of the names that its items declare is reserved, and
then for the first such name, at its place. Other items in other orders, with other bodies and with
the branches of their imports rearranged, make no difference to whether it is. -/
theorem ofItem_reports_the_first_offender
    (h : found.item.body = .module none name innerAttributes (some items)) :
    ((∃ d, ofItem found = .error d) ↔ ∃ n ∈ declared items, n.text ∈ reservedNames) ∧
      (∀ before n after, declared items = before ++ n :: after →
        (∀ n' ∈ before, n'.text ∉ reservedNames) → n.text ∈ reservedNames →
          ofItem found = .error ⟨.reserved n.text name.text, .single n.position⟩) ∧
      ∀ found' name' innerAttributes' items',
        found'.item.body = .module none name' innerAttributes' (some items') →
          Rearranged items items' → ((∃ m, ofItem found = .ok m) ↔ ∃ m, ofItem found' = .ok m) := by
  refine ⟨refused_iff h, ?_, ?_⟩
  · intro before n after hsplit hbefore hn
    have hfind : (declared items).find? Name.isReserved = some n := by
      rw [hsplit, List.find?_append, List.find?_cons, Name.isReserved_iff.mpr hn]
      have hnone : before.find? Name.isReserved = none := by
        simpa [Name.isReserved_iff] using hbefore
      rw [hnone]
      rfl
    rw [ofItem_eq h, hfind]
  · intro found' name' innerAttributes' items' h' hrearranged
    rw [accepted_iff h, accepted_iff h']
    exact ⟨fun hnone n hn => hnone n (hrearranged.declared_perm.mem_iff.mpr hn),
      fun hnone n hn => hnone n (hrearranged.declared_perm.mem_iff.mp hn)⟩

/-- What is made of an item that is accepted: its content, none of whose declared names is
reserved. -/
theorem ofItem_eq_ok {m : EntityModule} (h : ofItem found = .ok m) :
    ∃ name innerAttributes items,
      found.item.body = .module none name innerAttributes (some items) ∧
        (∀ n ∈ declared items, n.text ∉ reservedNames) ∧
        m = ⟨found.attributes, innerAttributes, found.visibility, name.text, items⟩ := by
  cases hbody : found.item.body with
  | module unsafeAt name innerAttributes members =>
      cases unsafeAt with
      | some position => simp [ofItem, hbody] at h
      | none =>
          cases members with
          | none => simp [ofItem, hbody] at h
          | some items =>
              have hnone := (accepted_iff hbody).mp ⟨m, h⟩
              rw [ofItem_eq hbody] at h
              split at h
              · cases h
              · cases h
                exact ⟨name, innerAttributes, items, rfl, hnone, rfl⟩
  | _ => simp [ofItem, hbody] at h

/-- What is read of lexemes that are accepted: one item with nothing behind it and nothing left over
within it. -/
theorem read_eq_ok {ls : List Lexeme} {m : EntityModule} (h : read ls = .ok m) :
    ∃ found r, (Rule.call .item).read ls = .ok (found, r) ∧ r.rest = [] ∧ r.strayFault? = none ∧
      ofItem found = .ok m := by
  cases hread : (Rule.call .item).read ls with
  | error fault => simp [read, hread] at h
  | ok x =>
      obtain ⟨found, r⟩ := x
      cases hrest : r.rest with
      | cons l rest => simp [read, hread, hrest] at h
      | nil =>
          cases hof : ofItem found with
          | error d => simp [read, hread, hrest, hof, bind, Except.bind] at h
          | ok m' =>
              cases hstray : r.strayFault? with
              | some fault => simp [read, hread, hrest, hof, hstray, bind, Except.bind] at h
              | none =>
                  simp only [read, hread, hrest, hof, hstray, bind, Except.bind, Except.ok.injEq] at h
                  exact ⟨found, r, rfl, hrest, hstray, h ▸ hof⟩

/-- No name that an accepted module declares is spelt like a reserved one. -/
theorem not_reserved_of_read {m : EntityModule} {ls : List Lexeme} (h : read ls = .ok m) :
    ∀ n ∈ declared m.items, n.text ∉ reservedNames := by
  obtain ⟨found, r, -, -, -, hof⟩ := read_eq_ok h
  obtain ⟨name, innerAttributes, items, -, hnone, rfl⟩ := ofItem_eq_ok hof
  exact hnone

/-- Any items are those of some inline module. -/
theorem exists_module (name : Name) (items : List (ItemBody × List Lexeme)) :
    ∃ found : OuterItem, found.item.body = .module none name [] (some items) :=
  ⟨⟨[], [], ⟨_, []⟩, .single 0⟩, rfl⟩

/-- In a group behind a glob, a new name is reported before a name that is kept, and `r` as another
name for `Id` is none. -/
theorem new_name_is_reported_first :
    ∃ found : OuterItem,
      found.item.body = .module none ⟨"m", 1⟩ [] (some
        [(.function ⟨"f", 4⟩, []),
          (.import_ (.path ⟨"a", 10⟩ (.group [.glob, .rename ⟨"Id", 16⟩ ⟨"r", 18⟩,
            .group [.rename ⟨"b", 21⟩ ⟨"Tag", 23⟩, .name ⟨"Id", 25⟩]])), [])]) ∧
        ofItem found = .error ⟨.reserved "Tag" "m", .single 23⟩ := by
  obtain ⟨found, h⟩ := exists_module _ _
  exact ⟨found, h, (ofItem_reports_the_first_offender h).2.1 [⟨"f", 4⟩, ⟨"r", 18⟩] ⟨"Tag", 23⟩
    [⟨"Id", 25⟩] rfl (by decide) (by decide)⟩

end EntityModule

end TypedId
