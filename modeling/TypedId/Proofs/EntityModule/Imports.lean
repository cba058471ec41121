import TypedId.Proofs.EntityModule.Reserved
import TypedId.Invocation

/-!
Which names an import binds.

`ImportTree.Binds` says what an import tree binds: the names of its leaves, the new names that it
gives, and for a leaf `self` within a group the last segment before the group. The search for
reserved names looks at a leaf alone and forgets the segments before it. So it finds exactly the
reserved names that are bound in one of the first two ways, and misses a module's own name that
`self` binds (`reserved?_misses_only_self`).
-/

namespace TypedId

open Lexeme Grammar

namespace Grammar.ImportTree

/-- What an import tree binds behind a segment, if there is one, and within a group or not. A name
is bound `bySelf` if no leaf is spelt like it and `self` stands for it. -/
inductive Binds : (before : Option Name) → (grouped : Bool) → ImportTree →
    (bySelf : Bool) → Name → Prop where
  | path {before : Option Name} {grouped bySelf : Bool} {segment n : Name} {tree : ImportTree}
      (h : Binds (some segment) false tree bySelf n) :
      Binds before grouped (.path segment tree) bySelf n
  | group {before : Option Name} {grouped bySelf : Bool} {trees : List ImportTree} {tree : ImportTree}
      {n : Name} (hmem : tree ∈ trees) (h : Binds before true tree bySelf n) :
      Binds before grouped (.group trees) bySelf n
  | leaf {before : Option Name} {grouped : Bool} {n : Name} (h : n.text ≠ "self") :
      Binds before grouped (.name n) false n
  | self {segment n : Name} (h : n.text = "self") :
      Binds (some segment) true (.name n) true segment
  | rename {before : Option Name} {grouped : Bool} {n bound : Name} :
      Binds before grouped (.rename n bound) false bound

/-- Whether an import brings a name into the scope of its module. -/
def Brings (tree : ImportTree) (n : Name) : Prop := ∃ bySelf, Binds none false tree bySelf n

variable {tree : ImportTree} {n : Name}

/-- Wherever a tree stands, its names are those that it binds otherwise than by `self`. -/
theorem binds_iff_mem_names (hn : n.text ≠ "self") (tree : ImportTree) :
    ∀ (before : Option Name) (grouped : Bool), Binds before grouped tree false n ↔ n ∈ tree.names := by
  induction tree using ImportTree.rec
    (motive_2 := fun trees => ∀ tree ∈ trees, ∀ (before : Option Name) (grouped : Bool),
      Binds before grouped tree false n ↔ n ∈ tree.names) with
  | path segment tree ih =>
      intro before grouped
      rw [names, ← ih (some segment) false]
      exact ⟨fun h => by cases h; assumption, .path⟩
  | name leaf =>
      intro before grouped
      rw [names, List.mem_singleton]
      constructor
      · intro h
        cases h
        rfl
      · rintro rfl
        exact .leaf hn
  | rename leaf bound =>
      intro before grouped
      rw [names, List.mem_singleton]
      constructor
      · intro h
        cases h
        rfl
      · rintro rfl
        exact .rename
  | glob =>
      intro before grouped
      constructor <;> intro h <;> cases h
  | group trees ih =>
      intro before grouped
      rw [names_group, List.mem_flatMap]
      constructor
      · intro h
        cases h with
        | group hmem h => exact ⟨_, hmem, (ih _ hmem before true).mp h⟩
      · rintro ⟨tree, hmem, h⟩
        exact .group hmem ((ih tree hmem before true).mpr h)
  | nil tree hmem => cases hmem
  | cons tree trees ih ihs tree' hmem before grouped =>
      obtain rfl | hmem := List.mem_cons.mp hmem
      · exact ih before grouped
      · exact ihs tree' hmem before grouped

theorem ne_self_of_reserved (h : n.text ∈ reservedNames) : n.text ≠ "self" := by
  intro heq
  rw [heq] at h
  exact absurd h (by decide)

/-- The search finds a name exactly if the tree binds a reserved name otherwise than by `self`. -/
theorem exists_reserved?_iff (tree : ImportTree) :
    (∃ n, tree.reserved? = some n) ↔ ∃ n, Binds none false tree false n ∧ n.text ∈ reservedNames := by
  rw [reserved?_eq_find?, ← Option.isSome_iff_exists, List.find?_isSome]
  constructor
  · rintro ⟨n, hmem, hn⟩
    have hn := Name.isReserved_iff.mp hn
    exact ⟨n, (binds_iff_mem_names (ne_self_of_reserved hn) tree none false).mpr hmem, hn⟩
  · rintro ⟨n, hbinds, hn⟩
    exact ⟨n, (binds_iff_mem_names (ne_self_of_reserved hn) tree none false).mp hbinds,
      Name.isReserved_iff.mpr hn⟩

/-- The search for reserved names in an import tree finds one exactly if the tree binds one otherwise
than by a leaf `self`. So it never finds what is not bound, and what it misses is bound by `self`
alone, as the last segment before a group: where `self` stands for no reserved name, a reserved name
is found exactly if the tree brings one in. -/
theorem reserved?_misses_only_self (tree : ImportTree) :
    ((∃ n, tree.reserved? = some n) ↔
        ∃ n, Binds none false tree false n ∧ n.text ∈ reservedNames) ∧
      (∀ n, tree.reserved? = some n → tree.Brings n ∧ n.text ∈ reservedNames) ∧
      ((∀ n, Binds none false tree true n → n.text ∉ reservedNames) →
        ((∃ n, tree.reserved? = some n) ↔ ∃ n, tree.Brings n ∧ n.text ∈ reservedNames)) := by
  refine ⟨exists_reserved?_iff tree, fun n h => ?_, fun hself => ?_⟩
  · rw [reserved?_eq_find?] at h
    have hn := Name.isReserved_iff.mp (List.find?_some h)
    have hmem := List.mem_of_find?_eq_some h
    exact ⟨⟨false, (binds_iff_mem_names (ne_self_of_reserved hn) tree none false).mpr hmem⟩, hn⟩
  · rw [exists_reserved?_iff]
    constructor
    · rintro ⟨n, h, hn⟩
      exact ⟨n, ⟨false, h⟩, hn⟩
    · rintro ⟨n, ⟨bySelf, h⟩, hn⟩
      cases bySelf with
      | false => exact ⟨n, h, hn⟩
      | true => exact (hself n h hn).elim

/-- An accepted module may bind `Id`: by `use a::b::Id::{self};`. -/
theorem self_binds_a_reserved_name :
    ∃ m tree, Invocation.module "mod m\x7buse a::b::Id::\x7bself\x7d;\x7d" = .ok m ∧
      m.items.map Prod.fst = [.import_ tree] ∧ tree.Brings ⟨"Id", 10⟩ ∧ tree.reserved? = none :=
  ⟨_, .path ⟨"a", 4⟩ (.path ⟨"b", 7⟩ (.path ⟨"Id", 10⟩ (.group [.name ⟨"self", 14⟩]))), rfl, rfl,
    ⟨true, .path (.path (.path (.group (List.mem_singleton_self _) (.self rfl))))⟩, rfl⟩

end Grammar.ImportTree

end TypedId
