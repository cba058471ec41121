import TypedId.Proofs.EntityModule.Reserved
import TypedId.Invocation

/-!
Which forms of items are looked at.

A foreign module declares what its members are called, and an item that is kept in its source
spelling may declare a function, a value, a type, a macro or imported names. Of all that only the
lexemes are remembered, so no name in it is looked at. Whatever such items are said to declare, a
module is accepted exactly if no item of another form declares a reserved name
(`only_remembered_names_are_checked`).
-/

namespace TypedId

open Lexeme Grammar

namespace Grammar

/-- Whether the names that an item declares, if it declares any, stand in its text alone. -/
def ItemBody.hidesNames : ItemBody → Bool
  | foreignModule | kept => true
  | _ => false

/-- Whether something tells which names items declare, given their texts: what is remembered of an
item that hides none, and anything of the others. -/
def TellsNames (declares : ItemBody → List Lexeme → List String) : Prop :=
  ∀ body text, body.hidesNames = false → declares body text = body.names.map Name.text

/-- The words right behind a keyword that declares a function, a value, a type or a macro. -/
def wordsDeclared : List Lexeme → List String
  | word keyword :: word name :: rest =>
    if ["fn", "const", "static", "mut", "type", "macro"].contains keyword then
      name :: wordsDeclared (word name :: rest)
    else wordsDeclared (word name :: rest)
  | _ :: rest => wordsDeclared rest
  | [] => []

/-- The names that an item declares, those in its text included. -/
def declaredNames (body : ItemBody) (text : List Lexeme) : List String :=
  if body.hidesNames then wordsDeclared text else body.names.map Name.text

theorem tellsNames_declaredNames : TellsNames declaredNames := by
  intro body text h
  rw [declaredNames, h]
  rfl

theorem ItemBody.names_of_hidesNames {body : ItemBody} (h : body.hidesNames = true) :
    body.names = [] := by
  cases body with
  | foreignModule | kept => rfl
  | _ => cases h

end Grammar

namespace EntityModule

variable {declares : ItemBody → List Lexeme → List String} {found : OuterItem} {name : Name}
  {innerAttributes : List Attribute} {items : List (ItemBody × List Lexeme)}

/-- Whatever foreign modules and kept items are said to declare, a module is accepted exactly if no
other item declares a reserved name. So a reserved name that an accepted module declares is declared
by a foreign module or a kept item; and putting such items in, or taking them out, makes no
difference. -/
theorem only_remembered_names_are_checked (hdeclares : TellsNames declares)
    (h : found.item.body = .module none name innerAttributes (some items)) :
    ((∃ m, ofItem found = .ok m) ↔
        ∀ x ∈ items, ∀ n ∈ declares x.1 x.2, n ∈ reservedNames → x.1.hidesNames = true) ∧
      ∀ found' name' innerAttributes' items',
        found'.item.body = .module none name' innerAttributes' (some items') →
          (items'.filter fun x => !x.1.hidesNames) = (items.filter fun x => !x.1.hidesNames) →
            ((∃ m, ofItem found' = .ok m) ↔ ∃ m, ofItem found = .ok m) := by
  have hshown : ∀ items : List (ItemBody × List Lexeme),
      (∀ n ∈ declared items, n.text ∉ reservedNames) ↔
        ∀ x ∈ items.filter fun x => !x.1.hidesNames, ∀ n ∈ x.1.names, n.text ∉ reservedNames := by
    intro items
    constructor
    · intro hnone x hx n hn
      exact hnone n (List.mem_flatMap.mpr ⟨x, List.mem_of_mem_filter hx, hn⟩)
    · intro hnone n hn
      obtain ⟨x, hx, hn⟩ := List.mem_flatMap.mp hn
      refine hnone x (List.mem_filter.mpr ⟨hx, ?_⟩) n hn
      cases hhides : x.1.hidesNames with
      | false => rfl
      | true =>
          rw [ItemBody.names_of_hidesNames hhides] at hn
          cases hn
  refine ⟨?_, fun found' name' innerAttributes' items' h' hsame => ?_⟩
  · rw [accepted_iff h, hshown]
    constructor
    · intro hnone x hx n hn hreserved
      by_contra hhides
      rw [Bool.not_eq_true] at hhides
      rw [hdeclares x.1 x.2 hhides] at hn
      obtain ⟨own, hown, rfl⟩ := List.mem_map.mp hn
      exact hnone x (List.mem_filter.mpr ⟨hx, by rw [hhides]; rfl⟩) own hown hreserved
    · intro hall x hx n hn hreserved
      obtain ⟨hx, hhides⟩ := List.mem_filter.mp hx
      rw [Bool.not_eq_true'] at hhides
      have hdeclared : n.text ∈ declares x.1 x.2 := by
        rw [hdeclares x.1 x.2 hhides]
        exact List.mem_map_of_mem hn
      rw [hall x hx n.text hdeclared hreserved] at hhides
      cases hhides
  · rw [accepted_iff h', accepted_iff h, hshown items', hshown items, hsame]

/-- A foreign function `Id` does not keep a module from being accepted. -/
theorem foreign_function_is_not_checked :
    ∃ found : OuterItem,
      found.item.body = .module none ⟨"m", 1⟩ [] (some
        [(.structure_ ⟨"A", 4⟩, [word "struct", word "A", punct ';' false]),
          (.foreignModule, [word "extern", opening .brace, word "fn", word "Id",
            opening .parenthesis, closing .parenthesis, punct ';' false, closing .brace])]) ∧
        ∃ m, ofItem found = .ok m := by
  obtain ⟨found, h⟩ := exists_module _ _
  refine ⟨found, h, (only_remembered_names_are_checked tellsNames_declaredNames h).1.mpr ?_⟩
  decide

/-- Each reserved name may be declared by an accepted module: by a foreign function, by a constant
without a value and by a macro. -/
theorem hidden_names_are_not_checked :
    ∃ m, Invocation.module "mod m\x7bextern\x7bfn Id();\x7dconst Tag:u8;macro Unsafe\x7b\x7d\x7d" = .ok m ∧
      m.items.map (fun x => (x.1.hidesNames, declaredNames x.1 x.2)) =
        [(true, ["Id"]), (true, ["Tag"]), (true, ["Unsafe"])] :=
  ⟨_, rfl, rfl⟩

end EntityModule

end TypedId
