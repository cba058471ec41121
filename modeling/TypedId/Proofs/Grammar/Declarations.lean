import TypedId.Proofs.Grammar.Associated

/-!
Items that declare one thing are read again: imports, functions, values and types.

An item is read again in the spelling that it is written with. Where that is its source spelling
nothing else is said of it.
-/

namespace TypedId.Grammar

open Lexeme Rule

variable {g : PhraseReader} {m : Rendition} {s p k : List Lexeme} {α β γ δ : Type}

/-! ### Import trees -/

theorem ImportTree.placelessAll_eq_map (trees : List ImportTree) :
    placeless.placelessAll trees = trees.map placeless := by
  induction trees with
  | nil => rfl
  | cons tree trees ih => rw [placeless.placelessAll, ih, List.map_cons]

theorem Look.import (h : Look s p) : ImportFront s p :=
  ⟨h.ends, h.colons⟩

theorem Look.importWord (h : Look s p) : seesImportWord p = seesImportWord s := by
  simp only [seesImportWord, h.identifier, List.any_cons, List.any_nil, h.word]

theorem Rereads.Listed.import (h : Rereads.Listed s k) : ImportFollow s k := by
  rcases h with ⟨_, _, _, _, rfl, rfl, -⟩ | ⟨_, _, _, rfl, rfl⟩ <;> exact ⟨⟨rfl, rfl⟩, ⟨rfl, rfl⟩⟩

theorem Semicolon.import (h : Semicolon s k) : ImportFollow s k := by
  obtain ⟨_, _, _, _, rfl, rfl, -⟩ := h
  exact ⟨⟨rfl, rfl⟩, ⟨rfl, rfl⟩⟩

/-- What is remembered of import trees, without the places of their names. -/
def treesPlaceless : Option (List ImportTree) → Option (List ImportTree) :=
  Option.map (List.map ImportTree.placeless)

/-- Some import trees together. -/
def groupTrees (trees : Option (List ImportTree)) : Option ImportTree :=
  trees.map fun trees => .group trees.reverse

theorem groupTrees_placeless {trees trees' : Option (List ImportTree)}
    (h : treesPlaceless trees' = treesPlaceless trees) :
    (groupTrees trees').map ImportTree.placeless = (groupTrees trees).map ImportTree.placeless := by
  have hgroup : ∀ trees : Option (List ImportTree), (groupTrees trees).map ImportTree.placeless =
      (treesPlaceless trees).map fun trees => .group trees.reverse := by
    rintro (_ | trees)
    · rfl
    · simp only [groupTrees, treesPlaceless, Option.map_some, ImportTree.placeless,
        ImportTree.placelessAll_eq_map, List.map_reverse]
  rw [hgroup, hgroup, h]

/-- Puts a tree before others; nothing is remembered of trees with one that begins with `::`. -/
def addTree (rooted : Bool) (tree : Option ImportTree) (soFar : Option (List ImportTree)) :
    Option (List ImportTree) :=
  if rooted then none else do return (← tree) :: (← soFar)

theorem addTree_placeless {rooted : Bool} {tree tree' : Option ImportTree}
    {soFar soFar' : Option (List ImportTree)}
    (htree : tree'.map ImportTree.placeless = tree.map ImportTree.placeless)
    (hsoFar : treesPlaceless soFar' = treesPlaceless soFar) :
    treesPlaceless (addTree rooted tree' soFar') = treesPlaceless (addTree rooted tree soFar) := by
  have hadd : ∀ (tree : Option ImportTree) (soFar : Option (List ImportTree)),
      treesPlaceless (addTree rooted tree soFar) =
        if rooted then none
        else (tree.map ImportTree.placeless).bind fun tree => (treesPlaceless soFar).map (tree :: ·) := by
    rintro (_ | tree) (_ | soFar) <;> cases rooted <;> rfl
  rw [hadd, hadd, htree, hsoFar]

/-- Reads one of the import trees in braces from behind `::`, and the comma behind it. -/
def Rule.groupedTree (rootAdmitted rooted : Bool) (soFar : Option (List ImportTree)) :
    Rule (Option (List ImportTree) ⊕ Option ImportTree) := do
  let tree ← call (.importTree (rootAdmitted && !rooted))
  let soFar := addTree rooted tree soFar
  if ends (← ahead) then return .inr (groupTrees soFar)
  else
    operator ","
    return .inl soFar

/-- Reads one of the import trees in braces, and the comma behind it. -/
def Rule.importStep (rootAdmitted : Bool) (soFar : Option (List ImportTree)) :
    Rule (Option (List ImportTree) ⊕ Option ImportTree) := do
  if ends (← ahead) then return .inr (groupTrees soFar)
  else
    let rooted ← if rootAdmitted then operator? "::" else pure false
    groupedTree rootAdmitted rooted soFar

theorem Rule.importGroup_eq (rootAdmitted : Bool) :
    importGroup rootAdmitted = within .brace (repeating (importStep rootAdmitted) (some [])) := rfl

namespace Rereads

/-- One of the import trees in braces is read again from behind `::`. -/
theorem groupedTree (hg : Rereadable g) (rootAdmitted rooted : Bool)
    {soFar soFar' : Option (List ImportTree)} (h : treesPlaceless soFar' = treesPlaceless soFar) :
    Rereads g m s (Rule.groupedTree rootAdmitted rooted soFar) (Rule.groupedTree rootAdmitted rooted soFar')
      (Sum.map treesPlaceless (Option.map ImportTree.placeless)) (ImportFront s)
      (stepFollow (fun _ s p => ends p = ends s) fun _ => Ended) := by
  refine (hg.importTree m s _).bind fun tree tree' s₁ htree => ?_
  have hadd : treesPlaceless (addTree rooted tree' soFar') = treesPlaceless (addTree rooted tree soFar) :=
    addTree_placeless htree h
  refine (?_ : Rereads g m s₁ _ _ _ (Listed s₁) _).front_mono fun p hp => Listed.import hp
  refine ahead (.sight (fun _ p hp => Listed.ends hp) (fun _ => ?_) fun _ => ?_)
  · exact pure _ _ (congrArg Sum.inr (groupTrees_placeless hadd)) fun k hk => .inr hk
  · exact operator_then "," (fun _ _ => True) (fun s₂ =>
      (pure _ _ (congrArg Sum.inl hadd) fun k hk => trivial))
      fun p hp => .inl hp

/-- One of the import trees in braces is read again. -/
theorem importStep (hg : Rereadable g) (rootAdmitted : Bool) {soFar soFar' : Option (List ImportTree)}
    (h : treesPlaceless soFar' = treesPlaceless soFar) :
    Rereads g m s (Rule.importStep rootAdmitted soFar) (Rule.importStep rootAdmitted soFar')
      (Sum.map treesPlaceless (Option.map ImportTree.placeless)) (fun p => ends p = ends s)
      (stepFollow (fun _ s p => ends p = ends s) fun _ => Ended) := by
  unfold Rule.importStep
  refine ahead (.sight (fun _ p hp => hp) (fun _ => ?_) fun _ => ?_)
  · exact pure _ _ (congrArg Sum.inr (groupTrees_placeless h)) fun k hk => Ended.ends hk
  refine (?_ : Rereads g m s _ _ _ (ImportFront s) _).front_mono fun p hp => hp.ends
  cases rootAdmitted with
  | false => exact groupedTree hg false false h
  | true =>
      refine operator? (fun p hp => hp.rooted) (fun _ => ?_) fun _ => groupedTree hg true false h
      refine operator_then "::" (fun _ _ => True) (fun s' =>
        (groupedTree hg true true h).front_mono fun _ _ => trivial)
        fun p hp => Look.import (look_colons hp)

/-- Import trees in braces are read again. -/
theorem importGroup (hg : Rereadable g) (rootAdmitted : Bool)
    {follow : Option ImportTree → List Lexeme → List Lexeme → Prop} :
    Rereads g m s (Rule.importGroup rootAdmitted) (Rule.importGroup rootAdmitted)
      (Option.map ImportTree.placeless) (Bracketed .brace s) follow := by
  rw [Rule.importGroup_eq]
  refine (within (fun s p => ends p = ends s) fun s' _ => ?_).front_mono fun p hp => hp.bracketed
  refine repeating treesPlaceless (fun _ s p => ends p = ends s) (fun _ s p => ends p = ends s)
    (fun x x' s hx => importStep hg rootAdmitted hx) (fun _ _ _ => id) (fun x s => ?_) rfl
  have hgrouped : ∀ rooted s,
      Solid g m s (Rule.groupedTree rootAdmitted rooted x) fun y => y.isLeft = true :=
    fun rooted s => .bind_right fun _ _ => .ahead <| .ite (fun _ => .pure (by simp)) fun _ =>
      .bind_left (operator_solid "," (by decide))
  refine .ahead (.ite (fun _ => .pure (by simp)) fun _ => .ite (fun _ => ?_) fun _ => ?_)
  · exact .bind_right fun rooted s' => hgrouped rooted s'
  · exact .bind_right fun rooted s' => hgrouped rooted s'

/-- The new name of an import is read again. -/
theorem newName :
    Rereads g m s Rule.newName Rule.newName Name.text (fun p => ∃ w, Worded w (fun _ _ => True) s p)
      fun _ _ _ => True := by
  refine ahead (.sight (fun _ p hp => ?_) (fun _ => ?_) fun _ => .complain _)
  · obtain ⟨_, hp⟩ := hp
    rw [hp.look.identifier, hp.look.word]
  · exact anyWord.front_mono fun p ⟨w, n, hp⟩ => ⟨w, hp⟩

/-- An import tree is read again that begins with a word. -/
theorem namedTree (hg : Rereadable g) :
    Rereads g m s
      (do
        let name ← Rule.anyWord
        let ls ← Rule.ahead
        if sees "::" ls then
          Rule.operator "::"
          return (← Rule.call (.importTree false)).map (.path name)
        else if seesWord "as" ls then
          Rule.keyword "as"
          return some (.rename name (← Rule.newName))
        else return some (.name name))
      (do
        let name ← Rule.anyWord
        let ls ← Rule.ahead
        if sees "::" ls then
          Rule.operator "::"
          return (← Rule.call (.importTree false)).map (.path name)
        else if seesWord "as" ls then
          Rule.keyword "as"
          return some (.rename name (← Rule.newName))
        else return some (.name name))
      (Option.map ImportTree.placeless) (Look s) fun _ => ImportFollow := by
  have hpath : ∀ w n (tree : Option ImportTree), (tree.map (.path ⟨w, n⟩)).map ImportTree.placeless =
      (tree.map ImportTree.placeless).map (.path ⟨w, 0⟩) := by
    rintro w n (_ | tree) <;> rfl
  refine anyWord_then (fun _ s p => sees "::" p = sees "::" s ∧ seesWord "as" p = seesWord "as" s)
    (fun w n n' s₁ => ?_) fun w p hp => hp.look
  refine ahead (.sight (fun _ p hp => hp.1) (fun _ => ?_) fun hcolons => ?_)
  · refine operator_then "::" (fun _ _ => True) (fun s₂ => ?_) fun p hp =>
      ⟨hp.startsWith.2.trans hp.startsWith.1.symm, (look_colons hp).word _⟩
    refine ((hg.importTree m s₂ false).bind fun tree tree' s₃ h => ?_).front_mono fun _ _ => trivial
    exact pure _ _ (by rw [hpath, hpath, h]) fun k hk => hk
  refine .sight (fun _ p hp => hp.2) (fun _ => ?_) fun has => ?_
  · refine keyword_then "as" (fun s p => ∃ w, Worded w (fun _ _ => True) s p) (fun s₂ => ?_) fun p hp =>
      ⟨(Worded.look hp).colons, (Worded.look hp).word _⟩
    refine newName.bind fun bound bound' s₃ h => pure _ _ ?_ fun k hk => trivial
    rw [Option.map_some, Option.map_some, ImportTree.placeless, ImportTree.placeless, h]
  · exact pure _ _ rfl fun k hk =>
      ⟨hk.separate.2.trans hk.separate.1.symm, hk.unnamed.2.trans hk.unnamed.1.symm⟩

/-- An import tree is read again. -/
theorem importTree (hg : Rereadable g) (rootAdmitted : Bool) :
    Rereads g m s (Rule.importTree rootAdmitted) (Rule.importTree rootAdmitted)
      (Option.map ImportTree.placeless) (ImportFront s) fun _ => ImportFollow := by
  -- What stands behind `*` may make an operator of it in one text only.
  have hstar : ∀ {rest : List Lexeme → List Lexeme → Prop} {s p : List Lexeme}, Spelt ['*'] rest s p →
      ImportFront s p ∧ seesImportWord p = seesImportWord s ∧ sees "*" p = sees "*" s ∧
        seesGroup .brace p = seesGroup .brace s := by
    rintro _ _ _ ⟨_, _, _, _, rfl, rfl, -, -⟩
    exact ⟨⟨rfl, rfl⟩, rfl, rfl, rfl⟩
  refine (?_ : Rereads g m s _ _ _ (fun p => ImportFront s p ∧ seesImportWord p = seesImportWord s ∧
    sees "*" p = sees "*" s ∧ seesGroup .brace p = seesGroup .brace s) _).front_mono fun p hp => hp.1
  have hlook : ∀ p, Look s p → ImportFront s p ∧ seesImportWord p = seesImportWord s ∧
      sees "*" p = sees "*" s ∧ seesGroup .brace p = seesGroup .brace s := fun p hp =>
    ⟨hp.import, hp.importWord, hp.operator "*" rfl, hp.group _⟩
  unfold Rule.importTree
  refine ahead (.sight (fun _ p hp => hp.2.1) (fun _ => (namedTree hg).front_mono hlook) fun _ => ?_)
  refine .sight (fun _ p hp => hp.2.2.1) (fun _ => ?_) fun _ => ?_
  · exact operator_then "*" (fun _ _ => True) (fun s' => (pure _ _ rfl fun _ _ => trivial))
      fun p hp => hstar hp
  refine .sight (fun _ p hp => hp.2.2.2) (fun _ => ?_) fun _ => .expected _
  exact (importGroup hg rootAdmitted).front_mono fun p hp => hlook p hp.look

end Rereads

/-! ### Beginnings of items -/

/-- How an item looks behind its visibility. It does not become an expression, nor, if that is
`told`, a statement that is the use of a macro. -/
structure ItemFront (told : Prop) (s p : List Lexeme) : Prop extends Look s p where
  parenthesis : seesGroup .parenthesis s = false
  signature : seesSignature false p = seesSignature false s
  union : seesWord "union" s = true → seesIdentifier (second p) = seesIdentifier (second s)
  auto : seesWord "auto" s = true → seesWord "trait" (second p) = seesWord "trait" (second s)
  bang : seesWord "default" s = true → sees "!" (second p) = sees "!" (second s)
  item : seesItem s = true → seesItem p = true
  statement : told → seesMacroStatement s = false → seesMacroStatement p = false

variable {told : Prop} {rest : List Lexeme → List Lexeme → Prop}

theorem not_seesMacroStatement {w : String} (hw : isIdentifier w = false)
    (hpath : w ∉ ["super", "self", "Self", "crate"]) (ls : List Lexeme) :
    seesMacroStatement (word w :: ls) = false := by
  rw [seesMacroStatement, afterPlainPath_of_keyword ls hw hpath]
  rfl

/-- A word that only an item begins with. -/
theorem Worded.itemFront {w : String} (h : Worded w rest s p)
    (hw : w ∈ ["use", "mod", "type", "struct", "enum", "trait", "impl", "macro"]) : ItemFront told s p := by
  have hlook := h.look
  obtain ⟨s', p', rfl, rfl, -⟩ := h
  have hall : ∀ w ∈ ["use", "mod", "type", "struct", "enum", "trait", "impl", "macro"],
      w ∉ ["const", "async", "safe", "unsafe", "extern", "fn"] ∧ isIdentifier w = false ∧
        w ∉ ["super", "self", "Self", "crate"] ∧ w ∉ ["union", "auto", "default"] := by decide
  obtain ⟨hsignature, hkeyword, hpath, hplain⟩ := hall w hw
  simp only [List.mem_cons, List.not_mem_nil, or_false, not_or] at hplain
  refine ⟨hlook, rfl, ?_, fun h => absurd (eq_of_beq h) hplain.1, fun h => absurd (eq_of_beq h) hplain.2.1,
    fun h => absurd (eq_of_beq h) hplain.2.2, fun _ => ?_, fun _ _ =>
      not_seesMacroStatement hkeyword hpath _⟩
  · rw [not_seesSignature hsignature, not_seesSignature hsignature]
  · have hitem : ∀ ls,
        ["pub", "extern", "use", "fn", "mod", "type", "struct", "enum", "trait", "impl", "macro"].any
        (fun v => seesWord v (word w :: ls)) = true := by
      intro ls
      simp only [List.mem_cons, List.not_mem_nil, or_false] at hw
      rcases hw with rfl | rfl | rfl | rfl | rfl | rfl | rfl | rfl <;> rfl
    simp only [seesItem, hitem, Bool.true_or]

theorem dropWord_word (w : String) (ls : List Lexeme) : dropWord w (word w :: ls) = ls := by
  simp [dropWord, seesWord]

theorem dropWord_of_not_sees {w : String} {ls : List Lexeme} (h : seesWord w ls = false) :
    dropWord w ls = ls := by
  simp [dropWord, h]

/-- The words that may stand where a calling convention does. -/
theorem exists_of_dropConvention {ls : List Lexeme} (h : seesWord "fn" (dropConvention ls) = true) :
    ∃ w ∈ ["extern", "fn"], ∃ rest, ls = word w :: rest := by
  cases hforeign : seesWord "extern" ls with
  | true => exact ⟨"extern", by decide, Rereads.exists_of_seesWord hforeign⟩
  | false =>
      rw [dropConvention, if_neg (by simp [hforeign])] at h
      exact ⟨"fn", by decide, Rereads.exists_of_seesWord h⟩

/-- The words that may stand behind `async`. -/
theorem exists_of_dropUnsafe {ls : List Lexeme}
    (h : seesWord "fn" (dropConvention (dropWord "unsafe" ls)) = true) :
    ∃ w ∈ ["unsafe", "extern", "fn"], ∃ rest, ls = word w :: rest := by
  cases hunsafe : seesWord "unsafe" ls with
  | true => exact ⟨"unsafe", by decide, Rereads.exists_of_seesWord hunsafe⟩
  | false =>
      rw [dropWord_of_not_sees hunsafe] at h
      obtain ⟨w, hw, hls⟩ := exists_of_dropConvention h
      exact ⟨w, List.mem_cons_of_mem _ hw, hls⟩

/-- Where a function comes next, an item does. -/
theorem seesItem_of_seesSignature {ls : List Lexeme} (h : seesSignature false ls = true) :
    seesItem ls = true := by
  have hsignature : seesWord "fn"
      (dropConvention (dropWord "unsafe" (dropWord "async" (dropWord "const" ls)))) =
      true := by simpa [seesSignature] using h
  cases hconst : seesWord "const" ls with
  | true =>
      obtain ⟨rest, rfl⟩ := Rereads.exists_of_seesWord hconst
      rw [dropWord_word] at hsignature
      cases hasync : seesWord "async" rest with
      | true =>
          obtain ⟨rest, rfl⟩ := Rereads.exists_of_seesWord hasync
          rw [dropWord_word] at hsignature
          obtain ⟨w, hw, rest, rfl⟩ := exists_of_dropUnsafe hsignature
          simp only [List.mem_cons, List.not_mem_nil, or_false] at hw
          rcases hw with rfl | rfl | rfl <;> rfl
      | false =>
          rw [dropWord_of_not_sees hasync] at hsignature
          obtain ⟨w, hw, rest, rfl⟩ := exists_of_dropUnsafe hsignature
          simp only [List.mem_cons, List.not_mem_nil, or_false] at hw
          rcases hw with rfl | rfl | rfl <;> rfl
  | false =>
      rw [dropWord_of_not_sees hconst] at hsignature
      cases hasync : seesWord "async" ls with
      | true =>
          obtain ⟨rest, rfl⟩ := Rereads.exists_of_seesWord hasync
          rw [dropWord_word] at hsignature
          obtain ⟨w, hw, rest, rfl⟩ := exists_of_dropUnsafe hsignature
          simp only [List.mem_cons, List.not_mem_nil, or_false] at hw
          rcases hw with rfl | rfl | rfl <;> rfl
      | false =>
          rw [dropWord_of_not_sees hasync] at hsignature
          cases hunsafe : seesWord "unsafe" ls with
          | true =>
              obtain ⟨rest, rfl⟩ := Rereads.exists_of_seesWord hunsafe
              rw [dropWord_word] at hsignature
              obtain ⟨w, hw, rest, rfl⟩ := exists_of_dropConvention hsignature
              simp only [List.mem_cons, List.not_mem_nil, or_false] at hw
              rcases hw with rfl | rfl <;> rfl
          | false =>
              rw [dropWord_of_not_sees hunsafe] at hsignature
              obtain ⟨w, hw, rest, rfl⟩ := exists_of_dropConvention hsignature
              simp only [List.mem_cons, List.not_mem_nil, or_false] at hw
              rcases hw with rfl | rfl <;> rfl

/-- A signature begins with a keyword. -/
theorem SignatureFront.keyword (h : SignatureFront s p) (hs : seesSignature false s = true) :
    ∃ w ∈ ["const", "async", "unsafe", "extern", "fn"], Worded w (fun _ _ => True) s p := by
  obtain ⟨ls, s', p', hls, rfl, rfl⟩ := h
  cases ls with
  | nil => exact ⟨"fn", by decide, s', p', rfl, rfl, trivial⟩
  | cons l ls =>
      rcases hls l List.mem_cons_self with ⟨w, hw, rfl⟩ | ⟨text, rfl⟩
      · refine ⟨w, ?_, _, _, rfl, rfl, trivial⟩
        simp only [List.mem_cons, List.not_mem_nil, or_false] at hw ⊢
        rcases hw with rfl | rfl | rfl | rfl | rfl
        · exact .inl rfl
        · exact .inr (.inl rfl)
        · cases hs
        · exact .inr (.inr (.inl rfl))
        · exact .inr (.inr (.inr (.inl rfl)))
      · cases hs

theorem SignatureFront.itemFront (h : SignatureFront s p) (hs : seesSignature false s = true) :
    ItemFront told s p := by
  have hmember := h.member false
  have hp := (h.sees false).trans hs
  obtain ⟨w, hw, _, _, rfl, rfl, -⟩ := h.keyword hs
  have hall : ∀ w ∈ ["const", "async", "unsafe", "extern", "fn"], isIdentifier w = false ∧
      w ∉ ["super", "self", "Self", "crate"] ∧ w ≠ "union" ∧ w ≠ "auto" := by decide
  obtain ⟨hkeyword, hpath, hunion, hauto⟩ := hall w hw
  exact ⟨h.look, hmember.parenthesis, h.sees false, fun h => absurd (eq_of_beq h) hunion,
    fun h => absurd (eq_of_beq h) hauto, hmember.bang, fun _ => seesItem_of_seesSignature hp,
    fun _ _ => not_seesMacroStatement hkeyword hpath _⟩

/-! ### Imports and functions -/

namespace Rereads

/-- Whether an item is not kept in its source spelling, where its written text is read again. -/
def UnlessKept (m : Rendition) (body : ItemBody) (_ _ : List Lexeme) : Prop :=
  m = .written → body ≠ .kept

/-- An import is read again. -/
theorem import? (hg : Rereadable g) :
    Rereads g m s Rule.import? Rule.import? ItemBody.placeless (Worded "use" (fun _ _ => True) s)
      fun _ _ _ => True := by
  unfold Rule.import?
  have htree : ∀ (finish : Option ImportTree → ItemBody), finish none = .kept →
      (∀ tree, finish (some tree) = .import_ tree) → ∀ rooted s, Rereads g m s
      (do
        let tree ← Rule.call (.importTree !rooted)
        Rule.operator ";"
        return finish tree)
      (do
        let tree ← Rule.call (.importTree !rooted)
        Rule.operator ";"
        return finish tree) ItemBody.placeless (ImportFront s) fun _ _ _ => True := by
    intro finish hkept himport rooted s
    refine (hg.importTree m s _).bind fun tree tree' s' h => ?_
    refine (semicolon_then ?_).front_mono fun p hp => hp.import
    cases tree with
    | none =>
        cases tree' with
        | none => rfl
        | some tree' => cases h
    | some tree =>
        cases tree' with
        | none => cases h
        | some tree' =>
            rw [himport, himport]
            exact congrArg ItemBody.import_ (Option.some.inj h)
  refine keyword_then "use" ImportFront (fun s₁ => ?_) fun p hp => hp.mono fun _ _ _ => trivial
  refine operator? (fun p hp => hp.rooted) (fun _ => ?_) fun _ => htree _ rfl (fun _ => rfl) false s₁
  exact operator_then "::" (fun _ _ => True) (fun s₂ =>
    (htree _ rfl (fun _ => rfl) true s₂).front_mono fun _ _ => trivial)
    fun p hp => (look_colons hp).import

/-- A function is read again. -/
theorem functionItem (hg : Rereadable g) :
    Rereads g m s Rule.functionItem Rule.functionItem ItemBody.placeless (SignatureFront s)
      fun _ _ _ => True := by
  unfold Rule.functionItem
  refine (signature hg false).bind fun found found' s₁ h => ?_
  have hname : found'.1.text = found.1.text := (Prod.mk.inj h).1
  refine operator? (fun p hp => hp.look.operator ";" rfl) (fun _ => ?_) fun _ => ?_
  · exact (semicolon_then rfl).front_mono fun p hp => .inr hp
  · exact bind_id (attributedBlock hg) (fun _ _ =>
      pure _ _ (by rw [ItemBody.placeless, ItemBody.placeless, hname])
      fun _ hk => hk) fun p hp => .inl hp

/-! ### Constants and statics -/

/-- A constant is read again. -/
theorem constantItem (hg : Rereadable g) :
    Rereads g m s Rule.constantItem Rule.constantItem ItemBody.placeless (ConstantFront s)
      (UnlessKept m) := by
  unfold Rule.constantItem
  refine (constant hg).bind fun found found' s' h => pure _ _ ?_ fun k hk hm => ?_
  · obtain ⟨hname, hshape⟩ := Prod.mk.inj h
    obtain ⟨hgeneral, hvalued⟩ := Prod.mk.inj hshape
    rw [hgeneral, hvalued]
    split
    · rw [ItemBody.placeless, ItemBody.placeless, hname]
    · rfl
  · have hk := hk hm
    cases hgeneral : found.general with
    | false => rfl
    | true => simp [hgeneral] at hk

end Rereads

/-- Reads a static from behind its name. -/
def Rule.restOfStatic (name : Name) : Rule ItemBody := do
  if ← operator? "=" then
    let _ ← call (.expression true)
    operator ";"
    return .kept
  else
    operator ":"
    let _ ← call (.type true)
    if ← operator? ";" then return .kept
    else
      operator "="
      let _ ← call (.expression true)
      operator ";"
      return .staticItem name

theorem Rule.staticItem_eq :
    staticItem = (do
      keyword "static"
      let _ ← keyword? "mut"
      restOfStatic (← identifier)) := rfl

/-- How a static looks at its beginning. -/
def StaticItemFront : List Lexeme → List Lexeme → Prop :=
  Worded "static" fun s p =>
    Worded "mut" (Identified fun _ _ => True) s p ∨ Identified (fun _ _ => True) s p

theorem ValueEnd.semicolon (h : ValueEnd s p) : sees ";" p = sees ";" s := by
  rcases h with ⟨_, _, _, _, rfl, rfl, -⟩ | ⟨_, _, _, _, rfl, rfl, -⟩ <;> rfl

namespace Rereads

/-- A value is read again, and the semicolon behind it. -/
theorem valueThen (hg : Rereadable g) {a a' : α} {keep : α → γ} (ha : keep a' = keep a)
    {follow : α → List Lexeme → List Lexeme → Prop} :
    Rereads g m s
      (do
        Rule.operator "="
        let _ ← Rule.call (.expression true)
        Rule.operator ";"
        return a)
      (do
        Rule.operator "="
        let _ ← Rule.call (.expression true)
        Rule.operator ";"
        return a') keep (Spelt ['='] ExprFront s) follow := by
  refine operator_then "=" ExprFront (fun s₁ => ?_) fun p hp => hp
  exact (hg.expression m s₁ true).bind fun shape _ s₂ _ =>
    (semicolon_then ha).front_mono fun p hp => hp.expression.shape shape

/-- A static is read again from behind its name. -/
theorem restOfStatic (hg : Rereadable g) {name name' : Name} (hname : name'.text = name.text) :
    Rereads g m s (Rule.restOfStatic name) (Rule.restOfStatic name') ItemBody.placeless (fun _ => True)
      fun _ _ _ => True := by
  refine (?_ : Rereads g m s _ _ _ (fun p => sees "=" p = sees "=" s) _).front_mono fun _ _ => trivial
  refine operator? (fun p hp => hp) (fun _ => ?_) fun hs => ?_
  · exact (valueThen hg rfl).front_mono fun p hp => hp.startsWith.2.trans hp.startsWith.1.symm
  refine operator_then ":" (TypeFront False) (fun s₁ => ?_) fun p hp => ?_
  · refine (hg.plainType m s₁ true).bind fun _ _ s₂ _ => ?_
    refine (?_ : Rereads g m s₂ _ _ _ (ValueEnd s₂) _).front_mono fun p hp => hp.type
    refine operator? (fun p hp => hp.semicolon) (fun _ => ?_) fun _ => ?_
    · exact (semicolon_then rfl).front_mono fun p hp => .inr hp
    · exact (valueThen hg (by rw [ItemBody.placeless, ItemBody.placeless, hname])).front_mono
        fun p hp => .inl hp
  · obtain ⟨_, _, _, _, -, rfl, -⟩ := hp
    rw [hs]
    rfl

/-- A static is read again. -/
theorem staticItem (hg : Rereadable g) :
    Rereads g m s Rule.staticItem Rule.staticItem ItemBody.placeless (StaticItemFront s)
      fun _ _ _ => True := by
  have hname : ∀ s, Rereads g m s (do Rule.restOfStatic (← Rule.identifier))
      (do Rule.restOfStatic (← Rule.identifier))
      ItemBody.placeless (Identified (fun _ _ => True) s) fun _ _ _ => True := fun s =>
    identifier_then (fun _ _ _ => True) (fun w n n' s' => restOfStatic hg rfl) fun w p hw hp => ⟨w, hw, hp⟩
  rw [Rule.staticItem_eq]
  refine keyword_then "static" _ (fun s₁ => ?_) fun p hp => hp
  refine keyword? (fun p hp => ?_) (fun _ => ?_) fun _ => (hname s₁).front_mono fun p hp => .inr hp
  · exact hp.elim (fun hp => (Worded.look hp).word _) fun hp => hp.look.word _
  · exact keyword_then "mut" (Identified fun _ _ => True) hname fun p hp => .inl hp

/-! ### Types -/

/-- A type alias is read again. -/
theorem typeItem (hg : Rereadable g) :
    Rereads g m s Rule.typeItem Rule.typeItem ItemBody.placeless (DefinitionFront s) (UnlessKept m) := by
  unfold Rule.typeItem
  refine (definition hg (by decide)).bind fun found found' s' h => pure _ _ ?_ fun k hk hm => ?_
  · obtain ⟨hname, hshape⟩ := Prod.mk.inj h
    obtain ⟨hbounded, hdefined⟩ := Prod.mk.inj hshape
    rw [show found'.bounded = found.bounded from hbounded, hdefined]
    split
    · rw [ItemBody.placeless, ItemBody.placeless, hname]
    · rfl
  · have hk := hk hm
    cases hbounded : found.bounded with
    | false => rfl
    | true => simp [hbounded] at hk

end Rereads

/-- Reads a structure from behind its conditions, which may be `conditional`. -/
def Rule.restOfStructure (name : Name) (conditional : Bool) : Rule ItemBody := do
  let ls ← ahead
  if !conditional && seesGroup .parenthesis ls then
    positionalFields
    let conditional ← whereClause
    if sees ";" (← ahead) then operator ";"
    else expected ((if conditional then [] else [.keyword "where"]) ++ [.operator ";"])
  else if seesGroup .brace ls then call .namedFields
  else if sees ";" ls then operator ";"
  else expected <|
    (if conditional then [] else [.keyword "where", .group .parenthesis]) ++
      [.group .brace, .operator ";"]
  return .structure_ name

theorem Rule.structureItem_eq :
    structureItem = (do
      keyword "struct"
      let name ← identifier
      let _ ← genericParameters
      restOfStructure name (← whereClause)) := rfl

/-- What stands where the content of a structure does. -/
def StructureEnd (s p : List Lexeme) : Prop :=
  Bracketed .parenthesis s p ∨ BodyEnd s p

theorem StructureEnd.look (h : StructureEnd s p) : Look s p :=
  h.elim Opened.look BodyEnd.look

theorem StructureEnd.not_where (h : StructureEnd s p) : seesWord "where" p = false := by
  rcases h with ⟨_, _, -, rfl, -⟩ | h
  · rfl
  · exact h.not_where.2

theorem WhereFront.less {ending behind : List Lexeme → List Lexeme → Prop}
    (h : WhereFront m ending behind s p)
    (hending : ∀ s p, ending s p → sees "<" p = false) (hbehind : ∀ s p, behind s p → sees "<" p = false) :
    sees "<" p = false := by
  rcases h with ⟨_, _, -, rfl, -⟩ | ⟨-, -, _, h⟩ | ⟨-, h⟩
  · rfl
  · exact hending _ _ h
  · exact hbehind _ _ h

theorem BodyEnd.less (h : BodyEnd s p) : sees "<" p = false := by
  rcases h with ⟨_, _, -, rfl, -⟩ | ⟨_, _, _, _, -, rfl, -⟩ <;> rfl

theorem StructureEnd.less (h : StructureEnd s p) : sees "<" p = false := by
  rcases h with ⟨_, _, -, rfl, -⟩ | h
  · rfl
  · exact h.less

theorem Bracketed.less {d : Delimiter} (h : Bracketed d s p) : sees "<" p = false := by
  obtain ⟨_, _, -, rfl, -⟩ := h
  rfl

namespace Rereads

/-- A structure is read again from behind its conditions. -/
theorem restOfStructure (hg : Rereadable g) {name name' : Name} (hname : name'.text = name.text)
    {conditional conditional' : Bool} (h : conditional = false → conditional' = false) :
    Rereads g m s (Rule.restOfStructure name conditional) (Rule.restOfStructure name' conditional')
      ItemBody.placeless (fun p => StructureEnd s p ∧ (conditional = true → BodyEnd s p))
        fun _ _ _ => True := by
  have hbody : ∀ s, Rereads g m s (Pure.pure (.structure_ name))
      (Pure.pure (.structure_ name')) ItemBody.placeless
      (fun _ => True) fun _ _ _ => True := fun s =>
    pure _ _ (by rw [ItemBody.placeless, ItemBody.placeless, hname]) fun _ _ => trivial
  have hparenthesis : ∀ p, StructureEnd s p ∧ (conditional = true → BodyEnd s p) →
      (!conditional' && seesGroup .parenthesis p) = (!conditional && seesGroup .parenthesis s) := by
    rintro p ⟨hp, hcond⟩
    rw [hp.look.group]
    cases conditional with
    | false => rw [h rfl]
    | true =>
        rcases hcond rfl with ⟨_, _, rfl, -, -⟩ | ⟨_, _, _, _, rfl, -, -, -⟩ <;> cases conditional' <;> rfl
  unfold Rule.restOfStructure
  refine ahead (.sight (fun _ p hp => hparenthesis p hp) (fun hs => ?_) fun _ => ?_)
  · obtain rfl : conditional = false := by simpa using ((Bool.and_eq_true _ _).mp hs).1
    refine (positionalFields hg : Rereads g m s _ _ _ _ fun _ => ConditionsFront m).bind_id (fun _ s₁ => ?_)
      fun p hp => ⟨.inl hp, nofun⟩
    refine (conditions hg fun _ => ()).bind fun _ _ s₂ _ => ?_
    refine (?_ : Rereads g m s₂ _ _ _ (Semicolon s₂) _).front_mono fun p hp => ⟨fun _ => rfl, hp⟩
    refine ahead (.sight (fun _ p hp => hp.startsWith.2.trans hp.startsWith.1.symm) (fun _ => ?_)
      fun _ => .expected_then _ _)
    exact operator_then ";" (fun _ _ => True) (fun _ => hbody _) fun p hp => hp
  refine .sight (fun _ p hp => hp.1.look.group _) (fun _ => ?_) fun _ => ?_
  · exact bind_id (hg.namedFields m s) (fun _ s' => hbody s') fun p hp => ⟨.inr (.inl hp), fun _ => .inl hp⟩
  refine .sight (fun _ p hp => hp.1.look.operator ";" rfl) (fun _ => ?_) fun _ => .expected_then _ _
  exact operator_then ";" (fun _ _ => True) (fun _ => hbody _) fun p hp => ⟨.inr (.inr hp), fun _ => .inr hp⟩

/-- A structure is read again. -/
theorem structureItem (hg : Rereadable g) :
    Rereads g m s Rule.structureItem Rule.structureItem ItemBody.placeless
      (Worded "struct" (fun _ _ => True) s)
      fun _ _ _ => True := by
  rw [Rule.structureItem_eq]
  refine keyword_then "struct" (fun _ _ => True) (fun s₁ => ?_) fun p hp => hp
  refine identifier_then (fun _ _ _ => True) (fun w n n' s₂ => ?_) fun _ _ _ _ => trivial
  refine (genericParameters hg fun _ => ()).bind fun _ _ s₃ _ => ?_
  refine (?_ : Rereads g m s₃ _ _ _ (WhereFront m BodyEnd StructureEnd s₃) _).front_mono fun p hp =>
    ⟨fun _ => rfl, hp.less (fun _ _ => BodyEnd.less) fun _ _ => StructureEnd.less⟩
  have hname : (⟨w, n'⟩ : Name).text = (⟨w, n⟩ : Name).text := rfl
  refine whereThen hg BodyEnd StructureEnd (fun _ _ => BodyEnd.clause) (fun _ _ => StructureEnd.not_where)
    (fun _ => ?_) fun found' s₄ => ?_
  · exact (restOfStructure hg hname fun h => h).front_mono fun p hp => hp.1
  · have hconditional : true = false → found' = false := nofun
    exact (restOfStructure hg hname hconditional).front_mono fun p hp => hp.2 rfl

/-- Conditions are read again that may be left out, and then braces. -/
theorem bracedThen (hg : Rereadable g) {next next' : Rule α} {keep : α → γ}
    {follow : α → List Lexeme → List Lexeme → Prop}
    (h : ∀ s, Rereads g m s next next' keep (Bracketed .brace s) follow) :
    Rereads g m s (do let _ ← Rule.whereClause; next) (do let _ ← Rule.whereClause; next') keep
      (WhereFront m (Bracketed .brace) (Bracketed .brace) s) follow := by
  refine whereThen hg (Bracketed .brace) (Bracketed .brace) (fun _ _ => .brace)
    (fun s p hp => ?_) (fun _ => h s)
    fun _ s' => h s'
  obtain ⟨_, _, -, rfl, -⟩ := hp
  rfl

/-- Parameters and conditions are read again that may be left out, and then braces. -/
theorem generalThen (hg : Rereadable g) {next next' : Rule α} {keep : α → γ}
    {follow : α → List Lexeme → List Lexeme → Prop}
    (h : ∀ s, Rereads g m s next next' keep (Bracketed .brace s) follow) :
    Rereads g m s
      (do
        let _ ← Rule.genericParameters
        let _ ← Rule.whereClause
        next)
      (do
        let _ ← Rule.genericParameters
        let _ ← Rule.whereClause
        next') keep (fun _ => True) follow := by
  refine (genericParameters hg fun _ => ()).bind fun _ _ s' _ => (bracedThen hg h).front_mono fun p hp => ?_
  exact ⟨fun _ => rfl, hp.less (fun _ _ => Bracketed.less) fun _ _ => Bracketed.less⟩

/-- An enumeration is read again. -/
theorem enumerationItem (hg : Rereadable g) :
    Rereads g m s Rule.enumerationItem Rule.enumerationItem ItemBody.placeless
      (Worded "enum" (fun _ _ => True) s)
      fun _ _ _ => True := by
  unfold Rule.enumerationItem
  refine keyword_then "enum" (fun _ _ => True) (fun s₁ => ?_) fun p hp => hp
  refine identifier_then (fun _ _ _ => True) (fun w n n' s₂ => generalThen hg fun s₃ => ?_)
    fun _ _ _ _ => trivial
  exact bind_id (groupedList id fun _ _ => variant hg) (fun _ _ => pure _ _ rfl fun _ hk => hk)
    fun p hp => hp

/-- A union is read again. -/
theorem unionItem (hg : Rereadable g) :
    Rereads g m s Rule.unionItem Rule.unionItem ItemBody.placeless
      (Worded "union" (Identified fun _ _ => True) s)
      fun _ _ _ => True := by
  unfold Rule.unionItem
  refine keyword_then "union" (Identified fun _ _ => True) (fun s₁ => ?_) fun p hp => hp
  refine identifier_then (fun _ _ _ => True) (fun w n n' s₂ => generalThen hg fun s₃ => ?_)
    fun w _ hw hp => ⟨w, hw, hp⟩
  exact bind_id (hg.namedFields m s₃) (fun _ _ => pure _ _ rfl fun _ hk => hk) fun p hp => hp

end Rereads

end TypedId.Grammar
