import TypedId.Invocation
import TypedId.Proofs.EntityModule.Reserved
import TypedId.Token.Keyword

/-!
Which names of a module the generated items get to see.

Generated code stands in the module of an entity, so a path in it that does not begin with `::` begins
with a name that is looked up there. `lookedUp scope` lists the names that code looks up and that
neither it nor `scope` binds. What is bound around a piece of code only takes names off that list
(`lookedUp_append`), so that the module's own declarations change the meaning of generated code
exactly where they take a name off: `Captures`.

Beside what they declare themselves, the generated items look up some names that they expect to find
around every module: those of primitive types, of attributes and of what is derived. None of these is
reserved, and they are the names that a module can capture (`captures_are_ambient`).
-/

namespace TypedId

open Lexeme Grammar

/-! ### What code does to names -/

/-- What code does to the names around it, from one place to the next. The name spaces of types,
values and macros are not told apart. -/
inductive Naming where
  /-- A group begins, -/
  | enters
  /-- and ends. -/
  | leaves
  /-- An implementation or a function begins: the parameters of the last one are behind. -/
  | restarts
  /-- A parameter of an implementation or a function. -/
  | binds (name : String)
  /-- A name that is imported into the whole group. -/
  | brings (name : String)
  /-- A name that is looked up. -/
  | takes (name : String)
deriving DecidableEq, Repr

/-- Where a word stands, as far as that decides what it does. -/
inductive Setting where
  | plain
  /-- Where a parameter may begin that stands for a type, -/
  | parameters
  /-- and behind its name. -/
  | parameter
  /-- Behind `where`: a word before a colon is bounded there, and not bound. -/
  | bounds
  | importing
  /-- Behind the name of an attribute whose arguments are no names. -/
  | attribute
deriving DecidableEq, Repr

/-- A word that stands on its own is looked up unless it is a keyword. -/
def lookup (w : String) : List Naming :=
  if isIdentifier w then [.takes w] else []

/-- What code does to names, for code that has no variables but parameters. A word behind `::`, a
point or a quote is found in what stands before it, and a word behind a keyword that declares
something is its name. -/
def namings : Setting → List Lexeme → List Naming
  | _, [] => []
  | .importing, punct ':' true :: punct ':' false :: word w :: punct ';' false :: rest =>
    .brings w :: namings .plain rest
  | s, punct ':' true :: punct ':' false :: word _ :: rest
  | s, punct '.' _ :: word _ :: rest
  | s, punct '\'' true :: word _ :: rest => namings s rest
  | _, punct '#' _ :: opening .bracket :: word w :: rest =>
    .takes w :: namings (if w = "derive" then .plain else .attribute) rest
  | .attribute, closing .bracket :: rest => namings .plain rest
  | .attribute, _ :: rest => namings .attribute rest
  | _, opening .brace :: rest => .enters :: namings .plain rest
  | _, closing .brace :: rest => .leaves :: namings .plain rest
  | _, word "impl" :: punct '<' _ :: rest => .restarts :: namings .parameters rest
  | _, word "impl" :: rest => .restarts :: namings .plain rest
  | _, word "fn" :: word _ :: punct '<' _ :: rest => .restarts :: namings .parameters rest
  | _, word "fn" :: word _ :: rest => .restarts :: namings .plain rest
  | s, word "const" :: word "fn" :: rest => namings s (word "fn" :: rest)
  | s, word "const" :: word _ :: rest
  | s, word "enum" :: word _ :: rest
  | s, word "struct" :: word _ :: rest
  | s, word "type" :: word _ :: rest => namings s rest
  | _, word "where" :: rest => namings .bounds rest
  | _, word "use" :: rest => namings .importing rest
  | .parameters, word w :: rest => .binds w :: namings .parameter rest
  | .parameter, punct ',' _ :: rest => namings .parameters rest
  | .parameter, punct '>' _ :: rest => namings .plain rest
  | .plain, word w :: punct ':' false :: rest => .binds w :: namings .plain rest
  | s, word w :: rest => lookup w ++ namings s rest
  | s, _ :: rest => namings s rest

/-! ### Names that are looked up outside -/

/-- The names that are bound at a place. -/
structure Scope where
  /-- Those that are bound in all of the innermost group. -/
  group : List String
  /-- Those that are bound at the place, with the parameters of what is defined there. -/
  here : List String

/-- The names that are looked up and not found, given what is bound at the place and around the
groups that are open there. -/
def missing (scope : Scope) (outer : List Scope) : List Naming → List String
  | [] => []
  | .enters :: rest => missing ⟨scope.here, scope.here⟩ (scope :: outer) rest
  | .leaves :: rest =>
    match outer with
    | [] => missing scope [] rest
    | around :: outer => missing around outer rest
  | .restarts :: rest => missing ⟨scope.group, scope.group⟩ outer rest
  | .binds n :: rest => missing ⟨scope.group, n :: scope.here⟩ outer rest
  | .brings n :: rest => missing ⟨n :: scope.group, n :: scope.here⟩ outer rest
  | .takes n :: rest =>
    if n ∈ scope.here then missing scope outer rest else n :: missing scope outer rest

/-- Whether a lexeme is no literal. A literal names nothing. -/
def Lexeme.isNoLiteral : Lexeme → Bool
  | literal _ => false
  | _ => true

/-- The names that code looks up and finds neither in itself nor among the given ones. -/
def lookedUp (scope : List String) (ls : List Lexeme) : List String :=
  missing ⟨scope, scope⟩ [] (namings .plain (ls.filter isNoLiteral))

/-- A scope with more names that are bound everywhere. -/
def Scope.widen (names : List String) (scope : Scope) : Scope :=
  ⟨scope.group ++ names, scope.here ++ names⟩

/-- What is bound around code takes names off those that are missing, and does nothing else. -/
theorem missing_widen (names : List String) (ns : List Naming) (scope : Scope)
    (outer : List Scope) :
    missing (scope.widen names) (outer.map (Scope.widen names)) ns =
      (missing scope outer ns).filter (· ∉ names) := by
  induction ns generalizing scope outer with
  | nil => rfl
  | cons naming ns ih =>
      cases naming with
      | enters => exact ih ⟨scope.here, scope.here⟩ (scope :: outer)
      | leaves =>
          cases outer with
          | nil => exact ih scope []
          | cons around outer => exact ih around outer
      | restarts => exact ih ⟨scope.group, scope.group⟩ outer
      | binds n => exact ih ⟨scope.group, n :: scope.here⟩ outer
      | brings n => exact ih ⟨n :: scope.group, n :: scope.here⟩ outer
      | takes n =>
          have hbound : n ∈ (scope.widen names).here ↔ n ∈ scope.here ∨ n ∈ names :=
            List.mem_append
          rw [missing, missing, ih scope outer]
          by_cases hhere : n ∈ scope.here
          · rw [if_pos (hbound.mpr (.inl hhere)), if_pos hhere]
          · rw [if_neg hhere]
            by_cases hnames : n ∈ names
            · rw [if_pos (hbound.mpr (.inr hnames)), List.filter_cons_of_neg (by simpa using hnames)]
            · rw [if_neg fun h => (hbound.mp h).elim hhere hnames,
                List.filter_cons_of_pos (by simpa using hnames)]

/-- Names in scope are not looked up elsewhere, however many scopes there are. -/
theorem lookedUp_append (scope names : List String) (ls : List Lexeme) :
    lookedUp (scope ++ names) ls = (lookedUp scope ls).filter (· ∉ names) :=
  missing_widen names _ ⟨scope, scope⟩ []

/-- The word of a name, without the mark of a raw word. -/
def Grammar.Name.bare (n : Name) : String :=
  match n.text.toList with
  | 'r' :: '#' :: cs => String.ofList cs
  | _ => n.text

namespace EntityModule

/-! ### Names that a module captures -/

/-- The names that the generated items look up and find neither in themselves nor among the given
ones. -/
def generatedLookups (options : Options) (m : EntityModule) (scope : List String) : List String :=
  (m.generated options).flatMap (lookedUp scope)

/-- The words of the names that a module declares itself. -/
def ownWords (m : EntityModule) : List String :=
  (declared m.items).map Name.bare

/-- A module captures a name if generated items find it among what the module declares itself, and
would find it outside the module otherwise. -/
def Captures (options : Options) (m : EntityModule) (w : String) : Prop :=
  w ∈ m.generatedLookups options reservedNames ∧
    w ∉ m.generatedLookups options (reservedNames ++ m.ownWords)

/-- The names that generated items expect to find around every module: primitive types, attributes
and what is derived. -/
def ambientNames (options : Options) : List String :=
  ["bool", "str", "derive", "doc", "inline", "repr", "Clone", "Copy", "Debug"] ++
    if options.database then ["usize"] else []

variable (options : Options) (m : EntityModule)

/-- Braces hold no names of their own. -/
theorem filter_braces (content : List Lexeme) :
    (braces content).filter isNoLiteral = braces (content.filter isNoLiteral) := by
  simp [braces, grouped, isNoLiteral, List.filter_cons]

theorem filter_textLiteral (text : String) : [textLiteral text].filter isNoLiteral = [] := rfl

theorem filter_documented (text : String) :
    (documented (textLiteral text)).filter isNoLiteral =
      [punct '#' false, opening .bracket, word "doc", punct '=' false, closing .bracket] := rfl

/-- The name of the entity stands in literals alone, and no name that is looked up depends on it. -/
theorem lookedUp_generatedItems (scope : List String) (entity : String) :
    (Generated.generatedItems entity).flatMap (lookedUp scope) =
      (Generated.generatedItems "").flatMap (lookedUp scope) := by
  have hmarker : lookedUp scope (Generated.marker entity) = lookedUp scope (Generated.marker "") := by
    simp only [lookedUp, Generated.marker, List.filter_append]
    rw [filter_documented, filter_documented]
  have hidentifier :
      lookedUp scope (Generated.identifier entity) = lookedUp scope (Generated.identifier "") := by
    simp only [lookedUp, Generated.identifier, List.filter_append]
    rw [filter_documented, filter_documented]
  have hfunctions : lookedUp scope (Generated.identifierFunctions entity) =
      lookedUp scope (Generated.identifierFunctions "") := by
    simp only [lookedUp, Generated.identifierFunctions, List.filter_append, filter_braces]
    rw [filter_textLiteral, filter_textLiteral]
  simp only [Generated.generatedItems, List.cons_append, List.flatMap_cons, hmarker, hidentifier,
    hfunctions]

/-- The names that generated items look up without the adapter, in order. -/
theorem lookups_of_generatedItems :
    ((Generated.generatedItems "").flatMap (lookedUp [])).eraseDups =
      ["doc", "derive", "Debug", "Clone", "Copy", "repr", "Tag", "Id", "str", "inline", "Unsafe",
        "bool"] := by
  simp only [Generated.generatedItems, Generated.marker, Generated.identifier,
    Generated.identifierFunctions, Generated.uncheckedConstructors, Generated.uncheckedFunctions,
    Generated.instances, Generated.conversions, Generated.instanceOf, Generated.function]
  repeat rw [code_ofList]
  decide +kernel

/-- The names that the adapter looks up, in order. -/
theorem lookups_of_databaseAdapter :
    (lookedUp [] Generated.databaseAdapter).eraseDups = ["Id", "bool", "usize"] := by
  simp only [Generated.databaseAdapter, Generated.databaseType, Generated.databaseEncoding,
    Generated.databaseDecoding, Generated.function]
  repeat rw [code_ofList]
  decide +kernel

/-- The adapter adds one ambient name. -/
theorem mem_ambientNames {w : String} :
    w ∈ ambientNames options ↔
      w ∈ ambientNames ⟨false⟩ ∨ options.database = true ∧ w = "usize" := by
  obtain ⟨_ | _⟩ := options <;> simp [ambientNames, or_assoc]

/-- No ambient name is one that the expansion declares. -/
theorem not_reserved_of_ambient : ∀ w ∈ ambientNames options, w ∉ reservedNames := by
  obtain ⟨_ | _⟩ := options <;> decide

/-- The generated items look up what they declare themselves and the ambient names, and nothing
else. -/
theorem mem_generatedLookups (w : String) :
    w ∈ m.generatedLookups options [] ↔ w ∈ reservedNames ∨ w ∈ ambientNames options := by
  have hitems : w ∈ (Generated.generatedItems m.entity).flatMap (lookedUp []) ↔
      w ∈ reservedNames ∨ w ∈ ambientNames ⟨false⟩ := by
    rw [lookedUp_generatedItems, ← List.mem_eraseDups, lookups_of_generatedItems]
    simp only [reservedNames, ambientNames, List.mem_cons, List.mem_append, List.not_mem_nil]
    tauto
  have hadapter : w ∈ lookedUp [] Generated.databaseAdapter ↔
      w ∈ ["Id", "bool"] ∨ w = "usize" := by
    rw [← List.mem_eraseDups, lookups_of_databaseAdapter]
    simp only [List.mem_cons, List.not_mem_nil, or_false, or_assoc]
  have hknown : w ∈ ["Id", "bool"] → w ∈ reservedNames ∨ w ∈ ambientNames ⟨false⟩ := by
    intro h
    obtain rfl | rfl : w = "Id" ∨ w = "bool" := by simpa using h
    · exact .inl (by decide)
    · exact .inr (by decide)
  obtain ⟨_ | _⟩ := options
  · simpa [generatedLookups, generated] using hitems
  · rw [generatedLookups, generated, List.flatMap_append, List.mem_append, hitems, if_pos rfl,
      List.flatMap_singleton, hadapter, mem_ambientNames ⟨true⟩]
    constructor
    · rintro ((h | h) | h | h)
      · exact .inl h
      · exact .inr (.inl h)
      · exact (hknown h).imp_right .inl
      · exact .inr (.inr ⟨rfl, h⟩)
    · rintro (h | h | ⟨-, h⟩)
      · exact .inl (.inl h)
      · exact .inl (.inr h)
      · exact .inr (.inr h)

/-- A name that is in scope captures all lookups of it. -/
theorem generatedLookups_append (scope names : List String) :
    m.generatedLookups options (scope ++ names) =
      (m.generatedLookups options scope).filter (· ∉ names) := by
  rw [generatedLookups, generatedLookups, List.filter_flatMap]
  exact congrArg (List.flatMap · _) (funext (lookedUp_append scope names))

/-- What the generated items do not find among what they declare themselves are the ambient
names. -/
theorem mem_generatedLookups_reservedNames (w : String) :
    w ∈ m.generatedLookups options reservedNames ↔ w ∈ ambientNames options := by
  have hscope := m.generatedLookups_append options [] reservedNames
  rw [List.nil_append] at hscope
  rw [hscope, List.mem_filter, mem_generatedLookups, decide_eq_true_eq]
  constructor
  · rintro ⟨h, hnot⟩
    exact h.resolve_left hnot
  · intro h
    exact ⟨.inr h, not_reserved_of_ambient options w h⟩

/-- A name is captured exactly if it is ambient and the module declares it. -/
theorem captures_iff (w : String) :
    m.Captures options w ↔ w ∈ m.ownWords ∧ w ∈ ambientNames options := by
  rw [Captures, generatedLookups_append, List.mem_filter, mem_generatedLookups_reservedNames,
    decide_eq_true_eq]
  tauto

variable {m}

/-- What the generated items of an accepted module look up is either reserved, and then the module
declares no name spelt so, or ambient. The module captures exactly the ambient names among those
that it declares itself; so it captures none exactly if it declares none of them. -/
theorem captures_are_ambient {ls : List Lexeme} (h : read ls = .ok m) :
    (∀ w, w ∈ m.generatedLookups options [] ↔ w ∈ reservedNames ∨ w ∈ ambientNames options) ∧
      (∀ n ∈ declared m.items, n.text ∉ reservedNames) ∧
      (∀ w, m.Captures options w ↔ w ∈ m.ownWords ∧ w ∈ ambientNames options) ∧
      ((∀ w, ¬ m.Captures options w) ↔
        ∀ n ∈ declared m.items, n.bare ∉ ambientNames options) := by
  refine ⟨m.mem_generatedLookups options, not_reserved_of_read h, m.captures_iff options, ?_⟩
  simp only [captures_iff, ownWords, List.mem_map, not_and, forall_exists_index, and_imp,
    forall_apply_eq_imp_iff₂]

/-- A module that declares a type `A` and imports `Display` captures nothing. -/
theorem ordinary_names_are_not_captured :
    ∃ m, read (code "mod m \x7b struct A ; use a :: Display ; \x7d") = .ok m ∧
      ∀ options w, ¬ m.Captures options w := by
  have hread : ∃ m, read (code "mod m \x7b struct A ; use a :: Display ; \x7d") = .ok m ∧
      m.ownWords = ["A", "Display"] := ⟨_, rfl, rfl⟩
  obtain ⟨m, hread, hwords⟩ := hread
  refine ⟨m, hread, fun options => (captures_are_ambient options hread).2.2.2.mpr fun n hn => ?_⟩
  have hn : n.bare ∈ ["A", "Display"] := hwords ▸ List.mem_map_of_mem hn
  have hnone : ∀ w ∈ ["A", "Display"], w ∉ ambientNames options := by
    obtain ⟨_ | _⟩ := options <;> decide
  exact hnone _ hn

/-- An accepted module may declare a type `bool` that the generated comparison then returns, and
capture other ambient names by an import and with the mark of a raw word. -/
theorem own_type_is_captured :
    ∃ m, Invocation.module "mod m\x7bstruct bool;use a::Clone;type r#str=u8;\x7d" = .ok m ∧
      ∀ options, m.Captures options "bool" ∧ m.Captures options "Clone" ∧ m.Captures options "str" := by
  have hread : ∃ m, Invocation.module "mod m\x7bstruct bool;use a::Clone;type r#str=u8;\x7d" = .ok m ∧
      m.ownWords = ["bool", "Clone", "str"] := ⟨_, rfl, rfl⟩
  obtain ⟨m, hread, hwords⟩ := hread
  refine ⟨m, hread, fun options => ?_⟩
  simp only [captures_iff, hwords]
  simp [ambientNames]

end EntityModule

end TypedId
