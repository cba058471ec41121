import TypedId.Proofs.Expansion.Items

/-!
The generated items are items.

Most are the same for every entity, and that they are restored is computed (`ClosedParts`). Three hold
the name of the entity in a literal.
-/

namespace TypedId.Generated

open Lexeme Grammar Rule

/-! ### What is the same for every entity -/

/-- The marker, behind what is said of it. -/
def markerDeclaration : List Lexeme :=
  docLine "" ++ (docLine " This type has no values and only ever appears as a type parameter." ++
    (code "# [derive (Debug , Clone , Copy)] pub enum Tag" ++ braces []))

/-- The type of identifiers, behind what is said of it. -/
def identifierDeclaration : List Lexeme :=
  code "# [repr (transparent)] # [derive (Clone , Copy)] pub struct Id" ++
    braces (code "value : :: entity_id :: __private :: Uuid ,
    tag : :: core :: marker :: PhantomData < Tag > ,")

/-- The functions of identifiers, one by one, behind the name of the entity. -/
def closedMembers : List (List Lexeme) :=
  [docLine " Wraps an existing UUID." ++
      code "# [inline] pub const fn from_uuid (value : :: entity_id :: __private :: Uuid) -> Self" ++
      braces (code "Self" ++ braces (code "value , tag : :: core :: marker :: PhantomData")),
    docLine " Returns a reference to the wrapped UUID." ++
      function "# [inline] pub const fn as_uuid (& self) -> & :: entity_id :: __private :: Uuid"
        "& self . value",
    docLine " Unwraps the UUID." ++
      function "# [inline] pub const fn into_uuid (self) -> :: entity_id :: __private :: Uuid"
        "self . value",
    docLine " Generates a random id inside the effect `E`." ++ docLine "" ++
      docLine " Nothing is drawn until `E` runs the returned computation." ++
      function "pub fn random < E > () -> < E as :: entity_id :: Effect > :: Output < Self >
        where E : :: entity_id :: Effect ,"
        "< E as :: entity_id :: Effect > :: suspend
        (|| Self :: from_uuid (:: entity_id :: __private :: random_uuid ()))"]

/-- What is the same for every entity is restored. -/
structure ClosedParts : Prop where
  marker : restoresItem markerDeclaration "enum" ["Tag"] = true
  identifier : restoresItem identifierDeclaration "struct" ["Id"] = true
  members : ∀ text ∈ closedMembers, !ends text && implementationMember.restores text fun _ => true
  uncheckedConstructors : restoresItem uncheckedConstructors "enum" ["Unsafe"] = true
  uncheckedFunctions : restoresItem uncheckedFunctions "impl" [] = true
  instances : List.Forall₂ (fun text kind => restoresItem text kind [] = true) instances
    (List.replicate 7 "impl")
  conversions : List.Forall₂ (fun text kind => restoresItem text kind [] = true) conversions
    (List.replicate 5 "impl" ++ ["macro"])
  databaseAdapter : restoresItem databaseAdapter "const" ["_"] = true

-- The cases are computed in one proof, as each such computation waits for the ones before it.
theorem closedParts : ClosedParts := by
  constructor
  case marker =>
    rw [markerDeclaration, docLine, docLine, code_ofList]
    decide +kernel
  case identifier =>
    rw [identifierDeclaration, code_ofList, code_ofList]
    decide +kernel
  case members =>
    simp only [closedMembers, function, docLine]
    repeat rw [code_ofList]
    decide +kernel
  case uncheckedConstructors =>
    rw [Generated.uncheckedConstructors, docLine, code_ofList]
    decide +kernel
  case uncheckedFunctions =>
    simp only [Generated.uncheckedFunctions, function, docLine]
    repeat rw [code_ofList]
    decide +kernel
  case instances =>
    simp only [Generated.instances, instanceOf, function]
    repeat rw [code_ofList]
    decide +kernel
  case conversions =>
    simp only [Generated.conversions, instanceOf, function]
    repeat rw [code_ofList]
    decide +kernel
  case databaseAdapter =>
    rw [Generated.databaseAdapter, databaseType, databaseEncoding, databaseDecoding]
    simp only [function]
    repeat rw [code_ofList]
    decide +kernel

/-! ### Items -/

theorem isItem_marker (entity : String) : IsItem (marker entity) "enum" ["Tag"] := by
  rw [marker, textLiteral]
  simp only [List.append_assoc]
  exact IsItem.documented (isItem_of_restores closedParts.marker) (by decide) _

theorem isItem_identifier (entity : String) : IsItem (identifier entity) "struct" ["Id"] := by
  rw [identifier, textLiteral]
  simp only [List.append_assoc]
  exact IsItem.documented (isItem_of_restores closedParts.identifier) (by decide) _

/-- The functions of identifiers, one by one. The first one tells the name of the entity. -/
def identifierMembers (entity : String) : List (List Lexeme) :=
  (docLine " Name of the entity this id belongs to." ++ entityConstant (Text.quote entity)) :: closedMembers

theorem identifierFunctions_eq (entity : String) :
    identifierFunctions entity = [word "impl", word "Id"] ++ braces (identifierMembers entity).flatten := by
  have himpl : code "impl Id" = [word "impl", word "Id"] := by
    rw [code_ofList]
    rfl
  have hconstant : code "pub const ENTITY : & 'static str =" = word "pub" :: entityPrefix := by
    rw [code_ofList]
    rfl
  have hend : code ";" = [punct ';' false] := by
    rw [code_ofList]
    rfl
  rw [identifierFunctions, himpl, hconstant, hend]
  simp only [identifierMembers, closedMembers, entityConstant, textLiteral,
    List.flatten_cons, List.flatten_nil,
    List.append_assoc, List.cons_append, List.nil_append, List.append_nil]

theorem isMember_identifierMembers (entity : String) : ∀ text ∈ identifierMembers entity, IsMember text := by
  refine List.forall_mem_cons.mpr ⟨isMember_entityConstant _ _, fun text h => ?_⟩
  have hrestores := closedParts.members text h
  rw [Bool.and_eq_true, Bool.not_eq_true'] at hrestores
  exact .of_restores steady_implementationMember hrestores.1 hrestores.2 fun _ _ _ _ => trivial

theorem isItem_identifierFunctions (entity : String) : IsItem (identifierFunctions entity) "impl" [] := by
  rw [identifierFunctions_eq]
  exact isItem_of_members (isMember_identifierMembers entity) fun _ _ => rfl

theorem isItem_databaseAdapter : IsItem databaseAdapter "const" ["_"] :=
  isItem_of_restores closedParts.databaseAdapter

/-- The kinds of the generated items, with the names that they declare. -/
def outlines : List (String × List String) :=
  [("enum", ["Tag"]), ("struct", ["Id"]), ("impl", []), ("enum", ["Unsafe"]), ("impl", [])] ++
    (List.replicate 7 "impl" ++ (List.replicate 5 "impl" ++ ["macro"])).map (·, [])

/-- Each of the generated items is one by itself. -/
theorem isItem_generatedItems (entity : String) :
    List.Forall₂ (fun text outline => IsItem text outline.1 outline.2) (generatedItems entity) outlines := by
  have hinstances := closedParts.instances.imp fun _ _ => isItem_of_restores
  have hconversions := closedParts.conversions.imp fun _ _ => isItem_of_restores
  rw [generatedItems, outlines, List.append_assoc]
  refine .cons (isItem_marker entity)
    (.cons (isItem_identifier entity) (.cons (isItem_identifierFunctions entity)
    (.cons (isItem_of_restores closedParts.uncheckedConstructors)
      (.cons (isItem_of_restores closedParts.uncheckedFunctions) ?_))))
  exact List.forall₂_map_right_iff.mpr (List.rel_append hinstances hconversions)

end TypedId.Generated
