import TypedId.Expansion.Code

/-!
The items that are put into the module of an entity.

`generatedItems` lists them in order: the marker `Tag`, the identifier `Id` with its functions, the
unchecked constructors in `Unsafe`, the instances, the conversions, and the link to serialization.
`databaseAdapter` is the one that is added on request. All depend on the entity's name alone.
-/

namespace TypedId.Generated

/-- An implementation for the identifier. -/
def instanceOf (ofTrait : String) (content : List Lexeme) : List Lexeme :=
  code ("impl " ++ ofTrait ++ " for Id") ++ braces content

/-- A function: its signature and its body. -/
def function (signature body : String) : List Lexeme :=
  code signature ++ braces (code body)

/-! ### Marker, identifier and unchecked constructors -/

/-- What is said of the marker. -/
def markerDocumentation (entity : String) : String :=
  "Marker type that makes [`Id`] unique to `" ++ entity ++ "`."

/-- What is said of the identifier. -/
def identifierDocumentation (entity : String) : String :=
  "Unique identifier of a `" ++ entity ++ "`."

/-- The type that tells identifiers of one entity from those of others. -/
def marker (entity : String) : List Lexeme :=
  documented (textLiteral (markerDocumentation entity)) ++
  docLine "" ++
  docLine " This type has no values and only ever appears as a type parameter." ++
  code "# [derive (Debug , Clone , Copy)] pub enum Tag" ++ braces []

/-- The type of identifiers. -/
def identifier (entity : String) : List Lexeme :=
  documented (textLiteral (identifierDocumentation entity)) ++
  code "# [repr (transparent)] # [derive (Clone , Copy)] pub struct Id" ++
  braces (code "value : :: entity_id :: __private :: Uuid ,
    tag : :: core :: marker :: PhantomData < Tag > ,")

/-- The functions of identifiers. -/
def identifierFunctions (entity : String) : List Lexeme :=
  code "impl Id" ++ braces (
    docLine " Name of the entity this id belongs to." ++
    code "pub const ENTITY : & 'static str =" ++ [textLiteral entity] ++ code ";" ++
    docLine " Wraps an existing UUID." ++
    code "# [inline] pub const fn from_uuid (value : :: entity_id :: __private :: Uuid) -> Self" ++
    braces (code "Self" ++ braces (code "value , tag : :: core :: marker :: PhantomData")) ++
    docLine " Returns a reference to the wrapped UUID." ++
    function "# [inline] pub const fn as_uuid (& self) -> & :: entity_id :: __private :: Uuid"
      "& self . value" ++
    docLine " Unwraps the UUID." ++
    function "# [inline] pub const fn into_uuid (self) -> :: entity_id :: __private :: Uuid"
      "self . value" ++
    docLine " Generates a random id inside the effect `E`." ++
    docLine "" ++
    docLine " Nothing is drawn until `E` runs the returned computation." ++
    function "pub fn random < E > () -> < E as :: entity_id :: Effect > :: Output < Self >
        where E : :: entity_id :: Effect ,"
      "< E as :: entity_id :: Effect > :: suspend
        (|| Self :: from_uuid (:: entity_id :: __private :: random_uuid ()))")

/-- The type that holds the unchecked constructors. -/
def uncheckedConstructors : List Lexeme :=
  docLine " Constructors that give up the guarantees of their safe counterparts." ++
  code "# [derive (Debug , Clone , Copy)] pub enum Unsafe" ++ braces []

/-- The unchecked constructors. -/
def uncheckedFunctions : List Lexeme :=
  code "impl Unsafe" ++ braces (
    docLine " Generates a random id right now, on the current thread." ++
    docLine "" ++
    docLine " This is [`Id::random()`] with the draw happening immediately instead of being" ++
    docLine " deferred to an effect. It does not need an executor." ++
    function "pub fn random () -> Id" "Id :: random :: < :: entity_id :: Immediate > ()")

/-! ### Instances -/

/-- Equality, order, hashing and the two ways of display. -/
def instances : List (List Lexeme) :=
  [instanceOf ":: core :: cmp :: PartialEq"
      (function "# [inline] fn eq (& self , other : & Self) -> bool"
        ":: core :: cmp :: PartialEq :: eq (& self . value , & other . value)"),
    instanceOf ":: core :: cmp :: Eq" [],
    instanceOf ":: core :: cmp :: PartialOrd"
      (function "# [inline] fn partial_cmp (& self , other : & Self)
          -> :: core :: option :: Option < :: core :: cmp :: Ordering >"
        ":: core :: option :: Option :: Some (:: core :: cmp :: Ord :: cmp (self , other))"),
    instanceOf ":: core :: cmp :: Ord"
      (function "# [inline] fn cmp (& self , other : & Self) -> :: core :: cmp :: Ordering"
        ":: core :: cmp :: Ord :: cmp (& self . value , & other . value)"),
    instanceOf ":: core :: hash :: Hash"
      (function "fn hash < H : :: core :: hash :: Hasher > (& self , state : & mut H)"
        ":: core :: hash :: Hash :: hash (& self . value , state) ;"),
    instanceOf ":: core :: fmt :: Display"
      (function "fn fmt (& self , f : & mut :: core :: fmt :: Formatter < '_ >)
          -> :: core :: fmt :: Result"
        ":: core :: fmt :: Display :: fmt (& self . value , f)"),
    instanceOf ":: core :: fmt :: Debug"
      (function "fn fmt (& self , f : & mut :: core :: fmt :: Formatter < '_ >)
          -> :: core :: fmt :: Result"
        "f . debug_tuple (\"Id\") . field (& self . value) . finish ()")]

/-! ### Conversions -/

/-- Conversions from and to the wrapped value and from text, the link to the common interface of
all identifiers, and the one to serialization. -/
def conversions : List (List Lexeme) :=
  [instanceOf ":: core :: convert :: From < :: entity_id :: __private :: Uuid >"
      (function "fn from (value : :: entity_id :: __private :: Uuid) -> Self"
        "Self :: from_uuid (value)"),
    code "impl :: core :: convert :: From < Id > for :: entity_id :: __private :: Uuid" ++
      braces (function "fn from (id : Id) -> Self" "id . value"),
    instanceOf ":: core :: convert :: AsRef < :: entity_id :: __private :: Uuid >"
      (function "fn as_ref (& self) -> & :: entity_id :: __private :: Uuid" "& self . value"),
    instanceOf ":: core :: str :: FromStr"
      (code "type Err = :: entity_id :: ParseIdError ;" ++
        function "fn from_str (s : & str) -> :: core :: result :: Result < Self , Self :: Err >"
          ":: entity_id :: __private :: parse_uuid (Self :: ENTITY , s) .
            map (Self :: from_uuid)"),
    instanceOf ":: entity_id :: EntityId"
      (code "const ENTITY : & 'static str = Id :: ENTITY ;"),
    code ":: entity_id :: __impl_serde ! (Id) ;"]

/-! ### Database -/

/-- How the database knows the type of identifiers. -/
def databaseType : List Lexeme :=
  code "impl < DB > sqlx :: Type < DB > for Id
    where DB : sqlx :: Database , Uuid : sqlx :: Type < DB > ," ++
  braces (
    function "fn type_info () -> < DB as sqlx :: Database > :: TypeInfo"
      "< Uuid as sqlx :: Type < DB >> :: type_info ()" ++
    function "fn compatible (ty : & < DB as sqlx :: Database > :: TypeInfo) -> bool"
      "< Uuid as sqlx :: Type < DB >> :: compatible (ty)")

/-- How identifiers are handed to the database. -/
def databaseEncoding : List Lexeme :=
  code "impl < 'q , DB > sqlx :: Encode < 'q , DB > for Id
    where DB : sqlx :: Database , Uuid : sqlx :: Encode < 'q , DB > ," ++
  braces (
    function "fn encode_by_ref
        (& self , buf : & mut < DB as sqlx :: Database > :: ArgumentBuffer < 'q > ,)
        -> :: core :: result :: Result < sqlx :: encode :: IsNull , sqlx :: error :: BoxDynError >"
      "< Uuid as sqlx :: Encode < 'q , DB >> :: encode_by_ref (& self . value , buf)" ++
    function "fn produces (& self)
        -> :: core :: option :: Option << DB as sqlx :: Database > :: TypeInfo >"
      "< Uuid as sqlx :: Encode < 'q , DB >> :: produces (& self . value)" ++
    function "fn size_hint (& self) -> usize"
      "< Uuid as sqlx :: Encode < 'q , DB >> :: size_hint (& self . value)")

/-- How identifiers are read back from the database. -/
def databaseDecoding : List Lexeme :=
  code "impl < 'r , DB > sqlx :: Decode < 'r , DB > for Id
    where DB : sqlx :: Database , Uuid : sqlx :: Decode < 'r , DB > ," ++
  braces (
    function "fn decode (value : < DB as sqlx :: Database > :: ValueRef < 'r > ,)
        -> :: core :: result :: Result < Self , sqlx :: error :: BoxDynError >"
      "< Uuid as sqlx :: Decode < 'r , DB >> :: decode (value) . map (Self :: from_uuid)")

/-- The item that links identifiers to the database. -/
def databaseAdapter : List Lexeme :=
  code "const _ : () =" ++
  braces (
    code "use :: entity_id :: __private :: sqlx ; use :: entity_id :: __private :: Uuid ;" ++
    databaseType ++ databaseEncoding ++ databaseDecoding) ++
  code ";"

/-! ### All items -/

/-- The items that are always generated, in order. -/
def generatedItems (entity : String) : List (List Lexeme) :=
  [marker entity, identifier entity, identifierFunctions entity, uncheckedConstructors,
    uncheckedFunctions] ++ instances ++ conversions

end TypedId.Generated
