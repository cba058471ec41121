import TypedId.Grammar.Sight

/-!
What is remembered of a text that has been read.

Most of a text only has to be written out again, so it is kept as the lexemes that it is written
with. What the later steps ask about is kept by meaning: the names that items declare, the trees of
imports, the attributes and the visibility of a module, and the shapes of types, expressions and
patterns on which the grammar itself depends.
-/

namespace TypedId.Grammar

/-- A word of the text and its position. -/
structure Name where
  text : String
  position : Nat
deriving DecidableEq, Repr

/-- An attribute: `#[..]` before the thing that it describes, or `#![..]` within it. -/
structure Attribute where
  inner : Bool
  text : List Lexeme
deriving DecidableEq, Repr

/-- What an import brings in, as a tree of paths. -/
inductive ImportTree where
  /-- Everything below is found in a module. -/
  | path (segment : Name) (tree : ImportTree)
  /-- One name. -/
  | name (name : Name)
  /-- One name, under another name. -/
  | rename (name bound : Name)
  /-- All names. -/
  | glob
  /-- Several trees. -/
  | group (trees : List ImportTree)
deriving Repr

/-- A generic parameter or argument, with the comma behind it. Lifetimes are written first. -/
structure AngleItem where
  lifetime : Bool
  text : List Lexeme
  separated : Bool
deriving DecidableEq, Repr

/-- The lexemes of a parameter and its comma. -/
def AngleItem.written (item : AngleItem) : List Lexeme :=
  item.text ++ if item.separated then [Lexeme.comma] else []

/-- Writes lifetimes before all else. If the last lifetime has no comma and something follows, one
is put between. -/
def lifetimesFirst (items : List AngleItem) : List Lexeme :=
  let lifetimes := items.filter (·.lifetime)
  let others := items.filter fun item => !item.lifetime
  let between := if lifetimes.getLast?.any (!·.separated) && !others.isEmpty then [Lexeme.comma] else []
  lifetimes.flatMap AngleItem.written ++ between ++ others.flatMap AngleItem.written

/-- What the grammar asks about a path. -/
structure PathShape where
  /-- How many segments the path has. -/
  segments : Nat
  /-- Whether the path begins with `::`. -/
  rooted : Bool
  /-- Whether no segment has arguments. -/
  plain : Bool
  /-- Whether the last segment has none. -/
  bareEnd : Bool
  /-- Whether the path is one of a type in angle brackets. -/
  qualified : Bool
deriving DecidableEq, Repr

/-- What the grammar asks about a type. -/
inductive TypeShape where
  | path (shape : PathShape)
  /-- Trait bounds; `marked` if `dyn` stands before them, `single` if there is just one. -/
  | bounds (marked single : Bool)
  | other
deriving DecidableEq, Repr

/-- What the grammar asks about a bound. -/
inductive BoundShape where
  | traitBound
  /-- A lifetime, with the position of its word. -/
  | lifetime (position : Nat)
  /-- A list of captured parameters, with the position of its end. -/
  | captures (position : Nat)
  /-- A bound that is kept in its source spelling. -/
  | kept
deriving DecidableEq, Repr

/-- What the grammar asks about an expression. -/
inductive ExprShape where
  /-- A range, with the dots of one that begins with them. -/
  | range (dots : Stretch)
  | comparison
  /-- An expression with a block at its end that is a statement without a semicolon. -/
  | block
  /-- The use of a macro; `braced` if its arguments stand in braces. -/
  | invocation (braced : Bool)
  /-- A text literal and its position. -/
  | text (position : Nat)
  /-- An expression that is kept in its source spelling. -/
  | kept
  | other
deriving DecidableEq, Repr

/-- How tightly an operator binds, from the loosest on. -/
inductive Precedence where
  | jump | assign | range | or | and | condition | compare | bitOr | bitXor | bitAnd | shift | sum
  | product | cast
deriving DecidableEq, Repr

/-- The place of a precedence in the order. -/
def Precedence.rank (p : Precedence) : Nat := p.ctorIdx

/-- What the grammar asks about a pattern. -/
inductive PatternShape where
  /-- Two dots alone. -/
  | rest
  /-- A range with one end only, and its dots. -/
  | openRange (dots : Stretch)
  /-- A pattern that is kept in its source spelling. -/
  | kept
  | other
deriving DecidableEq, Repr

/-- What the grammar asks about a parameter of a function. -/
inductive ArgShape where
  /-- The receiver of a method, with the position of its word. -/
  | receiver (position : Nat)
  | typed
  /-- Any number of further arguments. -/
  | variadic
deriving DecidableEq, Repr

/-- An item: what it is, and what it declares. -/
inductive ItemBody where
  | constant (name : Name)
  | enumeration (name : Name)
  | externCrate (name : Name) (rename : Option Name)
  | function (name : Name)
  | foreignModule
  /-- An implementation: the trait's path, and the type's text. -/
  | implementation (ofTrait : Option (List Lexeme)) (type : List Lexeme)
  /-- The use of a macro: its path, and the name that stands before its arguments. -/
  | invocation (path : List Lexeme) (name : Option Name)
  /-- A module: the position of a leading `unsafe`, its name and inner attributes, and its items
  with their texts if they stand in the text. -/
  | module (unsafeAt : Option Nat) (name : Name) (innerAttributes : List Attribute)
    (members : Option (List (ItemBody × List Lexeme)))
  | staticItem (name : Name)
  | structure_ (name : Name)
  | traitItem (name : Name)
  | traitAlias (name : Name)
  | typeAlias (name : Name)
  | union (name : Name)
  | import_ (tree : ImportTree)
  /-- An item that is kept in its source spelling. -/
  | kept
deriving Repr

instance : Inhabited ItemBody := ⟨.kept⟩

/-- An item of a module, with the lexemes that it is written with. -/
structure Item where
  body : ItemBody
  text : List Lexeme
deriving Repr, Inhabited

/-- An item with what stands before it. -/
structure OuterItem where
  attributes : List Attribute
  visibility : List Lexeme
  item : Item
  /-- The position of its first and its last lexeme. -/
  stretch : Stretch
deriving Repr

end TypedId.Grammar
