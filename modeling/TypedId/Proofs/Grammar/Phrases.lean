import TypedId.Proofs.Grammar.Ensures
import TypedId.Proofs.Grammar.Holding
import TypedId.Proofs.Grammar.Loops
import TypedId.Proofs.Grammar.Surroundings

/-!
What is known of the phrases when they are read again.
-/

namespace TypedId.Grammar

open Lexeme Rule

/-! ### What is compared -/

/-- A bound without the places that it tells. -/
def BoundShape.placeless : BoundShape → BoundShape
  | lifetime _ => lifetime 0
  | captures _ => captures 0
  | b => b

/-- An expression without the places that it tells. -/
def ExprShape.placeless : ExprShape → ExprShape
  | range _ => range ⟨0, 0⟩
  | text _ => text 0
  | e => e

/-- A pattern without the places that it tells. -/
def PatternShape.placeless : PatternShape → PatternShape
  | openRange _ => openRange ⟨0, 0⟩
  | p => p

/-- An import tree without the places of its names. -/
def ImportTree.placeless : ImportTree → ImportTree
  | path segment tree => path ⟨segment.text, 0⟩ tree.placeless
  | name n => name ⟨n.text, 0⟩
  | rename n bound => rename ⟨n.text, 0⟩ ⟨bound.text, 0⟩
  | glob => glob
  | group trees => group (placelessAll trees)
where
  /-- Import trees without the places of their names. -/
  placelessAll : List ImportTree → List ImportTree
    | [] => []
    | tree :: trees => tree.placeless :: placelessAll trees

/-- An item without the places of its names. Of the items of a module only the texts are left, and of
an implementation nothing but that it is one. -/
def ItemBody.placeless : ItemBody → ItemBody
  | constant n => constant ⟨n.text, 0⟩
  | enumeration n => enumeration ⟨n.text, 0⟩
  | externCrate n rename => externCrate ⟨n.text, 0⟩ (rename.map fun n => ⟨n.text, 0⟩)
  | function n => function ⟨n.text, 0⟩
  | foreignModule => foreignModule
  | implementation _ _ => implementation none []
  | invocation path n => invocation path (n.map fun n => ⟨n.text, 0⟩)
  | module unsafeAt n attributes members =>
    module (unsafeAt.map fun _ => 0) ⟨n.text, 0⟩ attributes
      (members.map fun items => items.map fun item => (kept, item.2))
  | staticItem n => staticItem ⟨n.text, 0⟩
  | structure_ n => structure_ ⟨n.text, 0⟩
  | traitItem n => traitItem ⟨n.text, 0⟩
  | traitAlias n => traitAlias ⟨n.text, 0⟩
  | typeAlias n => typeAlias ⟨n.text, 0⟩
  | union n => union ⟨n.text, 0⟩
  | import_ tree => import_ tree.placeless
  | kept => kept

/-- An item with what stands before it, without the places of its names. -/
def OuterItem.placeless (found : OuterItem) : OuterItem :=
  ⟨found.attributes, found.visibility, ⟨found.item.body.placeless, found.item.text⟩, ⟨0, 0⟩⟩

/-! ### How phrases begin -/

/-- No attribute of what surrounds a text begins it. -/
def Outward (ls : List Lexeme) : Prop :=
  sees "#" ls = true → seesGroup .bracket (second ls) = true

/-- How a bound looks at its beginning. Behind a lifetime stands what follows the bound. -/
structure BoundFront (behind : BoundShape → List Lexeme → List Lexeme → Prop) (s p : List Lexeme) :
    Prop extends Look s p where
  colon : seesColon s = false
  behindLifetime : seesLifetime s = true → ∃ n, behind (.lifetime n) (second s) (second p)

/-- How a type looks at its beginning. If it is told how that looks which follows the type, then the
texts look alike behind a first word, too, and no single colon stands there. -/
structure TypeFront (told : Prop) (s p : List Lexeme) : Prop extends Look s p where
  colon : seesColon s = false
  object : seesLifetime s = true → sees "+" (second s) = true ∧ sees "+" (second p) = true
  second : told → seesAnyWord s = true → Look (second s) (second p) ∧ seesColon (second s) = false
  restriction : seesRestriction p = seesRestriction s
  restrictingPath : seesRestrictingPath p = seesRestrictingPath s
  parameters : seesParameters p = seesParameters s

/-- How an expression looks at its beginning. Nothing comes new that makes it an item or a
statement. -/
structure ExprFront (s p : List Lexeme) : Prop extends Look s p where
  outward : Outward s ∧ Outward p
  equals : sees "=" s = false
  closer : sees ">" s = false
  negative : ∀ joint joint', seesLiteral (punct '-' joint' :: p) = seesLiteral (punct '-' joint :: s)
  raw : seesWord "raw" s = true → ∀ w ∈ ["mut", "const"], seesWord w (second s) = false →
    seesWord w (second p) = false
  item : seesItem s = false → seesItem p = false
  statement : seesMacroStatement s = false → seesMacroStatement p = false
  block : seesBlockExpression p = seesBlockExpression s

/-- What follows the words that may stand before the word of a receiver. -/
def receiverWord (ls : List Lexeme) : List Lexeme :=
  let ls := if sees "&" ls then
      let ls := ls.drop 1
      if seesLifetime ls then ls.drop 2 else ls
    else ls
  dropWord "mut" ls

/-- Whether a receiver comes next: its word, and no colon that no type follows. -/
def seesReceiver (ls : List Lexeme) : Bool :=
  seesWord "self" (receiverWord ls) && (sees "&" ls || !Rule.seesUntyped ((receiverWord ls).drop 1))

/-- How a pattern looks at its beginning. -/
structure PatternFront (s p : List Lexeme) : Prop extends Look s p where
  hash : sees "#" s = false
  bar : sees "|" s = false
  equals : sees "=" s = false
  unlifelong : seesLifetime s = false
  less : seesIdentifier s = true → sees "<" (second p) = sees "<" (second s)
  receiver : seesReceiver s = false → seesReceiver p = false
  parameters : seesParameters p = seesParameters s

/-- How an import tree looks at its beginning. -/
structure ImportFront (s p : List Lexeme) : Prop where
  ends : ends p = ends s
  rooted : sees "::" p = sees "::" s

/-- Behind an import tree: nothing that one goes on with. -/
structure ImportFollow (s k : List Lexeme) : Prop where
  separate : sees "::" s = false ∧ sees "::" k = false
  unnamed : seesWord "as" s = false ∧ seesWord "as" k = false

/-- Whether something comes next that no type begins with. -/
def Rule.beginsNoType (ls : List Lexeme) : Bool :=
  ["?", ">", "#", "..."].any (sees · ls) || seesWord "const" ls || seesColon ls

/-- Whether something comes next that may stand behind the name of a parameter in angle brackets. -/
def Rule.behindParameter (ls : List Lexeme) : Bool :=
  sees ">" ls || sees "," ls || seesColon ls || sees "=" ls

/-- What the shape of an expression tells of its beginning. -/
def ExprShape.Begins : ExprShape → List Lexeme → Prop
  | .block, ls => seesBlockExpression ls = true
  | .kept, ls => seesWord "become" ls = true ∨ seesWord "builtin" ls = true
  | .text _, ls => seesText ls = true
  | _, _ => True

/-! ### Phrases -/

/-- All phrases are read again, whatever they refer to. -/
structure Rereadable (g : PhraseReader) : Prop where
  blind : Blind g
  stays : ∀ ls, Stays g ls
  type : ∀ m s plus told, Rereads g m s (call (.type plus)) (call (.type plus)) id (TypeFront told s)
    fun _ s' k => TypeFollow s' k ∧ (told → Look s' k ∧ seesColon s' = false)
  noType : ∀ plus r, beginsNoType r.rest = true →
    ∃ fault, g (.type plus) r = .error fault ∧
      (fault.complaint = .tooDeep → ∀ phrase r, ∃ fault, g phrase r = .error fault)
  bound : ∀ m s captures constant behind,
    Rereads g m s (call (.bound captures constant)) (call (.bound captures constant))
      BoundShape.placeless (BoundFront behind s) fun a s' k => TypeFollow s' k ∧ behind a s' k
  expression : ∀ m s braces,
    Rereads g m s (call (.expression braces)) (call (.expression braces)) ExprShape.placeless
      (ExprFront s) fun a s' k => ShapeFollow a s' k
  operand : ∀ m s braces,
    Rereads g m s (call (.operand braces)) (call (.operand braces)) ExprShape.placeless
      (ExprFront s) fun a s' k => ShapeFollow a s' k
  atom : ∀ m s braces,
    Rereads g m s (call (.atom braces)) (call (.atom braces)) ExprShape.placeless
      (ExprFront s) fun a s' k => StatementFollow a s' k
  operators : ∀ m s braces left left' least, left'.placeless = left.placeless →
    Rereads g m s (call (.operators braces left least)) (call (.operators braces left' least))
      ExprShape.placeless (ExprFollow s) fun _ s' k => ExprFollow s' k
  atomBegins : ∀ braces r a r', g (.atom braces) r = .ok (a, r') → ExprShape.Begins a r.rest
  operandBegins : ∀ braces r a r', sees "#" r.rest = false → g (.operand braces) r = .ok (a, r') →
    ExprShape.Begins a r.rest
  atomSolid : ∀ s braces, Solid g .source s (call (.atom braces)) fun _ => True
  operandSolid : ∀ s braces, Solid g .source s (call (.operand braces)) fun _ => True
  operatorsBlock : ∀ braces left least r a r', g (.operators braces left least) r = .ok (a, r') →
    a = .block → left = .block
  operatorsStay : ∀ braces dots least r a r',
    g (.operators braces (.range dots) least) r = .ok (a, r') → r' = r
  operatorsMove : ∀ braces left r a r', (∀ dots, left ≠ .range dots) →
    nextPrecedence r.rest ≠ .jump →
    g (.operators braces left (nextPrecedence r.rest)) r = .ok (a, r') → r.position < r'.position
  operatorsSolid : ∀ m s braces left, (∀ dots, left ≠ .range dots) → nextPrecedence s ≠ .jump →
    Solid g m s (call (.operators braces left (nextPrecedence s))) fun _ => True
  lastOperators : ∀ m s braces left left', left'.placeless = left.placeless →
    Rereads g m s (call (.operators braces left .jump)) (call (.operators braces left' .jump))
      ExprShape.placeless (ShapeFollow left s) fun a s' k => ShapeFollow a s' k
  wildcard : ∀ phrase r₀ x, g phrase r₀ = .ok x → ∀ r rest, r.rest = word "_" :: rest →
    g .pattern r = .ok (.other, r.take 1 [word "_"])
  never : ∀ phrase r₀ x, g phrase r₀ = .ok x → ∀ plus r joint rest,
    r.rest = punct '!' joint :: opening .brace :: rest →
    g (.type plus) r = .ok (.other, r.take 1 [punct '!' false])
  name : ∀ plus r w rest a r', r.rest = word w :: rest → isIdentifier w = true →
    behindParameter rest = true → g (.type plus) r = .ok (a, r') → r' = r.take 1 [word w]
  noLifetime : ∀ plus r, seesLifetime r.rest = true → behindParameter (second r.rest) = true →
    ∃ fault, g (.type plus) r = .error fault
  parameters : ∀ r a r', seesParameters r.rest = true → g (.type true) r = .ok (a, r') →
    (∀ shape, a = .path shape → shape.qualified = true) ∧
      (seesBang r'.rest = false → sees "+" r'.rest = false → ∃ bracketed a' r₁,
        genericParameters.run g r = .ok (bracketed, r₁) ∧ sees "::" r₁.rest = true ∧
          g (.type true) r₁ = .ok (a', r'))
  receiver : ∀ ws ∈ [["self"], ["mut", "self"]], ∀ r rest a r', r.rest = ws.map word ++ rest →
    sees ":" rest = true → Rule.seesUntyped rest = false → g .pattern r = .ok (a, r') →
    r' = r.take ws.length (ws.map word)
  pattern : ∀ m s, Rereads g m s (call .pattern) (call .pattern) PatternShape.placeless
    (PatternFront s) fun _ => PatternFollow
  statements : ∀ m s, Rereads g m s (call .statements) (call .statements) id Outward fun _ => Ended
  namedFields : ∀ m s, Rereads g m s (call .namedFields) (call .namedFields) id (Bracketed .brace s)
    fun _ _ _ => True
  item : ∀ m s, Rereads g m s (call .item) (call .item) OuterItem.placeless
    (fun p => ends p = ends s ∧ Outward p) fun _ _ _ => True
  importTree : ∀ m s rootAdmitted,
    Rereads g m s (call (.importTree rootAdmitted)) (call (.importTree rootAdmitted))
      (Option.map ImportTree.placeless) (ImportFront s) fun _ => ImportFollow

/-- A type is read again; nothing is told of what stands behind its first word. -/
theorem Rereadable.plainType {g : PhraseReader} (hg : Rereadable g) (m : Rendition)
    (s : List Lexeme) (plus : Bool) :
    Rereads g m s (call (.type plus)) (call (.type plus)) id (TypeFront False s) fun _ => TypeFollow :=
  (hg.type m s plus False).follow_mono fun _ _ _ h => ⟨h, False.elim⟩

/-- A bound is read again; nothing is told of what stands behind a lifetime. -/
theorem Rereadable.plainBound {g : PhraseReader} (hg : Rereadable g) (m : Rendition)
    (s : List Lexeme) (captures constant : Bool) :
    Rereads g m s (call (.bound captures constant)) (call (.bound captures constant))
      BoundShape.placeless (BoundFront (fun _ _ _ => True) s) fun _ => TypeFollow :=
  (hg.bound m s captures constant _).follow_mono fun _ _ _ h => ⟨h, trivial⟩

/-! ### Behind things in lists -/

namespace Rereads

variable {s k : List Lexeme}

theorem Listed.look (h : Listed s k) : Look s k := by
  rcases h with ⟨joint, joint', s', k', rfl, rfl, -, -⟩ | h
  · exact look_punct (by decide) fun h => absurd h (by decide)
  · exact h.look

theorem Listed.type (h : Listed s k) : TypeFollow s k := by
  rcases h with ⟨joint, joint', s', k', rfl, rfl, -, -⟩ | ⟨d, s', k', rfl, rfl⟩
  · exact .of_punct (by decide) _ _ _
  · exact .of_closing _ _ _

theorem Listed.expression (h : Listed s k) : ExprFollow s k := by
  rcases h with ⟨joint, joint', s', k', rfl, rfl, -, -⟩ | ⟨d, s', k', rfl, rfl⟩
  · exact .of_punct (.inl rfl) _ _ _ _
  · exact .of_closing _ _ _

theorem Listed.of_ended (h : Ended s k) : Listed s k := .inr h

end Rereads

end TypedId.Grammar
