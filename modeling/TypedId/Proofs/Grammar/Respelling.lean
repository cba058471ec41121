import TypedId.Proofs.Grammar.Selections
import TypedId.Proofs.Grammar.Standing

/-!
How a text is written that has been read.

Most of a text is written lexeme by lexeme. There are a few places where it is not: some lexemes are left
out that say nothing, some numbers are spelt anew, and a pattern is put before a type that stands alone
(`Change`); and in angle brackets lifetimes are written first. `CarriedOver` is that relation between what
was taken and what was written. It depends on what stands before and behind, for each change is tied to
its place. A text without such places is written lexeme by lexeme (`CarriedOver.alone_eq`).
-/

namespace TypedId.Grammar

open Lexeme Rule

/-! ### Places -/

/-- Attributes, one behind the other; `inner` if they stand within the thing that they describe. -/
inductive IsAttributes (inner : Bool) : List Lexeme → Prop where
  | nil : IsAttributes inner []
  | cons (joint joint' : Bool) {content ls : List Lexeme} (hcontent : Closed content)
    (hls : IsAttributes inner ls) :
      IsAttributes inner ((punct '#' joint :: if inner then [punct '!' joint'] else []) ++
        (opening .bracket :: content ++ [closing .bracket]) ++ ls)

/-- A visibility. -/
inductive IsVisibility : List Lexeme → Prop where
  | inherited : IsVisibility []
  | unrestricted : IsVisibility [word "pub"]
  | restricted {content : List Lexeme} (hcontent : Closed content) :
      IsVisibility (word "pub" :: (opening .parenthesis :: content ++ [closing .parenthesis]))

/-- A lifetime with what stands behind it, and with attributes before it. -/
def BeginsWithLifetime (ls : List Lexeme) : Prop :=
  ∃ attributes w rest, IsAttributes false attributes ∧ ls = attributes ++ punct '\'' true :: word w :: rest

/-- Behind a point, be it the last one of a number. -/
def BehindPoint (before : List Lexeme) : Prop :=
  ∃ front, (∃ joint, before = front ++ [punct '.' joint]) ∨
    ∃ text, text.endsWith "." = true ∧ before = front ++ [Lexeme.literal text]

/-- Where an element of a list may begin: nothing stands before it, or a comma, or attributes. -/
def BeginsElement (ls : List Lexeme) : Prop :=
  ls = [] ∨ ∃ front, (∃ joint, ls = front ++ [punct ',' joint]) ∨ ls = front ++ [closing .bracket]

/-- Where a parameter of a function with a name may begin. -/
def BeforeParameter (before : List Lexeme) : Prop :=
  ∃ front name generics inner, Closed generics ∧ Closed inner ∧ BeginsElement inner ∧
    before = front ++ [word "fn", word name] ++ generics ++ opening .parenthesis :: inner

/-- Where a variant of an enumeration may begin. -/
def BeforeVariant (before : List Lexeme) : Prop :=
  ∃ front name generics inner, Closed generics ∧ Closed inner ∧ BeginsElement inner ∧
    before = front ++ [word "enum", word name] ++ generics ++ opening .brace :: inner

/-- What may stand behind the name of a variant. -/
def behindVariantName (ls : List Lexeme) : Bool :=
  ends ls || seesGroup .brace ls || seesGroup .parenthesis ls || sees "=" ls || sees "," ls

/-- What may stand behind the bounds of a parameter, a trait or a type definition. -/
def behindBounds (ls : List Lexeme) : Bool :=
  [",", ">", "=", ";"].any (sees · ls) || seesWord "where" ls || seesGroup .brace ls

/-- What begins a thing that may be kept in its source spelling. -/
def beginsKept (ls : List Lexeme) : Bool :=
  ["box", "builtin", "become"].any fun w => seesWord w ls

/-! ### Changes -/

/-- Where something is not written as it was taken: what stands before it, what is taken, what is written
and what stands behind. -/
inductive Change : List Lexeme → List Lexeme → List Lexeme → List Lexeme → Prop where
  /-- A list without parameters is left out. -/
  | parameters (before behind : List Lexeme) (joint joint' : Bool) :
      Change before [punct '<' joint, punct '>' joint'] [] behind
  /-- A `where` without conditions is left out. -/
  | conditions (before : List Lexeme) {behind : List Lexeme}
      (h : (endsConditions behind || seesColon behind) = true) : Change before [word "where"] [] behind
  /-- A colon without bounds is left out. -/
  | bounds (before : List Lexeme) {behind : List Lexeme} (joint : Bool) (h : behindBounds behind = true) :
      Change before [punct ':' joint] [] behind
  /-- Two colons before arguments in parentheses are left out. -/
  | colons (before : List Lexeme) {behind : List Lexeme} (joint joint' : Bool)
      (h : seesGroup .parenthesis behind = true) :
        Change before [punct ':' joint, punct ':' joint'] [] behind
  /-- Three dots before the end of a range are written with an equals sign. -/
  | dots (before : List Lexeme) {behind : List Lexeme} (joint joint' joint'' : Bool)
      (h : ends behind = false) (h' : sees "," behind = false) :
      Change before [punct '.' joint, punct '.' joint', punct '.' joint'']
        (Lexeme.operator "..=".toList) behind
  /-- The number that names a field of a tuple is written in plain decimal digits. -/
  | index {before behind : List Lexeme} {text : String} {index : Nat} (hindex : tupleIndex text = .ok index)
      (h : BehindPoint before ∨ sees ":" behind = true) :
      Change before [Lexeme.literal text] [indexLexeme index] behind
  /-- So are both numbers of a fraction that names fields of nested tuples. -/
  | indices {before : List Lexeme} (behind : List Lexeme) {text : String} {indices : List Nat}
      (hindices : tupleIndices text = .ok indices) (h : BehindPoint before) :
      Change before [Lexeme.literal text]
        ((indices.map indexLexeme).intersperse (punct '.' false) ++
          if text.endsWith "." then [punct '.' false] else [])
        behind
  /-- Attributes are left out before a thing that is kept in its source spelling. -/
  | attributes (before : List Lexeme) {taken behind : List Lexeme} (htaken : IsAttributes false taken)
      (h : beginsKept behind = true) : Change before taken [] behind
  /-- The visibility of a variant is left out. -/
  | visibility {before taken behind : List Lexeme} (htaken : IsVisibility taken)
    (hbefore : BeforeVariant before)
      (h : seesIdentifier behind = true) (h' : behindVariantName (second behind) = true) :
      Change before taken [] behind
  /-- A pattern is put before a parameter that is a type with arguments alone. -/
  | wildcard {before behind : List Lexeme} (hbefore : BeforeParameter before)
      (h : (seesIdentifier behind && sees "<" (second behind)) = true) :
      Change before [] [word "_", punct ':' false] behind

/-- How a text that stands between two others is carried over; `altered` tells whether something may be
written in another way than it was taken. -/
inductive CarriedOver (altered : Prop) : List Lexeme → List Lexeme → List Lexeme → List Lexeme → Prop where
  /-- Lexeme by lexeme, up to joints. -/
  | same (before : List Lexeme) {taken written : List Lexeme} (behind : List Lexeme)
      (h : written.map alone = taken.map alone) : CarriedOver altered before taken written behind
  | change {before taken written behind : List Lexeme} (haltered : altered)
    (h : Change before taken written behind) :
      CarriedOver altered before taken written behind
  /-- Part by part. -/
  | append {before taken written taken' written' behind : List Lexeme}
      (h : CarriedOver altered before taken written (taken' ++ behind))
      (h' : CarriedOver altered (before ++ taken) taken' written' behind) :
      CarriedOver altered before (taken ++ taken') (written ++ written') behind
  /-- A list in angle brackets, with its lifetimes first. -/
  | angles {before behind : List Lexeme} {pieces : List Piece} (haltered : altered) (joint joint' : Bool)
      (hpieces : pieces.Pairwise fun piece _ => piece.comma?.isSome = true)
      (hclosed : ∀ piece ∈ pieces, Closed piece.taken)
      (hlifetimes : ∀ piece ∈ pieces, piece.lifetime = true → BeginsWithLifetime piece.taken)
      (h : ∀ left piece right, pieces = left ++ piece :: right →
        CarriedOver altered (before ++ punct '<' joint :: left.flatMap Piece.source)
          piece.taken piece.written
          (piece.comma ++ (right.flatMap Piece.source ++ punct '>' joint' :: behind))) :
      CarriedOver altered before ([punct '<' joint] ++ pieces.flatMap Piece.source ++ [punct '>' joint'])
        ([punct '<' false] ++ lifetimesFirst (pieces.map Piece.item) ++ [punct '>' false]) behind

namespace CarriedOver

variable {altered : Prop} {before taken written behind : List Lexeme}

protected theorem refl (before taken behind : List Lexeme) : CarriedOver altered before taken taken behind :=
  .same before behind rfl

/-- A group is carried over with its content. -/
theorem group {d : Delimiter}
    (h : CarriedOver altered (before ++ [opening d]) taken written (closing d :: behind)) :
    CarriedOver altered before (opening d :: taken ++ [closing d])
      (opening d :: written ++ [closing d]) behind := by
  have hopened : CarriedOver altered before ([opening d] ++ taken) ([opening d] ++ written)
      ([closing d] ++ behind) :=
    append (.refl ..) h
  exact append hopened (.refl ..)

end CarriedOver

/-! ### Texts without changes -/

/-- Whether lifetimes stand before all else. -/
def LifetimesFirst (pieces : List Piece) : Prop :=
  pieces.Pairwise fun piece piece' => piece'.lifetime = true → piece.lifetime = true

/-- A text in which nothing is written in another way than it was taken. -/
structure Ordinary (before taken behind : List Lexeme) : Prop where
  unchanged : ∀ left part right written, taken = left ++ part ++ right →
    Change (before ++ left) part written (right ++ behind) → written.map alone = part.map alone
  unmoved : ∀ left (pieces : List Piece) right joint joint',
    taken = left ++ ([punct '<' joint] ++ pieces.flatMap Piece.source ++ [punct '>' joint']) ++ right →
    (∀ piece ∈ pieces, Closed piece.taken) →
    (∀ piece ∈ pieces, piece.lifetime = true → BeginsWithLifetime piece.taken) → LifetimesFirst pieces

/-- So is each part of such a text. -/
theorem Ordinary.part {before taken left part right behind : List Lexeme} (h : Ordinary before taken behind)
    (htaken : taken = left ++ part ++ right) : Ordinary (before ++ left) part (right ++ behind) := by
  refine ⟨fun left' part' right' written hpart hchange => ?_,
    fun left' pieces right' joint joint' hpart => ?_⟩
  · refine h.unchanged (left ++ left') part' (right' ++ right) written (by simp [htaken, hpart]) ?_
    simpa [List.append_assoc] using hchange
  · exact h.unmoved (left ++ left') pieces (right' ++ right) joint joint' (by simp [htaken, hpart])

/-- Where lifetimes stand before all else, nothing is moved. -/
theorem filter_lifetimes_append {items : List AngleItem}
    (h : items.Pairwise fun item item' => item'.lifetime = true → item.lifetime = true) :
    items.filter (·.lifetime) ++ items.filter (fun item => !item.lifetime) = items := by
  induction items with
  | nil => rfl
  | cons item items ih =>
      obtain ⟨hitem, hitems⟩ := List.pairwise_cons.mp h
      cases hlifetime : item.lifetime with
      | true => simp [hlifetime, ih hitems]
      | false =>
          have hnone : ∀ item' ∈ items, item'.lifetime = false := fun item' hmem => by
            by_contra hne
            exact Bool.false_ne_true (hlifetime.symm.trans (hitem item' hmem (by simpa using hne)))
          have hlifetimes : items.filter (·.lifetime) = [] := by simpa [List.filter_eq_nil_iff] using hnone
          have hothers : items.filter (fun item => !item.lifetime) = items := by
            simpa [List.filter_eq_self] using hnone
          simp [hlifetime, hlifetimes, hothers]

theorem Punctuated.lifetimesFirst_eq_flatMap {items : List AngleItem} (h : Punctuated items)
    (hfirst : items.Pairwise fun item item' => item'.lifetime = true → item.lifetime = true) :
    lifetimesFirst items = items.flatMap AngleItem.written := by
  have hsplit := filter_lifetimes_append hfirst
  rw [h.lifetimesFirst_eq, Grammar.arranged]
  split
  · rfl
  · next hall =>
    have hothers : items.filter (fun item => !item.lifetime) ≠ [] := by
      simpa [List.filter_eq_nil_iff] using hall
    -- All lifetimes have a comma, as something follows them.
    have hseparated : (items.filter (·.lifetime)).map (fun item => { item with separated := true }) =
        items.filter (·.lifetime) := by
      refine (List.map_congr_left fun item hitem => ?_).trans (List.map_id _)
      have hcomma := Punctuated.separated_of_append (hsplit.symm ▸ h) hothers hitem
      rw [← hcomma]
      rfl
    rw [hseparated, hsplit]

/-- Pieces are written in their order if lifetimes stand first and each is written as it was taken. -/
theorem LifetimesFirst.alone_eq {pieces : List Piece} (h : LifetimesFirst pieces)
    (hpieces : pieces.Pairwise fun piece _ => piece.comma?.isSome = true)
    (halone : ∀ piece ∈ pieces, piece.written.map alone = piece.taken.map alone) :
    (lifetimesFirst (pieces.map Piece.item)).map alone = (pieces.flatMap Piece.source).map alone := by
  have hpunctuated : Punctuated (pieces.map Piece.item) := List.pairwise_map.mpr hpieces
  rw [hpunctuated.lifetimesFirst_eq_flatMap (List.pairwise_map.mpr h), List.flatMap_map, List.map_flatMap,
    List.map_flatMap]
  refine List.flatMap_congr fun piece hpiece => ?_
  cases hcomma : piece.comma? <;>
    simp [AngleItem.written, Piece.item, Piece.source, Piece.comma, hcomma, halone piece hpiece,
      Lexeme.comma, alone]

namespace CarriedOver

variable {altered : Prop} {before taken written behind : List Lexeme}

/-- Where nothing is altered, a text is carried over lexeme by lexeme. -/
theorem alone_eq_of_unaltered (h : CarriedOver False before taken written behind) :
    written.map alone = taken.map alone := by
  induction h with
  | same _ _ h => exact h
  | append _ _ ih ih' => rw [List.map_append, List.map_append, ih, ih']
  | change haltered => exact haltered.elim
  | angles haltered => exact haltered.elim

/-- A text without changes is carried over lexeme by lexeme. -/
theorem alone_eq (h : CarriedOver altered before taken written behind)
    (hordinary : Ordinary before taken behind) :
    written.map alone = taken.map alone := by
  induction h with
  | same _ _ h => exact h
  | @change before taken written behind _ h =>
      exact hordinary.unchanged [] taken [] written (by simp) (by simpa using h)
  | @append before taken written taken' written' behind _ _ ih ih' =>
      have hone : Ordinary (before ++ []) taken (taken' ++ behind) := hordinary.part rfl
      have htwo : Ordinary (before ++ taken) taken' ([] ++ behind) := hordinary.part (List.append_nil _).symm
      rw [List.append_nil] at hone
      rw [List.map_append, List.map_append, ih hone, ih' htwo]
  | @angles before behind pieces _ joint joint' hpieces hclosed hlifetimes _ ih =>
      have hfirst : LifetimesFirst pieces :=
        hordinary.unmoved [] pieces [] joint joint' (by simp) hclosed hlifetimes
      have halone := hfirst.alone_eq hpieces fun piece hpiece => by
        obtain ⟨left, right, rfl⟩ := List.append_of_mem hpiece
        refine ih left piece right rfl ?_
        have hsplit : [punct '<' joint] ++ (left ++ piece :: right).flatMap Piece.source ++
            [punct '>' joint'] =
            (punct '<' joint :: left.flatMap Piece.source) ++ piece.taken ++
              (piece.comma ++ (right.flatMap Piece.source ++ [punct '>' joint'])) := by
          simp [Piece.source]
        simpa using hordinary.part hsplit
      simp [halone, alone]

end CarriedOver

/-! ### Texts that are plain -/

/-- Whether a number is written as it is spelt, also where it names fields of tuples. -/
def isPlainIndex (text : String) : Bool :=
  (match tupleIndex text with
    | .ok index => indexLexeme index == Lexeme.literal text
    | .error _ => true) &&
  match tupleIndices text with
    | .ok indices => (indices.map indexLexeme).intersperse (punct '.' false) ++
        (if text.endsWith "." then [punct '.' false] else []) == [Lexeme.literal text]
    | .error _ => true

/-- Whether nothing begins here that could be written in another way than it is taken. -/
def isPlainHere : List Lexeme → Bool
  | punct '<' _ :: _ => false
  | punct ':' _ :: rest => !behindBounds rest && !(sees ":" rest && seesGroup .parenthesis (rest.drop 1))
  | punct '.' _ :: punct '.' _ :: punct '.' _ :: _ => false
  | word w :: _ => !(["where", "enum", "box", "builtin", "become"].contains w)
  | Lexeme.literal text :: _ => isPlainIndex text
  | _ => true

/-- Whether that is so of a text wherever something may begin. -/
def isPlain : List Lexeme → Bool
  | [] => true
  | l :: ls => isPlainHere (l :: ls) && isPlain ls

theorem isPlain_of_append {left ls : List Lexeme} (h : isPlain (left ++ ls) = true) : isPlain ls = true := by
  induction left with
  | nil => exact h
  | cons l left ih => exact ih ((Bool.and_eq_true _ _).mp h).2

theorem isPlainHere_of_isPlain {l : Lexeme} {ls : List Lexeme} (h : isPlain (l :: ls) = true) :
    isPlainHere (l :: ls) = true :=
  ((Bool.and_eq_true _ _).mp h).1

theorem not_mem_enum_of_isPlain {ls ls' : List Lexeme} (h : isPlain (ls ++ ls') = true) :
    word "enum" ∉ ls := by
  intro hmem
  obtain ⟨left, right, rfl⟩ := List.append_of_mem hmem
  rw [List.append_assoc] at h
  exact Bool.noConfusion (isPlainHere_of_isPlain (isPlain_of_append h))

/-- What begins with a word that may be kept in its source spelling is not plain. -/
theorem beginsKept_eq_false_of_isPlain {ls : List Lexeme} (h : isPlain ls = true) :
    beginsKept ls = false := by
  cases ls with
  | nil => rfl
  | cons l ls =>
      have hhere := isPlainHere_of_isPlain h
      cases l with
      | word w =>
          simp only [isPlainHere, List.contains_cons, Bool.not_eq_true', Bool.or_eq_false_iff] at hhere
          obtain ⟨-, -, hbox, hbuiltin, hbecome, -⟩ := hhere
          simp [beginsKept, seesWord, hbox, hbuiltin, hbecome]
      | _ => rfl

/-- Nothing of a plain text is written in another way than it is taken. -/
theorem Change.alone_eq_of_isPlain {before taken written behind : List Lexeme}
    (h : Change before taken written behind)
    (hplain : isPlain (taken ++ behind) = true) (hbefore : word "enum" ∉ before) :
    written.map alone = taken.map alone := by
  cases h with
  | parameters => exact Bool.noConfusion (isPlainHere_of_isPlain hplain)
  | conditions => exact Bool.noConfusion (isPlainHere_of_isPlain hplain)
  | bounds joint h =>
      have hhere := isPlainHere_of_isPlain hplain
      simp [isPlainHere, h] at hhere
  | colons joint joint' h =>
      have hhere := isPlainHere_of_isPlain hplain
      have hcolon : sees ":" (punct ':' joint' :: behind) = true := rfl
      simp [isPlainHere, h, hcolon] at hhere
  | dots => exact Bool.noConfusion (isPlainHere_of_isPlain hplain)
  | index hindex =>
      have hhere := ((Bool.and_eq_true _ _).mp (isPlainHere_of_isPlain hplain)).1
      rw [hindex] at hhere
      rw [beq_iff_eq.mp hhere]
  | indices _ hindices =>
      have hhere := ((Bool.and_eq_true _ _).mp (isPlainHere_of_isPlain hplain)).2
      rw [hindices] at hhere
      rw [beq_iff_eq.mp hhere]
  | attributes htaken h =>
      exact Bool.noConfusion ((beginsKept_eq_false_of_isPlain (isPlain_of_append hplain)).symm.trans h)
  | visibility htaken h =>
      obtain ⟨front, name, generics, inner, -, -, -, rfl⟩ := h
      simp at hbefore
  | wildcard _ h =>
      obtain ⟨hname, hless⟩ := (Bool.and_eq_true _ _).mp h
      obtain ⟨w, ls, rfl, -⟩ := exists_of_seesIdentifier hname
      obtain ⟨joint, ls, rfl⟩ : ∃ joint rest, ls = punct '<' joint :: rest := exists_of_sees (c := '<') hless
      have hrest : isPlain ([word w] ++ punct '<' joint :: ls) = true := hplain
      exact Bool.noConfusion (isPlainHere_of_isPlain (isPlain_of_append hrest))

/-- A plain text is ordinary. -/
theorem Ordinary.of_isPlain {before taken behind : List Lexeme} (h : isPlain (taken ++ behind) = true)
    (hbefore : word "enum" ∉ before) : Ordinary before taken behind := by
  refine ⟨fun left part right written htaken hchange => ?_, fun left pieces right joint joint' htaken => ?_⟩
  · subst htaken
    rw [List.append_assoc, List.append_assoc] at h
    exact hchange.alone_eq_of_isPlain (isPlain_of_append h)
      (List.not_mem_append hbefore (not_mem_enum_of_isPlain h))
  · subst htaken
    rw [List.append_assoc, List.append_assoc, List.append_assoc] at h
    exact Bool.noConfusion (isPlainHere_of_isPlain (isPlain_of_append h))

end TypedId.Grammar
