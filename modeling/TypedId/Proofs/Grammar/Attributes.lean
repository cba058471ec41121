import TypedId.Proofs.Grammar.Phrases

/-!
Plain paths, attributes, blocks and visibilities are read again.
-/

namespace TypedId.Grammar

open Lexeme

/-! ### Plain paths -/

/-- Both texts begin with the same words of a plain path, and go on alike behind it. -/
inductive PathWords (rest : List Lexeme → List Lexeme → Prop) : List Lexeme → List Lexeme → Prop where
  | last {s p : List Lexeme} (w : String) (hw : Rule.seesPathWord [word w] = true)
      (hs : sees "::" s = false) (hp : sees "::" p = false) (h : rest s p) :
      PathWords rest (word w :: s) (word w :: p)
  | further {s p : List Lexeme} (w : String) (hw : Rule.seesPathWord [word w] = true)
      (joint joint' : Bool) (h : PathWords rest s p) :
      PathWords rest (word w :: punct ':' true :: punct ':' joint :: s)
        (word w :: punct ':' true :: punct ':' joint' :: p)

/-- Both texts begin with the same plain path, and go on alike behind it. -/
def PathSpelt (rest : List Lexeme → List Lexeme → Prop) (s p : List Lexeme) : Prop :=
  PathWords rest s p ∨ Spelt [':', ':'] (PathWords rest) s p

variable {g : PhraseReader} {m : Rendition} {s p : List Lexeme}
  {rest : List Lexeme → List Lexeme → Prop}

theorem PathWords.look (h : PathWords rest s p) : Look s p := by
  cases h with
  | last w => exact look_word w _ _
  | further w => exact look_word w _ _

theorem PathSpelt.look (h : PathSpelt rest s p) : Look s p :=
  h.elim PathWords.look look_colons

/-- Behind the words stands what was said. -/
theorem PathWords.afterPathWords (h : PathWords rest s p) :
    ∃ s' p', Rule.afterPathWords s = some s' ∧ Rule.afterPathWords p = some p' ∧ rest s' p' := by
  have hlast : ∀ w ls, Rule.seesPathWord [word w] = true → sees "::" ls = false →
      Rule.afterPathWords (word w :: ls) = some ls := by
    intro w ls hw hls
    unfold Rule.afterPathWords
    rw [if_pos hw]
    split
    · simp [sees, startsWith] at hls
    · rfl
  induction h with
  | last w hw hs hp h => exact ⟨_, _, hlast w _ hw hs, hlast w _ hw hp, h⟩
  | further w hw joint joint' _ ih =>
      obtain ⟨s', p', hs', hp', h⟩ := ih
      exact ⟨s', p', by rw [Rule.afterPathWords, if_pos hw, hs'],
        by rw [Rule.afterPathWords, if_pos hw, hp'], h⟩

theorem PathSpelt.afterPlainPath (h : PathSpelt rest s p) :
    ∃ s' p', Rule.afterPlainPath s = some s' ∧ Rule.afterPlainPath p = some p' ∧ rest s' p' := by
  rcases h with h | ⟨s, p, rfl, rfl, joint, joint', s, p, rfl, rfl, -, h⟩
  · have hcolons : sees "::" s = false ∧ sees "::" p = false := by cases h <;> exact ⟨rfl, rfl⟩
    simpa [Rule.afterPlainPath, hcolons] using h.afterPathWords
  · simpa [Rule.afterPlainPath, sees, startsWith] using h.afterPathWords

/-- Reads the words of a plain path. -/
def Rule.plainWords : Rule Unit :=
  repeating (fun further : Bool => do
    if seesPathWord (← ahead) then
      let _ ← anyWord
      if ← operator? "::" then return .inl true else return .inr ()
    else if further then .complain .pathSegment
    else
      let _ ← identifier
      return .inr ()) false

theorem Rule.plainPath_eq : Rule.plainPath = (do let _ ← operator? "::"; plainWords) := rfl

/-- Where no word of a path is seen, there is no identifier. -/
theorem Rule.run_identifier_of_not_seesPathWord {r : Reader} (h : seesPathWord r.rest = false) :
    ∃ fault, identifier.run g r = .error fault := by
  cases hrun : identifier.run g r with
  | error fault => exact ⟨fault, rfl⟩
  | ok x =>
      rw [run_identifier_eq] at hrun
      obtain ⟨w, rest', hr, hw⟩ := word_of_run_identifierOr hrun
      rw [hr] at h
      simp [seesPathWord, seesIdentifier] at h hw
      exact (Bool.false_ne_true (h.1.symm.trans hw)).elim

namespace Rereads

/-- The words of a path are read again. -/
theorem plainWords :
    Rereads g m s Rule.plainWords Rule.plainWords id (PathWords rest s)
      fun _ s' k => rest s' k ∧ sees "::" k = false := by
  -- What is seen behind a word.
  let behind (s p : List Lexeme) : Prop :=
    Spelt [':', ':'] (PathWords rest) s p ∨ (sees "::" s = false ∧ sees "::" p = false ∧ rest s p)
  have hbehind : ∀ s p, behind s p → sees "::" p = sees "::" s := by
    rintro s p (h | ⟨hs, hp, -⟩)
    · exact h.startsWith.2.trans h.startsWith.1.symm
    · rw [hs, hp]
  have hword : ∀ {s p w}, Rule.seesPathWord s = true → Worded w behind s p → PathWords rest s p := by
    rintro _ _ w hw ⟨s', p', rfl, rfl, ⟨s'', p'', rfl, rfl, joint, joint', s₃, p₃, rfl, rfl, -, h⟩ |
      ⟨hs, hp, h⟩⟩
    · exact .further w hw joint joint' h
    · exact .last w hw hs hp h
  have hidentifier : ∀ {s}, Rule.seesPathWord s = false → ∀ (r : Reader), r.rest = s →
      ∃ fault, (Rule.identifier >>= fun _ => (Pure.pure (.inr ()) : Rule (Bool ⊕ Unit))).run g r =
        .error fault := by
    intro s hs r hr
    obtain ⟨fault, h⟩ := Rule.run_identifier_of_not_seesPathWord (g := g) (r := r) (hr ▸ hs)
    exact ⟨fault, by rw [Rule.run_bind, h]⟩
  refine repeating id (fun _ => PathWords rest) (fun _ => PathWords rest) (fun x x' s hx => ?_)
    (fun _ _ _ => id) (fun x s => ?_) rfl
  · obtain rfl : x' = x := hx
    refine ahead (.sight (fun _ p hp => ?_) (fun hw => ?_) fun hw => ?_)
    · cases hp <;> rfl
    · refine anyWord_then (fun _ => behind) (fun _ _ _ s' => ?_) fun w p hp => hword hw hp
      refine (operator? (hbehind s') (fun _ => ?_) fun hs' => ?_ :
        Rereads g m s' _ _ _ (behind s') _)
      · refine operator_then "::" (PathWords rest) (fun s₂ => ?_) fun p hp => .inl hp
        exact pure _ _ rfl fun k hk => hk
      · exact pure _ _ rfl fun k hk => .inr ⟨hs', hk.2, hk.1⟩
    · exact .sight (fun _ _ _ => rfl) (fun _ => .complain _) fun _ => .of_error (hidentifier hw)
  · exact .ahead (.ite (fun _ => .bind_left anyWord_solid) fun hw =>
      .ite (fun _ => .complain _) fun _ => .of_error (hidentifier (by simpa using hw)))

/-- A path of words is read again. -/
theorem plainPath (rest : List Lexeme → List Lexeme → Prop) :
    Rereads g m s Rule.plainPath Rule.plainPath id (PathSpelt rest s)
      fun _ s' k => rest s' k ∧ sees "::" k = false := by
  rw [Rule.plainPath_eq]
  refine operator? (fun p hp => hp.look.colons) (fun _ => ?_) fun _ => ?_
  · exact operator_then "::" (PathWords rest) (fun s' => plainWords) fun p hp => .inr hp
  · exact plainWords.front_mono fun p hp => .inl hp

/-! ### Attributes -/

end Rereads

/-- A guard that is not seen in the first text is not seen in the second. -/
theorem Look.not_guard (h : Look s p) {operator : String} (hmem : operator ∈ guards)
    (hs : sees operator s = false) : sees operator p = false := by
  cases hp : sees operator p with
  | false => rfl
  | true => rw [h.guard operator hmem hp] at hs; cases hs

/-- Both texts begin with an attribute. -/
def AttributeSpelt (inner : Bool) : List Lexeme → List Lexeme → Prop :=
  Spelt ['#'] (if inner then Spelt ['!'] (Bracketed .bracket) else Bracketed .bracket)

theorem AttributeSpelt.hash {inner : Bool} (h : AttributeSpelt inner s p) :
    sees "#" s = true ∧ sees "#" p = true :=
  Spelt.startsWith h

theorem AttributeSpelt.second {inner : Bool} (h : AttributeSpelt inner s p) :
    (if inner then Spelt ['!'] (Bracketed .bracket) else Bracketed .bracket) (second s) (second p) := by
  obtain ⟨joint, joint', s', p', rfl, rfl, -, h⟩ := h
  rwa [second_punct (by decide), second_punct (by decide)]

/-- How the value of an attribute looks at its beginning. -/
structure ValueFront (s p : List Lexeme) : Prop extends Look s p where
  separate : sees "::" p = false
  equality : sees "==" s = false
  arrow : sees "=>" s = false

/-- Attributes stand before both texts, or before none of them. -/
def Attributed (rest : List Lexeme → List Lexeme → Prop) (s p : List Lexeme) : Prop :=
  AttributeSpelt false s p ∨ (sees "#" s = false ∧ sees "#" p = false ∧ rest s p)

theorem AttributeSpelt.look {inner : Bool} (h : AttributeSpelt inner s p) : Look s p := by
  obtain ⟨joint, joint', s', p', rfl, rfl, -, -⟩ := h
  exact look_punct (by decide) fun h => absurd h (by decide)

theorem Attributed.look (h : Attributed rest s p) (hrest : ∀ s p, rest s p → Look s p) : Look s p :=
  h.elim AttributeSpelt.look fun h => hrest s p h.2.2

theorem ExprFront.attribute (h : ExprFront s p) :
    (sees "#" p && seesGroup .bracket (second p)) = (sees "#" s && seesGroup .bracket (second s)) := by
  have hchar : sees "#" p = sees "#" s := h.operator "#" rfl
  cases hs : sees "#" s with
  | false => rw [hchar, hs]; rfl
  | true => rw [hchar, hs, h.outward.1 hs, h.outward.2 (hchar.trans hs)]

/-- No inner attribute comes next where no attribute of what surrounds a text begins it. -/
theorem Outward.not_seesInner {ls : List Lexeme} (h : Outward ls) :
    (sees "#" ls && sees "!" (second ls)) = false := by
  rw [Bool.and_eq_false_iff]
  by_cases hhash : sees "#" ls = true
  · obtain ⟨ls', hls'⟩ := Rereads.exists_of_seesGroup (h hhash)
    exact .inr (by rw [hls']; rfl)
  · exact .inl (Bool.eq_false_iff.mpr hhash)

namespace Rereads

/-- The value of an attribute is read again. -/
theorem attributeValue (hg : Rereadable g) :
    Rereads g m s Rule.attributeValue Rule.attributeValue id (ValueFront s) fun _ => Ended := by
  unfold Rule.attributeValue
  refine ahead (.sight (fun _ p hp => hp.anyGroup) (fun _ => ?_) fun _ => ?_)
  · refine anyGroup_then (fun _ => Ended) (fun d s' => ?_) fun d p hp => ?_
    · exact pure _ _ rfl fun k hk => hk
    · obtain ⟨content, s', p', rfl, rfl, -, -⟩ := hp
      exact ⟨look_opening d _ _, rfl, rfl, rfl⟩
  · refine .sight (fun _ p hp => ?_) (fun hequals => ?_) fun _ => ?_
    · have hchar : sees "=" p = sees "=" s := hp.char '='
      rw [hchar, hp.equality, hp.arrow, hp.not_guard (by decide) hp.equality,
        hp.not_guard (by decide) hp.arrow]
    · simp only [Bool.and_eq_true, Bool.not_eq_true'] at hequals
      refine operator_then "=" ExprFront (fun s' => ?_) fun p hp => ?_
      · refine ahead (.sight (fun _ p hp => hp.attribute) (fun _ => .complain _) fun _ => ?_)
        refine (hg.expression m s' true).bind fun _ _ s₂ _ => ?_
        refine pure _ _ rfl fun k hk => ?_
        obtain ⟨d, s₃, k', rfl, rfl⟩ := hk
        exact (ExprFollow.of_closing s₃ d k').shape _
      · have hlook := hp.look (by decide) fun _ _ _ h => h.toLook
        obtain ⟨_, _, _, p', _, rfl, _, _⟩ := hp
        exact ⟨hlook, rfl, hequals.1.2, hequals.2⟩
    · refine pure _ _ rfl fun k hk => ?_
      obtain ⟨d, s', k', rfl, rfl⟩ := hk
      exact ⟨look_closing d _ _, rfl, rfl, rfl⟩

/-- What stands between the brackets of an attribute is read again. -/
theorem attributeContent (hg : Rereadable g) :
    Rereads g m s
      (do
        if seesWord "unsafe" (← Rule.ahead) then Rule.keyword "unsafe" else Rule.plainPath
        Rule.attributeValue)
      (do
        if seesWord "unsafe" (← Rule.ahead) then Rule.keyword "unsafe" else Rule.plainPath
        Rule.attributeValue) id (Look s) fun _ => Ended := by
  dsimp only
  refine ahead (.sight (fun _ p hp => hp.word _) (fun _ => ?_) fun _ => ?_)
  · exact keyword_then "unsafe" ValueFront (fun s' => attributeValue hg) fun p hp => hp.look
  · refine ((plainPath ValueFront).bind fun _ _ s' _ => ?_).front_mono fun p hp => PathSpelt.look hp
    exact (attributeValue hg).front_mono fun p hp => ⟨hp, hp.separate⟩

/-- An attribute is read again. -/
theorem singleAttribute (hg : Rereadable g) (inner : Bool)
    {follow : Attribute → List Lexeme → List Lexeme → Prop} :
    Rereads g m s (Rule.singleAttribute inner) (Rule.singleAttribute inner) id (AttributeSpelt inner s)
      follow := by
  have hbrackets : ∀ {s}, Rereads g m s (Rule.within .bracket _) (Rule.within .bracket _) id
      (Bracketed .bracket s) fun _ _ _ => True := fun {s} =>
    (within Look fun s' _ => attributeContent hg).front_mono fun _ => Opened.bracketed
  unfold Rule.singleAttribute
  dsimp only
  refine hold id (fun _ _ _ => True) (operator_then "#"
    (if inner then Spelt ['!'] (Bracketed .bracket) else Bracketed .bracket)
    (fun s' => ?_) fun p hp => hp) (fun _ text => Pure.pure ⟨inner, text⟩)
    (fun _ text => Pure.pure ⟨inner, text⟩) (fun _ _ => rfl) (fun _ _ => rfl) fun _ _ text s' _ => ?_
  · cases inner with
    | false => exact hbrackets
    | true => exact operator_then "!" (Bracketed .bracket) (fun _ => hbrackets) fun p hp => hp
  · exact pure _ _ rfl fun _ _ => trivial

theorem singleAttribute_solid (hg : Rereadable g) (inner : Bool) :
    Solid g m s (Rule.singleAttribute inner) fun _ => True :=
  (singleAttribute hg inner : Rereads g m s _ _ _ _ fun _ _ _ => True).solid (fun _ _ _ => trivial)
    fun _ _ _ _ _ _ h => by
      obtain ⟨_, _, _, _, _, h, _⟩ := h
      cases h

/-! ### Several attributes -/

/-- The attributes before a thing are read again. -/
theorem outerAttributes (hg : Rereadable g) (rest : List Lexeme → List Lexeme → Prop) :
    Rereads g m s Rule.outerAttributes Rule.outerAttributes id (Attributed rest s)
      fun _ s' k => sees "#" s' = false → rest s' k ∧ sees "#" k = false := by
  have hloop : Rereads g m s Rule.outerAttributes Rule.outerAttributes (List.map id)
      (Attributed rest s) fun _ s' k => sees "#" s' = false → Attributed rest s' k := by
    refine while_ (Attributed rest) (fun s p hp => ?_) (fun s _ => singleAttribute_solid hg false)
      fun s _ => ?_
    · rcases hp with hp | ⟨hs, hp, -⟩
      · rw [hp.hash.1, hp.hash.2]
      · rw [hs, hp]
    · exact (singleAttribute hg false).front_mono fun p hp => .inl hp
  refine (hloop.follow_mono fun _ s' k hk hs => .inr ⟨hs, (hk hs).2, (hk hs).1⟩).keep_mono
    fun a a' h => ?_
  simpa using h

/-- The attributes at the beginning of a thing's content are read again. -/
theorem innerAttributes (hg : Rereadable g) :
    Rereads g m s Rule.innerAttributes Rule.innerAttributes id (fun _ => True)
      fun _ _ => Outward := by
  let wanted (ls : List Lexeme) : Bool := sees "#" ls && sees "!" (second ls)
  have hspelt : ∀ {s p}, AttributeSpelt true s p → wanted s = true ∧ wanted p = true := by
    intro s p h
    have hmark : sees "!" (second s) = true ∧ sees "!" (second p) = true := Spelt.startsWith h.second
    simp only [wanted, h.hash, hmark, Bool.and_self, and_self]
  have hloop : Rereads g m s Rule.innerAttributes Rule.innerAttributes (List.map id)
      (fun p => wanted p = wanted s) fun _ s' k => wanted s' = false → wanted k = wanted s' := by
    refine while_ (fun s p => wanted p = wanted s) (fun s p hp => hp)
      (fun s _ => singleAttribute_solid hg true) fun s _ => ?_
    exact (singleAttribute hg true).front_mono fun p hp => (hspelt hp).2.trans (hspelt hp).1.symm
  refine (hloop.mono (fun _ _ => trivial) fun _ s' k hk hs => hk.not_seesInner.trans hs.symm).keep_mono
    fun a a' h => ?_
  simpa using h

/-! ### Blocks -/

/-- A block is read again. -/
theorem block (hg : Rereadable g) {follow : Unit → List Lexeme → List Lexeme → Prop} :
    Rereads g m s Rule.block Rule.block id (Bracketed .brace s) follow :=
  (within (fun _ => Outward) fun s' _ => hg.statements m s').front_mono fun _ => Opened.bracketed

/-- A block that may begin with attributes is read again. -/
theorem attributedBlock (hg : Rereadable g) {follow : Unit → List Lexeme → List Lexeme → Prop} :
    Rereads g m s Rule.attributedBlock Rule.attributedBlock id (Bracketed .brace s) follow := by
  have hcontent : ∀ s, Rereads g m s (do let _ ← Rule.innerAttributes; Rule.call .statements)
      (do let _ ← Rule.innerAttributes; Rule.call .statements) id (fun _ => True) fun _ => Ended :=
    fun s => (innerAttributes hg).bind fun _ _ s' _ => hg.statements m s'
  exact (within (fun _ _ => True) fun s' _ => hcontent s').front_mono fun _ => Opened.bracketed

/-! ### Visibility -/

end Rereads

/-- A visibility stands before both texts, or before none of them. -/
def Visible (rest : List Lexeme → List Lexeme → Prop) (s p : List Lexeme) : Prop :=
  Worded "pub" (fun _ _ => True) s p ∨
    (seesWord "pub" s = false ∧ seesWord "pub" p = false ∧ rest s p)

/-- Behind a visibility: no part of one comes new. -/
structure VisibilityFollow (s k : List Lexeme) : Prop where
  visibility : seesWord "pub" s = false → seesWord "pub" k = false
  restriction : Rule.seesRestriction s = false → Rule.seesRestriction k = false
  restrictingPath : Rule.seesRestrictingPath s = false → Rule.seesRestrictingPath k = false

namespace Rereads

theorem seesRestrictingPath_word (w : String) (ls : List Lexeme) :
    Rule.seesRestrictingPath (opening .parenthesis :: word w :: ls) = (w == "in") := by
  unfold Rule.seesRestrictingPath
  split
  · next h =>
    cases h
    rfl
  · next h => simpa using fun hw => h ls (by rw [hw])

/-- A single word that restricts a visibility stands in parentheses. -/
theorem exists_of_seesRestriction (hb : Balanced s) (h : Rule.seesRestriction s = true) :
    ∃ w s', s = opening .parenthesis :: word w :: closing .parenthesis :: s' := by
  unfold Rule.seesRestriction at h
  split at h
  · next w d s' =>
    obtain ⟨stack, hstack⟩ := hb
    cases d with
    | parenthesis => exact ⟨w, s', rfl⟩
    | bracket | brace => cases stack <;> simp [balanced] at hstack
  · cases h

/-- What may restrict a visibility is read again. -/
theorem restriction :
    Rereads g m s
      (do
        let ls ← Rule.ahead
        if Rule.seesRestriction ls then Rule.copy 3
        else if Rule.seesRestrictingPath ls then
          Rule.within .parenthesis do
            Rule.keyword "in"
            Rule.plainPath)
      (do
        let ls ← Rule.ahead
        if Rule.seesRestriction ls then Rule.copy 3
        else if Rule.seesRestrictingPath ls then
          Rule.within .parenthesis do
            Rule.keyword "in"
            Rule.plainPath)
      id (fun p => Rule.seesRestriction p = Rule.seesRestriction s ∧
        Rule.seesRestrictingPath p = Rule.seesRestrictingPath s) fun _ => VisibilityFollow := by
  refine ahead (.sight (fun _ p hp => hp.1) (fun hs => ?_) fun hs => ?_)
  · refine .of_run fun r _ _ hr hb hrun => ?_
    obtain ⟨w, s', rfl⟩ := exists_of_seesRestriction hb hs
    have hcopy : ∀ (r : Reader) rest,
        r.rest = [opening .parenthesis, word w, closing .parenthesis] ++ rest → r.stray = none →
        (Rule.copy 3).run g r = .ok ((), r.after [opening .parenthesis, word w, closing .parenthesis]
          [opening .parenthesis, word w, closing .parenthesis] rest) := by
      intro r rest hr hstray
      rw [Rule.run_copy, ← Reader.take_eq_after _ _ hr hstray, hr]
      rfl
    refine .of_after [opening .parenthesis, word w, closing .parenthesis]
      [opening .parenthesis, word w, closing .parenthesis] rfl (Closed.word w).group
      (fun _ => ()) (fun _ => ()) (fun _ _ => rfl) (fun r hr => hcopy r s' hr) (fun q k hq hq' => ?_)
      fun _ k _ => ?_
    · rw [m.text_self] at hq ⊢
      exact hcopy q k hq hq'
    · rw [m.text_self]
      exact ⟨rfl, (seesRestrictingPath_word w _).trans (seesRestrictingPath_word w _).symm⟩
  · refine .sight (fun _ p hp => hp.2) (fun hpath => ?_) fun hpath => ?_
    · refine (within (Worded "in" fun _ _ => True) fun s' _ => ?_).front_mono fun p hp => ?_
      · refine keyword_then "in" (PathSpelt Ended) (fun s₂ => ?_) fun p hp => hp.mono fun _ _ _ => trivial
        refine (plainPath Ended).follow_mono fun _ s₃ k hk => ⟨hk, ?_⟩
        obtain ⟨d, s₄, k', rfl, rfl⟩ := hk
        rfl
      · obtain ⟨s', p', rfl, rfl, s₂, p₂, rfl, rfl, -⟩ := hp
        have hin : ∀ ls, Rule.seesRestriction (opening .parenthesis :: word "in" :: ls) = false := by
          intro ls
          unfold Rule.seesRestriction
          split
          · next h => cases h; decide
          · rfl
        exact ⟨(hin p₂).trans (hin s₂).symm, rfl⟩
    · exact pure _ _ rfl fun k hk =>
        ⟨(hk.restriction hs).trans hs.symm, (hk.restrictingPath hpath).trans hpath.symm⟩

/-- A visibility is read again. -/
theorem visibility (rest : List Lexeme → List Lexeme → Prop) :
    Rereads g m s Rule.visibility Rule.visibility id (Visible rest s)
      fun _ s' k => rest s' k ∧ VisibilityFollow s' k := by
  unfold Rule.visibility
  dsimp only
  refine hold id (fun _ s' k => rest s' k ∧ VisibilityFollow s' k) (keyword? (fun p hp => ?_)
    (fun hs => ?_) fun hs => ?_) (fun _ text => Pure.pure text) (fun _ text => Pure.pure text)
    (fun _ _ => rfl) (fun _ _ => rfl) fun _ _ text s' _ => ?_
  · rcases hp with ⟨s', p', rfl, rfl, -⟩ | ⟨hs, hp, -⟩
    · rfl
    · rw [hs, hp]
  · simp only [if_true]
    exact keyword_then "pub" _ (fun s' => restriction.follow_mono fun _ _ _ hk => hk.2) fun p hp =>
      .inl (hp.mono fun _ _ _ => trivial)
  · exact pure _ _ rfl fun k hk => .inr ⟨hs, hk.2.visibility hs, hk.1⟩
  · exact pure _ _ rfl fun k hk => hk

/-! ### Uses of macros -/

/-- The arguments of a macro are read again. -/
theorem macroArguments (rest : Delimiter → List Lexeme → List Lexeme → Prop) :
    Rereads g m s Rule.macroArguments Rule.macroArguments id
      (fun p => ∃ d, Spelt ['!'] (Enclosed d (rest d)) s p) rest := by
  unfold Rule.macroArguments
  refine operator_then "!" (fun s p => ∃ d, Enclosed d (rest d) s p) (fun s' => anyGroup) fun p hp => ?_
  obtain ⟨joint, joint', s', p', hs, hp, hjoint, d, h⟩ := hp
  exact ⟨d, joint, joint', s', p', hs, hp, hjoint, h⟩

end Rereads

end TypedId.Grammar
