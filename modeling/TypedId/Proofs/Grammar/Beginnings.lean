import TypedId.Proofs.Grammar.Operators

/-!
How expressions begin.

What kind of expression comes next is told by its first lexemes, and so is whether a statement or an
item comes next instead. `AtomStart` says that all this is seen again. Mostly the first element
decides; behind a few words the next two do, and behind a path that what follows it.
-/

namespace TypedId.Grammar

open Lexeme Rule

variable {s p : List Lexeme} {rest : List Lexeme → List Lexeme → Prop}

/-- How an expression looks at its beginning to one who reads it. -/
structure AtomStart (s p : List Lexeme) : Prop extends ExprFront s p where
  asyncBlock : seesAsyncBlock p = seesAsyncBlock s
  tryBlock : (seesWord "try" p && seesGroup .brace (second p)) =
    (seesWord "try" s && seesGroup .brace (second s))
  closure : seesClosure p = seesClosure s
  builtin : (seesWord "builtin" p && sees "#" (second p)) =
    (seesWord "builtin" s && sees "#" (second s))
  path : seesPathExpression p = seesPathExpression s

/-! ### Anything but a word -/

/-- Where no word comes first, none is seen. -/
theorem not_seesWord {ls : List Lexeme} (h : seesAnyWord ls = false) :
    (∀ w, seesWord w ls = false) ∧ seesIdentifier ls = false :=
  ⟨fun _ => Bool.eq_false_iff.mpr fun hw => Bool.noConfusion (h.symm.trans (seesAnyWord_of_word hw)),
    Bool.eq_false_iff.mpr fun hw => Bool.noConfusion (h.symm.trans (seesAnyWord_of_identifier hw))⟩

theorem afterPlainPath_of_not_word {ls : List Lexeme} (h : seesAnyWord ls = false)
    (hcolons : sees "::" ls = false) : afterPlainPath ls = none := by
  rw [afterPlainPath, if_neg (by simp [hcolons])]
  unfold afterPathWords
  split
  · cases h
  · rfl

/-- Without a word, nothing but the use of a macro can be an item. -/
theorem seesItem_of_not_word {ls : List Lexeme} (h : seesAnyWord ls = false) :
    seesItem ls = seesDeclaringMacro ls := by
  simp [seesItem, (not_seesWord h).1]

/-- Neither an item nor the use of a macro begins without a word. -/
theorem not_seesItem {ls : List Lexeme} (h : seesAnyWord ls = false) (hcolons : sees "::" ls = false) :
    seesItem ls = false ∧ seesMacroStatement ls = false := by
  constructor
  · rw [seesItem_of_not_word h, seesDeclaringMacro, afterPlainPath_of_not_word h hcolons]
    rfl
  · rw [seesMacroStatement, afterPlainPath_of_not_word h hcolons]
    rfl

/-- Anything but a word and two colons. -/
theorem ExprFront.of_look (h : Look s p) (hword : seesAnyWord s = false)
    (hcolons : sees "::" s = false) (hs : sees "=" s = false ∧ sees ">" s = false)
    (houtward : Outward s ∧ Outward p)
    (hnegative : ∀ joint joint', seesLiteral (punct '-' joint' :: p) = seesLiteral (punct '-' joint :: s)) :
    ExprFront s p := by
  have hword' := h.anyWord.trans hword
  have hcolons' := h.colons.trans hcolons
  refine ⟨h, houtward, hs.1, hs.2, hnegative, fun hraw => ?_, fun _ => (not_seesItem hword' hcolons').1,
    fun _ => (not_seesItem hword' hcolons').2, ?_⟩
  · exact Bool.noConfusion (((not_seesWord hword).1 _).symm.trans hraw)
  · simp only [seesBlockExpression, seesGeneralClosure, (not_seesWord hword).1, (not_seesWord hword').1,
      h.group, h.lifetime, List.any_cons, List.any_nil, Bool.false_and, Bool.or_false]

theorem outward_of_not_sees {ls : List Lexeme} (h : sees "#" ls = false) : Outward ls :=
  fun hs => Bool.noConfusion (h.symm.trans hs)

/-- Attributes are no part of an atom. -/
theorem AtomStart.of_front (h : ExprFront s p) (hword : seesAnyWord s = false) : AtomStart s p := by
  obtain ⟨hs, -⟩ := not_seesWord hword
  obtain ⟨hp, -⟩ := not_seesWord (h.anyWord.trans hword)
  refine ⟨h, ?_, ?_, ?_, ?_, ?_⟩
  · simp only [seesAsyncBlock, hs, hp, Bool.false_and]
  · simp only [hs, hp, Bool.false_and]
  · simp only [seesClosure, seesGeneralClosure, hs, hp, h.operator "|" rfl, Bool.false_and]
  · simp only [hs, hp, Bool.false_and]
  · simp only [seesPathExpression, seesPath, seesPathWord, hs, hp, h.identifier, h.colons,
      h.operator "<" rfl, List.any_cons, List.any_nil, Bool.false_and]

/-- One of the characters that an expression may begin with. -/
theorem AtomStart.of_char {c : Char} {joint joint' : Bool}
    (h : Look (punct c joint :: s) (punct c joint' :: p)) (hc : c ∉ [':', '#', '=', '>']) :
    AtomStart (punct c joint :: s) (punct c joint' :: p) := by
  have hne : ∀ d ∈ [':', '#', '=', '>'], d ≠ c := by
    rintro d hd rfl
    exact hc hd
  have hnone : ∀ d ∈ [':', '#', '=', '>'], ∀ cs joint ls,
      startsWith (d :: cs) (punct c joint :: ls) = false :=
    fun d hd cs joint ls => startsWith_punct_of_ne (hne d hd) cs joint ls
  refine .of_front (.of_look h rfl (hnone ':' (by decide) _ _ _)
    ⟨hnone '=' (by decide) _ _ _, hnone '>' (by decide) _ _ _⟩
    ⟨outward_of_not_sees (hnone '#' (by decide) _ _ _), outward_of_not_sees (hnone '#' (by decide) _ _ _)⟩
    fun _ _ => rfl) rfl

theorem Bracketed.atom {d : Delimiter} (h : Bracketed d s p) : AtomStart s p := by
  have hlook := h.look
  obtain ⟨s', p', rfl, rfl, -⟩ := h
  exact .of_front (.of_look hlook rfl rfl ⟨rfl, rfl⟩ ⟨outward_of_not_sees rfl, outward_of_not_sees rfl⟩
    fun _ _ => rfl) rfl

theorem Lifelong.atom (h : Lifelong rest s p) : AtomStart s p := by
  have hlook := h.look
  obtain ⟨w, s', p', rfl, rfl, -⟩ := h
  exact .of_char hlook (by decide)

theorem DotsFront.atom {rest : Bool → List Lexeme → List Lexeme → Prop} (h : DotsFront rest s p) :
    AtomStart s p := by
  have hlook := h.look
  obtain ⟨_, _, rfl⟩ := sees_twoDots h.dots.1
  obtain ⟨_, _, rfl⟩ := sees_twoDots h.dots.2
  exact .of_char hlook (by decide)

/-- Attributes before an expression. -/
theorem AttributeSpelt.expression (h : AttributeSpelt false s p) : ExprFront s p := by
  have hlook := h.look
  have hsecond : Bracketed .bracket (Grammar.second s) (Grammar.second p) := h.second
  have houtward : Outward s ∧ Outward p := by
    obtain ⟨s', p', hs, hp, -⟩ := hsecond
    exact ⟨fun _ => by rw [hs]; rfl, fun _ => by rw [hp]; rfl⟩
  obtain ⟨joint, joint', s', p', rfl, rfl, -⟩ := h
  exact .of_look hlook rfl rfl ⟨rfl, rfl⟩ houtward fun _ _ => rfl

/-! ### Words that decide with what stands behind them -/

/-- Words behind which nothing is looked for, or that begin something else than an expression. -/
def decisiveWords : List String :=
  ["pub", "extern", "use", "fn", "mod", "type", "struct", "enum", "trait", "impl", "macro", "crate",
    "static", "const", "unsafe", "async", "union", "auto", "default", "for", "try", "raw", "builtin",
    "super", "self", "Self"]

/-- What can be seen behind a word that begins no path: nothing that makes it another expression, or
an item. -/
theorem afterPlainPath_of_keyword {w : String} (ls : List Lexeme) (hw : isIdentifier w = false)
    (hpath : w ∉ ["super", "self", "Self", "crate"]) : afterPlainPath (word w :: ls) = none := by
  have hword : seesPathWord [word w] = false := by
    simp only [List.mem_cons, List.not_mem_nil, or_false, not_or] at hpath
    simp [seesPathWord, seesIdentifier, hw, seesWord, hpath]
  rw [afterPlainPath, if_neg (by simp [sees, startsWith])]
  unfold afterPathWords
  rw [if_neg (by simp [hword])]

/-- A keyword of which it does not matter what stands behind it. -/
theorem Worded.atom {w : String} (h : Worded w rest s p) (hw : isIdentifier w = false)
    (hplain : w ∉ decisiveWords) : AtomStart s p := by
  obtain ⟨s', p', rfl, rfl, -⟩ := h
  have hpath : ∀ v ∈ ["super", "self", "Self", "crate"], v ∈ decisiveWords := by decide
  have hafter : ∀ ls, afterPlainPath (word w :: ls) = none :=
    fun ls => afterPlainPath_of_keyword ls hw fun hmem => hplain (hpath w hmem)
  simp only [decisiveWords, List.mem_cons, List.not_mem_nil, or_false, not_or, ← ne_eq,
    ← beq_eq_false_iff_ne] at hplain
  have hitem : ∀ ls, seesItem (word w :: ls) = false := by
    intro ls
    simp [seesItem, seesWord, hplain, seesDeclaringMacro, hafter]
  have hstatement : ∀ ls, seesMacroStatement (word w :: ls) = false := by
    intro ls
    rw [seesMacroStatement, hafter]
    rfl
  refine ⟨⟨look_word w s' p', ⟨outward_of_not_sees rfl, outward_of_not_sees rfl⟩, rfl, rfl, fun _ _ => rfl,
    fun hraw => ?_, fun _ => hitem _, fun _ => hstatement _, ?_⟩, ?_, ?_, ?_, ?_, ?_⟩
  · simp [seesWord, hplain] at hraw
  · simp [seesBlockExpression, seesGeneralClosure, seesWord, hplain, seesGroup, seesLifetime]
  · simp [seesAsyncBlock, seesWord, hplain]
  · simp [seesWord, hplain]
  · simp [seesClosure, seesGeneralClosure, seesWord, hplain, sees, startsWith]
  · simp [seesWord, hplain]
  · simp [seesPathExpression, seesPath, seesPathWord, seesIdentifier, hw, seesWord, hplain, sees, startsWith]

/-- What stands behind a keyword looks alike, and behind a second one that decides. -/
structure KeywordFollow (w : String) (s p : List Lexeme) : Prop extends Look s p where
  move : w = "async" → seesWord "move" s = true → Look (second s) (second p)
  async : w = "const" → seesWord "async" s = true → Look (second s) (second p)
  parameters : w = "for" → seesParameters p = seesParameters s

/-- A keyword, and what stands behind it looks alike. -/
theorem Worded.atom_of_follow {w : String} (h : Worded w (KeywordFollow w) s p) (hw : isIdentifier w = false)
    (hpath : w ∉ ["super", "self", "Self", "crate"]) (hraw : w ≠ "raw") : AtomStart s p := by
  obtain ⟨s', p', rfl, rfl, h⟩ := h
  have hlook := h.toLook
  have hafter : ∀ ls, afterPlainPath (word w :: ls) = none := fun ls => afterPlainPath_of_keyword ls hw hpath
  have hsecond : ∀ ls, second (word w :: ls) = ls := fun _ => rfl
  have hthird : ∀ ls, third (word w :: ls) = second ls := fun _ => rfl
  have hfirst : ∀ v ls, seesWord v (word w :: ls) = (w == v) := fun _ _ => rfl
  have hmove : ((w == "async") &&
      (seesGroup .brace p' || (seesWord "move" p' && seesGroup .brace (second p')))) =
      ((w == "async") && (seesGroup .brace s' || (seesWord "move" s' && seesGroup .brace (second s')))) := by
    cases hasync : w == "async" with
    | false => rfl
    | true =>
        rw [hlook.group, hlook.word]
        cases hs : seesWord "move" s' with
        | false => rfl
        | true => rw [(h.move (beq_iff_eq.mp hasync) hs).group]
  have hasync : ((w == "const") && !(seesGroup .brace p' ||
        (["static", "move"].any fun w => seesWord w p') || sees "|" p' ||
        (seesWord "async" p' && !(["unsafe", "extern", "fn"].any fun w => seesWord w (second p'))))) =
      ((w == "const") && !(seesGroup .brace s' ||
        (["static", "move"].any fun w => seesWord w s') || sees "|" s' ||
        (seesWord "async" s' && !(["unsafe", "extern", "fn"].any fun w => seesWord w (second s'))))) := by
    cases hconst : w == "const" with
    | false => rfl
    | true =>
        simp only [hlook.word, hlook.group, hlook.operator "|" rfl]
        cases hs : seesWord "async" s' with
        | false => rfl
        | true => simp only [(h.async (beq_iff_eq.mp hconst) hs).word]
  have hitem : seesItem (word w :: p') = seesItem (word w :: s') := by
    simp only [seesItem, hsecond, hthird, hfirst, seesDeclaringMacro, hafter, hasync]
    simp only [hlook.word, hlook.identifier, hlook.group, hlook.colons]
  have hstatement : ∀ ls, seesMacroStatement (word w :: ls) = false := by
    intro ls
    rw [seesMacroStatement, hafter]
    rfl
  have hbar : sees "|" (word w :: p') = sees "|" (word w :: s') := rfl
  have hgeneral : seesGeneralClosure (word w :: p') = seesGeneralClosure (word w :: s') := by
    rw [seesGeneralClosure, seesGeneralClosure, hsecond, hsecond, hfirst, hfirst]
    cases hfor : w == "for" with
    | false => rfl
    | true => rw [h.parameters (beq_iff_eq.mp hfor)]
  refine ⟨⟨look_word w s' p', ⟨outward_of_not_sees rfl, outward_of_not_sees rfl⟩, rfl, rfl, fun _ _ => rfl,
    fun hs => ?_, hitem.trans, fun _ => hstatement _, ?_⟩, ?_, ?_, ?_, ?_, ?_⟩
  · exact absurd (beq_iff_eq.mp hs) hraw
  · simp only [seesBlockExpression, hsecond, hgeneral, hfirst, hlook.group]
    rfl
  · simp only [seesAsyncBlock, hsecond, hthird, hfirst, hmove]
  · rw [hsecond, hsecond, hlook.group, hfirst, hfirst]
  · simp only [seesClosure, hsecond, hgeneral, hfirst, hbar, hlook.group, hlook.word, hlook.operator "|" rfl]
  · rw [hsecond, hsecond, hlook.operator "#" rfl, hfirst, hfirst]
  · simp only [seesPathExpression, seesPath, seesPathWord, hsecond, hfirst,
      hlook.operator "!" rfl, hlook.colons]
    rfl

/-! ### Paths -/

/-- Whether the name that a macro declares comes next, behind the macro's path. -/
def Rule.seesDeclaration (ls : List Lexeme) : Bool :=
  sees "!" ls && (seesIdentifier (second ls) || seesWord "try" (second ls))

/-- Whether the arguments of a macro in braces come next that end a statement, behind the macro's
path. -/
def Rule.seesLastArguments (ls : List Lexeme) : Bool :=
  let further := third ls
  sees "!" ls && seesGroup .brace (second ls) &&
    !((sees "." further && !sees ".." further) || sees "?" further)

/-- Behind the first word of a path: nothing comes new that makes it something else. -/
structure WordFollow (s k : List Lexeme) : Prop where
  separator : sees "::" k = sees "::" s
  exclamation : sees "!" k = sees "!" s
  brace : seesGroup .brace k = seesGroup .brace s
  hash : sees "#" k = sees "#" s
  word : ∀ w, seesWord w s = false → seesWord w k = false
  identifier : seesIdentifier s = false → seesIdentifier k = false

theorem Look.wordFollow (h : Look s p) : WordFollow s p :=
  ⟨h.colons, h.operator "!" rfl, h.group _, h.operator "#" rfl, fun w hs => (h.word w).trans hs,
    h.identifier.trans⟩

/-- Behind the path that an expression begins with. -/
structure PathExpressionFollow (s k : List Lexeme) : Prop extends WordFollow s k, PathFollow true s k where
  separate : sees "::" s = false ∧ sees "::" k = false
  bang : seesBang k = seesBang s
  declaration : seesDeclaration s = false → seesDeclaration k = false
  lastArguments : seesLastArguments s = false → seesLastArguments k = false

theorem afterPathWords_word {w : String} {ls : List Lexeme} (h : sees "::" ls = false) :
    afterPathWords (word w :: ls) = if seesPathWord [word w] then some ls else none := by
  conv_lhs => unfold afterPathWords
  split
  · split
    · cases h
    · rfl
  · rfl

theorem afterPathWords_colons (w : String) (joint : Bool) (ls : List Lexeme) :
    afterPathWords (word w :: punct ':' true :: punct ':' joint :: ls) =
      if seesPathWord [word w] then afterPathWords ls else none := by
  rw [afterPathWords]

/-- What is not seen behind a plain path is not seen behind the path that is read again. -/
theorem SegmentsFront.any_afterPathWords {last : List Lexeme → List Lexeme → Prop}
    {f : List Lexeme → Bool} (h : SegmentsFront last s p)
    (hlast : ∀ s p, last s p → (sees "::" s = false ∧ sees "::" p = false) ∧ (f s = false → f p = false))
    (hless : ∀ ls, sees "<" ls = true → f ls = false) (hs : (afterPathWords s).any f = false) :
    (afterPathWords p).any f = false := by
  have hangle : ∀ {ls}, sees "<" ls = true → sees "::" ls = false ∧ afterPathWords ls = none := by
    intro ls hls
    obtain ⟨joint, ls', rfl⟩ := exists_of_sees (c := '<') hls
    exact ⟨rfl, rfl⟩
  induction h with
  | single h =>
      cases h with
      | bare w hw h =>
          obtain ⟨⟨hcolons, hcolons'⟩, hf⟩ := hlast _ _ h
          rw [afterPathWords_word hcolons] at hs
          rw [afterPathWords_word hcolons']
          split
          · next hword =>
            rw [if_pos hword] at hs
            exact hf hs
          · rfl
      | arguments w hw hless' hless'' h =>
          rw [afterPathWords_word (hangle hless'').1]
          split
          · exact hless _ hless''
          · rfl
      | turbofish w hw joint joint' hless' hless'' =>
          rw [afterPathWords_colons, (hangle hless'').2, ite_self]
          rfl
  | further w hw joint joint' h ih =>
      rw [afterPathWords_colons] at hs ⊢
      split
      · next hword =>
        rw [if_pos hword] at hs
        exact ih hs
      · rfl

theorem PathFront.any_afterPlainPath {last : List Lexeme → List Lexeme → Prop}
    {f : List Lexeme → Bool} (h : PathFront last s p)
    (hlast : ∀ s p, last s p → (sees "::" s = false ∧ sees "::" p = false) ∧ (f s = false → f p = false))
    (hless : ∀ ls, sees "<" ls = true → f ls = false) (hs : (afterPlainPath s).any f = false) :
    (afterPlainPath p).any f = false := by
  rcases h with h | ⟨s, p, rfl, rfl, joint, joint', s, p, rfl, rfl, -, h⟩
  · have hword : ∀ ls w, afterPlainPath (word w :: ls) = afterPathWords (word w :: ls) := fun _ _ => rfl
    obtain ⟨w, s', p', -, rfl, rfl⟩ := h.word
    rw [hword] at hs ⊢
    exact h.any_afterPathWords hlast hless hs
  · exact h.any_afterPathWords hlast hless hs

/-- The words that a path may begin with are no keywords of other expressions. -/
theorem IsSegment.not_keyword {w : String} (hw : IsSegment w) {v : String}
    (hv : v ∈ ["pub", "extern", "use", "fn", "mod", "type", "struct", "enum", "trait", "impl", "macro",
      "static", "const", "unsafe", "async", "move", "for"]) : (w == v) = false := by
  refine beq_eq_false_iff_ne.mpr ?_
  rintro rfl
  rcases hw with hw | hw
  · revert hw
    revert w
    decide
  · revert hw
    revert w
    decide

/-- A word and what follows it as it does in a path begin no item that was not there before. -/
theorem WordFollow.item {w : String} (h : WordFollow s p) (hw : IsSegment w)
    (huse : seesDeclaringMacro (Lexeme.word w :: s) = false →
      seesDeclaringMacro (Lexeme.word w :: p) = false)
    (hs : seesItem (Lexeme.word w :: s) = false) : seesItem (Lexeme.word w :: p) = false := by
  have hsecond : ∀ ls, second (Lexeme.word w :: ls) = ls := fun _ => rfl
  have hno : ∀ v ∈ ["static", "const", "unsafe", "async"], ∀ ls,
      seesWord v (Lexeme.word w :: ls) = false := by
    intro v hv ls
    refine hw.not_keyword ?_
    revert v
    decide
  have hfirst : ∀ v, seesWord v (Lexeme.word w :: p) = seesWord v (Lexeme.word w :: s) := fun _ => rfl
  have hand : ∀ {b c c' : Bool}, (c = false → c' = false) → (b && c) = false → (b && c') = false := by
    intro b c c' h h'
    rw [Bool.and_eq_false_iff] at h' ⊢
    exact h'.imp_right h
  simp only [seesItem, hsecond, hno _ (by decide : "static" ∈ _), hno _ (by decide : "const" ∈ _),
    hno _ (by decide : "unsafe" ∈ _), hno _ (by decide : "async" ∈ _), Bool.false_and, Bool.or_false,
    Bool.or_eq_false_iff, hfirst, h.separator] at hs ⊢
  obtain ⟨⟨⟨⟨⟨h₁, h₂⟩, h₃⟩, h₄⟩, h₅⟩, h₆⟩ := hs
  refine ⟨⟨⟨⟨⟨h₁, h₂⟩, hand h.identifier h₃⟩, hand (h.word _) h₄⟩, hand (fun hnone => ?_) h₅⟩, huse h₆⟩
  simp only [List.any_cons, List.any_nil, Bool.or_false, Bool.or_eq_false_iff] at hnone ⊢
  exact ⟨h.word _ hnone.1, h.word _ hnone.2⟩

/-- An expression that begins with a path. -/
theorem PathFront.atom (h : PathFront PathExpressionFollow s p) : AtomStart s p := by
  have hdeclaring : seesDeclaringMacro s = false → seesDeclaringMacro p = false :=
    h.any_afterPlainPath (f := seesDeclaration) (fun _ _ h => ⟨h.separate, h.declaration⟩) fun ls hls => by
      obtain ⟨joint, ls', rfl⟩ := exists_of_sees (c := '<') hls
      rfl
  have hstatement : seesMacroStatement s = false → seesMacroStatement p = false :=
    h.any_afterPlainPath (f := seesLastArguments) (fun _ _ h => ⟨h.separate, h.lastArguments⟩)
      fun ls hls => by
      obtain ⟨joint, ls', rfl⟩ := exists_of_sees (c := '<') hls
      rfl
  rcases h with h | h
  · obtain ⟨w, s', p', hw, rfl, rfl, hnext⟩ :=
      (h.mono fun _ _ h => h.toWordFollow).behind fun _ _ h => h.wordFollow
    have hsecond : ∀ ls, second (word w :: ls) = ls := fun _ => rfl
    have hfirst : ∀ v, seesWord v (word w :: p') = seesWord v (word w :: s') := fun _ => rfl
    have hno : ∀ v ∈ ["for", "const", "async"], ∀ ls, seesWord v (word w :: ls) = false := by
      intro v hv ls
      refine hw.not_keyword ?_
      revert v
      decide
    refine ⟨⟨look_word w s' p', ⟨outward_of_not_sees rfl, outward_of_not_sees rfl⟩, rfl, rfl, fun _ _ => rfl,
      fun _ v _ => hnext.word v, hnext.item hw hdeclaring, hstatement, ?_⟩, ?_, ?_, ?_, ?_, ?_⟩
    · simp only [seesBlockExpression, hsecond, hfirst, hno _ (by decide : "for" ∈ _), hnext.brace]
      rfl
    · simp only [seesAsyncBlock, hno _ (by decide : "async" ∈ _), Bool.false_and]
    · rw [hsecond, hsecond, hnext.brace, hfirst]
    · simp only [seesClosure, seesGeneralClosure, hno _ (by decide : "for" ∈ _),
        hno _ (by decide : "const" ∈ _), hno _ (by decide : "async" ∈ _), hfirst, Bool.false_and]
      rfl
    · rw [hsecond, hsecond, hnext.hash, hfirst]
    · simp only [seesPathExpression, hsecond, hfirst, hnext.exclamation, hnext.separator]
      rfl
  · have hlook := look_colons h
    obtain ⟨_, _, rfl, rfl, -⟩ := h
    exact .of_front ⟨hlook, ⟨outward_of_not_sees rfl, outward_of_not_sees rfl⟩, rfl, rfl, fun _ _ => rfl,
      fun hraw => Bool.noConfusion hraw, hdeclaring, hstatement, rfl⟩ rfl

theorem QualifiedFront.atom (h : QualifiedFront PathExpressionFollow s p) : AtomStart s p := by
  rcases h with h | h
  · exact h.atom
  · have hlook := h.look (by decide) fun _ _ _ h => h.toLook
    obtain ⟨joint, joint', s', p', rfl, rfl, -⟩ := h
    exact .of_char hlook (by decide)

/-! ### Behind the path of an expression -/

/-- Where an exclamation mark is part of a comparison, no macro is used. -/
theorem not_seesBang {ls : List Lexeme} (h : seesBang ls = false) :
    sees "!" ls = (infixOperator? ls == some ("!=", .compare)) ∧ seesDeclaration ls = false ∧
      seesLastArguments ls = false := by
  rw [seesBang, Bool.and_eq_false_iff] at h
  rcases h with h | h
  · refine ⟨?_, by rw [seesDeclaration, h, Bool.false_and],
      by simp only [seesLastArguments, h, Bool.false_and]⟩
    refine h.trans (Eq.symm (Bool.eq_false_iff.mpr fun heq => ?_))
    have hsees : startsWith ['!', '='] ls = true :=
      (List.find?_eq_some_iff_append.mp (show infixOperator? ls = some ("!=", .compare) from
        beq_iff_eq.mp heq)).1
    rw [startsWith_iff_leadingChars] at hsees
    rw [show sees "!" ls = startsWith ['!'] ls from rfl, Bool.eq_false_iff, ne_eq,
      startsWith_iff_leadingChars] at h
    exact h ((List.prefix_append ['!'] ['=']).trans hsees)
  · rw [Bool.not_eq_false'] at h
    obtain ⟨taken, ls', rfl, -, -, -, -, hspelt⟩ :=
      Rereads.spelt_of_startsWith (show startsWith ['!', '='] ls = true from h)
    obtain ⟨_, _, hs, -, joint, _, ls₂, _, rfl, -⟩ := hspelt .source (fun _ _ => True) [] trivial
    rw [hs]
    exact ⟨rfl, rfl, rfl⟩

theorem ExprFollow.path {k : List Lexeme} (h : ExprFollow s k) : PathExpressionFollow s k := by
  obtain ⟨hs, hdeclaration, hlast⟩ := not_seesBang h.unmarked.1
  obtain ⟨hk, hdeclaration', hlast'⟩ := not_seesBang h.unmarked.2
  exact ⟨⟨h.separate.2.trans h.separate.1.symm, hk.trans (h.operator ▸ hs.symm), h.brace, h.hash, h.word,
    h.identifier⟩, h.toPathFollow.inExpression, h.separate, h.unmarked.2.trans h.unmarked.1.symm,
    fun _ => hdeclaration', fun _ => hlast'⟩

theorem Bracketed.path (h : Bracketed .brace s p) : PathExpressionFollow s p := by
  obtain ⟨s', p', rfl, rfl, -⟩ := h
  exact ⟨⟨rfl, rfl, rfl, rfl, fun _ _ => rfl, fun _ => rfl⟩, .of_opening _ _ _ _, ⟨rfl, rfl⟩, rfl,
    fun _ => rfl, fun _ => rfl⟩

/-- The arguments of a macro. If they stand in braces, that which follows them tells whether they end
a statement. -/
theorem PathExpressionFollow.of_arguments {d : Delimiter}
    (h : Spelt ['!'] (Enclosed d (StatementFollow (.invocation (d == .brace)))) s p) :
    PathExpressionFollow s p := by
  obtain ⟨joint, joint', s', p', rfl, rfl, -, content, s₂, p₂, rfl, rfl, hsecond, h⟩ := h
  have hthird : ∀ joint k, third (punct '!' joint :: opening d :: (content ++ closing d :: k)) = k := by
    intro joint k
    show second (second (punct '!' joint :: _)) = k
    rw [second_punct (by decide)]
    exact hsecond k
  refine ⟨⟨rfl, rfl, rfl, rfl, fun _ _ => rfl, fun _ => rfl⟩, .of_punct (by decide) _ _ _ _, ⟨rfl, rfl⟩, ?_,
    fun _ => ?_, fun hs => ?_⟩
  · rw [seesBang_opening, seesBang_opening]
  · rw [seesDeclaration, second_punct (by decide)]
    exact Bool.and_false _
  · rw [seesLastArguments, hthird, second_punct (by decide)] at hs ⊢
    cases d with
    | brace =>
        have hquiet : QuietFollow s₂ p₂ := h
        rw [hquiet.dot, hquiet.question]
        exact hs
    | parenthesis | bracket => rfl

/-! ### Literals and signs -/

theorem Valued.atom (h : Valued rest s p) : AtomStart s p := by
  have hlook := h.look
  cases h with
  | plain text h =>
      exact .of_front (.of_look hlook rfl rfl ⟨rfl, rfl⟩ ⟨outward_of_not_sees rfl, outward_of_not_sees rfl⟩
        fun _ _ => rfl) rfl
  | truth w hw h =>
      refine Worded.atom (w := w) ⟨_, _, rfl, rfl, h⟩ ?_ ?_ <;> rcases hw with rfl | rfl <;> decide
  | negative text joint joint' hnumber h => exact .of_char hlook (by decide)

/-- A sign before an operand. -/
theorem Spelt.sign {c : Char} (h : Spelt [c] Look s p) (hc : c ∈ ['&', '*', '!']) : ExprFront s p := by
  have hne : c ∉ ['\'', '-', ':', '.'] ∧ c ∉ [':', '#', '=', '>'] := by
    simp only [List.mem_cons, List.not_mem_nil, or_false] at hc
    rcases hc with rfl | rfl | rfl <;> decide
  have hlook := h.look hne.1 fun _ _ _ => id
  obtain ⟨joint, joint', s', p', rfl, rfl, -⟩ := h
  exact (AtomStart.of_char hlook hne.2).toExprFront

/-- A minus before an operand. -/
theorem Spelt.minus (h : Spelt ['-'] ExprFront s p) : ExprFront s p := by
  obtain ⟨joint, joint', s', p', rfl, rfl, hjoint, h⟩ := h
  have hnone : ∀ c ∈ ['=', '>'], Lexeme.startsWith [c] p' = false := by
    intro c hc
    rw [h.char c]
    simp only [List.mem_cons, List.not_mem_nil, or_false] at hc
    rcases hc with rfl | rfl
    · exact h.equals
    · exact h.closer
  have hlook : Look (punct '-' joint :: s') (punct '-' joint' :: p') := by
    refine ⟨rfl, fun _ => rfl, rfl, rfl, fun _ => rfl, rfl, rfl, h.negative joint joint', rfl, fun _ => rfl,
      fun operator hmem => ?_, rfl, rfl, rfl, rfl, rfl⟩
    simp only [guards, List.mem_cons, List.not_mem_nil, or_false] at hmem
    rcases hmem with rfl | rfl | rfl | rfl | rfl | rfl | rfl | rfl | rfl | rfl | rfl
    case inl =>
      exact sees_punct_mono rfl (fun _ => hjoint) fun _ _ hp =>
        Bool.noConfusion ((hnone '>' (by decide)).symm.trans hp)
    case inr.inr.inr.inr.inr.inr.inl =>
      exact sees_punct_mono rfl (fun _ => hjoint) fun _ _ hp =>
        Bool.noConfusion ((hnone '=' (by decide)).symm.trans hp)
    all_goals exact fun hp => Bool.noConfusion hp
  exact (AtomStart.of_char hlook (by decide)).toExprFront

/-! ### Expressions that may be left out -/

/-- An expression is seen in both texts. -/
theorem Look.expression (h : Look s p) (hs : seesExpression s = true) : seesExpression p = true := by
  have hguards : ∀ o ∈ ["!=", "-=", "->", "*=", "|=", "&=", "<=", "<<="],
      sees o s = false → sees o p = false := by
    intro o ho
    refine h.not_guard ?_
    revert o
    decide
  simp only [seesExpression, List.any_cons, List.any_nil, Bool.or_false, Bool.or_eq_true, Bool.and_eq_true,
    Bool.not_eq_true', Bool.or_eq_false_iff, h.anyWord, h.word, h.anyGroup, h.literal, h.dots, h.colons,
    h.lifetime, h.operator "!" rfl, h.operator "-" rfl, h.operator "*" rfl, h.operator "|" rfl,
    h.operator "&" rfl, h.operator "<" rfl, h.operator "#" rfl] at hs ⊢
  have hand : ∀ {a : Prop} {o : String}, o ∈ ["!=", "-=", "->", "*=", "|=", "&=", "<=", "<<="] →
      a ∧ sees o s = false → a ∧ sees o p = false := fun ho h => ⟨h.1, hguards _ ho h.2⟩
  rcases hs with (((((((((((hs | hs) | hs) | hs) | hs) | hs) | hs) | hs) | hs) | hs) | hs) | hs) | hs
  · simp [hs]
  · simp [hs]
  · simp [hs]
  · simp [hand (by decide) hs]
  · simp [hs.1, hguards _ (by decide : "-=" ∈ _) hs.2.1, hguards _ (by decide : "->" ∈ _) hs.2.2]
  · simp [hand (by decide) hs]
  · simp [hand (by decide) hs]
  · simp [hand (by decide) hs]
  · simp [hs]
  · simp [hs.1, hguards _ (by decide : "<=" ∈ _) hs.2.1, hguards _ (by decide : "<<=" ∈ _) hs.2.2]
  · simp [hs]
  · simp [hs]
  · simp [hs]

end TypedId.Grammar
