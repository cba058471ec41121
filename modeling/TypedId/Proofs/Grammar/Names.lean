import TypedId.Proofs.Grammar.Prefaces

/-!
Names and other single lexemes that are read as phrases.

Where a list in angle brackets may be one of types or one of parameters, the text is read in two
ways. A name that stands alone is read alike in both.
-/

namespace TypedId.Grammar.Rule

open Lexeme

variable {g : PhraseReader} {r r' : Reader} {α β : Type}

theorem run_bind_of_fault {rule : Rule α} {fault : Fault} (h : rule.run g r = .error fault)
    (next : α → Rule β) :
    (rule >>= next).run g r = .error fault := by
  rw [run_bind, h]

theorem run_while_of_error {wanted : List Lexeme → Bool} {rule : Rule α} {fault : Fault}
    (h : wanted r.rest = true)
    (hrule : rule.run g r = .error fault) : (while_ wanted rule).run g r = .error fault := by
  rw [while_, run_repeating, iterate, run_bind_of_ok (run_ahead r), h, if_pos rfl, run_bind_of_fault hrule]

/-! ### Paths of one word -/

/-- A word that is a path on its own is taken. -/
theorem run_pathSegment_word (inExpression : Bool) {w : String} {rest : List Lexeme}
    (hr : r.rest = word w :: rest)
    (hw : isIdentifier w = true) (hrest : seesArguments inExpression rest = false) :
    (pathSegment inExpression).run g r = .ok (false, r.take 1 [word w]) := by
  have hplain : (["super", "self", "crate", "try"].any fun v => seesWord v r.rest) = false := by
    rw [hr]
    refine List.any_eq_false.mpr fun v hv h => ?_
    obtain rfl : w = v := eq_of_beq h
    simp only [List.mem_cons, List.not_mem_nil, or_false] at hv
    rcases hv with rfl | rfl | rfl | rfl <;> exact absurd hw (by decide)
  have htake : (r.take 1 [word w]).rest = rest := by rw [Reader.take, hr]; rfl
  rw [pathSegment, run_bind_of_ok (run_ahead r), hplain]
  refine (run_bind_of_ok (run_identifierOr_of_word hr (by rw [hw]; rfl)) _).trans ?_
  rw [run_bind_of_ok (run_ahead _), htake]
  rw [seesArguments] at hrest
  rw [hrest]
  rfl

/-- A word that is a path on its own is taken as one. -/
theorem run_qualifiedPath_word (inExpression : Bool) {w : String} {rest : List Lexeme}
    (hr : r.rest = word w :: rest)
    (hw : isIdentifier w = true) (hrest : seesArguments inExpression rest = false)
    (hcolons : sees "::" rest = false) :
    (qualifiedPath inExpression).run g r = .ok (⟨1, false, true, true, false⟩, r.take 1 [word w]) := by
  have htake : (r.take 1 [word w]).rest = rest := by rw [Reader.take, hr]; rfl
  have hless : (operator? "<").run g r = .ok (false, r) := run_operator?_of_not_sees (by rw [hr]; rfl)
  have hroot : (operator? "::").run g r = .ok (false, r) := run_operator?_of_not_sees (by rw [hr]; rfl)
  have hstop : ∀ {goesOn : List Lexeme → Bool} {rule : Rule Bool}, goesOn rest = false →
      (while_ goesOn rule).run g (r.take 1 [word w]) = .ok ([], r.take 1 [word w]) := fun h =>
    run_while_of_not (by rw [htake]; exact h)
  rw [qualifiedPath, run_bind_of_ok hless]
  refine (run_bind_of_ok hroot _).trans ?_
  have hsegments : (pathSegments inExpression fun ls =>
      sees "::" ls && !seesGroup .parenthesis (third ls)).run g r =
      .ok ([false], r.take 1 [word w]) := by
    rw [pathSegments, run_bind_of_ok (run_pathSegment_word inExpression hr hw hrest),
      run_bind_of_ok (hstop (by rw [hcolons]; rfl))]
    rfl
  exact run_bind_of_ok hsegments _

/-! ### Patterns -/

/-- An underscore is a pattern. -/
theorem run_pattern_wildcard {rest : List Lexeme} (hr : r.rest = word "_" :: rest) :
    pattern.run g r = .ok (.other, r.take 1 [word "_"]) := by
  have hpath : seesPathPattern r.rest = false := by rw [hr]; rfl
  have hword : seesWord "_" r.rest = true := by rw [hr]; rfl
  have htake : r.rest.take 1 = [word "_"] := by rw [hr]; rfl
  rw [pattern, run_bind_of_ok (run_ahead r), hpath, if_neg Bool.false_ne_true, hword, if_pos rfl,
    run_bind_of_ok (run_keyword_of_sees hword), htake]
  rfl

theorem run_namePattern_self {rest : List Lexeme} (hr : r.rest = word "self" :: rest)
    (hrest : sees "@" rest = false) :
    (do
      let _ ← identifierOr ["self"]
      if ← operator? "@" then let _ ← call .pattern).run g r = .ok ((), r.take 1 [word "self"]) := by
  have htake : (r.take 1 [word "self"]).rest = rest := by rw [Reader.take, hr]; rfl
  rw [run_bind_of_ok (run_identifierOr_of_word hr rfl),
    run_bind_of_ok (run_operator?_of_not_sees (by rw [htake, hrest]))]
  rfl

/-- A path does not go on with three colons. -/
theorem run_qualifiedPath_colons {rest : List Lexeme} (hr : r.rest = word "self" :: rest)
    (hcolons : sees "::" rest = true)
    (huntyped : seesUntyped rest = false) : ∃ fault, (qualifiedPath true).run g r = .error fault := by
  obtain ⟨joint, ls, rfl⟩ := exists_of_seesColons hcolons
  have hthird : sees ":" ls = true := by
    have hcolon : seesColon (punct ':' joint :: ls) = false := (Bool.or_eq_false_iff.mp huntyped).1
    rw [seesColon_punct, Bool.not_eq_false', Bool.and_eq_true] at hcolon
    exact hcolon.2
  obtain ⟨joint', ls, rfl⟩ := exists_of_sees (c := ':') hthird
  have hless : (operator? "<").run g r = .ok (false, r) := run_operator?_of_not_sees (by rw [hr]; rfl)
  have hroot : (operator? "::").run g r = .ok (false, r) := run_operator?_of_not_sees (by rw [hr]; rfl)
  have hfirst : (pathSegment true).run g r = .ok (false, r.take 1 [word "self"]) := by
    rw [pathSegment, run_bind_of_ok (run_ahead r), hr]
    exact run_bind_of_ok (run_anyWord_of_word hr) _
  have htake : (r.take 1 [word "self"]).rest =
      punct ':' true :: punct ':' joint :: punct ':' joint' :: ls := by
    rw [Reader.take, hr]
    rfl
  have hsecond : ((r.take 1 [word "self"]).take 2 (Lexeme.operator [':', ':'])).rest =
      punct ':' joint' :: ls := by
    rw [Reader.take, htake]
    rfl
  have hnone : ∃ fault,
      (pathSegment true).run g ((r.take 1 [word "self"]).take 2 (Lexeme.operator [':', ':'])) =
      .error fault := by
    rw [pathSegment, run_bind_of_ok (run_ahead _), hsecond]
    cases hword : (identifierOr ["Self"]).run g
      ((r.take 1 [word "self"]).take 2 (Lexeme.operator [':', ':'])) with
    | ok x =>
        obtain ⟨w, rest, hrest, -⟩ := word_of_run_identifierOr hword
        cases hsecond.symm.trans hrest
    | error fault => exact ⟨fault, run_bind_of_fault hword _⟩
  obtain ⟨fault, hfault⟩ := hnone
  have hmore : (do operator "::"; pathSegment true : Rule Bool).run g (r.take 1 [word "self"]) =
      .error fault := by
    rw [run_bind_of_ok (run_operator_of_sees (by rw [htake]; rfl))]
    exact hfault
  have hsegments : (pathSegments true fun ls => sees "::" ls && !seesGroup .parenthesis (third ls)).run g r =
      .error fault := by
    rw [pathSegments, run_bind_of_ok hfirst]
    exact run_bind_of_fault (run_while_of_error (by rw [htake, third_colons]; rfl) hmore) _
  refine ⟨fault, ?_⟩
  rw [qualifiedPath, run_bind_of_ok hless]
  exact (run_bind_of_ok hroot _).trans (run_bind_of_fault hsegments _)

/-- Before a colon and a type the word of a receiver is a name. -/
theorem run_pattern_receiver {ws : List String} (hws : ws ∈ [["self"], ["mut", "self"]]) {rest : List Lexeme}
    {a : PatternShape} (hr : r.rest = ws.map word ++ rest) (hcolon : sees ":" rest = true)
    (huntyped : seesUntyped rest = false) (h : pattern.run g r = .ok (a, r')) :
    r' = r.take ws.length (ws.map word) := by
  obtain ⟨joint, ls, rfl⟩ := exists_of_sees (c := ':') hcolon
  simp only [List.mem_cons, List.not_mem_nil, or_false] at hws
  have hname : seesPathPattern r.rest = false → pattern.run g r =
      (do namePattern; return .other : Rule PatternShape).run g r := by
    intro hpath
    rw [pattern, run_bind_of_ok (run_ahead r), hpath]
    rcases hws with rfl | rfl
    · rw [hr]
      rfl
    · rw [hr]
      rfl
  rcases hws with rfl | rfl
  · cases hcolons : sees "::" (punct ':' joint :: ls) with
    | true =>
        obtain ⟨fault, hfault⟩ := run_qualifiedPath_colons (g := g) hr hcolons huntyped
        have hpath : seesPathPattern r.rest = true := by
          rw [hr]
          show (false || (true && sees "::" (punct ':' joint :: ls)) || _ || _ || _) = true
          rw [hcolons]
          rfl
        rw [pattern, run_bind_of_ok (run_ahead r), hpath, if_pos rfl, pathPattern, run_bind, hfault] at h
        cases h
    | false =>
        have hpath : seesPathPattern r.rest = false := by
          rw [hr]
          show (false || (true && sees "::" (punct ':' joint :: ls)) || _ || _ || _) = false
          rw [hcolons]
          rfl
        rw [hname hpath, namePattern, run_bind_assoc,
          run_bind_of_ok (run_keyword?_of_not_sees (by rw [hr]; rfl)),
          run_bind_assoc, run_bind_of_ok (run_keyword?_of_not_sees (by rw [hr]; rfl)),
          run_bind_of_ok (run_namePattern_self hr rfl)] at h
        cases h
        rfl
  · have hpath : seesPathPattern r.rest = false := by rw [hr]; rfl
    have hmut : seesWord "mut" r.rest = true := by rw [hr]; rfl
    have htake : r.rest.take 1 = [word "mut"] := by rw [hr]; rfl
    have hrest : (r.take 1 [word "mut"]).rest = word "self" :: punct ':' joint :: ls := by
      rw [Reader.take, hr]; rfl
    rw [hname hpath, namePattern, run_bind_assoc,
      run_bind_of_ok (run_keyword?_of_not_sees (by rw [hr]; rfl)),
      run_bind_assoc, run_bind_of_ok (run_keyword?_of_sees hmut), htake,
        run_bind_of_ok (run_namePattern_self hrest rfl)] at h
    cases h
    simp [Reader.take, Nat.add_assoc]

/-! ### Types -/

theorem run_binder?_of_not (h : seesWord "for" r.rest = false) : (binder?).run g r = .ok (false, r) := by
  rw [binder?, run_bind_of_ok (run_keyword?_of_not_sees h)]
  rfl

/-- Behind the name of a parameter stands one character that neither a path nor a type goes on with. -/
theorem exists_of_behindParameter {ls : List Lexeme} (h : behindParameter ls = true) :
    ∃ c joint ls', ls = punct c joint :: ls' ∧ c ∈ ['>', ',', ':', '='] ∧ sees "::" ls = false := by
  simp only [behindParameter, Bool.or_eq_true] at h
  rcases h with ((h | h) | h) | h
  · obtain ⟨joint, ls', rfl⟩ := exists_of_sees (c := '>') h
    exact ⟨_, joint, ls', rfl, by simp, rfl⟩
  · obtain ⟨joint, ls', rfl⟩ := exists_of_sees (c := ',') h
    exact ⟨_, joint, ls', rfl, by simp, rfl⟩
  · obtain ⟨hcolon, hcolons⟩ := (Bool.and_eq_true _ _).mp h
    obtain ⟨joint, ls', rfl⟩ := exists_of_sees (c := ':') hcolon
    exact ⟨_, joint, ls', rfl, by simp, by simpa using hcolons⟩
  · obtain ⟨joint, ls', rfl⟩ := exists_of_sees (c := '=') h
    exact ⟨_, joint, ls', rfl, by simp, rfl⟩

/-- What begins with a path is a path or goes on behind one. -/
theorem run_type_path (plus : Bool) (hfor : seesWord "for" r.rest = false)
    (hgroup : seesGroup .parenthesis r.rest = false)
    (hfunction : (["fn", "unsafe", "extern"].any fun w => seesWord w r.rest) = false)
    (hpath : seesPath r.rest = true) :
    (type plus).run g r = (pathType false plus).run g r := by
  rw [type, run_bind_of_ok (run_binder?_of_not hfor), run_bind_of_ok (run_ahead r)]
  dsimp only
  rw [Bool.false_and, if_neg Bool.false_ne_true, hgroup, if_neg Bool.false_ne_true, hfunction,
    if_neg Bool.false_ne_true, hpath, if_pos rfl]

/-- A path with nothing behind it is a type. -/
theorem run_pathType_path (plus : Bool) {shape : PathShape}
    (hpath : (qualifiedPath false).run g r = .ok (shape, r'))
    (hbang : seesBang r'.rest = false) (hplus : sees "+" r'.rest = false) :
    (pathType false plus).run g r = .ok (.path shape, r') := by
  rw [pathType, run_bind_of_ok hpath]
  split
  · rfl
  · rw [run_bind_of_ok (run_ahead r'), hbang, hplus, Bool.and_false]
    rfl

/-- A name that stands alone is a type. -/
theorem run_type_name (plus : Bool) {w : String} {rest : List Lexeme} (hr : r.rest = word w :: rest)
    (hw : isIdentifier w = true) (hbehind : behindParameter rest = true) :
    (type plus).run g r = .ok (.path ⟨1, false, true, true, false⟩, r.take 1 [word w]) := by
  have htake : (r.take 1 [word w]).rest = rest := by rw [Reader.take, hr]; rfl
  have hnot : ∀ v, isIdentifier v = false → seesWord v r.rest = false := fun v hv => by
    rw [hr]
    exact beq_false_of_ne fun h => Bool.noConfusion (hv.symm.trans (h ▸ hw))
  have hpath : seesPath r.rest = true := by
    rw [hr, seesPath, seesPathWord, show seesIdentifier (word w :: rest) = true from hw]
    rfl
  have hfunction : (["fn", "unsafe", "extern"].any fun w => seesWord w r.rest) = false := by
    simp [hnot "fn" (by decide), hnot "unsafe" (by decide), hnot "extern" (by decide)]
  obtain ⟨c, joint, ls, rfl, hc, hcolons⟩ := exists_of_behindParameter hbehind
  simp only [List.mem_cons, List.not_mem_nil, or_false] at hc
  rw [run_type_path plus (hnot "for" (by decide)) (by rw [hr]; rfl) hfunction hpath]
  refine run_pathType_path plus (run_qualifiedPath_word false hr hw ?_ hcolons) ?_ ?_
  · rw [seesArguments, hcolons]
    rcases hc with rfl | rfl | rfl | rfl <;> rfl
  · rw [htake]
    rcases hc with rfl | rfl | rfl | rfl <;> rfl
  · rw [htake]
    rcases hc with rfl | rfl | rfl | rfl <;> rfl

/-- A lifetime that stands alone is no type. -/
theorem run_type_lifetime (plus : Bool) (hlifetime : seesLifetime r.rest = true)
    (hbehind : behindParameter (second r.rest) = true)
    (hg : ∀ w rest, r.rest = punct '\'' true :: word w :: rest →
      (∃ fault, g (.bound false false) r = .error fault) ∨
        ∃ n, g (.bound false false) r = .ok (.lifetime n, r.take 2 (Lexeme.lifetime w))) :
    ∃ fault, (type plus).run g r = .error fault := by
  obtain ⟨w, rest, hr⟩ := Rereads.exists_of_seesLifetime hlifetime
  have hrest : behindParameter rest = true := by rwa [hr] at hbehind
  have htype : (type plus).run g r = (objectBounds r.position true).run g r := by
    have hnone : seesPath r.rest = false := by rw [hr]; rfl
    rw [type, run_bind_of_ok (run_binder?_of_not (by rw [hr]; rfl)), run_bind_of_ok (run_ahead r), hnone, hr]
    exact run_bind_of_ok (run_here r) _
  have hobject : ∀ {fault},
      (boundsWithTrait r.position .noTraitInObject true false false).run g r = .error fault →
      (objectBounds r.position true).run g r = .error fault := fun h => run_bind_of_fault h _
  rw [htype]
  rcases hg w rest hr with ⟨fault, hfault⟩ | ⟨n, hbound⟩
  · have hbounds : (bounds true false false).run g r = .error fault :=
      run_bind_of_fault (show (call (.bound false false)).run g r = _ from hfault) _
    exact ⟨fault, hobject (run_bind_of_fault hbounds _)⟩
  · obtain ⟨c, joint, ls, rfl, hc, -⟩ := exists_of_behindParameter hrest
    have htake : (r.take 2 (Lexeme.lifetime w)).rest = punct c joint :: ls := by rw [Reader.take, hr]; rfl
    have hplus : sees "+" (r.take 2 (Lexeme.lifetime w)).rest = false := by
      rw [htake]
      simp only [List.mem_cons, List.not_mem_nil, or_false] at hc
      rcases hc with rfl | rfl | rfl | rfl <;> rfl
    have hfurther : (furtherBounds false false).run g (r.take 2 (Lexeme.lifetime w)) =
        .ok ([], r.take 2 (Lexeme.lifetime w)) := by
      rw [furtherBounds, run_repeating, iterate, run_bind_of_ok (run_operator?_of_not_sees hplus)]
      rfl
    have hbounds : (bounds true false false).run g r =
        .ok ([.lifetime n], r.take 2 (Lexeme.lifetime w)) := by
      refine (run_bind_of_ok (show (call (.bound false false)).run g r = _ from hbound) _).trans ?_
      rw [if_pos rfl, run_bind_of_ok hfurther]
      rfl
    exact ⟨_, hobject (run_bind_of_ok hbounds _)⟩

/-! ### Lists of parameters -/

theorem take_none (r : Reader) : r.take 0 [] = r := by simp [Reader.take]

/-- Where no colon is seen, there are no bounds. -/
theorem run_bounds?_of_not {bounds : Rule (List α)} (h : sees ":" r.rest = false) :
    (bounds? bounds).run g r = .ok (false, r) := by
  have hnone : (do if ← operator? ":" then return some (← bounds).isEmpty else return none :
      Rule (Option Bool)).run g r.unwritten = .ok (none, r.unwritten) := by
    rw [run_bind_of_ok (run_operator?_of_not_sees (r := r.unwritten) h)]
    rfl
  rw [bounds?, run_bind_of_ok (run_hold_of_ok hnone)]
  exact (run_bind_of_ok (run_write ..) _).trans
    (by rw [run_pure, Reader.unwritten, List.reverse_nil, take_none]; rfl)

/-- A name that stands alone is a parameter. -/
theorem run_genericParameter_name {kinds : List Expectation} {wildcard : Bool} {w : String} {joint : Bool}
    {rest : List Lexeme} (hr : r.rest = word w :: punct '>' joint :: rest) (hw : isIdentifier w = true) :
    (genericParameter kinds wildcard).run g r = .ok (false, r.take 1 [word w]) := by
  have htake : (r.take 1 [word w]).rest = punct '>' joint :: rest := by rw [Reader.take, hr]; rfl
  have hparameter : typeParameter.run g r = .ok ((), r.take 1 [word w]) := by
    rw [typeParameter, run_bind_of_ok (run_identifier_of_word hr hw),
      run_bind_of_ok (run_bounds?_of_not (by rw [htake]; rfl)),
      run_bind_of_ok (run_operator?_of_not_sees (by rw [htake]; rfl))]
    rfl
  have hidentifier : seesIdentifier r.rest = true := by rw [hr]; exact hw
  have hlifetime : seesLifetime r.rest = false := by rw [hr]; rfl
  have hattributes : outerAttributes.run g r = .ok ([], r) := run_while_of_not (by rw [hr]; rfl)
  rw [genericParameter, run_bind_of_ok hattributes, run_bind_of_ok (run_ahead r), hlifetime,
    if_neg Bool.false_ne_true, hidentifier, if_pos rfl]
  exact run_bind_of_ok hparameter _

/-- A list of one name in angle brackets is one of parameters, too. -/
theorem run_genericParameters_name {w : String} {joint joint' : Bool} {rest : List Lexeme}
    (hr : r.rest = punct '<' joint :: word w :: punct '>' joint' :: rest) (hw : isIdentifier w = true) :
    genericParameters.run g r =
      .ok (true, ((r.take 1 [punct '<' false]).take 1 [word w]).take 1 [punct '>' false]) := by
  let element : Rule Bool := genericParameter [.lifetime, .identifier, .keyword "const"] true
  let r₀ := r.unwritten
  let r₁ := r₀.take 1 [punct '<' false]
  have hless : (operator "<").run g r₀ = .ok ((), r₁) :=
    run_operator_of_sees (by show sees "<" r.rest = true; rw [hr]; rfl)
  have hr₁ : r₁.rest = word w :: punct '>' joint' :: rest := by
    show r.rest.drop 1 = _
    rw [hr]
    rfl
  have hone : (hold element).run g r₁.unwritten = .ok ((false, [word w]), r₁.unwritten.take 1 []) :=
    run_hold_of_ok (run_genericParameter_name (r := r₁.unwritten.unwritten) hr₁ hw)
  have hafter : (r₁.unwritten.take 1 []).rest = punct '>' joint' :: rest := by
    show r₁.rest.drop 1 = _
    rw [hr₁]
    rfl
  have hitems : (separated (operator ",") (sees ">") (hold element)).run g r₁.unwritten =
      .ok ([((false, [word w]), false)], r₁.unwritten.take 1 []) := by
    rw [separated, run_repeating, iterate, run_bind_of_ok (run_ahead _),
      show sees ">" r₁.unwritten.rest = false from (congrArg (sees ">") hr₁).trans rfl,
      if_neg Bool.false_ne_true, run_bind_of_ok hone, run_bind_of_ok (run_ahead _), hafter]
    rfl
  let r₂ : Reader := { r₁.unwritten.take 1 [] with written := r₁.written }
  have hbrackets : (angleBrackets (operator ",") element).run g r₀ =
      .ok ([⟨false, [word w], false⟩], (r₂.take 0 [word w]).take 1 [punct '>' false]) := by
    have hgreater : (operator ">").run g (r₂.take 0 [word w]) =
        .ok ((), (r₂.take 0 [word w]).take 1 [punct '>' false]) :=
      run_operator_of_sees ((congrArg (sees ">") hafter).trans rfl)
    rw [angleBrackets, run_bind_of_ok hless, run_bind_of_ok (run_hold_of_ok hitems)]
    exact (run_bind_of_ok (run_write [word w] r₂) _).trans (run_bind_of_ok hgreater _)
  have hsees : sees "<" r.rest = true := by rw [hr]; rfl
  rw [genericParameters, run_bind_of_ok (run_ahead r), hsees, if_pos rfl,
    run_bind_of_ok (run_hold_of_ok hbrackets)]
  exact (run_bind_of_ok (run_write ..) _).trans
    (by simp [run_pure, Reader.take, Reader.unwritten, r₂, r₁, r₀, hr])

/-! ### Names in place of types -/

/-- Things are read alike while they are wanted, if none can be read where only one of two conditions
wants them. -/
theorem run_while_congr {wanted wanted' : List Lexeme → Bool} {rule : Rule α}
    (h : ∀ r : Reader, wanted r.rest = true → wanted' r.rest = false → ∃ fault, rule.run g r = .error fault)
    (h' : ∀ ls, wanted ls = false → wanted' ls = false) {x : List α × Reader}
    (hrun : (while_ wanted rule).run g r = .ok x) : (while_ wanted' rule).run g r = .ok x := by
  let step (wanted : List Lexeme → Bool) (soFar : List α) : Rule (List α ⊕ List α) := do
    if wanted (← ahead) then return .inl ((← rule) :: soFar)
    else return .inr soFar.reverse
  have hstep : ∀ wanted soFar r, (step wanted soFar).run g r =
      if wanted r.rest then (rule >>= fun a => pure (.inl (a :: soFar))).run g r else
        .ok (.inr soFar.reverse, r) := by
    intro wanted soFar r
    refine (run_bind_of_ok (run_ahead r) _).trans ?_
    cases wanted r.rest <;> rfl
  have hiterate : ∀ (bound : Nat) (soFar : List α) (r : Reader),
      iterate (fun soFar => (step wanted soFar).run g) bound soFar r = .ok x →
        iterate (fun soFar => (step wanted' soFar).run g) bound soFar r = .ok x := by
    intro bound
    induction bound with
    | zero => exact fun _ _ => id
    | succ bound ih =>
        intro soFar r hrun
        rw [iterate, hstep] at hrun ⊢
        cases hwanted : wanted r.rest with
        | false =>
            rw [hwanted] at hrun
            rw [h' _ hwanted]
            exact hrun
        | true =>
            rw [hwanted, if_pos rfl] at hrun
            cases hwanted' : wanted' r.rest with
            | false =>
                obtain ⟨fault, hfault⟩ := h r hwanted hwanted'
                rw [run_bind, hfault] at hrun
                cases hrun
            | true =>
                rw [if_pos rfl]
                rw [run_bind] at hrun ⊢
                cases hrule : rule.run g r with
                | error fault =>
                    rw [hrule] at hrun
                    cases hrun
                | ok y =>
                    rw [hrule] at hrun
                    exact ih _ _ hrun
  exact hiterate _ _ _ hrun

/-- The words of a path behind a type are those of a path. -/
theorem run_pathSegments_congr (inExpression : Bool) {x : List Bool × Reader}
    (h : (pathSegments inExpression (sees "::")).run g r = .ok x) :
    (pathSegments inExpression fun ls => sees "::" ls && !seesGroup .parenthesis (third ls)).run g r =
      .ok x := by
  obtain ⟨segments, r'⟩ := x
  obtain ⟨first, r₁, hfirst, h⟩ := run_bind_eq_ok.mp h
  obtain ⟨more, r₂, hmore, h⟩ := run_bind_eq_ok.mp h
  refine run_bind_eq_ok.mpr ⟨first, r₁, hfirst, run_bind_eq_ok.mpr ⟨more, r₂, ?_, h⟩⟩
  refine run_while_congr (fun r hcolons hgroup => ?_) (fun ls hcolons => by rw [hcolons]; rfl) hmore
  obtain ⟨joint, ls, hr⟩ := exists_of_seesColons hcolons
  rw [hcolons, Bool.true_and, Bool.not_eq_false', hr, third_colons] at hgroup
  obtain ⟨ls, rfl⟩ := Rereads.exists_of_seesGroup hgroup
  have htake : (r.take 2 (Lexeme.operator [':', ':'])).rest = opening .parenthesis :: ls := by
    rw [Reader.take, hr]; rfl
  rw [run_bind_of_ok (run_operator_of_sees hcolons)]
  show ∃ fault, (pathSegment inExpression).run g (r.take 2 (Lexeme.operator [':', ':'])) = .error fault
  rw [pathSegment, run_bind_of_ok (run_ahead _), htake]
  cases hword : (identifierOr ["Self"]).run g (r.take 2 (Lexeme.operator [':', ':'])) with
  | ok x =>
      obtain ⟨w, rest, hrest, -⟩ := word_of_run_identifierOr hword
      cases htake.symm.trans hrest
  | error fault => exact ⟨fault, run_bind_of_fault hword _⟩

/-- Where parameters could begin and a type is read, a name is what comes next. -/
theorem exists_name_of_parameters
    (hg : ∀ plus (r : Reader), beginsNoType r.rest = true → ∃ fault, g (.type plus) r = .error fault)
    (hlifetime : ∀ plus (r : Reader), seesLifetime r.rest = true → behindParameter (second r.rest) = true →
      ∃ fault, g (.type plus) r = .error fault)
    (hkind : (sees ">" r.rest || sees "#" r.rest || seesWord "const" r.rest ||
      ((seesLifetime r.rest || seesIdentifier r.rest) && behindParameter (second r.rest))) = true)
    {a : TypeShape} (htype : g (.type true) r = .ok (a, r')) :
    ∃ w rest, r.rest = word w :: rest ∧ isIdentifier w = true ∧ behindParameter rest = true := by
  have hnone : ¬ ∃ fault, g (.type true) r = .error fault := by
    rintro ⟨fault, hfault⟩
    cases htype.symm.trans hfault
  have hbegins : beginsNoType r.rest = false := Bool.eq_false_iff.mpr fun h => hnone (hg true r h)
  simp only [beginsNoType, List.any_cons, List.any_nil, Bool.or_eq_false_iff] at hbegins
  obtain ⟨⟨⟨-, hgreater, hhash, -⟩, hconst⟩, -⟩ := hbegins
  rw [hgreater, hhash, hconst, Bool.false_or, Bool.false_or, Bool.false_or, Bool.and_eq_true,
    Bool.or_eq_true] at hkind
  obtain ⟨hlife | hidentifier, hbehind⟩ := hkind
  · exact (hnone (hlifetime true r hlife hbehind)).elim
  · obtain ⟨w, rest, hr, hw⟩ := exists_of_seesIdentifier hidentifier
    rw [hr] at hbehind
    exact ⟨w, rest, hr, hw, hbehind⟩

/-- What begins like a list of parameters and is a type begins with a name in angle brackets. Behind them
stands a path, which is a type, too. -/
theorem run_type_parameters (g' : PhraseReader)
    (hg : ∀ plus (r : Reader), beginsNoType r.rest = true → ∃ fault, g (.type plus) r = .error fault)
    (hname : ∀ plus (r : Reader) w rest a r', r.rest = word w :: rest → isIdentifier w = true →
      behindParameter rest = true → g (.type plus) r = .ok (a, r') → r' = r.take 1 [word w])
    (hlifetime : ∀ plus (r : Reader), seesLifetime r.rest = true → behindParameter (second r.rest) = true →
      ∃ fault, g (.type plus) r = .error fault)
    {a : TypeShape} (hparameters : seesParameters r.rest = true) (h : (type true).run g r = .ok (a, r')) :
    (∀ shape, a = .path shape → shape.qualified = true) ∧
      (seesBang r'.rest = false → sees "+" r'.rest = false → ∃ bracketed a' r₁,
        genericParameters.run g' r = .ok (bracketed, r₁) ∧ sees "::" r₁.rest = true ∧
          (type true).run g r₁ = .ok (a', r')) := by
  obtain ⟨hless, hkind⟩ := (Bool.and_eq_true _ _).mp hparameters
  obtain ⟨joint, s, hr⟩ := exists_of_sees (c := '<') hless
  have hsecond : ∀ joint, second (punct '<' joint :: s) = s := fun joint => second_punct (by decide) joint s
  have hthird : ∀ joint, third (punct '<' joint :: s) = second s :=
    fun joint => congrArg second (hsecond joint)
  rw [hr, hsecond, hthird] at hkind
  let r₁ := r.take 1 [punct '<' false]
  have hr₁ : r₁.rest = s := by
    show r.rest.drop 1 = s
    rw [hr]
    rfl
  have hpathType := run_type_path (g := g) (r := r) true (by rw [hr]; rfl)
    (by rw [hr]; rfl) (by rw [hr]; rfl)
    (by rw [seesPath, hless, Bool.or_true])
  rw [hpathType] at h
  obtain ⟨shape, r₅, hpath, h⟩ := run_bind_eq_ok.mp h
  rw [qualifiedPath, run_bind_of_ok (run_operator?_of_sees hless), if_pos rfl] at hpath
  obtain ⟨a₂, r₂, htype, hpath⟩ := run_bind_eq_ok.mp hpath
  replace htype : g (.type true) r₁ = .ok (a₂, r₂) := htype
  obtain ⟨w, rest, hs, hw, hbehind⟩ := exists_name_of_parameters hg hlifetime (hr₁.symm ▸ hkind) htype
  replace hs : s = word w :: rest := hr₁.symm.trans hs
  subst hs
  obtain rfl := hname true r₁ w rest a₂ r₂ hr₁ hw hbehind htype
  have hr₂ : (r₁.take 1 [word w]).rest = rest := by
    show r₁.rest.drop 1 = rest
    rw [hr₁]
    rfl
  have has : seesWord "as" (r₁.take 1 [word w]).rest = false := by
    obtain ⟨_, _, _, hrest, -⟩ := exists_of_behindParameter hbehind
    rw [hr₂, hrest]
    rfl
  rw [run_bind_of_ok (run_keyword?_of_not_sees has), if_neg Bool.false_ne_true] at hpath
  obtain ⟨_, r₃, hgreater, hpath⟩ := run_bind_eq_ok.mp hpath
  obtain ⟨hsees, rfl⟩ := run_operator_eq_ok.mp hgreater
  obtain ⟨joint', rest', hrest⟩ := exists_of_sees (c := '>') (hr₂ ▸ hsees)
  subst hrest
  obtain ⟨_, r₄, hoperator, hpath⟩ := run_bind_eq_ok.mp hpath
  obtain ⟨hcolons, rfl⟩ := run_operator_eq_ok.mp hoperator
  obtain ⟨segments, r₆, hsegments, hpath⟩ := run_bind_eq_ok.mp hpath
  cases hpath
  cases h
  refine ⟨fun shape h => ?_, fun hbang hplus => ?_⟩
  · cases h
    rfl
  let r₃ := (r₁.take 1 [word w]).take 1 [punct '>' false]
  obtain ⟨joint₂, rest₂, hrest₂⟩ := exists_of_seesColons hcolons
  replace hcolons : sees "::" r₃.rest = true := hcolons
  replace hrest₂ : r₃.rest = punct ':' true :: punct ':' joint₂ :: rest₂ := hrest₂
  have hless' : (operator? "<").run g r₃ = .ok (false, r₃) := run_operator?_of_not_sees (by rw [hrest₂]; rfl)
  refine ⟨true, .path ⟨segments.length, true, segments.all (!·), segments.getLast?.all (!·), false⟩, r₃,
    run_genericParameters_name hr hw, hcolons, ?_⟩
  rw [run_type_path true (by rw [hrest₂]; rfl) (by rw [hrest₂]; rfl) (by rw [hrest₂]; rfl)
    (by rw [seesPath, hcolons, Bool.or_true, Bool.true_or])]
  refine run_pathType_path true ?_ hbang hplus
  rw [qualifiedPath, run_bind_of_ok hless', if_neg Bool.false_ne_true, path,
    run_bind_of_ok (run_operator?_of_sees hcolons)]
  exact run_bind_of_ok (run_pathSegments_congr false hsegments) _

end TypedId.Grammar.Rule
