import TypedId.Proofs.Grammar.Loops

/-!
Things in angle brackets are read again.

Lifetimes are written first, so what is read again has another order than what was taken. What was
taken falls apart into pieces, each of which can be read again wherever it stands (`Piece.Again`);
and pieces that are read one after another give the list that was remembered of them.
-/

namespace TypedId.Grammar

open Lexeme

/-! ### Lifetimes first -/

/-- Every thing but the last has a comma behind it. -/
def Punctuated (items : List AngleItem) : Prop :=
  items.Pairwise fun item _ => item.separated = true

/-- Things in the order in which they are written, with the commas that are written. -/
def arranged (items : List AngleItem) : List AngleItem :=
  if items.all (·.lifetime) then items
  else (items.filter (·.lifetime)).map (fun item => { item with separated := true }) ++
    items.filter fun item => !item.lifetime

theorem Punctuated.separated_of_append {items others : List AngleItem} {item : AngleItem}
    (h : Punctuated (items ++ others)) (hothers : others ≠ []) (hitem : item ∈ items) :
    item.separated = true := by
  obtain ⟨other, rest, rfl⟩ := List.exists_cons_of_ne_nil hothers
  exact (List.pairwise_append.mp h).2.2 item hitem other List.mem_cons_self

/-- Only the last thing may lack its comma. -/
theorem Punctuated.written_eq {items : List AngleItem} (h : Punctuated items) :
    items.flatMap AngleItem.written ++
        (if items.getLast?.any (!·.separated) then [comma] else []) =
      (items.map fun item => { item with separated := true }).flatMap AngleItem.written := by
  induction items with
  | nil => rfl
  | cons item items ih =>
      obtain ⟨hitem, hitems⟩ := List.pairwise_cons.mp h
      cases items with
      | nil => cases hs : item.separated <;> simp [AngleItem.written, hs]
      | cons other items =>
          have hwritten : ({ item with separated := true } : AngleItem).written = item.written := by
            simp [AngleItem.written, hitem other List.mem_cons_self]
          calc (item :: other :: items).flatMap AngleItem.written ++ _
              = item.written ++ ((other :: items).flatMap AngleItem.written ++
                  if (other :: items).getLast?.any (!·.separated) then [comma] else []) := by
                rw [List.flatMap_cons, List.append_assoc, List.getLast?_cons_cons]
            _ = _ := by rw [ih hitems, ← hwritten]; rfl

theorem Punctuated.arranged {items : List AngleItem} (h : Punctuated items) :
    Punctuated (arranged items) := by
  unfold Grammar.arranged
  split
  · exact h
  · refine List.pairwise_append.mpr ⟨?_, h.filter _, ?_⟩
    · exact List.pairwise_map.mpr (List.Pairwise.imp (fun _ => rfl) (h.filter _))
    · intro item hitem other _
      obtain ⟨_, _, rfl⟩ := List.mem_map.mp hitem
      rfl

/-- The arranged things are what is written. -/
theorem Punctuated.lifetimesFirst_eq {items : List AngleItem} (h : Punctuated items) :
    lifetimesFirst items = (Grammar.arranged items).flatMap AngleItem.written := by
  unfold Grammar.arranged
  split
  · next hall =>
    have hlifetimes : items.filter (·.lifetime) = items := by
      simpa [List.filter_eq_self] using hall
    have hothers : (items.filter fun item => !item.lifetime) = [] := by
      simpa [List.filter_eq_nil_iff] using hall
    simp [lifetimesFirst, hlifetimes, hothers]
  · next hall =>
    have hothers : (items.filter fun item => !item.lifetime).isEmpty = false := by
      simpa [List.isEmpty_iff, List.filter_eq_nil_iff] using hall
    have hlifetimes : Punctuated (items.filter (·.lifetime)) := h.filter _
    simp only [lifetimesFirst, hothers, Bool.not_false, Bool.and_true, List.flatMap_append,
      hlifetimes.written_eq]

/-- What is written is arranged already. -/
theorem arranged_arranged (items : List AngleItem) : arranged (arranged items) = arranged items := by
  by_cases hall : items.all (·.lifetime) = true
  · have harranged : arranged items = items := if_pos hall
    rw [harranged, harranged]
  · have harranged : arranged items = _ := if_neg hall
    have hall' : ¬ (arranged items).all (·.lifetime) = true := by
      intro hall'
      rw [harranged, List.all_append, Bool.and_eq_true] at hall'
      simp only [List.all_filter] at hall'
      exact hall (by simpa using hall'.2)
    rw [arranged, if_neg hall', harranged]
    have hnone : items.filter (fun _ => false) = [] := List.filter_eq_nil_iff.mpr fun _ _ => by simp
    simp [List.filter_append, List.filter_map, Function.comp_def, hnone]

theorem Punctuated.lifetimesFirst_arranged {items : List AngleItem} (h : Punctuated items) :
    lifetimesFirst (Grammar.arranged items) = lifetimesFirst items := by
  rw [h.lifetimesFirst_eq, h.arranged.lifetimesFirst_eq, arranged_arranged]

/-! ### Pieces -/

variable {g : PhraseReader} {m : Rendition} {s : List Lexeme}

/-- A thing in angle brackets, as it was taken. -/
structure Piece where
  /-- What was ahead when it was taken. -/
  ahead : List Lexeme
  taken : List Lexeme
  written : List Lexeme
  lifetime : Bool
  /-- The joint of the comma behind it. -/
  comma? : Option Bool

namespace Piece

/-- What is remembered of a piece. -/
def result (piece : Piece) : (Bool × List Lexeme) × Bool :=
  ((piece.lifetime, piece.written), piece.comma?.isSome)

/-- The lexemes of the comma behind a piece. -/
def comma (piece : Piece) : List Lexeme :=
  match piece.comma? with
  | some joint => [punct ',' joint]
  | none => []

/-- A piece as it was taken, with its comma. -/
def source (piece : Piece) : List Lexeme := piece.taken ++ piece.comma

/-- A piece that is read again is spelt as it was written, and so is its comma. -/
def rewritten (piece : Piece) : Piece :=
  { piece with taken := piece.written, comma? := piece.comma?.map fun _ => false }

end Piece

/-- Behind a thing in angle brackets. -/
def AngleStop (ls : List Lexeme) : Prop :=
  sees "," ls = true ∨ sees ">" ls = true

/-- How things in angle brackets are read: `start` tells how they look at their beginning. -/
structure AngleElement (g : PhraseReader) (element : Rule Bool)
    (start : List Lexeme → List Lexeme → Prop) : Prop where
  again : ∀ m s, sees ">" s = false → Rereads g m s element element id (start s) fun _ s' k =>
    AngleStop s' ∧ AngleStop k
  look : ∀ s p, start s p → Look s p

/-- A piece that stands where it did, or elsewhere, is read again. -/
def Piece.Again (g : PhraseReader) (element : Rule Bool) (start : List Lexeme → List Lexeme → Prop)
    (piece : Piece) : Prop :=
  ∀ q k, q.rest = piece.taken ++ k → q.stray = none → AngleStop k →
    sees ">" q.rest = false ∧ start piece.ahead q.rest ∧
      element.run g q = .ok (piece.lifetime, q.after piece.taken piece.written k)

/-- How commas in angle brackets are read. -/
structure AngleSeparator (g : PhraseReader) (separator : Rule Unit) : Prop where
  of_sees : ∀ r, sees "," r.rest = true → separator.run g r = (Rule.operator ",").run g r
  of_not_sees : ∀ r, sees "," r.rest = false → ∃ fault, separator.run g r = .error fault

variable {separator : Rule Unit} {element : Rule Bool} {start : List Lexeme → List Lexeme → Prop}

/-- One round of reading things in angle brackets. -/
def Rule.angleStep (separator : Rule Unit) (element : Rule Bool)
    (soFar : List ((Bool × List Lexeme) × Bool)) :
    Rule (List ((Bool × List Lexeme) × Bool) ⊕ List ((Bool × List Lexeme) × Bool)) := do
  if sees ">" (← ahead) then return .inr soFar.reverse
  else
    let a ← hold element
    if sees ">" (← ahead) then return .inr ((a, false) :: soFar).reverse
    else
      separator
      return .inl ((a, true) :: soFar)

theorem Rule.separated_eq (separator : Rule Unit) (element : Rule Bool) :
    separated separator (sees ">") (hold element) = repeating (angleStep separator element) [] := rfl

theorem exists_of_seesIdentifier {ls : List Lexeme} (h : seesIdentifier ls = true) :
    ∃ w ls', ls = word w :: ls' ∧ isIdentifier w = true := by
  cases ls with
  | nil => cases h
  | cons l ls =>
      cases l with
      | word w => exact ⟨w, ls, rfl, h⟩
      | _ => cases h

theorem exists_of_sees {c : Char} {ls : List Lexeme} (h : startsWith [c] ls = true) :
    ∃ joint ls', ls = punct c joint :: ls' := by
  cases ls with
  | nil => cases h
  | cons l ls =>
      cases l with
      | punct d joint =>
          obtain rfl : c = d := by simpa [startsWith] using h
          exact ⟨joint, ls, rfl⟩
      | _ => cases h

/-- Reading a thing and holding back what it writes. -/
theorem Rule.run_hold_of_after {q : Reader} {lifetime : Bool} {taken written k : List Lexeme}
    (h : ∀ q : Reader, q.rest = taken ++ k → q.stray = none →
      element.run g q = .ok (lifetime, q.after taken written k))
    (hq : q.rest = taken ++ k) (hq' : q.stray = none) :
    (hold element).run g q = .ok ((lifetime, written), q.after taken [] k) := by
  have hrun := h { q with written := [] } hq hq'
  refine run_hold_eq_ok.mpr ⟨lifetime, _, hrun, ?_, ?_⟩ <;> simp [Reader.after]

theorem Rule.run_angleStep_of_stop {q : Reader} (h : sees ">" q.rest = true)
    (soFar : List ((Bool × List Lexeme) × Bool)) :
    (angleStep separator element soFar).run g q = .ok (.inr soFar.reverse, q) := by
  rw [angleStep, run_bind_of_ok (run_ahead q), if_pos h]
  rfl

/-- A thing with no comma behind it is the last. -/
theorem Rule.run_angleStep_of_last {q q' : Reader} {a : Bool × List Lexeme}
    (hopened : sees ">" q.rest = false) (h : (hold element).run g q = .ok (a, q'))
    (hstop : sees ">" q'.rest = true) (soFar : List ((Bool × List Lexeme) × Bool)) :
    (angleStep separator element soFar).run g q = .ok (.inr ((a, false) :: soFar).reverse, q') := by
  rw [angleStep, run_bind_of_ok (run_ahead q), if_neg (by simp [hopened]), run_bind_of_ok h,
    run_bind_of_ok (run_ahead q'), if_pos hstop]
  rfl

/-- A thing with a comma behind it. -/
theorem Rule.run_angleStep_of_comma {q q' q'' : Reader} {a : Bool × List Lexeme}
    (hopened : sees ">" q.rest = false) (h : (hold element).run g q = .ok (a, q'))
    (hstop : sees ">" q'.rest = false) (hseparator : separator.run g q' = .ok ((), q''))
    (soFar : List ((Bool × List Lexeme) × Bool)) :
    (angleStep separator element soFar).run g q = .ok (.inl ((a, true) :: soFar), q'') := by
  rw [angleStep, run_bind_of_ok (run_ahead q), if_neg (by simp [hopened]), run_bind_of_ok h,
    run_bind_of_ok (run_ahead q'), if_neg (by simp [hstop]), run_bind_of_ok hseparator]
  rfl

/-- What one round can do: it stops, it takes the last thing, or it takes a thing with its comma. -/
theorem Rule.cases_of_run_angleStep (hseparator : AngleSeparator g separator) {q q' : Reader}
    {soFar : List ((Bool × List Lexeme) × Bool)} {y : _ ⊕ _}
    (h : (angleStep separator element soFar).run g q = .ok (y, q')) :
    (sees ">" q.rest = true ∧ y = .inr soFar.reverse ∧ q' = q) ∨
      sees ">" q.rest = false ∧ ∃ a q₁, (hold element).run g q = .ok (a, q₁) ∧
        ((sees ">" q₁.rest = true ∧ y = .inr ((a, false) :: soFar).reverse ∧ q' = q₁) ∨
          (sees "," q₁.rest = true ∧ y = .inl ((a, true) :: soFar) ∧ q' = q₁.take 1 [Lexeme.comma])) := by
  rw [angleStep, run_bind_of_ok (run_ahead q)] at h
  split at h
  · next hstop =>
    cases h
    exact .inl ⟨hstop, rfl, rfl⟩
  next hopened =>
  obtain ⟨a, q₁, hhold, h⟩ := run_bind_eq_ok.mp h
  refine .inr ⟨by simpa using hopened, a, q₁, hhold, ?_⟩
  rw [run_bind_of_ok (run_ahead q₁)] at h
  split at h
  · next hlast =>
    cases h
    exact .inl ⟨hlast, rfl, rfl⟩
  obtain ⟨_, q₂, hcomma, ⟨⟩⟩ := run_bind_eq_ok.mp h
  cases hsees : sees "," q₁.rest with
  | false =>
      obtain ⟨fault, hfault⟩ := hseparator.of_not_sees q₁ hsees
      cases hfault.symm.trans hcomma
  | true =>
      obtain ⟨-, rfl⟩ := run_operator_eq_ok.mp ((hseparator.of_sees q₁ hsees).symm.trans hcomma)
      exact .inr ⟨rfl, rfl, rfl⟩

/-- Only the last piece has no comma behind it. -/
theorem Piece.eq_nil_of_no_comma {piece : Piece} {pieces : List Piece}
    (h : (piece :: pieces).Pairwise fun piece _ => piece.comma?.isSome = true)
    (hnone : piece.comma? = none) :
    pieces = [] := by
  cases pieces with
  | nil => rfl
  | cons other pieces =>
      have hcomma := (List.pairwise_cons.mp h).1 other List.mem_cons_self
      rw [hnone] at hcomma
      cases hcomma

/-- What stands behind a piece among others. -/
theorem Piece.angleStop (left : List Piece) {right : List Piece} {piece : Piece} {k : List Lexeme}
    (h : (left ++ piece :: right).Pairwise fun piece _ => piece.comma?.isSome = true)
    (hk : sees ">" k = true) :
    AngleStop (piece.comma ++ (right.flatMap Piece.source ++ k)) := by
  cases hcomma : piece.comma? with
  | some joint =>
      rw [Piece.comma, hcomma]
      exact .inl rfl
  | none =>
      obtain rfl := eq_nil_of_no_comma (List.pairwise_append.mp h).2.1 hcomma
      rw [Piece.comma, hcomma]
      exact .inr hk

/-- The comma behind a piece is read. -/
theorem AngleSeparator.run_comma (h : AngleSeparator g separator) {piece : Piece} {joint : Bool}
    (hcomma : piece.comma? = some joint) (q : Reader) (k : List Lexeme) :
    separator.run g (q.after piece.taken [] (piece.comma ++ k)) =
      .ok ((), q.after piece.source [comma] k) := by
  have hpunct : piece.comma = [punct ',' joint] := by rw [Piece.comma, hcomma]
  rw [hpunct, h.of_sees _ rfl, Rule.run_operator_of_sees rfl]
  refine congrArg (fun q => Except.ok ((), q)) ?_
  refine (Reader.take_eq_after [punct ',' joint] _ rfl rfl).trans ?_
  rw [Reader.after_after, Piece.source, hpunct]
  rfl

/-- Pieces that stand one after another are read again. -/
theorem iterate_pieces (hseparator : AngleSeparator g separator) {k : List Lexeme} (hk : sees ">" k = true) :
    ∀ (pieces : List Piece) (bound : Nat) (soFar : List ((Bool × List Lexeme) × Bool)) (q : Reader),
      (∀ piece ∈ pieces, piece.Again g element start) →
      pieces.Pairwise (fun piece _ => piece.comma?.isSome = true) →
      q.rest = pieces.flatMap Piece.source ++ k → q.stray = none → pieces.length < bound →
      ∃ written, iterate (fun x => (Rule.angleStep separator element x).run g) bound soFar q =
        .ok (soFar.reverse ++ pieces.map Piece.result,
          q.after (pieces.flatMap Piece.source) written k) := by
  intro pieces
  induction pieces with
  | nil =>
      intro bound soFar q _ _ hq hq' hbound
      obtain ⟨bound, rfl⟩ : ∃ n, bound = n + 1 := ⟨bound - 1, by omega⟩
      replace hq : q.rest = k := hq
      refine ⟨[], ?_⟩
      rw [iterate, Rule.run_angleStep_of_stop (hq ▸ hk)]
      simp [← hq, Reader.after_nil hq']
  | cons piece pieces ih =>
      intro bound soFar q hagain hpairwise hq hq' hbound
      obtain ⟨bound, rfl⟩ : ∃ n, bound = n + 1 := ⟨bound - 1, by omega⟩
      have hsplit : q.rest = piece.taken ++ (piece.comma ++ (pieces.flatMap Piece.source ++ k)) := by
        rw [hq, List.flatMap_cons, Piece.source]
        simp only [List.append_assoc]
      have hone := fun q hq hq' =>
        hagain piece List.mem_cons_self q _ hq hq' (Piece.angleStop [] hpairwise hk)
      have hopened := (hone q hsplit hq').1
      have hhold := Rule.run_hold_of_after (fun q hq hq' => (hone q hq hq').2.2) hsplit hq'
      cases hjoint : piece.comma? with
      | none =>
          obtain rfl := Piece.eq_nil_of_no_comma hpairwise hjoint
          have hempty : piece.comma = [] := by rw [Piece.comma, hjoint]
          rw [hempty] at hhold
          refine ⟨[], ?_⟩
          rw [iterate, Rule.run_angleStep_of_last hopened hhold hk]
          simp [Piece.result, Piece.source, hempty, hjoint]
      | some joint =>
          have hmore : sees ">" (piece.comma ++ (pieces.flatMap Piece.source ++ k)) = false := by
            rw [Piece.comma, hjoint]
            rfl
          obtain ⟨written, hrest⟩ := ih bound (piece.result :: soFar)
            (q.after piece.source [comma] (pieces.flatMap Piece.source ++ k))
            (fun other hother => hagain other (List.mem_cons_of_mem _ hother))
              (List.pairwise_cons.mp hpairwise).2
            rfl rfl (by simpa using hbound)
          refine ⟨[comma] ++ written, ?_⟩
          rw [iterate, Rule.run_angleStep_of_comma hopened hhold hmore (hseparator.run_comma hjoint q _)]
          have hresult : ((piece.lifetime, piece.written), true) = piece.result := by
            rw [Piece.result, hjoint]
            rfl
          simp only
          rw [hresult, hrest, Reader.after_after]
          simp

/-- A piece that was taken is read again, as it was taken and as it was written. -/
structure Piece.Sound (g : PhraseReader) (element : Rule Bool)
    (start : List Lexeme → List Lexeme → Prop) (piece : Piece) : Prop where
  read : ∃ r r', r.rest = piece.ahead ∧ element.run g r = .ok (piece.lifetime, r')
  again : piece.Again g element start
  rewritten : piece.rewritten.Again g element start

theorem exists_piece (hg : Tidy g) (helement : AngleElement g element start) {r r₁ : Reader}
    {a : Bool × List Lexeme} (hb : Balanced r.rest) (hopened : sees ">" r.rest = false)
    (hrun : (Rule.hold element).run g r = .ok (a, r₁)) (hstray : r₁.stray = none)
    (hstop : AngleStop r₁.rest) (comma? : Option Bool) :
    ∃ piece : Piece, piece.ahead = r.rest ∧ piece.comma? = comma? ∧ Closed piece.taken ∧ r.stray = none ∧
      r.rest = piece.taken ++ r₁.rest ∧ piece.Sound g element start := by
  obtain ⟨lifetime, r₂, hread, rfl, rfl⟩ := Rule.run_hold_eq_ok.mp hrun
  obtain ⟨taken, written, hclosed, hstray₀, hrest, hafter, hagain⟩ :=
    helement.again .source r.rest hopened hg { r with written := [] } lifetime r₂ rfl hb hread hstray
  obtain ⟨taken', written', -, -, hrest', hafter', hagain'⟩ :=
    helement.again .written r.rest hopened hg { r with written := [] } lifetime r₂ rfl hb hread hstray
  obtain ⟨rfl, rfl⟩ := Reader.after_inj (hrest.symm.trans hrest') (hafter.symm.trans hafter')
  have hchar : ∀ p, start r.rest p → sees ">" p = false := fun p hp =>
    ((helement.look _ _ hp).char '>').trans hopened
  refine ⟨⟨r.rest, taken, written, lifetime, comma?⟩, rfl, rfl, hclosed, hstray₀, hrest,
    ⟨⟨{ r with written := [] }, r₂, rfl, hread⟩, fun q k hq hq' hk => ?_, fun q k hq hq' hk => ?_⟩⟩
  · obtain ⟨hp, a', ha, hrun'⟩ := hagain q k hq hq' ⟨hstop, hk⟩
    exact ⟨hchar _ hp, hp, (show a' = lifetime from ha) ▸ hrun'⟩
  · obtain ⟨hp, a', ha, hrun'⟩ := hagain' q k hq hq' ⟨hstop, hk⟩
    exact ⟨hchar _ hp, hp, (show a' = lifetime from ha) ▸ hrun'⟩

/-- What is ahead falls apart into pieces and what stands behind them. -/
structure FallsApart (g : PhraseReader) (element : Rule Bool) (start : List Lexeme → List Lexeme → Prop)
    (pieces : List Piece) (ls k : List Lexeme) : Prop where
  closed : Closed (pieces.flatMap Piece.source)
  rest : ls = pieces.flatMap Piece.source ++ k
  commas : pieces.Pairwise fun piece _ => piece.comma?.isSome = true
  sound : ∀ piece ∈ pieces, piece.Sound g element start
  ahead : ∀ piece ∈ pieces.head?, piece.ahead = ls

namespace FallsApart

variable {piece : Piece} {pieces : List Piece} {ls k : List Lexeme}

theorem nil (k : List Lexeme) : FallsApart g element start [] k k :=
  ⟨.nil, rfl, .nil, nofun, nofun⟩

theorem single (hclosed : Closed piece.taken) (hcomma : piece.comma? = none) (hls : ls = piece.taken ++ k)
    (hahead : piece.ahead = ls) (hsound : piece.Sound g element start) :
    FallsApart g element start [piece] ls k := by
  have hsource : [piece].flatMap Piece.source = piece.taken := by
    rw [List.flatMap_singleton, Piece.source, Piece.comma, hcomma, List.append_nil]
  exact ⟨hsource ▸ hclosed, hsource ▸ hls, List.pairwise_singleton _ _, by simpa using hsound,
    by simpa using hahead⟩

theorem cons {joint : Bool} {rest : List Lexeme} (hclosed : Closed piece.taken)
    (hcomma : piece.comma? = some joint)
    (hls : ls = piece.taken ++ punct ',' joint :: rest) (hahead : piece.ahead = ls)
    (hsound : piece.Sound g element start) (h : FallsApart g element start pieces rest k) :
    FallsApart g element start (piece :: pieces) ls k := by
  have hsource : (piece :: pieces).flatMap Piece.source =
      piece.taken ++ [punct ',' joint] ++ pieces.flatMap Piece.source := by
    rw [List.flatMap_cons, Piece.source, Piece.comma, hcomma]
  refine ⟨?_, ?_, List.pairwise_cons.mpr ⟨fun _ _ => ?_, h.commas⟩, ?_, by simpa using hahead⟩
  · rw [hsource]
    exact (hclosed.append (.punct _ _)).append h.closed
  · rw [hsource, hls, h.rest]
    simp
  · rw [hcomma]
    rfl
  · simpa using ⟨hsound, h.sound⟩

end FallsApart

/-- What is taken between angle brackets falls apart into pieces. -/
theorem exists_pieces (hg : Tidy g) (helement : AngleElement g element start)
    (hseparator : AngleSeparator g separator) :
    ∀ (bound : Nat) (soFar : List ((Bool × List Lexeme) × Bool)) (r : Reader) result (r' : Reader),
      Balanced r.rest →
      iterate (fun x => (Rule.angleStep separator element x).run g) bound soFar r = .ok (result, r') →
      r'.stray = none →
      r.stray = none ∧ sees ">" r'.rest = true ∧
        ∃ pieces, FallsApart g element start pieces r.rest r'.rest := by
  intro bound
  induction bound with
  | zero =>
      intro soFar r result r' _ h
      cases h
  | succ bound ih =>
      intro soFar r result r' hb hrun hstray
      rw [iterate] at hrun
      cases hstep : (Rule.angleStep separator element soFar).run g r with
      | error fault =>
          rw [hstep] at hrun
          cases hrun
      | ok found =>
      obtain ⟨y, r₂⟩ := found
      rw [hstep] at hrun
      rcases Rule.cases_of_run_angleStep hseparator hstep with
        ⟨hstop, rfl, rfl⟩ | ⟨hopened, a, r₁, hhold, ⟨hlast, rfl, rfl⟩ | ⟨hsees, rfl, rfl⟩⟩
      · cases hrun
        exact ⟨hstray, hstop, [], .nil _⟩
      · cases hrun
        obtain ⟨piece, hahead, hcomma, hclosed, hstray₀, hrest, hsound⟩ :=
          exists_piece hg helement hb hopened hhold hstray (.inr hlast) none
        exact ⟨hstray₀, hlast, [piece], .single hclosed hcomma hrest hahead hsound⟩
      · have hon := (Rule.hold element).run_getsOn hg r a r₁ hhold
        obtain ⟨joint, rest, hr₁⟩ := exists_of_sees (c := ',') hsees
        have htake : (r₁.take 1 [comma]).rest = rest := congrArg (List.drop 1) hr₁
        obtain ⟨hstray₁, hstop, pieces, hpieces⟩ :=
          ih _ _ _ _ (hb.of_suffix ((List.drop_suffix _ _).trans hon.rest)) hrun hstray
        obtain ⟨piece, hahead, hcomma, hclosed, hstray₀, hrest, hsound⟩ :=
          exists_piece hg helement hb hopened hhold hstray₁ (.inl hsees) (some joint)
        rw [htake] at hpieces
        exact ⟨hstray₀, hstop, piece :: pieces, .cons hclosed hcomma (hr₁ ▸ hrest) hahead hsound hpieces⟩

/-! ### The whole list -/

namespace Piece

/-- What is remembered of a piece. -/
def item (piece : Piece) : AngleItem := ⟨piece.lifetime, piece.written, piece.comma?.isSome⟩

/-- Pieces in the order in which they are written, each of them as it is written. -/
def arranged (pieces : List Piece) : List Piece :=
  if pieces.all (·.lifetime) then pieces.map rewritten
  else (pieces.filter (·.lifetime)).map (fun piece => { piece.rewritten with comma? := some false }) ++
    (pieces.filter fun piece => !piece.lifetime).map rewritten

theorem rewritten_item (piece : Piece) : piece.rewritten.item = piece.item := by
  simp [item, rewritten]

theorem map_arranged (pieces : List Piece) :
    (arranged pieces).map item = Grammar.arranged (pieces.map item) := by
  have hall : (pieces.map item).all (·.lifetime) = pieces.all (·.lifetime) := by
    simp [List.all_map, Function.comp_def, item]
  unfold arranged Grammar.arranged
  rw [hall]
  split
  · simp [Function.comp_def, rewritten_item]
  · simp only [List.map_append, List.map_map, List.filter_map]
    congr 1
    exact List.map_congr_left fun piece _ => rewritten_item piece

/-- What is read again in the place of pieces that are written. -/
theorem flatMap_source_arranged (pieces : List Piece) :
    (arranged pieces).flatMap source = (Grammar.arranged (pieces.map item)).flatMap AngleItem.written := by
  have hsource : ∀ piece ∈ arranged pieces, piece.source = piece.item.written := by
    have hrewritten : ∀ piece : Piece, piece.rewritten.source = piece.rewritten.item.written := by
      intro piece
      cases hcomma : piece.comma? <;> simp [source, comma, rewritten, item, AngleItem.written, hcomma,
        Lexeme.comma]
    intro piece hpiece
    unfold arranged at hpiece
    split at hpiece
    · obtain ⟨other, -, rfl⟩ := List.mem_map.mp hpiece
      exact hrewritten other
    · rcases List.mem_append.mp hpiece with hpiece | hpiece
      · obtain ⟨other, -, rfl⟩ := List.mem_map.mp hpiece
        rfl
      · obtain ⟨other, -, rfl⟩ := List.mem_map.mp hpiece
        exact hrewritten other
  rw [← map_arranged, List.flatMap_map, List.flatMap, List.flatMap, List.map_congr_left hsource]

theorem again_of_mem_arranged {pieces : List Piece} {piece : Piece}
    (hsound : ∀ piece ∈ pieces, piece.Sound g element start) (h : piece ∈ arranged pieces) :
    piece.Again g element start := by
  unfold arranged at h
  split at h
  · obtain ⟨other, hother, rfl⟩ := List.mem_map.mp h
    exact (hsound other hother).rewritten
  · rcases List.mem_append.mp h with h | h
    · obtain ⟨other, hother, rfl⟩ := List.mem_map.mp h
      exact (hsound other (List.mem_filter.mp hother).1).rewritten
    · obtain ⟨other, hother, rfl⟩ := List.mem_map.mp h
      exact (hsound other (List.mem_filter.mp hother).1).rewritten

theorem length_arranged (pieces : List Piece) : (arranged pieces).length = pieces.length := by
  unfold arranged
  split
  · simp
  · rw [List.length_append, List.length_map, List.length_map, ← List.length_append]
    exact (List.filter_append_perm (·.lifetime) pieces).length_eq

/-- The first piece that is written is the first one that was taken, or it is a lifetime. -/
theorem head?_arranged {pieces : List Piece} {first : Piece}
    (hsound : ∀ piece ∈ pieces, piece.Sound g element start)
    (h : (arranged pieces).head? = some first) :
    (∃ piece, pieces.head? = some piece ∧ piece.ahead = first.ahead) ∨
      ∃ r r', r.rest = first.ahead ∧ element.run g r = .ok (true, r') := by
  unfold arranged at h
  split at h
  · rw [List.head?_map, Option.map_eq_some_iff] at h
    obtain ⟨piece, hpiece, rfl⟩ := h
    exact .inl ⟨piece, hpiece, rfl⟩
  · cases hlifetimes : pieces.filter (·.lifetime) with
    | nil =>
        have hothers : (pieces.filter fun piece => !piece.lifetime) = pieces := by
          rw [List.filter_eq_self]
          intro piece hpiece
          simpa using List.filter_eq_nil_iff.mp hlifetimes piece hpiece
        rw [hlifetimes, hothers, List.map_nil, List.nil_append, List.head?_map,
          Option.map_eq_some_iff] at h
        obtain ⟨piece, hpiece, rfl⟩ := h
        exact .inl ⟨piece, hpiece, rfl⟩
    | cons piece others =>
        rw [hlifetimes] at h
        cases h
        have hpiece : piece ∈ pieces.filter (·.lifetime) := hlifetimes ▸ List.mem_cons_self
        obtain ⟨hmem, hlifetime⟩ := List.mem_filter.mp hpiece
        obtain ⟨r, r', hr, hread⟩ := (hsound piece hmem).read
        exact .inr ⟨r, r', hr, hlifetime ▸ hread⟩

theorem length_le {pieces : List Piece}
    (h : pieces.Pairwise fun piece _ => piece.comma?.isSome = true) :
    pieces.length ≤ (pieces.flatMap source).length + 1 := by
  induction pieces with
  | nil => exact Nat.zero_le _
  | cons piece pieces ih =>
      obtain ⟨hcomma, hpieces⟩ := List.pairwise_cons.mp h
      cases pieces with
      | nil => simp
      | cons other pieces =>
          obtain ⟨joint, hjoint⟩ := Option.isSome_iff_exists.mp (hcomma other List.mem_cons_self)
          have hlength := ih hpieces
          rw [List.flatMap_cons, List.length_append, source, comma, hjoint]
          simp only [List.length_cons, List.length_append, List.length_nil] at hlength ⊢
          omega

end Piece

/-- How things in angle brackets look at their beginning: `start` tells how the first one looks. -/
def AngleFront (g : PhraseReader) (element : Rule Bool) (start : List Lexeme → List Lexeme → Prop)
    (s p : List Lexeme) : Prop :=
  ∃ joint joint' s' p', s = punct '<' joint :: s' ∧ p = punct '<' joint' :: p' ∧
    (joint' = true → joint = true ∧ Look s' p') ∧
    ((sees ">" s' = true ∧ sees ">" p' = true) ∨ start s' p' ∨
      ∃ r r', element.run g r = .ok (true, r') ∧ start r.rest p')

/-- Pieces in angle brackets are read. -/
theorem run_angleBrackets (hseparator : AngleSeparator g separator) {pieces : List Piece}
    (hagain : ∀ piece ∈ pieces, piece.Again g element start)
    (hpairwise : pieces.Pairwise fun piece _ => piece.comma?.isSome = true) {q : Reader}
    {joint joint' : Bool} {k : List Lexeme}
    (hq : q.rest = [punct '<' joint] ++ (pieces.flatMap Piece.source ++ (punct '>' joint' :: k)))
    (hq' : q.stray = none) :
    (Rule.angleBrackets separator element).run g q = .ok (pieces.map Piece.item,
      q.after ([punct '<' joint] ++ pieces.flatMap Piece.source ++ [punct '>' joint'])
        ([punct '<' false] ++ lifetimesFirst (pieces.map Piece.item) ++ [punct '>' false]) k) := by
  have hitems {f : _ → AngleItem} (hf : ∀ piece, f (Piece.result piece) = piece.item) :
      (pieces.map Piece.result).map f = pieces.map Piece.item := by
    rw [List.map_map]
    exact List.map_congr_left fun piece _ => hf piece
  have hopen : (Rule.operator "<").run g q = .ok ((), q.after [punct '<' joint] [punct '<' false]
      (pieces.flatMap Piece.source ++ (punct '>' joint' :: k))) := by
    rw [Rule.run_operator_of_sees (by rw [hq]; rfl)]
    exact congrArg (fun q => Except.ok ((), q)) (Reader.take_eq_after [punct '<' joint] _ hq hq')
  obtain ⟨written, hiterate⟩ := iterate_pieces hseparator (k := punct '>' joint' :: k) rfl pieces
    ((pieces.flatMap Piece.source ++ (punct '>' joint' :: k)).length + 1) []
    { q.after [punct '<' joint] [punct '<' false] (pieces.flatMap Piece.source ++ (punct '>' joint' :: k))
      with written := [] } hagain hpairwise rfl rfl (by
        have hlength := Piece.length_le hpairwise
        simp only [List.length_append, List.length_cons]
        omega)
  have hhold := Rule.run_hold_eq_ok.mpr ⟨_, _, (Rule.run_repeating _ _ _).trans hiterate, rfl, rfl⟩
  rw [Rule.angleBrackets, Rule.run_bind_of_ok hopen, Rule.separated_eq, Rule.run_bind_of_ok hhold]
  simp only [List.reverse_nil, List.nil_append]
  rw [hitems fun _ => rfl, Rule.run_bind_of_ok (Rule.run_write _ _),
    Rule.run_bind_of_ok (Rule.run_operator_of_sees rfl), Rule.run_pure]
  simp only [Reader.after, Reader.take, Except.ok.injEq, Prod.mk.injEq, Reader.mk.injEq, View.mk.injEq,
    List.length_append, List.length_cons, List.length_nil, List.reverse_append, true_and, and_true]
  refine ⟨⟨?_, rfl⟩, ?_⟩
  · have hlength : ">".length = 1 := rfl
    omega
  · simp only [List.append_assoc]
    rfl

/-- What is taken with its angle brackets falls apart into pieces. -/
theorem pieces_of_run_angleBrackets (hg : Tidy g) (helement : AngleElement g element start)
    (hseparator : AngleSeparator g separator) {r r' : Reader} {items : List AngleItem}
    (hb : Balanced r.rest) (hrun : (Rule.angleBrackets separator element).run g r = .ok (items, r'))
    (hstray : r'.stray = none) :
    ∃ (pieces : List Piece) (joint joint' : Bool) (ls rest : List Lexeme), r.stray = none ∧
      r.rest = punct '<' joint :: ls ∧ FallsApart g element start pieces ls (punct '>' joint' :: rest) := by
  obtain ⟨_, r₁, hopen, hrun⟩ := Rule.run_bind_eq_ok.mp hrun
  obtain ⟨hsees, rfl⟩ := Rule.run_operator_eq_ok.mp hopen
  obtain ⟨joint, ls, hr⟩ := exists_of_sees (c := '<') hsees
  obtain ⟨_, r₂, hhold, hrun⟩ := Rule.run_bind_eq_ok.mp hrun
  obtain ⟨found, r₃, hread, ⟨⟩, rfl⟩ := Rule.run_hold_eq_ok.mp hhold
  have hstray₃ : r₃.stray = none := (Rule.run_getsOn hg _ _ _ _ hrun).stray hstray
  rw [Rule.separated_eq, Rule.run_repeating] at hread
  obtain ⟨hstray₀, hstop, pieces, hpieces⟩ :=
    exists_pieces hg helement hseparator _ _ _ _ _ (hb.of_suffix (List.drop_suffix _ _)) hread hstray₃
  obtain ⟨joint', rest, hclose⟩ := exists_of_sees (c := '>') hstop
  have hopened : (r.take "<".length (Lexeme.operator "<".toList)).rest = ls := congrArg (List.drop 1) hr
  exact ⟨pieces, joint, joint', ls, rest, hstray₀, hr, hclose ▸ hopened ▸ hpieces⟩

/-- How pieces look at their beginning: as the first one does. -/
theorem start_of_pieces {pieces : List Piece} {k : List Lexeme}
    (hagain : ∀ piece ∈ pieces, piece.Again g element start)
    (hpairwise : pieces.Pairwise fun piece _ => piece.comma?.isSome = true)
    (hk : sees ">" k = true) :
    ∀ piece ∈ pieces.head?, start piece.ahead (pieces.flatMap Piece.source ++ k) := by
  cases pieces with
  | nil => simp
  | cons piece pieces =>
      intro first hfirst
      cases hfirst
      have hstart := (hagain piece List.mem_cons_self
        ⟨⟨0, piece.taken ++ (piece.comma ++ (pieces.flatMap Piece.source ++ k))⟩, [], none⟩ _ rfl rfl
        (Piece.angleStop [] hpairwise hk)).2.1
      simpa [Piece.source] using hstart

namespace FallsApart

variable {pieces : List Piece} {ls k : List Lexeme}

theorem again (h : FallsApart g element start pieces ls k) : ∀ piece ∈ pieces, piece.Again g element start :=
  fun piece hpiece => (h.sound piece hpiece).again

/-- Pieces that stand elsewhere begin as they did where they stood. -/
theorem start_elsewhere (h : FallsApart g element start pieces ls k)
    (hk : sees ">" k = true) {k' : List Lexeme}
    (hk' : sees ">" k' = true) :
    (sees ">" ls = true ∧ sees ">" (pieces.flatMap Piece.source ++ k') = true) ∨
      start ls (pieces.flatMap Piece.source ++ k') := by
  cases pieces with
  | nil => exact .inl ⟨h.rest ▸ hk, hk'⟩
  | cons piece pieces => exact .inr (h.ahead piece rfl ▸ start_of_pieces h.again h.commas hk' piece rfl)

theorem commas_arranged (h : FallsApart g element start pieces ls k) :
    (Piece.arranged pieces).Pairwise fun piece _ => piece.comma?.isSome = true := by
  have hpunctuated : Punctuated (pieces.map Piece.item) := List.pairwise_map.mpr h.commas
  exact List.pairwise_map.mp (Piece.map_arranged pieces ▸ hpunctuated.arranged)

/-- Pieces that are written begin as they did where they stood, or with a lifetime. -/
theorem start_arranged (h : FallsApart g element start pieces ls k)
    (hk : sees ">" k = true) {k' : List Lexeme}
    (hk' : sees ">" k' = true) :
    (sees ">" ls = true ∧ sees ">" ((Piece.arranged pieces).flatMap Piece.source ++ k') = true) ∨
      start ls ((Piece.arranged pieces).flatMap Piece.source ++ k') ∨
      ∃ r r', element.run g r = .ok (true, r') ∧
        start r.rest ((Piece.arranged pieces).flatMap Piece.source ++ k') := by
  have hstart := start_of_pieces (fun _ => Piece.again_of_mem_arranged h.sound) h.commas_arranged hk'
  cases hfirst : (Piece.arranged pieces).head? with
  | none =>
      have hnil := List.head?_eq_none_iff.mp hfirst
      have hlength := Piece.length_arranged pieces
      rw [hnil] at hlength
      obtain rfl := List.length_eq_zero_iff.mp hlength.symm
      exact .inl ⟨h.rest ▸ hk, hk'⟩
  | some first =>
      rcases Piece.head?_arranged h.sound hfirst with ⟨piece, hpiece, hahead⟩ | ⟨r, r', hr, hread⟩
      · exact .inr (.inl (h.ahead piece hpiece ▸ hahead ▸ hstart first hfirst))
      · exact .inr (.inr ⟨r, r', hread, hr ▸ hstart first hfirst⟩)

end FallsApart

/-- Things in angle brackets are read again. -/
theorem Rereads.angleBrackets (helement : AngleElement g element start)
    (hseparator : AngleSeparator g separator)
    {follow : List AngleItem → List Lexeme → List Lexeme → Prop} :
    Rereads g m s (Rule.angleBrackets separator element) (Rule.angleBrackets separator element)
      List.isEmpty (AngleFront g element start s) follow := by
  intro hg r items r' hs hb hrun hstray
  subst hs
  obtain ⟨pieces, joint, joint', ls, rest, hstray₀, hr, hpieces⟩ :=
    pieces_of_run_angleBrackets hg helement hseparator hb hrun hstray
  rw [run_angleBrackets hseparator hpieces.again hpieces.commas
    (by rw [hr, hpieces.rest]; rfl) hstray₀] at hrun
  cases hrun
  have hpunctuated : Punctuated (pieces.map Piece.item) := List.pairwise_map.mpr hpieces.commas
  refine ⟨_, _, ((Closed.punct _ _).append hpieces.closed).append (.punct _ _), hstray₀, ?_, rfl, ?_⟩
  · rw [hr, hpieces.rest]
    simp [Reader.after]
  intro q k hq hq' _
  cases m with
  | source =>
      replace hq : q.rest = [punct '<' joint] ++
          (pieces.flatMap Piece.source ++ (punct '>' joint' :: k)) := by simpa [Rendition.text] using hq
      have hstart := hpieces.start_elsewhere rfl (show sees ">" (punct '>' joint' :: k) = true from rfl)
      refine ⟨⟨joint, joint, _, _, hr, hq, fun hj => ⟨hj, ?_⟩, hstart.imp_right .inl⟩, _, rfl,
        run_angleBrackets hseparator hpieces.again hpieces.commas hq hq'⟩
      rcases hstart with ⟨hclosed, hclosed'⟩ | hstart
      · obtain ⟨_, _, hls⟩ := exists_of_sees (c := '>') hclosed
        obtain ⟨_, _, hp⟩ := exists_of_sees (c := '>') hclosed'
        rw [hls, hp]
        exact look_punct (by decide) (fun h => absurd h (by decide))
      · exact helement.look _ _ hstart
  | written =>
      replace hq : q.rest = [punct '<' false] ++
          ((Piece.arranged pieces).flatMap Piece.source ++ (punct '>' false :: k)) := by
        rw [Piece.flatMap_source_arranged, ← hpunctuated.lifetimesFirst_eq]
        simpa [Rendition.text] using hq
      have hrun := run_angleBrackets hseparator (fun _ => Piece.again_of_mem_arranged hpieces.sound)
        hpieces.commas_arranged hq hq'
      rw [Piece.flatMap_source_arranged, ← hpunctuated.lifetimesFirst_eq, Piece.map_arranged,
        hpunctuated.lifetimesFirst_arranged] at hrun
      refine ⟨⟨joint, false, _, _, hr, hq, by simp, hpieces.start_arranged rfl rfl⟩, _, ?_, hrun⟩
      rw [← Piece.map_arranged, List.isEmpty_map, List.isEmpty_map, Bool.eq_iff_iff, List.isEmpty_iff,
        List.isEmpty_iff, ← List.length_eq_zero_iff, Piece.length_arranged, List.length_eq_zero_iff]

end TypedId.Grammar
