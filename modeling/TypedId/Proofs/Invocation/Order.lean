import TypedId.Proofs.Invocation.Pointing
import TypedId.Proofs.Options.Acceptance

/-!
All or nothing: which failure is reported.

`Check.Fails` says when an annotation does not pass a check, and `Check.blame` what is at fault
then. An annotation is expanded if it passes all checks. Otherwise nothing but an error is emitted,
and it is that of the first check that fails: its message and its place depend on what is at fault
and on nothing else (`entity_all_or_nothing`).
-/

namespace TypedId

open Lexeme Grammar

/-- What is seen of an invocation: the code that is emitted, and for an error its place. -/
structure Outcome where
  code : List Lexeme
  place : Option (Part × Span)
deriving DecidableEq, Repr

/-- What is seen of an invocation whose texts consist of lexemes. -/
def Invocation.outcome? : Except Refusal (List Lexeme) → Option Outcome
  | .ok code => some ⟨code, none⟩
  | .error (.rejected part diagnostic span) => some ⟨diagnostic.code, some (part, span)⟩
  | .error (.unreadable _) => none

/-- What an annotation is at fault for. -/
structure Blame where
  /-- Lexemes and where they stand: all arguments, or the first and the last lexeme of an item that
  are at fault. There are none at the end of a text. -/
  tokens : List (Lexeme × Span)
  /-- What encloses them, if that matters: the name of the module, or the end of the group. -/
  inside : Option Lexeme
deriving DecidableEq, Repr

namespace Source

/-- The lexemes of a text and where they stand. -/
def tokens (s : Source) : List (Lexeme × Span) :=
  s.located.map fun l => (l.1, s.spanOf l.2)

/-- Where a stretch of some lexemes stands. Behind the last one is the end of the text. -/
def spanIn (tokens : List (Lexeme × Span)) (stretch : Stretch) : Span :=
  match tokens[stretch.first]?, tokens[stretch.last]? with
  | some first, some last => first.2.join last.2
  | _, _ => ⟨Place.origin, Place.origin⟩

/-- The first and the last lexeme of a stretch. -/
def bounds (s : Source) (stretch : Stretch) : List (Lexeme × Span) :=
  match s.tokens[stretch.first]?, s.tokens[stretch.last]? with
  | some first, some last => [first, last]
  | _, _ => []

variable (s : Source) (stretch : Stretch)

theorem tokens_map_fst : s.tokens.map Prod.fst = s.lexemes := by
  simp [tokens, lexemes]

theorem spanIn_tokens : spanIn s.tokens stretch = s.span stretch := by
  have hspan : ∀ i, s.tokenSpan? i = s.tokens[i]?.map Prod.snd := by
    intro i
    simp only [tokenSpan?, tokens, extents, List.getElem?_map, Option.map_map]
    rfl
  rw [span_eq_join, hspan, hspan, spanIn]
  cases s.tokens[stretch.first]? <;> cases s.tokens[stretch.last]? <;> rfl

theorem spanIn_bounds : spanIn (s.bounds stretch) ⟨0, 1⟩ = s.span stretch := by
  rw [← spanIn_tokens, bounds]
  cases hfirst : s.tokens[stretch.first]? <;> cases hlast : s.tokens[stretch.last]? <;>
    simp only [spanIn, hfirst, hlast] <;> rfl

theorem head?_bounds {position : Nat} {lexeme : Lexeme} (h : s.lexemes[position]? = some lexeme) :
    (s.bounds (.single position)).head?.map Prod.fst = some lexeme := by
  rw [← tokens_map_fst, List.getElem?_map] at h
  obtain ⟨token, htoken, rfl⟩ := Option.map_eq_some_iff.mp h
  simp only [bounds, Stretch.single, htoken]
  rfl

end Source

namespace Check

/-! ### Failures -/

/-- Whether an annotation does not pass a check. -/
def Fails (a s : Source) : Check → Prop
  | arguments => ¬ ∃ o, Options.Spelling a.lexemes o
  | item => ¬ ∃ found r, s.item? = some (found, r)
  | kind => ∃ found r, s.item? = some (found, r) ∧
      ∀ unsafeAt name attributes members,
        found.item.body ≠ .module unsafeAt name attributes members
  | safety => ∃ found r, s.item? = some (found, r) ∧
      ∃ position name attributes members,
        found.item.body = .module (some position) name attributes members
  | content => ∃ found r, s.item? = some (found, r) ∧
      ∃ unsafeAt name attributes, found.item.body = .module unsafeAt name attributes none
  | names => ∃ found r, s.item? = some (found, r) ∧
      ∃ unsafeAt name attributes items,
        found.item.body = .module unsafeAt name attributes (some items) ∧
          ∃ m ∈ items, ∃ n ∈ m.1.names, n.text ∈ reservedNames
  | groups => ∃ found r, s.item? = some (found, r) ∧ ∃ stray, r.stray = some stray

/-- Whether a check fails and no check before it does. -/
def FailsFirst (a s : Source) (c : Check) : Prop :=
  c.Fails a s ∧ ∃ before after, all = before ++ c :: after ∧ ∀ c' ∈ before, ¬ c'.Fails a s

/-- What encloses the lexemes that a diagnostic is about. -/
def inside? : Cause → Option Lexeme
  | .reserved _ moduleName => some (word moduleName)
  | .grammar (.leftOver d) _ => some (closing d)
  | _ => none

/-- What an annotation is at fault for if it does not pass a check. -/
def blame (a s : Source) (c : Check) : Blame :=
  match c with
  | arguments => ⟨a.tokens, none⟩
  | c =>
    match c.finding? a s with
    | some d => ⟨s.bounds d.stretch, inside? d.cause⟩
    | none => ⟨[], none⟩

/-- Why an annotation does not pass a check, told from what it is at fault for. -/
def diagnostic? (o : Blame) : Check → Option Diagnostic
  | arguments =>
    match Options.read (o.tokens.map Prod.fst) with
    | .error failure => some (.ofFailure failure)
    | .ok _ => none
  | item | kind => some ⟨.noModule, ⟨0, 1⟩⟩
  | safety => some ⟨.unsafeModule, ⟨0, 1⟩⟩
  | content => some ⟨.outOfLine, ⟨0, 1⟩⟩
  | names =>
    match o.tokens.head?.map Prod.fst, o.inside with
    | some (word name), some (word moduleName) => some ⟨.reserved name moduleName, ⟨0, 1⟩⟩
    | _, _ => none
  | groups =>
    match o.inside with
    | some (closing d) => some ⟨.grammar (.leftOver d) false, ⟨0, 1⟩⟩
    | _ => none

/-- The error for an annotation that does not pass a check: told from what it is at fault for. -/
def error? (c : Check) (o : Blame) : Option Outcome :=
  (c.diagnostic? o).map fun d => ⟨d.code, some (c.part, Source.spanIn o.tokens d.stretch)⟩

/-! ### Failures are findings -/

variable {a s : Source} {c : Check} {d : Diagnostic}

theorem arguments_fails_iff : arguments.Fails a s ↔ ∃ d, arguments.finding? a s = some d := by
  simp only [Fails, Options.exists_spelling_iff, finding?]
  cases Options.read a.lexemes with
  | ok o => simp
  | error failure => simp

theorem exists_firstReserved_iff {items : List (ItemBody × List Lexeme)} :
    (∃ n, firstReserved (items.map Prod.fst) = some n) ↔
      ∃ m ∈ items, ∃ n ∈ m.1.names, n.text ∈ reservedNames := by
  simp only [← Option.isSome_iff_exists, EntityModule.firstReserved_map_fst, List.find?_isSome,
    EntityModule.declared, List.mem_flatMap, Name.isReserved_iff]
  constructor
  · rintro ⟨n, ⟨m, hm, hn⟩, hreserved⟩
    exact ⟨m, hm, n, hn, hreserved⟩
  · rintro ⟨m, hm, n, hn, hreserved⟩
    exact ⟨n, ⟨m, hm, hn⟩, hreserved⟩

theorem item_fails_iff : item.Fails a s ↔ ∃ d, item.finding? a s = some d := by
  simp only [Fails, Source.item?, finding?]
  cases (Rule.call .item).read s.lexemes with
  | error fault => simp
  | ok x =>
      obtain ⟨found, r⟩ := x
      cases r.rest <;> simp

/-- A check does not fail for nothing: it has a finding exactly if it fails. -/
theorem fails_iff (a s : Source) (c : Check) : c.Fails a s ↔ ∃ d, c.finding? a s = some d := by
  cases hitem : s.item? with
  | none =>
      cases c with
      | arguments => exact arguments_fails_iff
      | item => exact item_fails_iff
      | _ => simp [Fails, finding?, hitem]
  | some x =>
      obtain ⟨found, r⟩ := x
      have hfound : ∀ P : OuterItem → Reader → Prop,
          (∃ found r, s.item? = some (found, r) ∧ P found r) ↔ P found r := by
        intro P
        rw [hitem]
        constructor
        · rintro ⟨_, _, ⟨⟩, h⟩
          exact h
        · exact fun h => ⟨found, r, rfl, h⟩
      cases c with
      | arguments => exact arguments_fails_iff
      | item => exact item_fails_iff
      | kind =>
          rw [Fails, hfound, kind_finding? hitem]
          cases found.item.body <;> simp
      | safety =>
          rw [Fails, hfound, safety_finding? hitem]
          cases found.item.body with
          | module unsafeAt => cases unsafeAt <;> simp
          | _ => simp
      | content =>
          rw [Fails, hfound, content_finding? hitem]
          cases found.item.body with
          | module unsafeAt name attributes members => cases members <;> simp
          | _ => simp
      | names =>
          rw [Fails, hfound, names_finding? hitem]
          constructor
          · rintro ⟨unsafeAt, name, attributes, items, hbody, hdeclared⟩
            obtain ⟨n, hn⟩ := exists_firstReserved_iff.mpr hdeclared
            rw [hbody]
            exact ⟨_, Option.map_eq_some_iff.mpr ⟨n, hn, rfl⟩⟩
          · rintro ⟨d, hd⟩
            split at hd
            · next unsafeAt name attributes items hbody =>
              obtain ⟨n, hn, -⟩ := Option.map_eq_some_iff.mp hd
              exact ⟨unsafeAt, name, attributes, items, hbody, exists_firstReserved_iff.mp ⟨n, hn⟩⟩
            · cases hd
      | groups =>
          rw [Fails, hfound, groups_finding? hitem]
          cases hstray : r.stray with
          | none => simp [Reader.strayFault?, hstray]
          | some stray => simp [Reader.strayFault?, hstray]

theorem failsFirst_of_firstFinding (h : c.FirstFinding a s d) : c.FailsFirst a s := by
  obtain ⟨hfinding, before, after, hall, hbefore⟩ := h
  refine ⟨(fails_iff a s c).mpr ⟨d, hfinding⟩, before, after, hall, fun c' hc' hfails => ?_⟩
  obtain ⟨d', hd'⟩ := (fails_iff a s c').mp hfails
  rw [hbefore c' hc'] at hd'
  cases hd'

/-- Of two checks that fail first neither is before the other. -/
theorem FailsFirst.unique {c' : Check} (h : c.FailsFirst a s) (h' : c'.FailsFirst a s) : c = c' := by
  obtain ⟨hfails, before, after, hall, hbefore⟩ := h
  obtain ⟨hfails', before', after', hall', hbefore'⟩ := h'
  obtain ⟨l, rfl, hl⟩ | ⟨l, rfl, hl⟩ := List.append_eq_append_iff.mp (hall.symm.trans hall')
  · cases l with
    | nil => exact (List.cons.inj hl).1
    | cons x l =>
        obtain rfl : c = x := (List.cons.inj hl).1
        exact (hbefore' c (by simp) hfails).elim
  · cases l with
    | nil => exact (List.cons.inj hl).1.symm
    | cons x l =>
        obtain rfl : c' = x := (List.cons.inj hl).1
        exact (hbefore c' (by simp) hfails').elim

/-! ### What is reported -/

/-- Why an item is refused can be told from what is at fault. -/
theorem diagnostic?_eq (hc : c ≠ arguments) (h : c.finding? a s = some d) :
    c.diagnostic? ⟨s.bounds d.stretch, inside? d.cause⟩ = some ⟨d.cause, ⟨0, 1⟩⟩ := by
  by_cases hitem : c = .item
  · subst hitem
    rw [cause_of_item_finding? h]
    rfl
  · obtain ⟨found, r, hfound⟩ := item?_of_finding? h hc hitem
    cases c with
    | arguments => exact (hc rfl).elim
    | item => exact (hitem rfl).elim
    | kind =>
        rw [kind_finding? hfound] at h
        split at h <;> cases h
        rfl
    | safety =>
        rw [safety_finding? hfound] at h
        split at h <;> cases h
        rfl
    | content =>
        rw [content_finding? hfound] at h
        split at h <;> cases h
        rfl
    | names =>
        obtain ⟨_, own, _, _, _, _, _, n, _, _, hname, rfl⟩ :=
          Source.reserved_of_names_finding? hfound h
        simp only [diagnostic?, Source.head?_bounds s hname, inside?]
    | groups =>
        rw [groups_finding? hfound] at h
        obtain ⟨fault, hstray, rfl⟩ := Option.map_eq_some_iff.mp h
        obtain ⟨⟨stretch, delimiter⟩, -, rfl⟩ := Option.map_eq_some_iff.mp hstray
        rfl

/-- The error that is reported for a finding can be told from what is at fault. -/
theorem error?_blame (h : c.finding? a s = some d) :
    c.error? (c.blame a s) =
      some ⟨d.code, some (c.part, (c.source a s).span d.stretch)⟩ := by
  by_cases hc : c = arguments
  · subst hc
    rw [error?, blame, diagnostic?, Source.tokens_map_fst]
    simp only [finding?] at h
    split at h
    · cases h
    · next failure hread =>
      cases h
      rw [hread]
      simp only [Option.map_some, Source.spanIn_tokens]
      rfl
  · have hblame : c.blame a s = ⟨s.bounds d.stretch, inside? d.cause⟩ := by
      cases c with
      | arguments => exact (hc rfl).elim
      | _ => simp only [blame, h]
    have hsource : c.source a s = s := by
      cases c with
      | arguments => exact (hc rfl).elim
      | _ => rfl
    rw [hblame, error?, diagnostic?_eq hc h, hsource]
    simp only [Option.map_some, Source.spanIn_bounds]
    rfl

end Check

namespace Invocation

open Check

variable {arguments arguments' item item' : String} {a a' s s' : Source} {c : Check}

/-- An annotation that fails a check before all others is reported for it. -/
theorem outcome?_of_failsFirst (ha : Source.read? arguments = some a)
    (hs : Source.read? item = some s) (h : c.FailsFirst a s) :
    outcome? (entity arguments item) = c.error? (c.blame a s) ∧
      ∃ d span, outcome? (entity arguments item) = some ⟨Diagnostic.code d, some (c.part, span)⟩ := by
  obtain ⟨c', d, hfirst, hentity⟩ | ⟨hnone, -⟩ := entity_cases ha hs
  · obtain rfl := h.unique (failsFirst_of_firstFinding hfirst)
    rw [hentity, error?_blame hfirst.1]
    exact ⟨rfl, d, _, rfl⟩
  · obtain ⟨d, hd⟩ := (fails_iff a s c).mp h.1
    rw [hnone c] at hd
    cases hd

/-- An annotation that fails some check fails one before all others. -/
theorem failsFirst_or_expanded (ha : Source.read? arguments = some a)
    (hs : Source.read? item = some s) :
    (∃ c, Check.FailsFirst a s c) ∨
      (∀ c : Check, ¬ c.Fails a s) ∧
        ∃ o found r m, Options.Spelling a.lexemes o ∧ s.item? = some (found, r) ∧
          EntityModule.OfItem found m ∧ entity arguments item = .ok (m.expand o) := by
  obtain ⟨c', d, hfirst, -⟩ | ⟨hnone, o, found, r, m, ho, hfound, hm, hentity⟩ := entity_cases ha hs
  · exact .inl ⟨c', failsFirst_of_firstFinding hfirst⟩
  · refine .inr ⟨fun c hc => ?_, o, found, r, m, Options.spelling_of_read ho, hfound, hm, hentity⟩
    obtain ⟨d, hd⟩ := (fails_iff a s c).mp hc
    rw [hnone c] at hd
    cases hd

/-- Arguments that are not accepted fail first, whatever is annotated. -/
theorem failsFirst_arguments (h : Check.arguments.Fails a s) (s' : Source) :
    Check.arguments.FailsFirst a s' :=
  ⟨h, [], _, rfl, nofun⟩

/-- All or nothing. An annotation that passes all checks is expanded as a whole. One that does not is
replaced by nothing but an error, that of the first check it fails; and what is reported depends on
what is at fault there alone, so that wrong arguments hide everything about the item. -/
theorem entity_all_or_nothing (ha : Source.read? arguments = some a)
    (hs : Source.read? item = some s) :
    ((∃ code, entity arguments item = .ok code) ↔ ∀ c : Check, ¬ c.Fails a s) ∧
      ((∀ c : Check, ¬ c.Fails a s) →
        ∃ o found r m, Options.Spelling a.lexemes o ∧ s.item? = some (found, r) ∧
          EntityModule.OfItem found m ∧ entity arguments item = .ok (m.expand o)) ∧
      ((∃ c : Check, c.Fails a s) →
        ∃ c : Check, c.FailsFirst a s ∧
          outcome? (entity arguments item) = c.error? (c.blame a s) ∧
            ∃ d span,
              outcome? (entity arguments item) = some ⟨Diagnostic.code d, some (c.part, span)⟩) ∧
      (∀ arguments' item' a' s', Source.read? arguments' = some a' → Source.read? item' = some s' →
        ∀ c : Check, c.FailsFirst a s → c.FailsFirst a' s' → c.blame a s = c.blame a' s' →
          outcome? (entity arguments item) = outcome? (entity arguments' item')) ∧
      (Check.arguments.Fails a s → ∀ item' s', Source.read? item' = some s' →
        outcome? (entity arguments item) = outcome? (entity arguments item')) := by
  have hmasked : ∀ arguments' item' a' s', Source.read? arguments' = some a' →
      Source.read? item' = some s' → ∀ c : Check, c.FailsFirst a s → c.FailsFirst a' s' →
        c.blame a s = c.blame a' s' →
          outcome? (entity arguments item) = outcome? (entity arguments' item') := by
    intro arguments' item' a' s' ha' hs' c hc hc' hblame
    rw [(outcome?_of_failsFirst ha hs hc).1, (outcome?_of_failsFirst ha' hs' hc').1, hblame]
  refine ⟨⟨?_, ?_⟩, fun hnone => ?_, ?_, hmasked, fun h item' s' hs' => ?_⟩
  · rintro ⟨code, hcode⟩
    obtain ⟨c, hc⟩ | ⟨hnone, -⟩ := failsFirst_or_expanded ha hs
    · obtain ⟨-, d, span, houtcome⟩ := outcome?_of_failsFirst ha hs hc
      rw [hcode] at houtcome
      cases houtcome
    · exact hnone
  · intro hnone
    obtain ⟨c, hc⟩ | ⟨-, o, found, r, m, -, -, -, hentity⟩ := failsFirst_or_expanded ha hs
    · exact (hnone c hc.1).elim
    · exact ⟨_, hentity⟩
  · obtain ⟨c, hc⟩ | ⟨-, h⟩ := failsFirst_or_expanded ha hs
    · exact (hnone c hc.1).elim
    · exact h
  · rintro ⟨c, hc⟩
    obtain ⟨c, hc⟩ | ⟨hnone, -⟩ := failsFirst_or_expanded ha hs
    · exact ⟨c, hc, outcome?_of_failsFirst ha hs hc⟩
    · exact (hnone c hc).elim
  · exact hmasked arguments item' a s' ha hs' .arguments (failsFirst_arguments h s)
      (failsFirst_arguments h s') rfl

/-- Wrong arguments hide that the item is no module. -/
theorem arguments_hide_the_item :
    ((∃ a, Source.read? "sql" = some a) ∧ (∃ s, Source.read? "unsafe mod a;" = some s) ∧
        ∃ s', Source.read? "fn" = some s') ∧
      outcome? (entity "sql" "unsafe mod a;") = outcome? (entity "sql" "fn") := by
  have ha : Source.read? "sql" = some ⟨"sql".toList, [(word "sql", ⟨0, 3⟩)]⟩ := rfl
  have herror : Options.read [word "sql"] = .error (.argument (.unknown "sql") (.single 0)) := rfl
  refine ⟨⟨⟨_, ha⟩, ⟨_, rfl⟩, _, rfl⟩, ?_⟩
  refine (entity_all_or_nothing ha rfl).2.2.2.2 (fun haccepted => ?_) _ _ rfl
  obtain ⟨o, ho⟩ := Options.exists_spelling_iff.mp haccepted
  cases herror.symm.trans ho

/-- What is left over in a type is reported last, though no attribute is written: neither does it make
the text less of an item, nor does it come before an unsafe module. -/
theorem leftover_in_type_is_reported_last :
    (∃ s, Source.read? "mod m{type A=(u8 u8);}" = some s ∧ punct '#' false ∉ s.lexemes) ∧
      entity "" "mod m{type A=(u8 u8);}" =
        .error (.rejected .item ⟨.grammar (.leftOver .parenthesis) false, .single 8⟩
          ⟨⟨1, 17⟩, ⟨1, 19⟩⟩) ∧
        entity "" "unsafe mod m{type A=(u8 u8);}" =
          .error (.rejected .item ⟨.unsafeModule, .single 0⟩ ⟨⟨1, 0⟩, ⟨1, 6⟩⟩) :=
  ⟨⟨_, rfl, by decide⟩, rfl, rfl⟩

end Invocation

end TypedId
