import TypedId.Proofs.IdLiteral.Reading
import TypedId.Proofs.Invocation.Checks
import TypedId.Proofs.Invocation.Messages
import TypedId.Proofs.Source.Extents

/-!
Where diagnostics point.

A diagnostic that names a fragment of a text points at exactly that fragment: what its span cuts out
of the text is the name, the keyword or the literal that it is about. `Source.Points` says so for
each cause; the text is the one without the mark of its byte order. The message says the same name,
keyword or text (`Cause.Says`).
-/

namespace TypedId

open Lexeme Grammar Ensures

/-- The name that a fault of arguments is about. -/
def ArgumentFault.name? : ArgumentFault → Option String
  | unknown name | valueRequired name => some name
  | _ => none

/-- Whether a span points at what a diagnostic of a text names. -/
def Source.Points (s : Source) (span : Span) : Cause → Prop
  | .arguments fault => ∀ name, fault.name? = some name → span.cut s.text = name.toList
  | .reserved name moduleName =>
    span.cut s.text = name.toList ∧ name ∈ reservedNames ∧
      ∃ found r unsafeAt own attributes items, s.item? = some (found, r) ∧
        found.item.body = .module unsafeAt own attributes (some items) ∧ own.text = moduleName ∧
          ∃ m ∈ items, ∃ n ∈ m.1.names, n.text = name ∧ span = s.span (.single n.position)
  | .outOfLine =>
    ∃ found r unsafeAt name attributes, s.item? = some (found, r) ∧
      found.item.body = .module unsafeAt name attributes none ∧ span.cut s.text = name.text.toList
  | .unsafeModule => span.cut s.text = "unsafe".toList
  | .invalidText text _ =>
    ∃ i content, s.lexemes[i]? = some (literal content) ∧ Text.literalText? content = some text ∧
      span = s.span (.single i) ∧ span.cut s.text = content.toList
  | _ => True

/-! ### Arguments -/

namespace Options

variable {g : PhraseReader} {ls : List Lexeme} {pre : View → Prop} {α : Type}

/-- Whether a fault that names something names the first lexeme, and is found there. -/
def NamesFirst (ls : List Lexeme) (finding : Finding α) : Prop :=
  ∀ fault stretch, finding = .error (fault, stretch) → ∀ name, fault.name? = some name →
    stretch = .single 0 ∧ ls[0]? = some (word name)

/-- What succeeds names nothing. -/
theorem namesFirst_ok (a : α) : NamesFirst ls (.ok a : Finding α) := nofun

/-- A fault without a name may stand anywhere. -/
theorem namesFirst_of_nameless {fault : ArgumentFault} (h : fault.name? = none) (stretch : Stretch) :
    NamesFirst ls (.error (fault, stretch) : Finding α) := by
  rintro _ _ ⟨⟩ name hname
  rw [h] at hname
  cases hname

/-- The value of an argument is never what a fault names. -/
theorem ensures_value (hs : Stays g ls) : Ensures g ls pre value fun found _ => NamesFirst ls found := by
  refine look fun v _ _ => .ite (fun _ => .pure fun _ _ => namesFirst_of_nameless rfl _) fun _ =>
    .ite (fun _ => .pure fun _ _ => namesFirst_of_nameless rfl _) fun _ => skip hs fun _ => ?_
  exact .ite (fun _ => .pure fun _ _ => namesFirst_ok _) fun _ =>
    skip hs fun _ => .pure fun _ _ => namesFirst_of_nameless rfl _

/-- An unknown name stands at the front, where arguments begin. -/
theorem ensures_argument (hs : Stays g ls) :
    Ensures g ls (·.position = 0) argument fun found _ => NamesFirst ls found := by
  refine ahead fun v _ hstart => .ite (fun _ => skip hs fun _ => .pure fun _ _ => namesFirst_ok _) fun _ =>
    .ite (fun _ => ?_) fun _ => ensures_value hs
  refine learn (P := fun n : Name => n.StandsIn ls ∧ n.position = 0) ?_ fun name ⟨hname, hzero⟩ => ?_
  · refine (identifier anyWord).weaken fun n _ ⟨hn, _, v', hv', hposition⟩ => ⟨hn, ?_⟩
    rw [hposition, hv', hstart]
  · have hnames : ∀ fault : ArgumentFault, fault.name? = some name.text →
        NamesFirst ls (.error (fault, .single name.position) : Finding Bool) := by
      rintro _ hfault _ _ ⟨⟩ _ h
      rw [hfault] at h
      cases h
      rw [hzero]
      exact ⟨rfl, hzero ▸ hname⟩
    refine .ite (fun _ => .pure fun _ _ => hnames _ rfl) fun _ => ahead fun _ _ _ =>
      .ite (fun _ => .pure fun _ _ => hnames _ rfl) fun _ => skip hs fun _ => ensures_value hs

/-- So it does for the arguments as a whole. -/
theorem ensures_rule (hs : Stays g ls) :
    Ensures g ls (·.position = 0) rule fun found _ => NamesFirst ls found := by
  refine ahead fun v _ hstart => .ite (fun _ => .pure fun _ _ => namesFirst_ok _) fun _ => ?_
  refine learn ((ensures_argument hs).strengthen fun w hw => hw ▸ hstart) fun found hfound => ?_
  cases found with
  | error found =>
      refine .pure fun _ _ => ?_
      rintro _ _ ⟨⟩
      exact hfound _ _ rfl
  | ok database =>
      exact look fun _ _ _ => .ite (fun _ => .pure fun _ _ => namesFirst_ok _) fun _ =>
        .pure fun _ _ => namesFirst_of_nameless rfl _

/-- Arguments that are at fault for a name begin with it. -/
theorem namesFirst_of_read {fault : ArgumentFault} {stretch : Stretch} {name : String}
    (h : read ls = .error (.argument fault stretch)) (hname : fault.name? = some name) :
    stretch = .single 0 ∧ ls[0]? = some (word name) := by
  rw [read] at h
  split at h
  · cases h
  · next found r hrun =>
    cases h
    exact (ensures_rule (tells_readWithin ls _).stays (.ofLexemes ls) _ _ (Reader.within_ofLexemes ls) rfl
      hrun).2 _ _ rfl name hname
  · cases h

end Options

/-! ### Modules -/

namespace Source

variable {text : String} {s : Source} {found : OuterItem} {r : Reader}

/-- A text is read without the mark that may stand before it. -/
theorem text_of_read? (h : read? text = some s) : s.text = withoutMark text.toList := by
  obtain ⟨located, -, rfl⟩ := Option.map_eq_some_iff.mp h
  rfl

/-- What the item of a text declares stands there. -/
theorem standsIn_of_item? (h : s.item? = some (found, r)) : found.item.body.StandsIn s.lexemes := by
  rw [item?] at h
  split at h
  · next hread =>
    split at h
    · cases h
      rw [Rule.read, Rule.run_call] at hread
      exact (tells_readWithin s.lexemes _ .item _ _ _ (Reader.within_ofLexemes _) hread).2
    · cases h
  · cases h

/-- A reserved name that is found is one of the module's own items and stands in the text. -/
theorem reserved_of_names_finding? {a : Source} {d : Diagnostic} (hitem : s.item? = some (found, r))
    (h : Check.names.finding? a s = some d) :
    ∃ unsafeAt own attributes items,
      found.item.body = .module unsafeAt own attributes (some items) ∧
        ∃ m ∈ items, ∃ n ∈ m.1.names, n.text ∈ reservedNames ∧ n.StandsIn s.lexemes ∧
          d = ⟨.reserved n.text own.text, .single n.position⟩ := by
  have hstands := standsIn_of_item? hitem
  rw [Check.names_finding? hitem] at h
  split at h
  · next unsafeAt own attributes items hbody =>
    obtain ⟨n, hn, rfl⟩ := Option.map_eq_some_iff.mp h
    rw [hbody] at hstands
    rw [EntityModule.firstReserved_map_fst] at hn
    have hreserved := Name.isReserved_iff.mp (List.find?_some hn)
    obtain ⟨m, hm, hnames⟩ := List.mem_flatMap.mp (List.mem_of_find?_eq_some hn)
    exact ⟨unsafeAt, own, attributes, items, hbody, m, hm, n, hnames, hreserved,
      hstands.2.2 items rfl m hm n hnames, rfl⟩
  · cases h

/-- The span of a reserved name cuts this name out of the text. -/
theorem cut_span_reserved {n : Name} (h : read? text = some s) (hn : n.StandsIn s.lexemes)
    (hreserved : n.text ∈ reservedNames) :
    (s.span (.single n.position)).cut s.text = n.text.toList := by
  refine cut_span_word h hn fun hdoc => ?_
  rw [hdoc] at hreserved
  exact absurd hreserved (by decide)

/-- Arguments that are at fault for a name are pointed at by it. -/
theorem points_of_arguments_finding? {arguments : String} {a s : Source} {d : Diagnostic}
    (ha : read? arguments = some a) (h : Check.arguments.finding? a s = some d) :
    a.Points (a.span d.stretch) d.cause := by
  simp only [Check.finding?] at h
  split at h
  · cases h
  · next failure hread =>
    cases h
    cases failure with
    | grammar fault => trivial
    | argument fault stretch =>
        intro name hname
        obtain ⟨rfl, hword⟩ := Options.namesFirst_of_read hread hname
        exact cut_span_word ha hword fun _ j hj => by omega

/-- A module without a body is pointed at by its name, as the keyword stands before it. -/
theorem points_of_content_finding? {a : Source} {d : Diagnostic} (hs : read? text = some s)
    (hitem : s.item? = some (found, r)) (h : Check.content.finding? a s = some d) :
    s.Points (s.span d.stretch) d.cause := by
  have hstands := standsIn_of_item? hitem
  rw [Check.content_finding? hitem] at h
  split at h
  · next unsafeAt name attributes hbody =>
    cases h
    rw [hbody] at hstands
    obtain ⟨⟨hname, p, hp, hmod⟩, -⟩ := hstands
    refine ⟨found, r, unsafeAt, name, attributes, hitem, hbody, ?_⟩
    refine cut_span_word hs hname fun _ j hj hbracket => ?_
    obtain rfl : p = j := by omega
    cases hmod.symm.trans hbracket
  · cases h

/-- What a check finds points at what it names. -/
theorem points_of_finding? {arguments item : String} {a : Source} {c : Check} {d : Diagnostic}
    (ha : read? arguments = some a) (hs : read? item = some s) (h : c.finding? a s = some d) :
    (c.source a s).Points ((c.source a s).span d.stretch) d.cause := by
  by_cases hnamed : c = .arguments ∨ c = .item
  · obtain rfl | rfl := hnamed
    · exact points_of_arguments_finding? ha h
    · rw [Check.cause_of_item_finding? h]
      trivial
  · obtain ⟨hc, hc'⟩ := not_or.mp hnamed
    obtain ⟨found, r, hitem⟩ := Check.item?_of_finding? h hc hc'
    cases c with
    | arguments => exact (hc rfl).elim
    | item => exact (hc' rfl).elim
    | kind =>
        rw [Check.kind_finding? hitem] at h
        split at h
        · cases h
        · cases h
          trivial
    | safety =>
        have hstands := standsIn_of_item? hitem
        rw [Check.safety_finding? hitem] at h
        split at h
        · next position _ _ _ hbody =>
          cases h
          rw [hbody] at hstands
          exact cut_span_word hs (hstands.2.1 position rfl) fun hdoc => absurd hdoc (by decide)
        · cases h
    | content => exact points_of_content_finding? hs hitem h
    | names =>
        obtain ⟨unsafeAt, own, attributes, items, hbody, m, hm, n, hn, hreserved, hname, rfl⟩ :=
          reserved_of_names_finding? hitem h
        refine ⟨cut_span_reserved hs hname hreserved, hreserved, found, r, unsafeAt, own, attributes,
          items, hitem, hbody, rfl, m, hm, n, hn, rfl, rfl⟩
    | groups =>
        rw [Check.groups_finding? hitem] at h
        obtain ⟨fault, -, rfl⟩ := Option.map_eq_some_iff.mp h
        trivial

end Source

/-! ### Written identifiers -/

namespace IdLiteral

/-- Where no written identifier is read, nothing is named. -/
theorem points_of_read_eq_error {s : Source} {d : Diagnostic} (h : read s.lexemes = .error d)
    (span : Span) : s.Points span d.cause := by
  rw [read] at h
  split at h
  · cases h
    trivial
  · split at h
    · simp only at h
      split at h <;> cases h <;> trivial
    · cases h
      trivial

/-- A text that denotes no identifier is that of the literal that its diagnostic points at. -/
theorem points_of_value_eq_error {text : String} {s : Source} {l : IdLiteral} {d : Diagnostic}
    (h : Source.read? text = some s) (hread : read s.lexemes = .ok l) (hvalue : l.value = .error d) :
    s.Points (s.span d.stretch) d.cause := by
  rw [value] at hvalue
  split at hvalue
  · cases hvalue
  · cases hvalue
    obtain ⟨⟨content, hcontent, htext⟩, q, hq, hbefore⟩ := textAt_of_read hread
    refine ⟨l.position, content, hcontent, htext, rfl, Source.cut_span_literal h hcontent ?_⟩
    intro j hj hequals
    obtain rfl : q = j := by omega
    obtain ⟨joint, hcomma⟩ | ⟨delimiter, hclosing⟩ := hbefore
    · rw [hcomma] at hequals
      exact absurd hequals (by simp)
    · rw [hclosing] at hequals
      cases hequals

end IdLiteral

namespace Invocation

variable {arguments item input : String} {part : Part} {d : Diagnostic} {span : Span}

/-- A refused module is refused with a span that points at what its cause names. -/
theorem entity_points (h : entity arguments item = .error (.rejected part d span)) :
    ∃ s, Source.read? (annotationTexts arguments item part) = some s ∧ s.Points span d.cause := by
  cases ha : Source.read? arguments with
  | none => rw [entity, annotation, source_of_read?_eq_none ha] at h; cases h
  | some a =>
      cases hs : Source.read? item with
      | none => rw [entity, annotation, source_of_read? ha, source_of_read?_eq_none hs] at h; cases h
      | some s =>
          obtain ⟨c, d, ⟨hfinding, -⟩, hentity⟩ | ⟨-, o, found, r, m, -, -, -, hentity⟩ :=
            entity_cases ha hs
          · rw [hentity] at h
            cases h
            exact ⟨c.source a s, Check.read?_source ha hs c, Source.points_of_finding? ha hs hfinding⟩
          · rw [hentity] at h
            cases h

/-- So is a refused identifier. -/
theorem construction_points (h : construction input = .error (.rejected part d span)) :
    ∃ s, Source.read? input = some s ∧ s.Points span d.cause := by
  cases hs : Source.read? input with
  | none => rw [construction, identifier, source_of_read?_eq_none hs] at h; cases h
  | some s =>
      refine ⟨s, rfl, ?_⟩
      rw [construction_of_read? hs] at h
      cases hread : IdLiteral.read s.lexemes with
      | error d =>
          rw [hread] at h
          cases h
          exact IdLiteral.points_of_read_eq_error hread _
      | ok l =>
          rw [hread] at h
          change (located .literal s l.value >>= _) = _ at h
          cases hvalue : l.value with
          | error d =>
              rw [hvalue] at h
              cases h
              exact IdLiteral.points_of_value_eq_error hs hread hvalue
          | ok u =>
              rw [hvalue] at h
              cases h

/-- Every diagnostic that names a fragment of a text in its message points at it, be it one of an
annotation or of a written identifier. -/
theorem refusals_point_at_what_they_name (arguments item input : String) :
    (∀ part d span, entity arguments item = .error (.rejected part d span) →
        ∃ s, Source.read? (annotationTexts arguments item part) = some s ∧
          s.text = Source.withoutMark (annotationTexts arguments item part).toList ∧
            s.Points span d.cause ∧ d.cause.Says d.cause.message) ∧
      ∀ part d span, construction input = .error (.rejected part d span) →
        ∃ s, Source.read? input = some s ∧ s.text = Source.withoutMark input.toList ∧
          s.Points span d.cause ∧ d.cause.Says d.cause.message := by
  constructor
  · intro part d span h
    obtain ⟨s, hs, hpoints⟩ := entity_points h
    exact ⟨s, hs, Source.text_of_read? hs, hpoints, d.cause.says_message⟩
  · intro part d span h
    obtain ⟨s, hs, hpoints⟩ := construction_points h
    exact ⟨s, hs, Source.text_of_read? hs, hpoints, d.cause.says_message⟩

/-- A leading `unsafe` is pointed at behind a byte order mark and a comment of two lines, and so is a
text that denotes no identifier. -/
theorem unsafe_and_text_are_pointed_at :
    (∃ s, Source.read? "\uFEFF/*\n*/unsafe mod a{}" = some s ∧
        (⟨⟨2, 2⟩, ⟨2, 8⟩⟩ : Span).cut s.text = "unsafe".toList) ∧
      ∃ s, Source.read? "A,\"\\x30\"" = some s ∧
        s.Points ⟨⟨1, 2⟩, ⟨1, 8⟩⟩ (.invalidText "0" (.length 1)) := by
  have hentity : entity "" "\uFEFF/*\n*/unsafe mod a{}" =
      .error (.rejected .item ⟨.unsafeModule, .single 0⟩ ⟨⟨2, 2⟩, ⟨2, 8⟩⟩) := rfl
  have hconstruction : construction "A,\"\\x30\"" =
      .error (.rejected .literal ⟨.invalidText "0" (.length 1), .single 2⟩ ⟨⟨1, 2⟩, ⟨1, 8⟩⟩) := rfl
  obtain ⟨hfirst, hsecond⟩ :=
    refusals_point_at_what_they_name "" "\uFEFF/*\n*/unsafe mod a{}" "A,\"\\x30\""
  obtain ⟨s, hs, -, hpoints, -⟩ := hfirst _ _ _ hentity
  obtain ⟨s', hs', -, hpoints', -⟩ := hsecond _ _ _ hconstruction
  exact ⟨⟨s, hs, hpoints⟩, s', hs', hpoints'⟩

end Invocation

end TypedId
