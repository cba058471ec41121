import TypedId.Proofs.Invocation.Stages

/-!
The checks that an annotation has to pass.

`Check.finding?` says of each check what it finds, whatever the others find. An annotation is
refused with the finding of the first check that has one, and accepted if none has (`entity_cases`).
-/

namespace TypedId

open Grammar

/-- The checks, in the order in which they count. -/
inductive Check where
  /-- The arguments are accepted. -/
  | arguments
  /-- The text is an item and nothing else. -/
  | item
  /-- The item is a module. -/
  | kind
  /-- The module is not unsafe. -/
  | safety
  /-- The module's items stand in the text. -/
  | content
  /-- The module declares no reserved name. -/
  | names
  /-- Nothing is left over in any group. -/
  | groups
deriving DecidableEq, Repr

/-- The item that a text consists of, and the reader behind it. -/
def Source.item? (s : Source) : Option (OuterItem × Reader) :=
  match (Rule.call .item).read s.lexemes with
  | .ok (found, r) => if r.rest.isEmpty then some (found, r) else none
  | .error _ => none

namespace Check

/-- The text that a check looks at. -/
def part : Check → Part
  | arguments => .arguments
  | _ => .item

/-- The text that a check looks at, taken apart. -/
def source (a s : Source) : Check → Source
  | arguments => a
  | _ => s

/-- What a check looks into is the part of the input that it names, as it was read. -/
theorem read?_source {arguments item : String} {a s : Source}
    (ha : Source.read? arguments = some a) (hs : Source.read? item = some s) (c : Check) :
    Source.read? (Invocation.annotationTexts arguments item c.part) = some (c.source a s) := by
  cases c with
  | arguments => exact ha
  | _ => exact hs

/-- What a check finds wrong with the arguments `a` and the item `s`. -/
def finding? (a s : Source) : Check → Option Diagnostic
  | arguments =>
    match Options.read a.lexemes with
    | .ok _ => none
    | .error failure => some (.ofFailure failure)
  | item =>
    match (Rule.call .item).read s.lexemes with
    | .ok (_, r) => if r.rest.isEmpty then none else some ⟨.noModule, .single r.position⟩
    | .error _ => some ⟨.noModule, .single 0⟩
  | kind => do
    let (found, _) ← s.item?
    match found.item.body with
    | .module .. => none
    | _ => some ⟨.noModule, found.stretch⟩
  | safety => do
    let (found, _) ← s.item?
    match found.item.body with
    | .module (some position) _ _ _ => some ⟨.unsafeModule, .single position⟩
    | _ => none
  | content => do
    let (found, _) ← s.item?
    match found.item.body with
    | .module _ name _ none => some ⟨.outOfLine, .single name.position⟩
    | _ => none
  | names => do
    let (found, _) ← s.item?
    match found.item.body with
    | .module _ name _ (some items) =>
      (firstReserved (items.map Prod.fst)).map fun n =>
        ⟨.reserved n.text name.text, .single n.position⟩
    | _ => none
  | groups => do
    let (_, r) ← s.item?
    r.strayFault?.map .ofFault

/-- All checks, in their order. -/
def all : List Check := [arguments, item, kind, safety, content, names, groups]

/-- Each check is made. -/
theorem mem_all (c : Check) : c ∈ all := by
  cases c <;> decide

/-- Whether a check has a finding and no check before it has one. -/
def FirstFinding (a s : Source) (c : Check) (d : Diagnostic) : Prop :=
  c.finding? a s = some d ∧
    ∃ before after, all = before ++ c :: after ∧ ∀ c' ∈ before, c'.finding? a s = none

/-- The first of some checks that has a finding, and the finding. -/
def firstOf (a s : Source) (checks : List Check) : Option (Check × Diagnostic) :=
  checks.findSome? fun c => (c.finding? a s).map (c, ·)

variable {a s : Source} {c : Check} {checks : List Check} {d : Diagnostic} {found : OuterItem}
  {r : Reader}

/-- A finding ends the checks. -/
theorem firstOf_cons_of_some (h : c.finding? a s = some d) :
    firstOf a s (c :: checks) = some (c, d) := by
  simp [firstOf, h]

/-- Without a finding the next check is made. -/
theorem firstOf_cons_of_none (h : c.finding? a s = none) :
    firstOf a s (c :: checks) = firstOf a s checks := by
  simp [firstOf, h]

/-- Checks made in two rounds are made in one. -/
theorem firstOf_append (a s : Source) (checks checks' : List Check) :
    firstOf a s (checks ++ checks') = (firstOf a s checks).or (firstOf a s checks') :=
  List.findSome?_append

/-- What is reported first is found by its check and by none before it. -/
theorem firstFinding_of_firstOf (h : firstOf a s all = some (c, d)) : c.FirstFinding a s d := by
  obtain ⟨before, c', after, hall, hfinding, hbefore⟩ := List.findSome?_eq_some_iff.mp h
  obtain ⟨d', hd', heq⟩ := Option.map_eq_some_iff.mp hfinding
  cases heq
  exact ⟨hd', before, after, hall, fun c' hc' => Option.map_eq_none_iff.mp (hbefore c' hc')⟩

/-- If nothing is reported, no check finds anything. -/
theorem finding?_of_firstOf_eq_none (h : firstOf a s all = none) (c : Check) :
    c.finding? a s = none :=
  Option.map_eq_none_iff.mp (List.findSome?_eq_none_iff.mp h c (mem_all c))

/-! ### What is found of an item -/

/-- An item that cannot be read is no module. -/
theorem cause_of_item_finding? (h : item.finding? a s = some d) : d.cause = .noModule := by
  simp only [finding?] at h
  split at h
  · split at h
    · cases h
    · cases h
      rfl
  · cases h
    rfl

/-- All checks behind the second look at the item that the text consists of. -/
theorem item?_of_finding? (h : c.finding? a s = some d) (harguments : c ≠ arguments)
    (hitem : c ≠ item) : ∃ found r, s.item? = some (found, r) := by
  cases c with
  | arguments => exact (harguments rfl).elim
  | item => exact (hitem rfl).elim
  | _ =>
      obtain ⟨⟨found, r⟩, hfound, -⟩ := Option.bind_eq_some_iff.mp h
      exact ⟨found, r, hfound⟩

/-- The kind of item is complained of unless it is a module. -/
theorem kind_finding? (h : s.item? = some (found, r)) :
    kind.finding? a s =
      match found.item.body with
      | .module .. => none
      | _ => some ⟨.noModule, found.stretch⟩ := by
  simp only [finding?, h, Option.bind_eq_bind, Option.bind_some]

/-- A module that is marked as unsafe is complained of where the mark stands. -/
theorem safety_finding? (h : s.item? = some (found, r)) :
    safety.finding? a s =
      match found.item.body with
      | .module (some position) _ _ _ => some ⟨.unsafeModule, .single position⟩
      | _ => none := by
  simp only [finding?, h, Option.bind_eq_bind, Option.bind_some]

/-- A module without a body is complained of where its name stands. -/
theorem content_finding? (h : s.item? = some (found, r)) :
    content.finding? a s =
      match found.item.body with
      | .module _ name _ none => some ⟨.outOfLine, .single name.position⟩
      | _ => none := by
  simp only [finding?, h, Option.bind_eq_bind, Option.bind_some]

/-- The names of a module are looked through only if it has a body. -/
theorem names_finding? (h : s.item? = some (found, r)) :
    names.finding? a s =
      match found.item.body with
      | .module _ name _ (some items) =>
        (firstReserved (items.map Prod.fst)).map fun n =>
          ⟨.reserved n.text name.text, .single n.position⟩
      | _ => none := by
  simp only [finding?, h, Option.bind_eq_bind, Option.bind_some]

/-- Leftovers in groups are complained of only as the reader noted them. -/
theorem groups_finding? (h : s.item? = some (found, r)) :
    groups.finding? a s = r.strayFault?.map .ofFault := by
  simp only [finding?, h, Option.bind_eq_bind, Option.bind_some]

end Check

/-- Whether an item is an inline module that may be an entity, and which one it makes. -/
def EntityModule.OfItem (found : OuterItem) (m : EntityModule) : Prop :=
  ∃ name innerAttributes items,
    found.item.body = .module none name innerAttributes (some items) ∧
      m = ⟨found.attributes, innerAttributes, found.visibility, name.text, items⟩

namespace EntityModule

open Check

variable {s : Source} {found : OuterItem} {r : Reader} {m : EntityModule} {d : Diagnostic}

/-- An item makes no entity for the finding of one of four checks, or it passes them all. -/
theorem ofItem_cases (a : Source) (h : s.item? = some (found, r)) :
    (∃ c d, firstOf a s [kind, safety, content, names] = some (c, d) ∧ ofItem found = .error d) ∨
      firstOf a s [kind, safety, content, names] = none ∧
        ∃ m, OfItem found m ∧ ofItem found = .ok m := by
  have hkind := kind_finding? (a := a) h
  have hsafety := safety_finding? (a := a) h
  have hcontent := content_finding? (a := a) h
  have hnames := names_finding? (a := a) h
  cases hbody : found.item.body with
  | module unsafeAt name innerAttributes members =>
      rw [hbody] at hkind hsafety hcontent hnames
      rw [firstOf_cons_of_none hkind]
      cases unsafeAt with
      | some position => exact .inl ⟨_, _, firstOf_cons_of_some hsafety, by rw [ofItem, hbody]⟩
      | none =>
          rw [firstOf_cons_of_none hsafety]
          cases members with
          | none => exact .inl ⟨_, _, firstOf_cons_of_some hcontent, by rw [ofItem, hbody]⟩
          | some items =>
              rw [firstOf_cons_of_none hcontent]
              cases hreserved : firstReserved (items.map Prod.fst) with
              | some n =>
                  simp only [hreserved, Option.map_some] at hnames
                  exact .inl ⟨_, _, firstOf_cons_of_some hnames, by simp only [ofItem, hbody, hreserved]⟩
              | none =>
                  simp only [hreserved, Option.map_none] at hnames
                  exact .inr ⟨firstOf_cons_of_none hnames, _, ⟨name, innerAttributes, items, hbody, rfl⟩,
                    by simp only [ofItem, hbody, hreserved]⟩
  | _ =>
      rw [hbody] at hkind
      exact .inl ⟨_, _, firstOf_cons_of_some hkind, by rw [ofItem, hbody]⟩

/-- What is annotated is refused for the finding of the first check of it, or it passes all of them
and makes an entity. -/
theorem read_cases (a s : Source) :
    (∃ c d, c ≠ .arguments ∧
        firstOf a s [item, kind, safety, content, names, groups] = some (c, d) ∧
          read s.lexemes = .error d) ∨
      firstOf a s [item, kind, safety, content, names, groups] = none ∧
        ∃ found r m, s.item? = some (found, r) ∧ OfItem found m ∧ read s.lexemes = .ok m := by
  have hfirst : ∀ {c d checks}, firstOf a s checks = some (c, d) → .arguments ∉ checks → c ≠ .arguments := by
    rintro c d checks h harguments rfl
    obtain ⟨c', hc', hfinding⟩ := List.exists_of_findSome?_eq_some h
    obtain ⟨d', -, heq⟩ := Option.map_eq_some_iff.mp hfinding
    cases heq
    exact harguments hc'
  cases hread : (Rule.call .item).read s.lexemes with
  | error fault =>
      have hitem : item.finding? a s = some ⟨.noModule, .single 0⟩ := by simp only [finding?, hread]
      exact .inl ⟨item, _, nofun, firstOf_cons_of_some hitem, by rw [read, hread]⟩
  | ok x =>
      obtain ⟨found, r⟩ := x
      cases hrest : r.rest with
      | cons l rest =>
          have hitem : item.finding? a s = some ⟨.noModule, .single r.position⟩ := by
            simp only [finding?, hread, hrest]
            rfl
          exact .inl ⟨item, _, nofun, firstOf_cons_of_some hitem, by simp only [read, hread, hrest]⟩
      | nil =>
          have hitem : item.finding? a s = none := by
            simp only [finding?, hread, hrest]
            rfl
          have hfound : s.item? = some (found, r) := by
            simp only [Source.item?, hread, hrest]
            rfl
          have hgroups := groups_finding? (a := a) hfound
          rw [firstOf_cons_of_none hitem,
            show [kind, safety, content, names, groups] =
              [kind, safety, content, names] ++ [groups] from rfl,
            firstOf_append]
          obtain ⟨c, d, hfour, hofItem⟩ | ⟨hfour, m, hm, hofItem⟩ := ofItem_cases a hfound
          · refine .inl ⟨c, d, hfirst hfour (by decide), by rw [hfour, Option.some_or], ?_⟩
            simp only [read, hread, hrest, hofItem]
            rfl
          · rw [hfour, Option.none_or]
            cases hstray : r.strayFault? with
            | some fault =>
                rw [hstray] at hgroups
                refine .inl ⟨groups, _, nofun, firstOf_cons_of_some hgroups, ?_⟩
                simp only [read, hread, hrest, hofItem, hstray]
                rfl
            | none =>
                rw [hstray] at hgroups
                refine .inr ⟨firstOf_cons_of_none hgroups, found, r, m, hfound, hm, ?_⟩
                simp only [read, hread, hrest, hofItem, hstray]
                rfl

end EntityModule

namespace Invocation

open Check

variable {arguments item : String} {a s : Source}

/-- An annotation is refused for the first finding, or it passes all checks and the entity is
expanded. -/
theorem entity_cases (ha : Source.read? arguments = some a) (hs : Source.read? item = some s) :
    (∃ (c : Check) (d : Diagnostic), c.FirstFinding a s d ∧
        entity arguments item = .error (.rejected c.part d ((c.source a s).span d.stretch))) ∨
      (∀ c : Check, c.finding? a s = none) ∧
        ∃ o found r m, Options.read a.lexemes = .ok o ∧ s.item? = some (found, r) ∧
          EntityModule.OfItem found m ∧ entity arguments item = .ok (m.expand o) := by
  rw [entity_of_read? ha hs, options_of_read? ha, module_of_read? hs]
  cases hoptions : Options.read a.lexemes with
  | error failure =>
      have harguments : Check.arguments.finding? a s = some (.ofFailure failure) := by
        simp only [finding?, hoptions]
      exact .inl ⟨_, _, firstFinding_of_firstOf (firstOf_cons_of_some harguments), rfl⟩
  | ok o =>
      have harguments : Check.arguments.finding? a s = none := by simp only [finding?, hoptions]
      obtain ⟨c, d, hc, hfirst, hread⟩ | ⟨hfirst, found, r, m, hfound, hm, hread⟩ :=
        EntityModule.read_cases a s
      · refine .inl ⟨c, d, firstFinding_of_firstOf ((firstOf_cons_of_none harguments).trans hfirst), ?_⟩
        rw [hread]
        cases c with
        | arguments => exact (hc rfl).elim
        | _ => rfl
      · refine .inr ⟨finding?_of_firstOf_eq_none ((firstOf_cons_of_none harguments).trans hfirst),
          o, found, r, m, rfl, hfound, hm, ?_⟩
        rw [hread]
        rfl

end Invocation

end TypedId
