import TypedId.Source

/-!
Places in a text, and what stands between two of them.

Lines and columns are counted from the text alone, so a span can be read back without any lexemes:
`Span.cut` collects the characters that stand from one place up to another. The main statements say
that this gives back what a stretch of characters held (`cut_spanOf`), and that the span of several
lexemes is joined from the spans of the first and the last of them (`span_eq_join`).
-/

namespace TypedId

/-! ### The order of places -/

namespace Place

/-- Places are ordered as they come in a text. -/
instance : LT Place := ⟨fun p q => p.line < q.line ∨ p.line = q.line ∧ p.column < q.column⟩

instance : LE Place := ⟨fun p q => p < q ∨ p = q⟩

instance (p q : Place) : Decidable (p < q) :=
  inferInstanceAs (Decidable (p.line < q.line ∨ p.line = q.line ∧ p.column < q.column))

instance (p q : Place) : Decidable (p ≤ q) := inferInstanceAs (Decidable (p < q ∨ p = q))

variable {p q r : Place}

theorem lt_irrefl (p : Place) : ¬ p < p := by
  rintro (h | ⟨-, h⟩) <;> omega

/-- Places are ordered by line, and in a line by column. -/
theorem lt_trans (h : p < q) (h' : q < r) : p < r := by
  obtain h | ⟨h, hc⟩ := h <;> obtain h' | ⟨h', hc'⟩ := h'
  · exact .inl (Nat.lt_trans h h')
  · exact .inl (h' ▸ h)
  · exact .inl (h ▸ h')
  · exact .inr ⟨h.trans h', Nat.lt_trans hc hc'⟩

theorem le_refl (p : Place) : p ≤ p := .inr rfl

theorem le_trans (h : p ≤ q) (h' : q ≤ r) : p ≤ r := by
  obtain h | rfl := h
  · obtain h' | rfl := h'
    · exact .inl (lt_trans h h')
    · exact .inl h
  · exact h'

/-- What comes before a place comes before all that do not come before it. -/
theorem lt_of_lt_of_le (h : p < q) (h' : q ≤ r) : p < r := by
  obtain h' | rfl := h'
  · exact lt_trans h h'
  · exact h

theorem not_lt_of_le (h : p ≤ q) : ¬ q < p := fun h' => lt_irrefl _ (lt_of_lt_of_le h' h)

/-- Two places neither of which comes before the other are one. -/
theorem eq_of_le_of_not_lt (h : p ≤ q) (h' : ¬ p < q) : p = q := h.resolve_left h'

/-! ### Going on in a text -/

/-- To pass over two texts is to pass over the second after the first. -/
theorem after_append (p : Place) (cs ds : List Char) :
    p.after (cs ++ ds) = (p.after cs).after ds := by
  induction cs generalizing p with
  | nil => rfl
  | cons c cs ih => exact ih _

/-- Every character leads on: to the next column or to the next line. -/
theorem lt_after_single (p : Place) (c : Char) : p < p.after [c] := by
  simp only [after]
  split
  · exact .inl (Nat.lt_succ_self _)
  · exact .inr ⟨rfl, Nat.lt_succ_self _⟩

theorem le_after (p : Place) (cs : List Char) : p ≤ p.after cs := by
  induction cs generalizing p with
  | nil => exact le_refl p
  | cons c cs ih =>
      rw [← List.singleton_append, after_append]
      exact le_trans (.inl (lt_after_single p c)) (ih _)

/-- Behind more characters a place is no earlier. -/
theorem after_take_mono (p : Place) (text : List Char) {m n : Nat} (h : m ≤ n) :
    p.after (text.take m) ≤ p.after (text.take n) := by
  obtain ⟨k, rfl⟩ := Nat.exists_eq_add_of_le h
  rw [List.take_add, after_append]
  exact le_after ..

end Place

/-! ### Cutting -/

namespace Span

/-- The characters between two places of a text that begins at a given place. -/
def cutFrom (span : Span) : Place → List Char → List Char
  | _, [] => []
  | place, c :: cs =>
    let rest := cutFrom span (place.after [c]) cs
    if span.start ≤ place ∧ place < span.stop then c :: rest else rest

/-- The characters that stand within a span of a text. -/
def cut (span : Span) (text : List Char) : List Char := span.cutFrom Place.origin text

/-- The span from the first of two spans up to the last. -/
def join (first last : Span) : Span :=
  ⟨if last.start < first.start then last.start else first.start,
    if first.stop < last.stop then last.stop else first.stop⟩

variable {span : Span} {place : Place}

/-- A span is cut out of a text piece by piece. -/
theorem cutFrom_append (span : Span) (place : Place) (cs ds : List Char) :
    span.cutFrom place (cs ++ ds) = span.cutFrom place cs ++ span.cutFrom (place.after cs) ds := by
  induction cs generalizing place with
  | nil => rfl
  | cons c cs ih =>
      have hplace : place.after (c :: cs) = (place.after [c]).after cs := Place.after_append _ [c] cs
      simp only [List.cons_append, cutFrom, ih, hplace]
      split <;> rfl

/-- Before a span nothing of it is found. -/
theorem cutFrom_before (span : Span) (cs : List Char) (h : place.after cs ≤ span.start) :
    span.cutFrom place cs = [] := by
  induction cs generalizing place with
  | nil => rfl
  | cons c cs ih =>
      have hrest : (place.after [c]).after cs ≤ span.start := by
        rwa [← Place.after_append, List.singleton_append]
      have hplace : place < span.start :=
        Place.lt_of_lt_of_le (Place.lt_after_single place c)
          (Place.le_trans (Place.le_after _ cs) hrest)
      simp only [cutFrom, ih hrest]
      rw [if_neg fun h => Place.not_lt_of_le h.1 hplace]

/-- Within a span every character belongs to it. -/
theorem cutFrom_within (span : Span) (cs : List Char) (hstart : span.start ≤ place)
    (hstop : place.after cs ≤ span.stop) : span.cutFrom place cs = cs := by
  induction cs generalizing place with
  | nil => rfl
  | cons c cs ih =>
      have hrest : (place.after [c]).after cs ≤ span.stop := by
        rwa [← Place.after_append, List.singleton_append]
      have hlt : place < span.stop :=
        Place.lt_of_lt_of_le (Place.lt_after_single place c)
          (Place.le_trans (Place.le_after _ cs) hrest)
      simp only [cutFrom, ih (Place.le_trans hstart (.inl (Place.lt_after_single place c))) hrest]
      rw [if_pos ⟨hstart, hlt⟩]

/-- Behind a span nothing of it is found. -/
theorem cutFrom_behind (span : Span) (cs : List Char) (h : span.stop ≤ place) :
    span.cutFrom place cs = [] := by
  induction cs generalizing place with
  | nil => rfl
  | cons c cs ih =>
      simp only [cutFrom, ih (Place.le_trans h (.inl (Place.lt_after_single place c)))]
      rw [if_neg fun hc => Place.not_lt_of_le h hc.2]

end Span

namespace Source

variable {source : Source}

/-- Where an extent stands. -/
def spanOf (source : Source) (extent : Extent) : Span :=
  ⟨Place.origin.after (source.text.take extent.start), Place.origin.after (source.text.take extent.stop)⟩

/-- Where one lexeme stands. -/
def tokenSpan? (source : Source) (position : Nat) : Option Span :=
  source.extents[position]?.map source.spanOf

/-- A span cuts out of the text what its extent does. -/
theorem cut_spanOf (source : Source) {extent : Extent} (h : extent.start ≤ extent.stop) :
    (source.spanOf extent).cut source.text = source.cut extent := by
  have hstop : source.text.take extent.stop =
      source.text.take extent.start ++ source.cut extent := by
    rw [cut, ← List.take_add, Nat.add_sub_cancel' h]
  have hplace : (Place.origin.after (source.text.take extent.start)).after (source.cut extent) =
      Place.origin.after (source.text.take extent.stop) := by
    rw [← Place.after_append, ← hstop]
  have htext : source.text =
      source.text.take extent.start ++ source.cut extent ++ source.text.drop extent.stop := by
    rw [← hstop, List.take_append_drop]
  calc (source.spanOf extent).cut source.text
      = (source.spanOf extent).cutFrom Place.origin
          (source.text.take extent.start ++ source.cut extent ++ source.text.drop extent.stop) := by
        rw [Span.cut, ← htext]
    _ = [] ++ source.cut extent ++ [] := by
        have hbefore := Span.cutFrom_before (source.spanOf extent)
          (source.text.take extent.start) (Place.le_refl _)
        have hwithin := Span.cutFrom_within (source.spanOf extent) (source.cut extent)
          (Place.le_refl _) (hplace ▸ Place.le_refl _)
        have hbehind := Span.cutFrom_behind (source.spanOf extent)
          (source.text.drop extent.stop) (Place.le_refl _)
        rw [Span.cutFrom_append, Span.cutFrom_append, ← hstop]
        exact congr (congrArg _ (congr (congrArg _ hbefore) hwithin)) hbehind
    _ = source.cut extent := by rw [List.nil_append, List.append_nil]

/-- The span of a single lexeme is that of its extent. -/
theorem span_single_of_getElem? {position : Nat} {extent : Extent}
    (h : source.extents[position]? = some extent) :
    source.span (.single position) = source.spanOf extent := by
  simp only [span, extent?, Stretch.single, h, Option.bind_eq_bind, Option.bind_some,
    Option.pure_def, Nat.min_self, Nat.max_self]
  rfl

/-- The span of several lexemes is joined from those of the first and the last of them. If the text
has no such lexemes, it is the origin. -/
theorem span_eq_join (source : Source) (stretch : Stretch) :
    source.span stretch =
      match source.tokenSpan? stretch.first, source.tokenSpan? stretch.last with
      | some first, some last => first.join last
      | _, _ => ⟨Place.origin, Place.origin⟩ := by
  cases hfirst : source.extents[stretch.first]? with
  | none => simp [span, extent?, tokenSpan?, hfirst]
  | some first =>
      cases hlast : source.extents[stretch.last]? with
      | none => simp [span, extent?, tokenSpan?, hfirst, hlast]
      | some last =>
          have hmono := fun {m n : Nat} => Place.after_take_mono Place.origin source.text (m := m) (n := n)
          simp only [span, extent?, tokenSpan?, hfirst, hlast, Option.bind_eq_bind, Option.bind_some,
            Option.pure_def, Option.map_some, Span.join, spanOf, Span.mk.injEq]
          constructor
          · obtain h | h := Nat.le_total first.start last.start
            · rw [Nat.min_eq_left h, if_neg (Place.not_lt_of_le (hmono h))]
            · rw [Nat.min_eq_right h]
              split
              · rfl
              · next hlt => exact Place.eq_of_le_of_not_lt (hmono h) hlt
          · obtain h | h := Nat.le_total first.stop last.stop
            · rw [Nat.max_eq_right h]
              split
              · rfl
              · next hlt => exact (Place.eq_of_le_of_not_lt (hmono h) hlt).symm
            · rw [Nat.max_eq_left h, if_neg (Place.not_lt_of_le (hmono h))]

end Source

end TypedId
